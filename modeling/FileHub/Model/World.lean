import Mathlib.Algebra.Order.BigOperators.Group.List
import FileHub.Lib.Prog
import FileHub.Model.Tables
import FileHub.Model.Redis

/-!
# The world a handler runs in

A request handler talks to MySQL, Redis, FastDFS, the file system, the clock
and one in-process lock. `Call` lists what it can ask of them, `World` is their
joint state, and `step` answers a call.

The environment decides the rest. `Ans` is its choice for one call: whether the
call succeeds, and the data only the outside can supply (the clock, the id a
storage server gives to an upload, the bytes of a fresh UUID). A call that
fails changes nothing, except that a Redis command may have been executed with
only its reply lost. `NoFail` is the environment in which every call succeeds.

Here a statement does what it is meant to do. `SqlServer.step` is the same world
with the statements sent as text, where a statement or a transfer to FastDFS may
have been executed as well although it is reported as failed.

Three calls need a word. `tryLockFor` is `FileInfoLock::TryLockFor`: under a
succeeding choice it waits, so it has no step while the lock is taken; under a
failing one it has timed out. `fdfsUpload` stores an object under the id the
environment proposes, or a longer one if that id was already given out, so ids
are fresh and any unused text is possible. `crash` is the dereference of a null
pointer or an exception that escapes the task: nothing follows it.
-/

namespace FileHub

open Lib

/-- The pools of `DBInstances`. -/
inductive DbPool where
  | filehubMaster
  | filehubSlave
deriving DecidableEq

/-- The pools of `CacheInstances`. -/
inductive CachePool where
  | token
  | rankingList
deriving DecidableEq

inductive Call where
  | getDBConn (pool : DbPool)
  | select (q : Select)
  | dml (d : Dml)
  | stmtInit
  | getCacheConn (pool : CachePool)
  | cacheInit
  | redis (c : RedisCmd)
  | tryLockFor (ms : ℕ)
  | unlock
  | rename (old new : Bytes)
  | unlink (path : Bytes)
  | fdfsUpload (path : Bytes)
  | fdfsFileInfo (fileid : Bytes)
  | fdfsDelete (fileid : Bytes)
  | time
  | localtime
  | uuid
  | rand
  | crash
deriving DecidableEq

/-- The answers: a connection or `NULL`, a result set or `NULL`, the affected
rows or an error, whether a command succeeded, what it returned. -/
abbrev Resp : Call → Type
  | .getDBConn _ => Bool
  | .select q => Option (List q.Row)
  | .dml _ => Option ℕ
  | .stmtInit => Bool
  | .getCacheConn _ => Bool
  | .cacheInit => Bool
  | .redis _ => Option Reply
  | .tryLockFor _ => Bool
  | .unlock => Unit
  | .rename .. => Bool
  | .unlink _ => Bool
  | .fdfsUpload _ => Option Bytes
  | .fdfsFileInfo _ => Bool
  | .fdfsDelete _ => Bool
  | .time => ℕ
  | .localtime => Bytes
  | .uuid => Fin 16 → UInt8
  | .rand => ℕ
  | .crash => Empty

/-- How a call goes. `lost` and `error` differ from `fail` for Redis only: the
command was executed but its reply was lost, or Redis answered with an error. -/
inductive Fault where
  | none
  | fail
  | lost
  | error
deriving DecidableEq

structure Ans where
  fault : Fault
  text : Bytes
  num : ℕ
deriving DecidableEq

/-- The call succeeds. -/
def Ans.ok (a : Ans) : Prop := a.fault = .none

instance : DecidablePred Ans.ok := fun a => inferInstanceAs (Decidable (a.fault = .none))

/-- Every call succeeds. -/
def NoFail (ω : ℕ → Ans) : Prop := ∀ n, (ω n).ok

/-- FastDFS: the objects it stores, and every id it has given out. -/
structure Fdfs where
  objects : List Bytes
  used : List Bytes
  objects_used : ∀ o ∈ objects, o ∈ used

def Fdfs.empty : Fdfs := ⟨[], [], by simp⟩

/-- The id for a new object: the proposed one, made longer than every id given
out so far if it was taken. -/
def Fdfs.freshId (d : Fdfs) (id : Bytes) : Bytes :=
  if id ∈ d.used then id ++ List.replicate (d.used.map List.length).sum.succ 120 else id

def Fdfs.store (d : Fdfs) (id : Bytes) : Fdfs :=
  ⟨id :: d.objects, id :: d.used, by
    intro o ho
    rcases List.mem_cons.mp ho with rfl | h
    · exact List.mem_cons_self
    · exact List.mem_cons_of_mem _ (d.objects_used o h)⟩

def Fdfs.remove (d : Fdfs) (id : Bytes) : Fdfs :=
  ⟨d.objects.filter fun o => o ≠ id, d.used, fun o ho =>
    d.objects_used o (List.mem_filter.mp ho).1⟩

theorem Fdfs.freshId_not_used (d : Fdfs) (id : Bytes) : d.freshId id ∉ d.used := by
  rw [Fdfs.freshId]
  split
  · intro h
    have hlen := List.single_le_sum (by simp) _ (List.mem_map_of_mem (f := List.length) h)
    simp only [List.length_append, List.length_replicate] at hlen
    omega
  · next h => exact h

/-- An id for the C string an upload was given is a C string. -/
theorem Fdfs.cStr_freshId (d : Fdfs) (s : Bytes) :
    cStr (d.freshId (cStr s)) = d.freshId (cStr s) := by
  refine cStr_of_forall fun b hb => ?_
  rw [Fdfs.freshId] at hb
  split at hb
  · rcases List.mem_append.mp hb with hb | hb
    · exact cStr_nonzero s b hb
    · rw [List.eq_of_mem_replicate hb]
      decide
  · exact cStr_nonzero s b hb

structure World where
  db : Db
  redis : Redis
  fdfs : Fdfs
  locked : Bool
  /-- What the Redis server answers to `ZLEXCOUNT` on unequal scores. -/
  lex : ZSet → Bytes → ℕ
  /-- The numbers `rand()` gives since the start, and how many were drawn. -/
  randSeq : ℕ → ℕ
  randPos : ℕ

/-- Empty stores, no request running. -/
def World.init (lex : ZSet → Bytes → ℕ) (randSeq : ℕ → ℕ) : World :=
  ⟨.empty, fun _ => none, .empty, false, lex, randSeq, 0⟩

/-- `step` on a Redis command. -/
def redisStep (c : RedisCmd) (a : Ans) (w : World) : Option Reply × World :=
  match a.fault with
  | .none =>
      let (reply, r) := w.redis.exec w.lex c.format
      (some reply, { w with redis := r })
  | .fail => (none, w)
  | .lost => (none, { w with redis := (w.redis.exec w.lex c.format).2 })
  | .error => (some (.error a.text), w)

/-- Answer a call. -/
def step (c : Call) (a : Ans) (w : World) : Option (Resp c × World) :=
  match c with
  | .getDBConn _ => some (decide a.ok, w)
  | .select q => some (if a.ok then q.run w.db else none, w)
  | .dml d =>
      if a.ok then
        match d.format.exec w.db with
        | none => some (none, w)
        | some (n, db) => some (some n, { w with db })
      else some (none, w)
  | .stmtInit => some (decide a.ok, w)
  | .getCacheConn _ => some (decide a.ok, w)
  | .cacheInit => some (decide a.ok, w)
  | .redis c => some (redisStep c a w)
  | .tryLockFor _ =>
      if a.ok then
        if w.locked then none else some (true, { w with locked := true })
      else some (false, w)
  | .unlock => some ((), { w with locked := false })
  | .rename .. => some (decide a.ok, w)
  | .unlink _ => some (decide a.ok, w)
  | .fdfsUpload _ =>
      if a.ok then
        let id := w.fdfs.freshId (cStr a.text)
        some (some id, { w with fdfs := w.fdfs.store id })
      else some (none, w)
  | .fdfsFileInfo _ => some (decide a.ok, w)
  | .fdfsDelete id =>
      if a.ok then some (true, { w with fdfs := w.fdfs.remove id })
      else some (false, w)
  | .time => some (a.num, w)
  | .localtime => some (a.text, w)
  | .uuid => some (fun i => a.text.getD i 0, w)
  | .rand => some (w.randSeq w.randPos, { w with randPos := w.randPos + 1 })
  | .crash => none

/-- A handler. -/
abbrev Handler := Prog Call Resp

/-- Run a handler alone from `w`. -/
abbrev runIn (ω : ℕ → Ans) {α : Type} (p : Handler α) (w : World) :
    Prog.Outcome World Ans α :=
  p.exec step ω w

/-! The world and the choices that examples start from. -/

def World.empty : World := World.init (fun _ _ => 0) fun _ => 0

def allSucceed (_ : ℕ) : Ans := ⟨.none, [], 0⟩

theorem noFail_allSucceed : NoFail allSucceed := fun _ => rfl

/-- The calls at these places fail; the others succeed, and supply the text. -/
def failingAt (text : Bytes) (places : List ℕ) (n : ℕ) : Ans :=
  ⟨if n ∈ places then .fail else .none, text, 0⟩

/-- The threads move in this order, every call succeeding. -/
def schedule (turns : List ℕ) : List (ℕ × Ans) := turns.map fun i => (i, ⟨.none, [], 0⟩)

end FileHub
