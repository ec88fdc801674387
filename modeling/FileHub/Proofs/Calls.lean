import FileHub.Api.Common

/-!
# What calls leave alone

`Call.Aside` are the calls that touch neither the tables nor the objects:
connections, queries, Redis, the lock, the clock. Most of what a handler does
is of this kind, and a function that does nothing else leaves the files as they
are, whatever it is answered. `Call.Reads` are the calls that leave everything
as it is.

The rest says which calls the shared functions make, for any bound on them: a
bound that holds of the function's own statement or command holds of the
function.
-/

namespace FileHub

open Lib
open Prog (ask)

/-- The calls that touch neither tables nor objects. -/
def Call.Aside : Call → Prop
  | .dml _ | .fdfsUpload _ | .fdfsDelete _ => False
  | .getDBConn _ | .select _ | .stmtInit | .getCacheConn _ | .cacheInit | .redis _
  | .tryLockFor _ | .unlock | .rename .. | .unlink _ | .fdfsFileInfo _ | .time | .localtime | .uuid
  | .rand | .crash => True

theorem step_aside {c : Call} (hc : c.Aside) {a : Ans} {w w' : World} {r : Resp c}
    (h : step c a w = some (r, w')) : w'.db = w.db ∧ w'.fdfs = w.fdfs := by
  cases c with
  | dml | fdfsUpload | fdfsDelete => cases hc
  | redis c =>
      simp only [step, redisStep, Option.some.injEq] at h
      split at h <;> cases h <;> exact ⟨rfl, rfl⟩
  | tryLockFor =>
      simp only [step] at h
      split at h
      · split at h
        · cases h
        · cases h
          exact ⟨rfl, rfl⟩
      · cases h
        exact ⟨rfl, rfl⟩
  | crash => cases h
  | _ =>
      cases h
      exact ⟨rfl, rfl⟩

/-- The calls that leave everything as it is. -/
def Call.Reads : Call → Prop
  | .getDBConn _ | .select _ | .stmtInit | .getCacheConn _ | .cacheInit | .rename ..
  | .unlink _ | .fdfsFileInfo _ | .time | .localtime | .uuid | .crash => True
  | .redis (.get _) | .redis (.zlexcount ..) | .redis (.zcard _) | .redis (.zrevrange ..)
  | .redis (.zscore ..) | .redis (.hget ..) => True
  | .redis (.set ..) | .redis (.setex ..) | .redis (.del _) | .redis (.zadd ..)
  | .redis (.zrem ..) | .redis (.zincrby ..) | .redis (.hset ..) | .redis (.hdel ..) => False
  | .dml _ | .tryLockFor _ | .unlock | .fdfsUpload _ | .fdfsDelete _ | .rand => False

theorem Call.Reads.aside {c : Call} (h : c.Reads) : c.Aside := by
  cases c with
  | dml | fdfsUpload | fdfsDelete => cases h
  | _ => trivial

/-- A command that only reads leaves the key space as it is. -/
theorem exec_reads {c : RedisCmd} (hc : (Call.redis c).Reads) (lex : ZSet → Bytes → ℕ)
    (r : Redis) : (r.exec lex c.format).2 = r := by
  cases c with
  | set | setex | del | zadd | zrem | zincrby | hset | hdel => cases hc
  | get | zlexcount | zcard | zrevrange =>
      simp only [RedisCmd.format, Redis.exec]
      split <;> rfl
  | zscore | hget =>
      simp only [RedisCmd.format, Redis.exec]
      split
      · rfl
      · split <;> rfl

theorem step_reads {c : Call} (hc : c.Reads) {a : Ans} {w w' : World} {r : Resp c}
    (h : step c a w = some (r, w')) : w' = w := by
  cases c with
  | dml | tryLockFor | unlock | fdfsUpload | fdfsDelete | rand => cases hc
  | redis c =>
      have hsame : { w with redis := (w.redis.exec w.lex c.format).2 } = w := by
        rw [exec_reads hc]
      simp only [step, redisStep, Option.some.injEq] at h
      split at h <;> cases h <;> first | rfl | exact hsame
  | getDBConn | select | stmtInit | getCacheConn | cacheInit | rename | unlink
  | fdfsFileInfo | time | localtime | uuid =>
      simp only [step] at h
      cases h
      rfl
  | crash => cases h

/-! ## Which calls the shared functions make -/

section Uses

variable {α : Type} {P : Call → Prop} {db_conn : CDBConn} {cache_conn : CacheConn}

theorem uses_ask {c : Call} (hc : P c) : (ask c : Handler (Resp c)).Uses P :=
  ⟨hc, fun _ => trivial⟩

theorem uses_crash (hcrash : P .crash) : (crash : Handler α).Uses P :=
  ⟨hcrash, fun e => e.elim⟩

theorem uses_getDBConn {pool : DbPool} (h : P (.getDBConn pool)) : (getDBConn pool).Uses P :=
  ⟨h, fun _ => trivial⟩

theorem uses_getCacheConn {pool : CachePool} (h : P (.getCacheConn pool)) :
    (getCacheConn pool).Uses P :=
  ⟨h, fun _ => trivial⟩

theorem uses_executeQuery {q : Select} (hq : P (.select q)) (hcrash : P .crash) :
    (db_conn.executeQuery q).Uses P := by
  rw [CDBConn.executeQuery]
  split
  · exact uses_ask hq
  · exact uses_crash hcrash

theorem uses_execute {d : Dml} (hd : P (.dml d)) (hcrash : P .crash) :
    (db_conn.execute d).Uses P := by
  rw [CDBConn.execute]
  split
  · exact .bind (uses_ask hd) fun _ => trivial
  · exact uses_crash hcrash

theorem uses_executeUpdate {d : Dml} {care : Bool} (hd : P (.dml d)) (hcrash : P .crash) :
    (db_conn.executeUpdate d care).Uses P := by
  rw [CDBConn.executeUpdate]
  split
  · refine .bind (uses_ask hd) fun affected => ?_
    cases affected <;> trivial
  · exact uses_crash hcrash

theorem uses_prepare (hinit : P .stmtInit) (hcrash : P .crash) : db_conn.prepare.Uses P := by
  rw [CDBConn.prepare]
  split
  · exact uses_ask hinit
  · exact uses_crash hcrash

theorem uses_command {c : RedisCmd} (hinit : P .cacheInit) (hc : P (.redis c))
    (hcrash : P .crash) : (cache_conn.command c).Uses P := by
  rw [CacheConn.command]
  split
  · refine .bind (uses_ask hinit) fun up => ?_
    split
    · exact .bind (uses_ask hc) fun _ => trivial
    · trivial
  · exact uses_crash hcrash

theorem uses_commandOr {c : RedisCmd} {down : α} {value : Reply → α} (hinit : P .cacheInit)
    (hc : P (.redis c)) (hcrash : P .crash) :
    (cache_conn.commandOr c down value).Uses P := by
  refine .bind (uses_command hinit hc hcrash) fun r => ?_
  match r with
  | some (some _) | some none | none => trivial

theorem uses_commandDeref {c : RedisCmd} {down : α} {value : Reply → Handler α}
    (hinit : P .cacheInit) (hc : P (.redis c)) (hcrash : P .crash)
    (hvalue : ∀ r, (value r).Uses P) : (cache_conn.commandDeref c down value).Uses P := by
  refine .bind (uses_command hinit hc hcrash) fun r => ?_
  match r with
  | some (some r) => exact hvalue r
  | some none => exact uses_crash hcrash
  | none => trivial

theorem uses_zsetAdd {key member : Bytes} {score : Int} (hinit : P .cacheInit)
    (hc : P (.redis (.zadd key score member))) (hcrash : P .crash) :
    (cache_conn.zsetAdd key score member).Uses P :=
  uses_commandDeref hinit hc hcrash fun r => by cases r <;> trivial

theorem uses_zsetZrem {key member : Bytes} (hinit : P .cacheInit)
    (hc : P (.redis (.zrem key member))) (hcrash : P .crash) :
    (cache_conn.zsetZrem key member).Uses P :=
  uses_commandDeref hinit hc hcrash fun r => by cases r <;> trivial

theorem uses_zsetExist {key member : Bytes} (hinit : P .cacheInit)
    (hc : P (.redis (.zlexcount key member))) (hcrash : P .crash) :
    (cache_conn.zsetExist key member).Uses P :=
  uses_commandDeref hinit hc hcrash fun r => by cases r <;> trivial

theorem uses_zsetZrevrange {key : Bytes} {from_pos end_pos : Int} (hinit : P .cacheInit)
    (hc : P (.redis (.zrevrange key from_pos end_pos))) (hcrash : P .crash) :
    (cache_conn.zsetZrevrange key from_pos end_pos).Uses P :=
  uses_commandDeref hinit hc hcrash fun r => by cases r <;> trivial

theorem uses_zsetGetScore {key member : Bytes} (hinit : P .cacheInit)
    (hc : P (.redis (.zscore key member))) (hcrash : P .crash) :
    (cache_conn.zsetGetScore key member).Uses P :=
  uses_commandDeref hinit hc hcrash fun r => by cases r <;> trivial

theorem uses_verifyToken {user token : Bytes} (hconn : P (.getCacheConn .token))
    (hinit : P .cacheInit) (hc : P (.redis (.get token))) (hcrash : P .crash) :
    (verifyToken user token).Uses P := by
  refine .bind (uses_getCacheConn hconn) fun cache_conn => ?_
  split
  · refine .bind (uses_commandOr hinit hc hcrash) fun temp => ?_
    split <;> trivial
  · trivial

theorem uses_getResultOneStatus {user md5 filename : Bytes}
    (hq : P (.select (.userFile user md5 filename))) (hcrash : P .crash) :
    (getResultOneStatus db_conn user md5 filename).Uses P := by
  refine .bind (uses_executeQuery hq hcrash) fun rows => ?_
  match rows with
  | none => exact uses_crash hcrash
  | some [] | some (_ :: _) => trivial

theorem uses_checkwhetherHaveRecord {q : Select} (hq : P (.select q)) (hcrash : P .crash) :
    (checkwhetherHaveRecord db_conn q).Uses P := by
  refine .bind (uses_executeQuery hq hcrash) fun rows => ?_
  match rows with
  | none | some [] | some (_ :: _) => trivial

end Uses

end FileHub
