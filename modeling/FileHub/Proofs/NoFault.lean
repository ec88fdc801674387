import FileHub.Api.Common
import FileHub.Proofs.Statements

/-!
# Handlers when nothing fails

`Ensures E Q p w`: run alone from `w` with every call succeeding, `p` ends in
`Q`, or gets stuck in a state that satisfies `E`. One rule for each wrapper
says what it comes to, so that a handler is executed by rewriting with them.
What is left open is what the outside supplies, the times and the ids.

`World.sql` and `World.cmd` are the state after a statement and after a
command, whatever they answered.
-/

namespace FileHub

open Lib
open Prog (ask)

def Ensures {α : Type} (E : World → Prop) (Q : α → World → Prop) (p : Handler α)
    (w : World) : Prop :=
  p.Wp step Ans.ok E Q w

section Rules

variable {α β : Type} {E : World → Prop}

@[simp] theorem ensures_ret (Q : α → World → Prop) (a : α) (w : World) :
    Ensures E Q (.ret a) w ↔ Q a w := Iff.rfl

@[simp] theorem ensures_pure (Q : α → World → Prop) (a : α) (w : World) :
    Ensures E Q (pure a) w ↔ Q a w := Iff.rfl

@[simp] theorem ensures_bind (Q : β → World → Prop) (p : Handler α) (f : α → Handler β)
    (w : World) :
    Ensures E Q (p >>= f) w ↔ Ensures E (fun a w' => Ensures E Q (f a) w') p w :=
  Prog.wp_bind Q p f w

theorem Ensures.mono {Q R : α → World → Prop} (hQR : ∀ a w, Q a w → R a w)
    {p : Handler α} {w : World} (h : Ensures E Q p w) : Ensures E R p w :=
  Prog.Wp.mono hQR h

/-- What holds of the stores however an undisturbed run ends. -/
theorem Ensures.st {P : World → Prop} {p : Handler α} {w : World}
    (h : Ensures P (fun _ => P) p w) {ω : ℕ → Ans} (hω : NoFail ω) :
    P (runIn ω p w).st :=
  Prog.Wp.st h hω

/-! ## Requests served one after the other -/

/-- A request, with choices under which nothing fails while it is served. -/
structure Undisturbed (ρ : Type) where
  request : ρ
  script : ℕ → Ans
  noFail : NoFail script

/-- Serve one request to its end. -/
def serve {ρ : Type} (handle : ρ → Handler Unit) (w : World) (x : Undisturbed ρ) : World :=
  (runIn x.script (handle x.request) w).st

theorem Ensures.serve {ρ : Type} {P : World → Prop} {handle : ρ → Handler Unit} {w : World}
    {x : Undisturbed ρ} (h : Ensures P (fun _ => P) (handle x.request) w) :
    P (FileHub.serve handle w x) :=
  h.st x.noFail

end Rules

/-! ## The stores after a statement and after a command -/

namespace World

def sql (w : World) (d : Dml) : World :=
  { w with db := w.db.sql d }

def setLocked (w : World) (b : Bool) : World := { w with locked := b }

def cmd (w : World) (c : RedisCmd) : World :=
  { w with redis := (w.redis.exec w.lex c.format).2 }

/-- What a command answers. -/
def reply (w : World) (c : RedisCmd) : Reply := (w.redis.exec w.lex c.format).1

@[simp] theorem sql_db (w : World) (d : Dml) : (w.sql d).db = w.db.sql d := rfl
@[simp] theorem sql_redis (w : World) (d : Dml) : (w.sql d).redis = w.redis := rfl
@[simp] theorem sql_fdfs (w : World) (d : Dml) : (w.sql d).fdfs = w.fdfs := rfl
@[simp] theorem sql_locked (w : World) (d : Dml) : (w.sql d).locked = w.locked := rfl
@[simp] theorem sql_lex (w : World) (d : Dml) : (w.sql d).lex = w.lex := rfl
@[simp] theorem cmd_db (w : World) (c : RedisCmd) : (w.cmd c).db = w.db := rfl
@[simp] theorem cmd_fdfs (w : World) (c : RedisCmd) : (w.cmd c).fdfs = w.fdfs := rfl
@[simp] theorem cmd_locked (w : World) (c : RedisCmd) : (w.cmd c).locked = w.locked := rfl
@[simp] theorem cmd_lex (w : World) (c : RedisCmd) : (w.cmd c).lex = w.lex := rfl

@[simp] theorem setLocked_db (w : World) (b : Bool) : (w.setLocked b).db = w.db := rfl

@[simp] theorem setLocked_setLocked (w : World) (b b' : Bool) :
    (w.setLocked b).setLocked b' = w.setLocked b' := rfl

@[simp] theorem sql_setLocked (w : World) (b : Bool) (d : Dml) :
    (w.setLocked b).sql d = (w.sql d).setLocked b := rfl

theorem setLocked_self {w : World} {b : Bool} (h : w.locked = b) : w.setLocked b = w := by
  obtain ⟨db, redis, fdfs, locked, lex, randSeq, randPos⟩ := w
  cases h
  rfl

theorem sql_self {w : World} {d : Dml} (h : w.db.sql d = w.db) : w.sql d = w := by
  rw [sql, h]

end World

/-! ## The calls -/

section Calls

variable {E : World → Prop} {w : World}

theorem exists_ok (text : Bytes) (num : ℕ) :
    ∃ a : Ans, a.ok ∧ a.text = text ∧ a.num = num :=
  ⟨⟨.none, text, num⟩, rfl, rfl, rfl⟩

theorem exists_ans_ok : ∃ a : Ans, a.ok := ⟨⟨.none, [], 0⟩, rfl⟩

/-- A call whose answer the choice has no part in. -/
theorem ensures_ask (c : Call) (r : Resp c) (w' : World)
    (h : ∀ a : Ans, a.ok → step c a w = some (r, w')) (Q : Resp c → World → Prop) :
    Ensures E Q (ask c) w ↔ Q r w' :=
  Prog.wp_ask_of_step exists_ans_ok h Q

@[simp] theorem ensures_getDBConn (pool : DbPool) (Q : CDBConn → World → Prop) :
    Ensures E Q (getDBConn pool) w ↔ Q ⟨true⟩ w := by
  rw [getDBConn, ensures_bind]
  exact ensures_ask (.getDBConn pool) true w (fun a ha => by simp [step, ha]) _

@[simp] theorem ensures_getCacheConn (pool : CachePool) (Q : CacheConn → World → Prop) :
    Ensures E Q (getCacheConn pool) w ↔ Q ⟨true⟩ w := by
  rw [getCacheConn, ensures_bind]
  exact ensures_ask (.getCacheConn pool) true w (fun a ha => by simp [step, ha]) _

@[simp] theorem ensures_executeQuery (q : Select)
    (Q : Option (List q.Row) → World → Prop) :
    Ensures E Q (CDBConn.executeQuery ⟨true⟩ q) w ↔ Q (q.run w.db) w := by
  rw [CDBConn.executeQuery, if_pos rfl]
  exact ensures_ask (.select q) (q.run w.db) w (fun a ha => by simp [step, ha]) _

theorem step_dml {a : Ans} (ha : a.ok) (d : Dml) (w : World) :
    step (.dml d) a w = some ((d.format.exec w.db).map Prod.fst, w.sql d) := by
  rw [step, if_pos ha]
  cases h : d.format.exec w.db with
  | none => simp only [World.sql, Db.sql_of_none h, Option.map_none]
  | some r => simp only [World.sql, Db.sql_of_some h, Option.map_some]

theorem step_dml_of_not_ok {a : Ans} (ha : ¬a.ok) (d : Dml) (w : World) :
    step (.dml d) a w = some (none, w) := by
  rw [step, if_neg ha]

@[simp] theorem ensures_execute (d : Dml) (Q : Bool → World → Prop) :
    Ensures E Q (CDBConn.execute ⟨true⟩ d) w ↔
      Q (d.format.exec w.db).isSome (w.sql d) := by
  rw [CDBConn.execute, if_pos rfl, ensures_bind]
  refine (ensures_ask (.dml d) _ _ (fun a ha => step_dml ha d w) _).trans ?_
  rw [Option.isSome_map]
  rfl

@[simp] theorem ensures_executeCreate (d : Dml) (Q : Bool → World → Prop) :
    Ensures E Q (CDBConn.executeCreate ⟨true⟩ d) w ↔
      Q (d.format.exec w.db).isSome (w.sql d) :=
  ensures_execute d Q

@[simp] theorem ensures_executeDrop (d : Dml) (Q : Bool → World → Prop) :
    Ensures E Q (CDBConn.executeDrop ⟨true⟩ d) w ↔
      Q (d.format.exec w.db).isSome (w.sql d) :=
  ensures_execute d Q

@[simp] theorem ensures_executePassQuery (d : Dml) (Q : Bool → World → Prop) :
    Ensures E Q (CDBConn.executePassQuery ⟨true⟩ d) w ↔
      Q (d.format.exec w.db).isSome (w.sql d) :=
  ensures_execute d Q

@[simp] theorem ensures_executeUpdate (d : Dml) (care : Bool) (Q : Bool → World → Prop) :
    Ensures E Q (CDBConn.executeUpdate ⟨true⟩ d care) w ↔
      Q ((d.format.exec w.db).any fun r => decide (0 < r.1) || !care) (w.sql d) := by
  rw [CDBConn.executeUpdate, if_pos rfl, ensures_bind]
  refine (ensures_ask (.dml d) _ _ (fun a ha => step_dml ha d w) _).trans ?_
  cases h : d.format.exec w.db <;> rfl

theorem step_redis {a : Ans} (ha : a.ok) (c : RedisCmd) (w : World) :
    step (.redis c) a w = some (some (w.reply c), w.cmd c) := by
  have hfault : a.fault = .none := ha
  simp only [step, redisStep, hfault]
  rfl

@[simp] theorem ensures_command (c : RedisCmd) (Q : Option (Option Reply) → World → Prop) :
    Ensures E Q (CacheConn.command ⟨true⟩ c) w ↔ Q (some (some (w.reply c))) (w.cmd c) := by
  rw [CacheConn.command, if_pos rfl, ensures_bind]
  refine (ensures_ask .cacheInit true w (fun a ha => by simp [step, ha]) _).trans ?_
  rw [if_pos rfl, ensures_bind]
  exact ensures_ask (.redis c) _ _ (fun a ha => step_redis ha c w) _

@[simp] theorem ensures_commandOr {α : Type} (c : RedisCmd) (down : α) (value : Reply → α)
    (Q : α → World → Prop) :
    Ensures E Q (CacheConn.commandOr ⟨true⟩ c down value) w ↔
      Q (value (w.reply c)) (w.cmd c) := by
  rw [CacheConn.commandOr, ensures_bind]
  exact ensures_command c _

@[simp] theorem ensures_commandDeref {α : Type} (c : RedisCmd) (down : α)
    (value : Reply → Handler α) (Q : α → World → Prop) :
    Ensures E Q (CacheConn.commandDeref ⟨true⟩ c down value) w ↔
      Ensures E Q (value (w.reply c)) (w.cmd c) := by
  rw [CacheConn.commandDeref, ensures_bind]
  exact ensures_command c _

/-- What the wrappers make of a reply they expect to be an integer. -/
def Reply.orFail (value : Int → Int) : Reply → Int
  | .integer n => value n
  | .status _ | .error _ | .nil | .string _ | .array _ => -1

@[simp] theorem ensures_zsetAdd (key : Bytes) (score : Int) (member : Bytes)
    (Q : Int → World → Prop) :
    Ensures E Q (CacheConn.zsetAdd ⟨true⟩ key score member) w ↔
      Q ((w.reply (.zadd key score member)).orFail fun _ => 0)
        (w.cmd (.zadd key score member)) := by
  rw [CacheConn.zsetAdd, ensures_commandDeref]
  cases w.reply (.zadd key score member) <;> rfl

@[simp] theorem ensures_zsetZrem (key member : Bytes) (Q : Int → World → Prop) :
    Ensures E Q (CacheConn.zsetZrem ⟨true⟩ key member) w ↔
      Q ((w.reply (.zrem key member)).orFail fun _ => 0) (w.cmd (.zrem key member)) := by
  rw [CacheConn.zsetZrem, ensures_commandDeref]
  cases w.reply (.zrem key member) <;> rfl

@[simp] theorem ensures_zsetExist (key member : Bytes) (Q : Int → World → Prop) :
    Ensures E Q (CacheConn.zsetExist ⟨true⟩ key member) w ↔
      Q ((w.reply (.zlexcount key member)).orFail id) (w.cmd (.zlexcount key member)) := by
  rw [CacheConn.zsetExist, ensures_commandDeref]
  cases w.reply (.zlexcount key member) <;> rfl

@[simp] theorem ensures_zsetZcard (key : Bytes) (Q : Int → World → Prop) :
    Ensures E Q (CacheConn.zsetZcard ⟨true⟩ key) w ↔
      Q ((w.reply (.zcard key)).orFail id) (w.cmd (.zcard key)) := by
  rw [CacheConn.zsetZcard, ensures_commandDeref]
  cases w.reply (.zcard key) <;> rfl

@[simp] theorem ensures_del (key : Bytes) (Q : Int → World → Prop) :
    Ensures E Q (CacheConn.del ⟨true⟩ key) w ↔
      Q (w.reply (.del key)).toInteger (w.cmd (.del key)) :=
  ensures_commandOr _ _ _ Q

@[simp] theorem ensures_hset (key field value : Bytes) (Q : Int → World → Prop) :
    Ensures E Q (CacheConn.hset ⟨true⟩ key field value) w ↔
      Q (w.reply (.hset key field value)).toInteger (w.cmd (.hset key field value)) :=
  ensures_commandOr _ _ _ Q

@[simp] theorem ensures_hdel (key field : Bytes) (Q : Int → World → Prop) :
    Ensures E Q (CacheConn.hdel ⟨true⟩ key field) w ↔
      Q (w.reply (.hdel key field)).toInteger (w.cmd (.hdel key field)) :=
  ensures_commandOr _ _ _ Q

@[simp] theorem ensures_crash {α : Type} (Q : α → World → Prop) :
    Ensures E Q crash w ↔ E w := by
  rw [crash]
  obtain ⟨a, ha⟩ := exists_ans_ok
  exact ⟨fun h => h a ha, fun h _ _ => h⟩

/-- The block runs under the lock, if it is free; otherwise it waits for ever. -/
@[simp] theorem ensures_scopedFileInfoLock {α : Type} (ms : ℕ) (body : Bool → Handler α)
    (Q : α → World → Prop) :
    Ensures E Q (scopedFileInfoLock ms body) w ↔
      if w.locked then E w
      else Ensures E (fun r w' => Q r (w'.setLocked false)) (body true)
        (w.setLocked true) := by
  rw [scopedFileInfoLock, ensures_bind]
  cases hl : w.locked with
  | true =>
      rw [if_pos rfl]
      have hstep : ∀ a : Ans, a.ok → step (.tryLockFor ms) a w = none :=
        fun a ha => by simp [step, ha, hl]
      constructor
      · intro h
        obtain ⟨a, ha⟩ := exists_ans_ok
        have := h a ha
        rwa [hstep a ha] at this
      · intro h a ha
        rw [hstep a ha]
        exact h
  | false =>
      rw [if_neg (by simp)]
      refine (ensures_ask (.tryLockFor ms) true (w.setLocked true)
        (fun a ha => by simp [step, ha, hl, World.setLocked]) _).trans ?_
      rw [ensures_bind]
      simp only [if_true, ensures_bind]
      refine iff_of_eq (congrArg (fun R => Ensures E R (body true) _) ?_)
      funext r w'
      exact propext (ensures_ask .unlock () _ (fun a _ => rfl) _)

@[simp] theorem ensures_localtime (Q : Bytes → World → Prop) :
    Ensures E Q (ask Call.localtime : Handler Bytes) w ↔ ∀ t, Q t w := by
  constructor
  · intro h t
    obtain ⟨a, ha, rfl, -⟩ := exists_ok t 0
    exact h a ha
  · exact fun h a _ => h a.text

@[simp] theorem ensures_time (Q : ℕ → World → Prop) :
    Ensures E Q (ask Call.time : Handler ℕ) w ↔ ∀ t, Q t w := by
  constructor
  · intro h t
    obtain ⟨a, ha, -, rfl⟩ := exists_ok [] t
    exact h a ha
  · exact fun h a _ => h a.num

@[simp] theorem ensures_fdfsDelete (id : Bytes) (Q : Bool → World → Prop) :
    Ensures E Q (ask (Call.fdfsDelete id) : Handler Bool) w ↔
      Q true { w with fdfs := w.fdfs.remove id } :=
  ensures_ask (.fdfsDelete id) true _ (fun a ha => by simp [step, ha]) _

@[simp] theorem ensures_fdfsFileInfo (id : Bytes) (Q : Bool → World → Prop) :
    Ensures E Q (ask (Call.fdfsFileInfo id) : Handler Bool) w ↔ Q true w :=
  ensures_ask (.fdfsFileInfo id) true w (fun a ha => by simp [step, ha]) _

@[simp] theorem ensures_rename (old new : Bytes) (Q : Bool → World → Prop) :
    Ensures E Q (ask (Call.rename old new) : Handler Bool) w ↔ Q true w :=
  ensures_ask (.rename old new) true w (fun a ha => by simp [step, ha]) _

@[simp] theorem ensures_unlink (path : Bytes) (Q : Bool → World → Prop) :
    Ensures E Q (ask (Call.unlink path) : Handler Bool) w ↔ Q true w :=
  ensures_ask (.unlink path) true w (fun a ha => by simp [step, ha]) _

/-- An upload gives a new object an id that was never given out. -/
theorem ensures_fdfsUpload (path : Bytes) {Q : Option Bytes → World → Prop}
    (hQ : ∀ id, id ∉ w.fdfs.used → Q (some id) { w with fdfs := w.fdfs.store id }) :
    Ensures E Q (ask (Call.fdfsUpload path)) w := by
  intro a ha
  simp only [step, ha, if_true]
  exact hQ _ (w.fdfs.freshId_not_used _)

end Calls

end FileHub
