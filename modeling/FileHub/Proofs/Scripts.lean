import FileHub.Lib.Scripted
import FileHub.Proofs.RankingKeys

/-!
# Handlers whose calls go wrong

What a wrapper comes to for every way its calls can go, with the script of how
they go. There is one rule for each wrapper, with a premise for each way it can
end; where it crashes there is nothing to show. A statement takes effect when
it succeeds, a Redis command also when only its reply is lost.
-/

namespace FileHub

open Lib
open Prog (ask after Along along_ask along_bind)

/-- The command reached the server. -/
def Ans.executed (a : Ans) : Prop := a.fault = .none ∨ a.fault = .lost

instance : DecidablePred Ans.executed :=
  fun a => inferInstanceAs (Decidable (a.fault = .none ∨ a.fault = .lost))

theorem Ans.ok.executed {a : Ans} (h : a.ok) : a.executed := .inl h

/-- The server answered with an error. -/
def Ans.refused (a : Ans) : Prop := a.fault = .error

instance : DecidablePred Ans.refused := fun a => inferInstanceAs (Decidable (a.fault = .error))

theorem Ans.refused.not_executed {a : Ans} (h : a.refused) : ¬ a.executed := by
  intro hexec
  rcases hexec with hnone | hlost
  · exact absurd (h.symm.trans hnone) (by decide)
  · exact absurd (h.symm.trans hlost) (by decide)

theorem Ans.refused.not_ok {a : Ans} (h : a.refused) : ¬ a.ok :=
  fun hok => h.not_executed hok.executed

/-- A command is two calls, the connection's `Init` and the command itself, which
is not sent if `Init` fails. It ran if it reached the server. -/
def Ran (ω : ℕ → Ans) : Prop := (ω 0).ok ∧ (ω 1).executed

instance (ω : ℕ → Ans) : Decidable (Ran ω) := inferInstanceAs (Decidable (_ ∧ _))

/-- What is left of the script after a command. -/
def afterCommand (ω : ℕ → Ans) : ℕ → Ans := if (ω 0).ok then after 2 ω else after 1 ω

section

variable {α β : Type} {w : World} {ω : ℕ → Ans} {conn : CDBConn} {cache : CacheConn}

theorem along_crash (Q : α → World → (ℕ → Ans) → Prop) : Along step Q crash ω w := trivial

theorem along_getDBConn {pool : DbPool} {Q : CDBConn → World → (ℕ → Ans) → Prop}
    (h : Q ⟨decide (ω 0).ok⟩ w (after 1 ω)) : Along step Q (getDBConn pool) ω w :=
  h

theorem along_getCacheConn {pool : CachePool} {Q : CacheConn → World → (ℕ → Ans) → Prop}
    (h : Q ⟨decide (ω 0).ok⟩ w (after 1 ω)) : Along step Q (getCacheConn pool) ω w :=
  h

theorem along_executeQuery {q : Select}
    {Q : Option (List q.Row) → World → (ℕ → Ans) → Prop}
    (hok : (ω 0).ok → Q (q.run w.db) w (after 1 ω))
    (hfailed : ¬(ω 0).ok → Q none w (after 1 ω)) :
    Along step Q (conn.executeQuery q) ω w := by
  rw [CDBConn.executeQuery]
  split
  · refine (along_ask (Call.select q) _).mpr fun r w' hs => ?_
    cases hs
    by_cases h : (ω 0).ok
    · rw [if_pos h]
      exact hok h
    · rw [if_neg h]
      exact hfailed h
  · exact along_crash _

theorem along_execute {d : Dml} {Q : Bool → World → (ℕ → Ans) → Prop}
    (hok : (ω 0).ok → Q (d.format.exec w.db).isSome (w.sql d) (after 1 ω))
    (hfailed : ¬(ω 0).ok → Q false w (after 1 ω)) :
    Along step Q (conn.execute d) ω w := by
  rw [CDBConn.execute]
  split
  · rw [along_bind]
    refine (along_ask (Call.dml d) _).mpr fun r w' hs => ?_
    by_cases h : (ω 0).ok
    · rw [step_dml h] at hs
      cases hs
      have hQ := hok h
      rwa [← Option.isSome_map (f := Prod.fst)] at hQ
    · rw [step_dml_of_not_ok h] at hs
      cases hs
      exact hfailed h
  · exact along_crash _

theorem along_executeUpdate {d : Dml} {care : Bool} {Q : Bool → World → (ℕ → Ans) → Prop}
    (hok : (ω 0).ok →
      Q ((d.format.exec w.db).any fun r => decide (0 < r.1) || !care) (w.sql d) (after 1 ω))
    (hfailed : ¬(ω 0).ok → Q false w (after 1 ω)) :
    Along step Q (conn.executeUpdate d care) ω w := by
  rw [CDBConn.executeUpdate]
  split
  · rw [along_bind]
    refine (along_ask (Call.dml d) _).mpr fun r w' hs => ?_
    by_cases h : (ω 0).ok
    · rw [step_dml h] at hs
      cases hs
      have hQ := hok h
      cases hexec : d.format.exec w.db with
      | none => rwa [hexec] at hQ
      | some x => rwa [hexec] at hQ
    · rw [step_dml_of_not_ok h] at hs
      cases hs
      exact hfailed h
  · exact along_crash _

theorem along_localtime {Q : Bytes → World → (ℕ → Ans) → Prop}
    (h : Q (ω 0).text w (after 1 ω)) : Along step Q (ask Call.localtime) ω w :=
  h

/-- The block told that it holds the lock, or that it does not. -/
theorem along_scopedFileInfoLock {ms : ℕ} {body : Bool → Handler α}
    {Q : α → World → (ℕ → Ans) → Prop}
    (hheld : (ω 0).ok → w.locked = false →
      Along step (fun r w' ω' => Q r (w'.setLocked false) (after 1 ω')) (body true) (after 1 ω)
        (w.setLocked true))
    (hbusy : ¬(ω 0).ok → Along step Q (body false) (after 1 ω) w) :
    Along step Q (scopedFileInfoLock ms body) ω w := by
  rw [scopedFileInfoLock, along_bind]
  refine (along_ask (Call.tryLockFor ms) _).mpr fun r w' hs => ?_
  by_cases h : (ω 0).ok
  · simp only [step, if_pos h] at hs
    split at hs
    · cases hs
    · next hfree =>
        cases hs
        exact (along_bind ..).mpr ((hheld h (by simpa using hfree)).mono fun b w' ω' hQ => hQ)
  · simp only [step, if_neg h] at hs
    cases hs
    exact (along_bind ..).mpr ((hbusy h).mono fun b w' ω' hQ => hQ)

/-! ## Commands -/

/-- The ways a command can go. -/
theorem along_command {c : RedisCmd} {Q : Option (Option Reply) → World → (ℕ → Ans) → Prop}
    (hdown : ¬(ω 0).ok → Q none w (after 1 ω))
    (hanswered : (ω 0).ok → (ω 1).ok → Q (some (some (w.reply c))) (w.cmd c) (after 2 ω))
    (hrefused : (ω 0).ok → (ω 1).refused → Q (some (some (.error (ω 1).text))) w (after 2 ω))
    (hfailed : (ω 0).ok → (ω 1).fault = .fail → Q (some none) w (after 2 ω))
    (hlost : (ω 0).ok → (ω 1).fault = .lost → Q (some none) (w.cmd c) (after 2 ω)) :
    Along step Q (cache.command c) ω w := by
  rw [CacheConn.command]
  split
  · rw [along_bind]
    refine (along_ask Call.cacheInit _).mpr fun r w' hs => ?_
    cases hs
    by_cases h : (ω 0).ok
    · rw [decide_eq_true h, if_pos rfl, along_bind]
      refine (along_ask (Call.redis c) _).mpr fun r w' hs => ?_
      simp only [step, redisStep, Option.some.injEq] at hs
      split at hs
      · next hfault =>
          cases hs
          exact hanswered h hfault
      · next hfault =>
          cases hs
          exact hfailed h hfault
      · next hfault =>
          cases hs
          exact hlost h hfault
      · next hfault =>
          cases hs
          exact hrefused h hfault
    · rw [decide_eq_false h]
      exact hdown h
  · exact along_crash _

theorem along_commandOr {c : RedisCmd} {down : α} {value : Reply → α}
    {Q : α → World → (ℕ → Ans) → Prop}
    (hdown : ¬(ω 0).ok → Q down w (after 1 ω))
    (hanswered : (ω 0).ok → (ω 1).ok → Q (value (w.reply c)) (w.cmd c) (after 2 ω))
    (hrefused : (ω 0).ok → (ω 1).refused → Q (value (.error (ω 1).text)) w (after 2 ω))
    (hfailed : (ω 0).ok → (ω 1).fault = .fail → Q down w (after 2 ω))
    (hlost : (ω 0).ok → (ω 1).fault = .lost → Q down (w.cmd c) (after 2 ω)) :
    Along step Q (cache.commandOr c down value) ω w := by
  rw [CacheConn.commandOr, along_bind]
  exact along_command hdown hanswered hrefused hfailed hlost

/-- A wrapper that looks for an integer in the reply. A lost reply is read
untested, and crashes. -/
theorem along_commandDeref_orFail {c : RedisCmd} {down : Int} {value : Reply → Handler Int}
    {number : Int → Int} (hvalue : ∀ r, value r = .ret (r.orFail number))
    {Q : Int → World → (ℕ → Ans) → Prop}
    (hdown : ¬(ω 0).ok → Q down w (after 1 ω))
    (hanswered : (ω 0).ok → (ω 1).ok → Q ((w.reply c).orFail number) (w.cmd c) (after 2 ω))
    (hrefused : (ω 0).ok → (ω 1).refused → Q (-1) w (after 2 ω)) :
    Along step Q (cache.commandDeref c down value) ω w := by
  rw [CacheConn.commandDeref, along_bind]
  refine along_command hdown (fun h h' => ?_) (fun h h' => ?_) (fun _ _ => along_crash _)
    fun _ _ => along_crash _
  · dsimp only
    rw [hvalue]
    exact hanswered h h'
  · dsimp only
    rw [hvalue]
    exact hrefused h h'

/-- The stores and the script after a command. -/
structure Commanded (c : RedisCmd) (w : World) (ω : ℕ → Ans) (w' : World) (ω' : ℕ → Ans) :
    Prop where
  st : w' = if Ran ω then w.cmd c else w
  script : ω' = afterCommand ω

theorem commanded_down {c : RedisCmd} (h : ¬(ω 0).ok) : Commanded c w ω w (after 1 ω) :=
  ⟨(if_neg fun hran => h hran.1).symm, (if_neg h).symm⟩

theorem commanded_executed {c : RedisCmd} (h : (ω 0).ok) (h' : (ω 1).executed) :
    Commanded c w ω (w.cmd c) (after 2 ω) :=
  ⟨(if_pos ⟨h, h'⟩).symm, (if_pos h).symm⟩

theorem commanded_not_executed {c : RedisCmd} (h : (ω 0).ok) (h' : ¬(ω 1).executed) :
    Commanded c w ω w (after 2 ω) :=
  ⟨(if_neg fun hran => h' hran.2).symm, (if_pos h).symm⟩

theorem along_commandOr_effect {c : RedisCmd} {down : α} {value : Reply → α} :
    Along step (fun _ => Commanded c w ω) (cache.commandOr c down value) ω w :=
  along_commandOr commanded_down (fun h h' => commanded_executed h h'.executed)
    (fun h h' => commanded_not_executed h h'.not_executed)
    (fun h h' => commanded_not_executed h (by simp [Ans.executed, h']))
    fun h h' => commanded_executed h (.inr h')

theorem along_commandDeref_effect {c : RedisCmd} {down : Int} {value : Reply → Handler Int}
    {number : Int → Int} (hvalue : ∀ r, value r = .ret (r.orFail number)) :
    Along step (fun _ => Commanded c w ω) (cache.commandDeref c down value) ω w :=
  along_commandDeref_orFail hvalue commanded_down
    (fun h h' => commanded_executed h h'.executed)
    fun h h' => commanded_not_executed h h'.not_executed

namespace Commanded

variable {c : RedisCmd} {w' : World} {ω' : ℕ → Ans} {id : Bytes}

theorem eq_or (h : Commanded c w ω w' ω') : w' = w ∨ w' = w.cmd c := by
  have hst := h.st
  split at hst
  · exact .inr hst
  · exact .inl hst

theorem db (h : Commanded c w ω w' ω') : w'.db = w.db := by
  rcases h.eq_or with rfl | rfl <;> rfl

theorem fdfs (h : Commanded c w ω w' ω') : w'.fdfs = w.fdfs := by
  rcases h.eq_or with rfl | rfl <;> rfl

/-- The member is gone if the removal reached the server. -/
theorem ranked (h : Commanded (.zrem FILE_PUBLIC_ZSET id) w ω w' ω') (hid : cStr id = id) :
    w'.redis.Ranked id ↔ w.redis.Ranked id ∧ ¬Ran ω := by
  by_cases hran : Ran ω
  · rw [h.st, if_pos hran]
    exact iff_of_false (not_ranked_zrem w hid) fun hand => hand.2 hran
  · rw [h.st, if_neg hran]
    exact (and_iff_left hran).symm

theorem named (h : Commanded (.hdel FILE_NAME_HASH id) w ω w' ω') (hid : cStr id = id) :
    w'.redis.Named id ↔ w.redis.Named id ∧ ¬Ran ω := by
  by_cases hran : Ran ω
  · rw [h.st, if_pos hran]
    exact iff_of_false (not_named_hdel w hid) fun hand => hand.2 hran
  · rw [h.st, if_neg hran]
    exact (and_iff_left hran).symm

theorem named_of_zrem (h : Commanded (.zrem FILE_PUBLIC_ZSET id) w ω w' ω') (id' : Bytes) :
    w'.redis.Named id' ↔ w.redis.Named id' := by
  rcases h.eq_or with rfl | rfl
  · rfl
  · exact named_zrem w id id'

theorem ranked_of_hdel (h : Commanded (.hdel FILE_NAME_HASH id) w ω w' ω') (id' : Bytes) :
    w'.redis.Ranked id' ↔ w.redis.Ranked id' := by
  rcases h.eq_or with rfl | rfl
  · rfl
  · exact ranked_hdel w id id'

end Commanded

end

end FileHub
