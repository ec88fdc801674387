import FileHub.Lib.Pool
import FileHub.Proofs.NoFault

/-!
# Handlers that run together

The rules for walking through a handler that is one of several. Every call
succeeds; which calls a run may make besides is a condition `allowed` on the
state it finds, so that a theorem can be about the runs that stay clear of one
particular accident. A rule says what the wrapper's call does to the shared
state and which tokens it trades, for any invariant.
-/

namespace FileHub

open Lib
open Prog (ask)

/-- The call succeeds, and it is one that `allowed` lets pass. -/
def Granted (allowed : World → Call → Bool) (c : Call) (a : Ans) (w : World) : Prop :=
  a.ok ∧ allowed w c = true

instance (allowed : World → Call → Bool) (c : Call) (a : Ans) (w : World) :
    Decidable (Granted allowed c a w) :=
  inferInstanceAs (Decidable (_ ∧ _))

namespace Lib

variable {M α β : Type} [AddCommMonoid M] {I : World → M → Prop}
  {allowed : World → Call → Bool} {g : M}

theorem Safe.crash {Q : α → M → Prop} : Safe step I (Granted allowed) Q FileHub.crash g := by
  intro w f a r w' _ _ hs
  cases hs

theorem Safe.execute {Q : Bool → M → Prop} (conn : CDBConn) {d : Dml}
    (h : ∀ w f, I w (g + f) → allowed w (.dml d) = true →
      ∃ g', I (w.sql d) (g' + f) ∧ Q (d.format.exec w.db).isSome g') :
    Safe step I (Granted allowed) Q (conn.execute d) g := by
  rw [CDBConn.execute]
  split
  · intro w f a r w' hI hG hs
    rw [step_dml hG.1] at hs
    cases hs
    obtain ⟨g', hI', hQ⟩ := h w f hI hG.2
    refine ⟨g', hI', ?_⟩
    show Q ((d.format.exec w.db).map Prod.fst).isSome g'
    rwa [Option.isSome_map]
  · exact .crash

theorem Safe.executeUpdate {Q : Bool → M → Prop} (conn : CDBConn) {d : Dml} (care : Bool)
    (h : ∀ w f, I w (g + f) → allowed w (.dml d) = true →
      ∃ g', I (w.sql d) (g' + f) ∧
        Q ((d.format.exec w.db).any fun r => decide (0 < r.1) || !care) g') :
    Safe step I (Granted allowed) Q (conn.executeUpdate d care) g := by
  rw [CDBConn.executeUpdate]
  split
  · intro w f a r w' hI hG hs
    rw [step_dml hG.1] at hs
    cases hs
    obtain ⟨g', hI', hQ⟩ := h w f hI hG.2
    refine ⟨g', hI', ?_⟩
    cases hexec : d.format.exec w.db with
    | none | some n =>
        rw [hexec] at hQ
        exact hQ
  · exact .crash

theorem Safe.executeQuery (conn : CDBConn) {q : Select} {Q : Option (List q.Row) → M → Prop}
    (h : ∀ w f, I w (g + f) → ∃ g', I w (g' + f) ∧ Q (q.run w.db) g') :
    Safe step I (Granted allowed) Q (conn.executeQuery q) g := by
  rw [CDBConn.executeQuery]
  split
  · intro w f a r w' hI hG hs
    obtain ⟨g', hI', hQ⟩ := h w f hI
    simp only [step, if_pos hG.1, Option.some.injEq, Prod.mk.injEq] at hs
    obtain ⟨rfl, rfl⟩ := hs
    exact ⟨g', hI', hQ⟩
  · exact .crash

theorem Safe.command {Q : Option (Option Reply) → M → Prop} (conn : CacheConn) {c : RedisCmd}
    (h : ∀ w f, I w (g + f) → allowed w (.redis c) = true →
      ∃ g', I (w.cmd c) (g' + f) ∧ Q (some (some (w.reply c))) g') :
    Safe step I (Granted allowed) Q (conn.command c) g := by
  rw [CacheConn.command]
  split
  · refine Safe.bind (Q := fun up g' => up = true ∧ g' = g) ?_ ?_
    · intro w f a up w' hI hG hs
      simp only [step, Option.some.injEq, Prod.mk.injEq] at hs
      obtain ⟨rfl, rfl⟩ := hs
      exact ⟨g, hI, decide_eq_true hG.1, rfl⟩
    · rintro _ _ ⟨rfl, rfl⟩
      rw [if_pos rfl]
      intro w f a r w' hI hG hs
      rw [step_redis hG.1] at hs
      cases hs
      exact h w f hI hG.2
  · exact .crash

/-- A Redis command whose reply is read. -/
theorem Safe.commandOr {Q : α → M → Prop} (conn : CacheConn) {c : RedisCmd} {down : α}
    {value : Reply → α}
    (h : ∀ w f, I w (g + f) → allowed w (.redis c) = true →
      ∃ g', I (w.cmd c) (g' + f) ∧ Q (value (w.reply c)) g') :
    Safe step I (Granted allowed) Q (conn.commandOr c down value) g := by
  refine Safe.bind (Q := fun r g' => ∃ reply, r = some (some reply) ∧ Q (value reply) g') ?_ ?_
  · refine .command conn fun w f hI hG => ?_
    obtain ⟨g', hI', hQ⟩ := h w f hI hG
    exact ⟨g', hI', _, rfl, hQ⟩
  · rintro _ g' ⟨reply, rfl, hQ⟩
    exact safe_ret hQ

/-- A Redis command whose reply decides how the handler goes on. -/
theorem Safe.commandDeref {Q : α → M → Prop} (conn : CacheConn) {c : RedisCmd} {down : α}
    {value : Reply → Handler α}
    (h : ∀ w f, I w (g + f) → allowed w (.redis c) = true →
      ∃ g', I (w.cmd c) (g' + f) ∧
        Safe step I (Granted allowed) Q (value (w.reply c)) g') :
    Safe step I (Granted allowed) Q (conn.commandDeref c down value) g := by
  refine Safe.bind (Q := fun r g' => ∃ reply, r = some (some reply) ∧
    Safe step I (Granted allowed) Q (value reply) g') ?_ ?_
  · refine .command conn fun w f hI hG => ?_
    obtain ⟨g', hI', hvalue⟩ := h w f hI hG
    exact ⟨g', hI', _, rfl, hvalue⟩
  · rintro _ g' ⟨reply, rfl, hvalue⟩
    exact hvalue

end Lib

end FileHub
