import FileHub.Lib.History
import FileHub.Model.FileInfoLock

/-!
# Who holds the file-info lock

`locked_` says that some scope has the lock, not which. A scope that has it
gives it up only by its destructor, so as long as `locked_` falls nowhere else
it is true exactly while there is such a scope, and there is never a second
one. `Reset` is where it falls regardless.

That nothing is granted after `StopWaiting` holds in every order.
-/

namespace FileHub

open Lib
open Function (update update_self update_of_ne)

namespace FileInfoLock

variable {Scope : Type} [DecidableEq Scope] {s s' : FileInfoLock Scope} {o o' : Scope}

/-! ## One holder -/

def Holds (s : FileInfoLock Scope) (o : Scope) : Prop := s.phase o = .alive true

instance (s : FileInfoLock Scope) (o : Scope) : Decidable (s.Holds o) :=
  inferInstanceAs (Decidable (_ = _))

structure Exclusive (s : FileInfoLock Scope) : Prop where
  unique : ∀ o o', s.Holds o → s.Holds o' → o = o'
  locked_iff : s.locked_ = true ↔ ∃ o, s.Holds o

/-- `StopWaiting` was called and not `Reset` since. -/
def Stopped (events : List (LockEvent Scope)) : Prop :=
  ∃ before after, events = before ++ .stopWaiting :: after ∧ .reset ∉ after

/-- The state after some events. -/
def after (events : List (LockEvent Scope)) : FileInfoLock Scope := events.foldl next new

structure MutualExclusion (events : List (LockEvent Scope)) : Prop where
  exclusive : Throughout next Exclusive events (new : FileInfoLock Scope)
  stopped : ∀ pre e, pre ++ [e] <+: events → Stopped pre →
    ∀ o, (after (pre ++ [e])).Holds o → (after pre).Holds o

/-! ## When it holds -/

/-- `Reset` is called while no scope has the lock. -/
def ResetsFree (s : FileInfoLock Scope) (e : LockEvent Scope) : Prop :=
  e = .reset → ∀ o, ¬s.Holds o

/-! ## One step -/

theorem holds_update {phase : Scope → ScopePhase} {p : ScopePhase} {l b : Bool} :
    (⟨l, b, update phase o p⟩ : FileInfoLock Scope).Holds o' ↔
      if o' = o then p = .alive true else phase o' = .alive true := by
  show update phase o p o' = .alive true ↔ _
  by_cases h : o' = o
  · rw [h, update_self, if_pos rfl]
  · rw [update_of_ne h, if_neg h]

/-- Another phase for a scope that does not have the lock, nor gets it. -/
theorem holds_update_of_not {p : ScopePhase} (hnot : ¬s.Holds o) (hp : p ≠ .alive true)
    (o' : Scope) : ({ s with phase := update s.phase o p } : FileInfoLock Scope).Holds o' ↔
      s.Holds o' := by
  rw [holds_update]
  split
  · next h =>
      subst h
      exact iff_of_false hp hnot
  · rfl

/-- What an event other than `Reset` does: to a scope that does not get the
lock, to one that does, to one that gives it up, or to `stop_`. -/
theorem step_cases {e : LockEvent Scope} (hs : s.step e = some s') (he : e ≠ .reset) :
    (∃ o p, ¬s.Holds o ∧ p ≠ .alive true ∧ s' = { s with phase := update s.phase o p }) ∨
    (∃ o, s.locked_ = false ∧ s.stop_ = false ∧
      s' = { s with locked_ := true, phase := update s.phase o (.alive true) }) ∨
    (∃ o, s.Holds o ∧
      s' = { s with locked_ := false, phase := update s.phase o .absent }) ∨
    s' = s ∨ e = .stopWaiting ∧ s' = { s with stop_ := true } := by
  have htry (o : Scope) (hready : s.Ready) (hnot : ¬s.Holds o) (h : s.tryLock o = s') :
      (∃ o p, ¬s.Holds o ∧ p ≠ .alive true ∧ s' = { s with phase := update s.phase o p }) ∨
      (∃ o, s.locked_ = false ∧ s.stop_ = false ∧
        s' = { s with locked_ := true, phase := update s.phase o (.alive true) }) := by
    rw [tryLock] at h
    split at h
    · exact .inl ⟨o, .alive false, hnot, by simp, h.symm⟩
    · next hstop =>
        exact .inr ⟨o, hready.resolve_right hstop, by simpa using hstop, h.symm⟩
  cases e with
  | construct o =>
      simp only [step] at hs
      split at hs
      · next habsent =>
          have hnot : ¬s.Holds o := by simp [Holds, habsent]
          split at hs
          · next hready => exact (htry o hready hnot (Option.some.inj hs)).imp_right .inl
          · exact .inl ⟨o, .waiting, hnot, by simp, (Option.some.inj hs).symm⟩
      · cases hs
  | wake o expired =>
      simp only [step] at hs
      split at hs
      · next hwaiting =>
          have hnot : ¬s.Holds o := by simp [Holds, hwaiting]
          split at hs
          · next hready => exact (htry o hready hnot (Option.some.inj hs)).imp_right .inl
          · split at hs
            · exact .inl ⟨o, .alive false, hnot, by simp, (Option.some.inj hs).symm⟩
            · exact .inr (.inr (.inr (.inl (Option.some.inj hs).symm)))
      · cases hs
  | destroy o =>
      simp only [step] at hs
      split at hs
      · cases hs
      · cases hs
      · next is_locked_ halive =>
          cases is_locked_ with
          | true => exact .inr (.inr (.inl ⟨o, halive, (Option.some.inj hs).symm⟩))
          | false =>
              refine .inl ⟨o, .absent, ?_, by simp, (Option.some.inj hs).symm⟩
              simp [Holds, halive]
  | stopWaiting => exact .inr (.inr (.inr (.inr ⟨rfl, (Option.some.inj hs).symm⟩)))
  | reset => exact absurd rfl he

omit [DecidableEq Scope] in
theorem Exclusive.congr (h : Exclusive s) (hlocked : s'.locked_ = s.locked_)
    (hholds : ∀ o, s'.Holds o ↔ s.Holds o) : Exclusive s' := by
  refine ⟨fun o o' ho ho' => h.unique o o' ((hholds o).mp ho) ((hholds o').mp ho'), ?_⟩
  rw [hlocked, h.locked_iff]
  exact exists_congr fun o => (hholds o).symm

omit [DecidableEq Scope] in
/-- With the flag down nobody has the lock. -/
theorem Exclusive.not_holds (h : Exclusive s) (hfree : s.locked_ = false) (o : Scope) :
    ¬s.Holds o := by
  intro ho
  have hlocked := h.locked_iff.mpr ⟨o, ho⟩
  rw [hfree] at hlocked
  cases hlocked

omit [DecidableEq Scope] in
theorem exclusive_of_none (hfree : s.locked_ = false) (hnone : ∀ o, ¬s.Holds o) :
    Exclusive s := by
  refine ⟨fun o _ ho => absurd ho (hnone o), ?_⟩
  rw [hfree]
  exact iff_of_false (by simp) fun ⟨o, ho⟩ => hnone o ho

theorem Exclusive.step {e : LockEvent Scope} (h : Exclusive s) (hs : s.step e = some s')
    (he : e ≠ .reset) : Exclusive s' := by
  rcases step_cases hs he with ⟨o, p, hnot, hp, rfl⟩ | ⟨o, hfree, -, rfl⟩ | ⟨o, ho, rfl⟩ |
    rfl | ⟨-, rfl⟩
  · exact h.congr rfl (holds_update_of_not hnot hp)
  · have holds (o' : Scope) : (⟨true, s.stop_, update s.phase o (.alive true)⟩ :
        FileInfoLock Scope).Holds o' ↔ o' = o := by
      rw [holds_update]
      split
      · next h => exact iff_of_true rfl h
      · next hne => exact iff_of_false (h.not_holds hfree o') hne
    refine ⟨fun o₁ o₂ h₁ h₂ => ?_, iff_of_true rfl ⟨o, (holds o).mpr rfl⟩⟩
    rw [(holds o₁).mp h₁, (holds o₂).mp h₂]
  · refine exclusive_of_none rfl fun o' ho' => ?_
    rw [holds_update] at ho'
    split at ho'
    · cases ho'
    · next hne => exact hne (h.unique o' o ho' ho)
  · exact h
  · exact h.congr rfl fun _ => Iff.rfl

omit [DecidableEq Scope] in
/-- `Reset` takes the flag down, whoever has the lock. -/
theorem exclusive_reset : Exclusive { s with stop_ := false, locked_ := false } ↔
    ∀ o, ¬s.Holds o :=
  ⟨fun h => h.not_holds rfl, fun h => exclusive_of_none rfl h⟩

theorem exclusive_next {e : LockEvent Scope} (h : Exclusive s) :
    Exclusive (s.next e) ↔ ResetsFree s e := by
  by_cases he : e = .reset
  · subst he
    rw [ResetsFree, imp_iff_right rfl]
    exact exclusive_reset
  · refine iff_of_true ?_ fun h => absurd h he
    rw [next]
    cases hs : s.step e with
    | none => exact h
    | some s' => exact h.step hs he

/-! ## Stopping -/

/-- Up by `StopWaiting`, down by `Reset`, and not touched otherwise. -/
theorem stop_next (s : FileInfoLock Scope) (e : LockEvent Scope) :
    (s.next e).stop_ = true ↔ e = .stopWaiting ∨ e ≠ .reset ∧ s.stop_ = true := by
  cases e with
  | stopWaiting => exact iff_of_true rfl (.inl rfl)
  | reset => exact iff_of_false (by simp [next, step]) (by simp)
  | construct o | wake o expired | destroy o =>
      rw [next]
      cases hs : s.step _ with
      | none => simp
      | some s' =>
          have hsame : s'.stop_ = s.stop_ := by
            rcases step_cases hs (by simp) with ⟨o, p, -, -, rfl⟩ | ⟨o, -, -, rfl⟩ |
              ⟨o, -, rfl⟩ | rfl | ⟨he, -⟩
            · rfl
            · rfl
            · rfl
            · rfl
            · cases he
          simp [hsame]

omit [DecidableEq Scope] in
theorem stopped_append {pre : List (LockEvent Scope)} {e : LockEvent Scope} :
    Stopped (pre ++ [e]) ↔ e = .stopWaiting ∨ e ≠ .reset ∧ Stopped pre := by
  constructor
  · rintro ⟨before, after, heq, hreset⟩
    rcases List.eq_nil_or_concat after with rfl | ⟨after, e', rfl⟩
    · exact .inl (List.singleton_inj.mp (List.append_inj' heq rfl).2)
    · rw [List.concat_eq_append] at heq hreset
      rw [← List.cons_append, ← List.append_assoc] at heq
      obtain ⟨rfl, he⟩ := List.append_inj' heq rfl
      rw [List.mem_append, not_or, List.mem_singleton] at hreset
      refine .inr ⟨?_, before, after, rfl, hreset.1⟩
      rw [List.singleton_inj.mp he]
      exact fun h => hreset.2 h.symm
  · rintro (rfl | ⟨he, before, after, rfl, hreset⟩)
    · exact ⟨pre, [], rfl, List.not_mem_nil⟩
    · refine ⟨before, after ++ [e], by simp, ?_⟩
      simp [hreset, he.symm]

theorem stop_iff (events : List (LockEvent Scope)) :
    (after events : FileInfoLock Scope).stop_ = true ↔ Stopped events := by
  induction events using List.reverseRecOn with
  | nil => exact iff_of_false (by simp [after, new]) fun ⟨before, after, h, _⟩ => by simp at h
  | append_singleton pre e ih =>
      rw [after, List.foldl_append, stopped_append, ← ih]
      exact stop_next _ e

/-- Nobody gets the lock while `stop_` is up. -/
theorem holds_of_stop (hstop : s.stop_ = true) {e : LockEvent Scope} (h : (s.next e).Holds o) :
    s.Holds o := by
  by_cases he : e = .reset
  · subst he
    exact h
  · rw [next] at h
    cases hs : s.step e with
    | none => rwa [hs] at h
    | some s' =>
        rw [hs, Option.getD_some] at h
        rcases step_cases hs he with ⟨o', p, hnot, hp, rfl⟩ | ⟨o', -, hdown, -⟩ |
          ⟨o', ho', rfl⟩ | rfl | ⟨-, rfl⟩
        · exact (holds_update_of_not hnot hp o).mp h
        · rw [hstop] at hdown
          cases hdown
        · rw [holds_update] at h
          split at h
          · cases h
          · exact h
        · exact h
        · exact h

omit [DecidableEq Scope] in
theorem exclusive_new : Exclusive (new : FileInfoLock Scope) :=
  exclusive_of_none rfl fun _ h => by cases h

/-- The lock excludes, in every order of events, exactly when every `Reset`
comes while it is free. -/
theorem mutualExclusion_iff (events : List (LockEvent Scope)) :
    MutualExclusion events ↔ Meets next ResetsFree events (new : FileInfoLock Scope) := by
  have hexclusive := @throughout_iff_meets (FileInfoLock Scope) _ next (fun _ => True) Exclusive
    ResetsFree (fun _ _ _ _ => trivial) (fun s e _ h => exclusive_next h) events new trivial
    exclusive_new
  rw [← hexclusive]
  refine ⟨fun h => h.exclusive, fun h => ⟨h, fun pre e _ hstopped o ho => ?_⟩⟩
  rw [after, List.foldl_append] at ho
  exact holds_of_stop ((stop_iff pre).mpr hstopped) ho

/-- Two scopes have the lock after a `Reset` under the first. -/
theorem reset_breaks_exclusion : ¬∀ events : List (LockEvent ℕ), MutualExclusion events := by
  intro hall
  have hlast := throughout_iff_foldl.mp
    (hall [.construct 0, .reset, .construct 1]).exclusive _ List.prefix_rfl
  exact absurd (hlast.unique 0 1 (by decide) (by decide)) (by decide)

end FileInfoLock

end FileHub
