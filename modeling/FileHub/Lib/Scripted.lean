import FileHub.Lib.Prog

/-!
# Runs along a script

The choices of a run stand in a script before it starts, the first for its first
call. `Along Q p ω s` says that the run of `p` from `s` along `ω`, if it
returns, does so in `Q`, which sees the result, the state and what is left of
the script. A run that gets stuck makes no claim.

A condition on the script is a condition on the environment: it says how the
first, the second or the fifth call goes, whatever call that is.
-/

namespace FileHub.Lib

namespace Prog

variable {Call : Type} {Resp : Call → Type} {α β S A : Type}

/-- What is left of a script after `n` calls. -/
def after (n : ℕ) (ω : ℕ → A) : ℕ → A := fun i => ω (i + n)

theorem after_apply (n i : ℕ) (ω : ℕ → A) : after n ω i = ω (i + n) := rfl

theorem after_after (m n : ℕ) (ω : ℕ → A) : after m (after n ω) = after (m + n) ω :=
  funext fun i => congrArg ω (Nat.add_assoc i m n)

/-- If the run returns, it does so in `Q`. -/
def Along (step : (c : Call) → A → S → Option (Resp c × S)) (Q : α → S → (ℕ → A) → Prop)
    (p : Prog Call Resp α) (ω : ℕ → A) (s : S) : Prop :=
  match exec step ω p s with
  | ⟨some a, s', ω'⟩ => Q a s' ω'
  | ⟨none, _, _⟩ => True

variable {step : (c : Call) → A → S → Option (Resp c × S)} {ω : ℕ → A} {s : S}
  {p : Prog Call Resp α}

@[simp] theorem along_ret (Q : α → S → (ℕ → A) → Prop) (a : α) :
    Along step Q (.ret a : Prog Call Resp α) ω s ↔ Q a s ω := Iff.rfl

theorem along_call (Q : α → S → (ℕ → A) → Prop) (c : Call) (k : Resp c → Prog Call Resp α) :
    Along step Q (.call c k) ω s ↔
      ∀ r s', step c (ω 0) s = some (r, s') → Along step Q (k r) (after 1 ω) s' := by
  rw [Along, exec_call]
  cases step c (ω 0) s with
  | none => exact iff_of_true trivial nofun
  | some rs =>
      obtain ⟨r, s'⟩ := rs
      exact ⟨fun h r' s'' heq => by cases heq; exact h, fun h => h r s' rfl⟩

theorem along_ask (c : Call) (Q : Resp c → S → (ℕ → A) → Prop) :
    Along step Q (ask c) ω s ↔ ∀ r s', step c (ω 0) s = some (r, s') → Q r s' (after 1 ω) :=
  along_call Q c .ret

theorem along_bind (Q : β → S → (ℕ → A) → Prop) (f : α → Prog Call Resp β) :
    Along step Q (p >>= f) ω s ↔
      Along step (fun a s' ω' => Along step Q (f a) ω' s') p ω s := by
  rw [Along, Along, exec_bind]
  match exec step ω p s with
  | ⟨some a, s', ω'⟩ | ⟨none, s', ω'⟩ => rfl

theorem Along.mono {Q R : α → S → (ℕ → A) → Prop} (hQR : ∀ a s ω, Q a s ω → R a s ω)
    (h : Along step Q p ω s) : Along step R p ω s := by
  rw [Along] at h ⊢
  split
  · next hrun =>
      rw [hrun] at h
      exact hQR _ _ _ h
  · trivial

/-- What a run that returned ended in. -/
theorem Along.returned {Q : α → S → (ℕ → A) → Prop} (h : Along step Q p ω s) {a : α}
    (hres : (exec step ω p s).res = some a) :
    Q a (exec step ω p s).st (exec step ω p s).rest := by
  rw [Along] at h
  match hrun : exec step ω p s with
  | ⟨some b, s', ω'⟩ =>
      rw [hrun] at h hres
      cases hres
      exact h
  | ⟨none, _, _⟩ =>
      rw [hrun] at hres
      cases hres

end Prog

end FileHub.Lib
