import FileHub.Lib.Prog

/-!
# Calls bounded by the answers so far

`Prog.Uses` bounds the calls a program makes whatever it is answered. `Issues`
bounds them by the answers: as long as every answer satisfies `R`, every call
is in `P` and the result is in `Q`. A call may then carry what an earlier one
gave, if `R` says enough of it. Where the result does not matter, the program
`Asks`.
-/

namespace FileHub.Lib.Prog

variable {Call : Type} {Resp : Call → Type} {α β : Type}

/-- As long as the answers satisfy `R`, every call satisfies `P`, and what is
returned satisfies `Q`. -/
def Issues (P : Call → Prop) (R : (c : Call) → Resp c → Prop) (Q : α → Prop) :
    Prog Call Resp α → Prop
  | .ret a => Q a
  | .call c k => P c ∧ ∀ r, R c r → Issues P R Q (k r)

abbrev Asks (P : Call → Prop) (R : (c : Call) → Resp c → Prop) (p : Prog Call Resp α) : Prop :=
  Issues P R (fun _ => True) p

variable {P : Call → Prop} {R : (c : Call) → Resp c → Prop} {Q : α → Prop} {Q' : β → Prop}
  {p : Prog Call Resp α} {f : α → Prog Call Resp β}

@[simp] theorem issues_ret {a : α} : Issues P R Q (.ret a : Prog Call Resp α) ↔ Q a := Iff.rfl

theorem issues_ask {c : Call} (hc : P c) : Issues P R (R c) (ask c) := ⟨hc, fun _ hr => hr⟩

theorem Issues.mono {Q' : α → Prop} (hQ : ∀ a, Q a → Q' a) (h : Issues P R Q p) :
    Issues P R Q' p := by
  induction p with
  | ret a => exact hQ a h
  | call c k ih => exact ⟨h.1, fun r hr => ih r (h.2 r hr)⟩

theorem Issues.bind (hp : Issues P R Q p) (hf : ∀ a, Q a → Issues P R Q' (f a)) :
    Issues P R Q' (p >>= f) := by
  induction p with
  | ret a => exact hf a hp
  | call c k ih => exact ⟨hp.1, fun r hr => ih r (hp.2 r hr)⟩

theorem Asks.bind (hp : Asks P R p) (hf : ∀ a, Issues P R Q' (f a)) :
    Issues P R Q' (p >>= f) :=
  Issues.bind hp fun a _ => hf a

/-- A program that may only make calls in `P` anyway. -/
theorem Uses.asks (hp : p.Uses P) : Asks P R p := by
  induction p with
  | ret a => trivial
  | call c k ih => exact ⟨hp.1, fun r _ => ih r (hp.2 r)⟩

/-- Where nothing is asked of the answers. -/
theorem Asks.uses (hp : Asks P (fun _ _ => True) p) : p.Uses P := by
  induction p with
  | ret a => trivial
  | call c k ih => exact ⟨hp.1, fun r => ih r (hp.2 r trivial)⟩

end FileHub.Lib.Prog
