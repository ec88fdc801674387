import Mathlib.Data.Option.Basic

/-!
# Components that refine their specification

A component answers calls one after the other; a call outside its contract has
no answer. `Refines` says that a component answers as its specification does
wherever the specification answers at all, states being related by `R`. Since
the relation is kept by every call, it is kept by every sequence of calls.
-/

namespace FileHub.Lib

variable {σ τ κ β : Type*}

/-- The answers to a sequence of calls. -/
def runCalls (step : σ → κ → Option (β × σ)) : σ → List κ → Option (List β × σ)
  | s, [] => some ([], s)
  | s, call :: calls =>
      (step s call).bind fun r =>
        (runCalls step r.2 calls).map fun rest => (r.1 :: rest.1, rest.2)

/-- `step` keeps the contract that `spec` states. -/
structure Refines (R : σ → τ → Prop) (step : σ → κ → Option (β × σ))
    (spec : τ → κ → Option (β × τ)) : Prop where
  answers : ∀ {s t call out t'}, R s t → spec t call = some (out, t') →
    ∃ s', step s call = some (out, s') ∧ R s' t'

theorem Refines.runCalls {R : σ → τ → Prop} {step : σ → κ → Option (β × σ)}
    {spec : τ → κ → Option (β × τ)} (href : Refines R step spec) {calls : List κ} :
    ∀ {s t outs t'}, R s t → runCalls spec t calls = some (outs, t') →
      ∃ s', runCalls step s calls = some (outs, s') ∧ R s' t' := by
  induction calls with
  | nil =>
    intro s t outs t' hrel hrun
    cases hrun
    exact ⟨s, rfl, hrel⟩
  | cons call calls ih =>
    intro s t outs t' hrel hrun
    obtain ⟨⟨out, t₁⟩, hcall, hrest⟩ := Option.bind_eq_some_iff.1 hrun
    obtain ⟨⟨outs', t₂⟩, hcalls, heq⟩ := Option.map_eq_some_iff.1 hrest
    cases heq
    obtain ⟨s₁, hstep, hrel₁⟩ := href.answers hrel hcall
    obtain ⟨s', hsteps, hrel'⟩ := ih hrel₁ hcalls
    refine ⟨s', ?_, hrel'⟩
    simp only [Lib.runCalls, hstep, hsteps, Option.bind_some, Option.map_some]

end FileHub.Lib
