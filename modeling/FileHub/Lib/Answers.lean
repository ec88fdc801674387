import FileHub.Lib.Prog

/-!
# Programs under arbitrary answers

What a program does whatever it is answered needs no model of what it calls.
`answer` is the environment that gives any reply at all and writes it down; the
only calls it refuses are the fatal ones, which nothing follows. Every run of
any other environment that refuses those is one of its runs (`answered`), so
what holds of all of them holds under every state, every failure and every
interference of others.

`Returns` is for the properties of a result that do not even depend on what
was answered.
-/

namespace FileHub.Lib.Prog

variable {Call : Type} {Resp : Call → Type} {α β S A : Type}

/-- Whatever it is answered, the program returns nothing but what satisfies `P`. -/
inductive Returns (P : α → Prop) : Prog Call Resp α → Prop where
  | ret {a} (h : P a) : Returns P (.ret a)
  | call {c k} (h : ∀ r, Returns P (k r)) : Returns P (.call c k)

theorem returns_pure {P : α → Prop} {a : α} (h : P a) :
    Returns P (pure a : Prog Call Resp α) := .ret h

theorem returns_any (p : Prog Call Resp α) : Returns (fun _ => True) p := by
  induction p with
  | ret a => exact .ret trivial
  | call c k ih => exact .call ih

theorem Returns.bind {P : α → Prop} {Q : β → Prop} {p : Prog Call Resp α}
    {f : α → Prog Call Resp β} (hp : Returns P p) (hf : ∀ a, P a → Returns Q (f a)) :
    Returns Q (p >>= f) := by
  induction hp with
  | ret h => exact hf _ h
  | call _ ih => exact .call ih

/-- A bind returns what its second half does. -/
theorem returns_bind {Q : β → Prop} {p : Prog Call Resp α} {f : α → Prog Call Resp β}
    (hf : ∀ a, Returns Q (f a)) : Returns Q (p >>= f) :=
  (returns_any p).bind fun a _ => hf a

/-! ## The environment that answers anything -/

/-- What was asked and answered, the latest first. -/
abbrev Log (Resp : Call → Type) : Type := List (Σ c, Resp c)

/-- An answer ready for every call that is not fatal. -/
abbrev Answer (Resp : Call → Type) (fatal : Call → Prop) : Type :=
  (c : Call) → ¬ fatal c → Resp c

variable {fatal : Call → Prop} [DecidablePred fatal]

def answer (c : Call) (a : Answer Resp fatal) (log : Log Resp) :
    Option (Resp c × Log Resp) :=
  if h : fatal c then none else some (a c h, ⟨c, a c h⟩ :: log)

theorem answer_of_not_fatal {c : Call} (hc : ¬ fatal c) (a : Answer Resp fatal)
    (log : Log Resp) : answer c a log = some (a c hc, ⟨c, a c hc⟩ :: log) := by
  rw [answer, dif_neg hc]

theorem answer_of_fatal {c : Call} (hc : fatal c) (a : Answer Resp fatal)
    (log : Log Resp) : answer c a log = none := by
  rw [answer, dif_pos hc]

section Rules

variable {F : Answer Resp fatal → Prop} {E : Log Resp → Prop} {log : Log Resp}

/-- To reason about a call, whatever permitted answer it gets. -/
theorem wp_answer {c : Call} (hc : ¬ fatal c) {Q : Resp c → Log Resp → Prop}
    (h : ∀ a : Answer Resp fatal, F a → Q (a c hc) (⟨c, a c hc⟩ :: log)) :
    Wp answer F E Q (ask c) log := by
  intro a ha
  rw [answer_of_not_fatal hc]
  exact h a ha

theorem wp_answer_fatal {c : Call} (hc : fatal c) {k : Resp c → Prog Call Resp α}
    {Q : α → Log Resp → Prop} (hE : E log) : Wp answer F E Q (.call c k) log := by
  intro a _
  rw [answer_of_fatal hc]
  exact hE

/-- A result that does not depend on the answers. -/
theorem Returns.wp {P : α → Prop} {p : Prog Call Resp α} (h : Returns P p) :
    Wp answer F (fun _ => True) (fun a _ => P a) p log := by
  induction h generalizing log with
  | ret h => exact h
  | @call c k _ ih =>
      intro a _
      by_cases hc : fatal c
      · rw [answer_of_fatal hc]
        trivial
      · rw [answer_of_not_fatal hc]
        exact ih _

end Rules

/-- A run in another environment that refuses the fatal calls is a run under
the answers it got. -/
theorem answered {step : (c : Call) → A → S → Option (Resp c × S)}
    (hfatal : ∀ c a s, fatal c → step c a s = none) (base : Answer Resp fatal)
    {p : Prog Call Resp α} {ω : ℕ → A} {s : S} {a : α}
    (h : (exec step ω p s).res = some a) (log : Log Resp) :
    ∃ answers : ℕ → Answer Resp fatal, (exec answer answers p log).res = some a := by
  classical
  induction p generalizing ω s log with
  | ret b => exact ⟨fun _ => base, h⟩
  | call c k ih =>
      rw [exec_call] at h
      cases hstep : step c (ω 0) s with
      | none =>
          rw [hstep] at h
          cases h
      | some rs =>
          rw [hstep] at h
          have hc : ¬ fatal c := fun hc => by
            rw [hfatal c _ _ hc] at hstep
            cases hstep
          let first : Answer Resp fatal := fun c' hc' =>
            if e : c = c' then e ▸ rs.1 else base c' hc'
          have hfirst : first c hc = rs.1 := dif_pos rfl
          obtain ⟨rest, hrest⟩ := ih rs.1 h (⟨c, rs.1⟩ :: log)
          refine ⟨fun n => n.casesOn first rest, ?_⟩
          have hanswer : answer c first log = some (rs.1, ⟨c, rs.1⟩ :: log) := by
            rw [answer_of_not_fatal hc, hfirst]
          exact (congrArg Outcome.res (exec_call_some hanswer)).trans hrest

end FileHub.Lib.Prog
