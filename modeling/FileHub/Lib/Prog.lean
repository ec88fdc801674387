import Mathlib.Data.List.Basic
import Mathlib.Logic.Relation

/-!
# Programs that call an environment

A handler does nothing but compute between calls to something outside it: a
statement sent to a database, a command sent to a cache, a lock. `Prog` keeps
exactly that shape. A program has either returned or is waiting for the answer
to one call, and the answer decides what is left of it. The type of an answer
depends on the call, so a call that never returns is one whose answers form
the empty type.

Nothing here knows what the calls mean. A meaning is a function `step` that
takes a call, the environment's choice `A` for it and a state, and gives the
answer with the next state, or `none` when the call cannot proceed. One program
then has several readings: run alone on a script of choices (`exec`), or
interleaved with others (`FileHub.Lib.Pool`).

Two predicates carry most proofs. `Uses` bounds the calls a program may make
whatever it is answered, so a property of every permitted call is a property of
every run. `Wp` is what a program ensures of its result and the state it
leaves, for every run whose choices are permitted; it goes through a bind, so a
function of the source is reasoned about once and its callers quote the result.
-/

namespace FileHub.Lib

/-- A program over the calls `Call`, the answers to `c` being `Resp c`. -/
inductive Prog (Call : Type) (Resp : Call → Type) (α : Type) : Type where
  | ret (a : α) : Prog Call Resp α
  | call (c : Call) (k : Resp c → Prog Call Resp α) : Prog Call Resp α

namespace Prog

variable {Call : Type} {Resp : Call → Type} {α β γ : Type}

def bind : Prog Call Resp α → (α → Prog Call Resp β) → Prog Call Resp β
  | .ret a, f => f a
  | .call c k, f => .call c fun r => (k r).bind f

instance : Monad (Prog Call Resp) where
  pure := .ret
  bind := Prog.bind

/-- What the program has returned, if it has. -/
def result? : Prog Call Resp α → Option α
  | .ret a => some a
  | .call .. => none

/-- Make one call and return its answer. -/
def ask (c : Call) : Prog Call Resp (Resp c) := .call c .ret

@[simp] theorem pure_eq (a : α) : (pure a : Prog Call Resp α) = .ret a := rfl

@[simp] theorem ret_bind (a : α) (f : α → Prog Call Resp β) :
    (Prog.ret a >>= f) = f a := rfl

@[simp] theorem call_bind (c : Call) (k : Resp c → Prog Call Resp α)
    (f : α → Prog Call Resp β) :
    (Prog.call c k >>= f) = .call c fun r => k r >>= f := rfl

@[simp] theorem ask_bind (c : Call) (f : Resp c → Prog Call Resp β) :
    (ask c >>= f) = .call c f := rfl

@[simp] theorem ite_bind {p : Prop} [Decidable p] (x y : Prog Call Resp α)
    (f : α → Prog Call Resp β) :
    ((if p then x else y) >>= f) = if p then x >>= f else y >>= f := by
  split <;> rfl

theorem bind_assoc (p : Prog Call Resp α) (f : α → Prog Call Resp β)
    (g : β → Prog Call Resp γ) : (p >>= f) >>= g = p >>= fun a => f a >>= g := by
  induction p with
  | ret a => rfl
  | call c k ih =>
      rw [call_bind, call_bind, call_bind]
      exact congrArg _ (funext ih)

theorem bind_ret (p : Prog Call Resp α) : p >>= Prog.ret = p := by
  induction p with
  | ret a => rfl
  | call c k ih =>
      rw [call_bind]
      exact congrArg _ (funext ih)

instance : LawfulMonad (Prog Call Resp) :=
  LawfulMonad.mk' _ bind_ret (fun _ _ => rfl) bind_assoc

/-! ## Running one program on its own -/

variable {S A : Type}

/-- How a run ended: what the program returned, if it did, the state it left
and the choices it has not consumed. A run that gets stuck (a call that cannot
proceed) returns nothing and leaves the state of the stuck call. -/
structure Outcome (S A α : Type) where
  res : Option α
  st : S
  rest : ℕ → A

/-- Run a program alone, answering its calls by `step` under the choices `ω`. -/
def exec (step : (c : Call) → A → S → Option (Resp c × S)) (ω : ℕ → A) :
    Prog Call Resp α → S → Outcome S A α
  | .ret a, s => ⟨some a, s, ω⟩
  | .call c k, s =>
      match step c (ω 0) s with
      | none => ⟨none, s, ω⟩
      | some (r, s') => exec step (fun n => ω (n + 1)) (k r) s'

/-- The states before and after each call a run made. -/
def moves (step : (c : Call) → A → S → Option (Resp c × S)) (ω : ℕ → A) :
    Prog Call Resp α → S → List (S × S)
  | .ret _, _ => []
  | .call c k, s =>
      match step c (ω 0) s with
      | none => []
      | some (r, s') => (s, s') :: moves step (fun n => ω (n + 1)) (k r) s'

/-- The calls a run made, each with the choice that answered it. -/
def trace (step : (c : Call) → A → S → Option (Resp c × S)) (ω : ℕ → A) :
    Prog Call Resp α → S → List (Call × A)
  | .ret _, _ => []
  | .call c k, s =>
      match step c (ω 0) s with
      | none => []
      | some (r, s') => (c, ω 0) :: trace step (fun n => ω (n + 1)) (k r) s'

variable {step : (c : Call) → A → S → Option (Resp c × S)}

@[simp] theorem exec_ret (ω : ℕ → A) (a : α) (s : S) :
    exec step ω (.ret a) s = ⟨some a, s, ω⟩ := rfl

theorem exec_call (ω : ℕ → A) (c : Call) (k : Resp c → Prog Call Resp α) (s : S) :
    exec step ω (.call c k) s =
      match step c (ω 0) s with
      | none => ⟨none, s, ω⟩
      | some (r, s') => exec step (fun n => ω (n + 1)) (k r) s' := by
  rw [exec]

theorem exec_call_some {ω : ℕ → A} {c : Call} {k : Resp c → Prog Call Resp α}
    {s s' : S} {r : Resp c} (h : step c (ω 0) s = some (r, s')) :
    exec step ω (.call c k) s = exec step (fun n => ω (n + 1)) (k r) s' := by
  rw [exec_call, h]

/-- Running a bind is running its two halves in order. -/
theorem exec_bind (ω : ℕ → A) (p : Prog Call Resp α) (f : α → Prog Call Resp β)
    (s : S) :
    exec step ω (p >>= f) s =
      match exec step ω p s with
      | ⟨some a, s', ω'⟩ => exec step ω' (f a) s'
      | ⟨none, s', ω'⟩ => ⟨none, s', ω'⟩ := by
  induction p generalizing ω s with
  | ret a => rfl
  | call c k ih =>
      rw [call_bind, exec_call, exec_call]
      cases step c (ω 0) s with
      | none => rfl
      | some rs => exact ih rs.1 (fun n => ω (n + 1)) rs.2

theorem exec_bind_some {ω ω' : ℕ → A} {p : Prog Call Resp α}
    {f : α → Prog Call Resp β} {s s' : S} {a : α}
    (h : exec step ω p s = ⟨some a, s', ω'⟩) :
    exec step ω (p >>= f) s = exec step ω' (f a) s' := by
  rw [exec_bind, h]

/-- Choices left over by a run are among those it was given. -/
theorem exec_rest (ω : ℕ → A) (p : Prog Call Resp α) (s : S) :
    ∃ n, (exec step ω p s).rest = fun i => ω (i + n) := by
  induction p generalizing ω s with
  | ret a => exact ⟨0, rfl⟩
  | call c k ih =>
      rw [exec_call]
      cases step c (ω 0) s with
      | none => exact ⟨0, rfl⟩
      | some rs =>
          obtain ⟨n, hn⟩ := ih rs.1 (fun i => ω (i + 1)) rs.2
          exact ⟨n + 1, by simp only [hn, Nat.add_assoc]⟩

/-! ## The calls a program may make -/

/-- Every call the program can reach, whatever it is answered, satisfies `P`. -/
def Uses (P : Call → Prop) : Prog Call Resp α → Prop
  | .ret _ => True
  | .call c k => P c ∧ ∀ r, Uses P (k r)

@[simp] theorem uses_ret (P : Call → Prop) (a : α) :
    Uses P (Prog.ret a : Prog Call Resp α) := trivial

@[simp] theorem uses_pure (P : Call → Prop) (a : α) :
    Uses P (pure a : Prog Call Resp α) := trivial

@[simp] theorem uses_call {P : Call → Prop} {c : Call}
    {k : Resp c → Prog Call Resp α} :
    Uses P (.call c k) ↔ P c ∧ ∀ r, Uses P (k r) := Iff.rfl

theorem Uses.bind {P : Call → Prop} {p : Prog Call Resp α}
    {f : α → Prog Call Resp β} (hp : Uses P p) (hf : ∀ a, Uses P (f a)) :
    Uses P (p >>= f) := by
  induction p with
  | ret a => exact hf a
  | call c k ih => exact ⟨hp.1, fun r => ih r (hp.2 r)⟩

theorem Uses.mono {P Q : Call → Prop} (hPQ : ∀ c, P c → Q c)
    {p : Prog Call Resp α} (hp : Uses P p) : Uses Q p := by
  induction p with
  | ret a => trivial
  | call c k ih => exact ⟨hPQ c hp.1, fun r => ih r (hp.2 r)⟩

/-- What every permitted call preserves, a run preserves. -/
theorem Uses.exec {P : Call → Prop} {I : S → Prop}
    (hstep : ∀ c a s r s', P c → I s → step c a s = some (r, s') → I s')
    {p : Prog Call Resp α} (hp : Uses P p) (ω : ℕ → A) {s : S} (hs : I s) :
    I (Prog.exec step ω p s).st := by
  induction p generalizing ω s with
  | ret a => exact hs
  | call c k ih =>
      rw [exec_call]
      cases h : step c (ω 0) s with
      | none => exact hs
      | some rs => exact ih rs.1 (hp.2 rs.1) _ (hstep c _ s rs.1 rs.2 hp.1 hs h)

/-- What every permitted call does, each call of a run does. -/
theorem Uses.moves {P : Call → Prop} {R : S → S → Prop}
    (hstep : ∀ c a s r s', P c → step c a s = some (r, s') → R s s')
    {p : Prog Call Resp α} (hp : Uses P p) (ω : ℕ → A) (s : S) :
    ∀ m ∈ Prog.moves step ω p s, R m.1 m.2 := by
  induction p generalizing ω s with
  | ret a =>
      intro m hm
      cases hm
  | call c k ih =>
      intro m hm
      rw [Prog.moves] at hm
      split at hm
      · cases hm
      · next r s' hs =>
          rcases List.mem_cons.mp hm with rfl | hm
          · exact hstep c _ s r s' hp.1 hs
          · exact ih r (hp.2 r) _ s' m hm

/-- The calls of a bind are those of its two halves. -/
theorem moves_bind (ω : ℕ → A) (p : Prog Call Resp α) (f : α → Prog Call Resp β) (s : S) :
    Prog.moves step ω (p >>= f) s = Prog.moves step ω p s ++
      match Prog.exec step ω p s with
      | ⟨some a, s', ω'⟩ => Prog.moves step ω' (f a) s'
      | ⟨none, _, _⟩ => [] := by
  induction p generalizing ω s with
  | ret a => rfl
  | call c k ih =>
      rw [call_bind, Prog.moves, Prog.moves, exec_call]
      cases step c (ω 0) s with
      | none => rfl
      | some rs => exact congrArg _ (ih rs.1 _ rs.2)

/-! ## What every run ensures -/

/-- Run from `s` under choices that all satisfy `F`, the program returns `a` and
leaves `s'` with `Q a s'`, or gets stuck in a state that satisfies `E`. -/
def Wp (step : (c : Call) → A → S → Option (Resp c × S)) (F : A → Prop)
    (E : S → Prop) (Q : α → S → Prop) : Prog Call Resp α → S → Prop
  | .ret a, s => Q a s
  | .call c k, s => ∀ a, F a →
      match step c a s with
      | none => E s
      | some (r, s') => Wp step F E Q (k r) s'

variable {F : A → Prop} {E : S → Prop}

@[simp] theorem wp_ret (Q : α → S → Prop) (a : α) (s : S) :
    Wp step F E Q (.ret a : Prog Call Resp α) s ↔ Q a s := Iff.rfl

theorem wp_call (Q : α → S → Prop) (c : Call) (k : Resp c → Prog Call Resp α) (s : S) :
    Wp step F E Q (.call c k) s ↔
      ∀ a, F a → match step c a s with
        | none => E s
        | some (r, s') => Wp step F E Q (k r) s' := Iff.rfl

@[simp] theorem wp_bind (Q : β → S → Prop) (p : Prog Call Resp α)
    (f : α → Prog Call Resp β) (s : S) :
    Wp step F E Q (p >>= f) s ↔ Wp step F E (fun a s' => Wp step F E Q (f a) s') p s := by
  induction p generalizing s with
  | ret a => rfl
  | call c k ih =>
      rw [call_bind, wp_call, wp_call]
      refine forall_congr' fun a => imp_congr_right fun _ => ?_
      cases step c a s with
      | none => rfl
      | some rs => exact ih rs.1 rs.2

/-- A call whose answer is the same under every permitted choice. -/
theorem wp_ask_of_step {c : Call} {r : Resp c} {s s' : S} (hF : ∃ a, F a)
    (h : ∀ a, F a → step c a s = some (r, s')) (Q : Resp c → S → Prop) :
    Wp step F E Q (ask c) s ↔ Q r s' := by
  obtain ⟨a₀, h₀⟩ := hF
  rw [ask, wp_call]
  constructor
  · intro hall
    have := hall a₀ h₀
    rwa [h a₀ h₀] at this
  · intro hQ a ha
    rw [h a ha]
    exact hQ

theorem Wp.mono {Q R : α → S → Prop} (hQR : ∀ a s, Q a s → R a s)
    {p : Prog Call Resp α} {s : S} (h : Wp step F E Q p s) : Wp step F E R p s := by
  induction p generalizing s with
  | ret a => exact hQR a s h
  | call c k ih =>
      rw [wp_call] at h ⊢
      intro a ha
      have := h a ha
      cases hstep : step c a s with
      | none => rwa [hstep] at this
      | some rs =>
          rw [hstep] at this
          exact ih rs.1 this

theorem Wp.mono_stuck {E' : S → Prop} (hE : ∀ s, E s → E' s) {Q : α → S → Prop}
    {p : Prog Call Resp α} {s : S} (h : Wp step F E Q p s) : Wp step F E' Q p s := by
  induction p generalizing s with
  | ret a => exact h
  | call c k ih =>
      rw [wp_call] at h ⊢
      intro a ha
      have := h a ha
      cases hstep : step c a s with
      | none =>
          rw [hstep] at this
          exact hE s this
      | some rs =>
          rw [hstep] at this
          exact ih rs.1 this

/-- The run of a program along one script of permitted choices. -/
theorem Wp.exec {Q : α → S → Prop} {p : Prog Call Resp α} {s : S} (h : Wp step F E Q p s)
    (ω : ℕ → A) (hω : ∀ n, F (ω n)) :
    match Prog.exec step ω p s with
    | ⟨none, s', _⟩ => E s'
    | ⟨some a, s', _⟩ => Q a s' := by
  induction p generalizing ω s with
  | ret a => exact h
  | call c k ih =>
      have := h (ω 0) (hω 0)
      rw [exec_call]
      cases hstep : step c (ω 0) s with
      | none => rwa [hstep] at this
      | some rs =>
          rw [hstep] at this
          exact ih rs.1 this _ fun n => hω (n + 1)

/-- A run that cannot get stuck returns. -/
theorem Wp.returns {Q : α → S → Prop} {p : Prog Call Resp α} {s : S}
    (h : Wp step F (fun _ => False) Q p s) {ω : ℕ → A} (hω : ∀ n, F (ω n)) :
    ∃ a, (Prog.exec step ω p s).res = some a ∧ Q a (Prog.exec step ω p s).st := by
  have hrun := h.exec ω hω
  match hexec : Prog.exec step ω p s with
  | ⟨none, _, _⟩ =>
      rw [hexec] at hrun
      exact hrun.elim
  | ⟨some a, _, _⟩ =>
      rw [hexec] at hrun
      exact ⟨a, rfl, hrun⟩

/-- What holds of the state however the program ends. -/
theorem Wp.st {P : S → Prop} {p : Prog Call Resp α} {s : S}
    (h : Wp step F P (fun _ s' => P s') p s) {ω : ℕ → A} (hω : ∀ n, F (ω n)) :
    P (Prog.exec step ω p s).st := by
  have hrun := h.exec ω hω
  match hexec : Prog.exec step ω p s with
  | ⟨none, s', _⟩ | ⟨some _, s', _⟩ =>
      rw [hexec] at hrun
      exact hrun

end Prog

end FileHub.Lib
