import Mathlib.Algebra.BigOperators.Group.List.Basic
import Mathlib.Tactic.Abel
import FileHub.Lib.Prog

/-!
# Programs that share a state

A pool is a list of programs over one state. A step lets one of them make the
call it is waiting for; between two steps the state may also change on its own
(a key expires, a server restarts). Every interleaving of the programs is a
run of the pool, so a theorem about every run is a theorem about every
schedule. Each program carries a label, the request it was started for, which
no step changes.

Invariants over runs are proved one program at a time. The programs own
tokens, elements of a commutative monoid, and the invariant `I` relates the
state to the sum of all of them: "the counter is the number of rows plus the
tokens still to be turned into rows". `Safe` says that a program, given its
own tokens, keeps `I` at each of its steps whatever the others hold. Nothing
about the others is assumed but that their tokens add up with mine, so `Safe`
is proved by walking through one program, and `Accounted.reaches` puts the
programs together.

A guard `G` restricts the calls a run may make, on the state before the call
and the environment's choice for it; a theorem for guarded runs says what the
code does as long as every step meets the guard.
-/

namespace FileHub.Lib

open Prog

/-- Programs waiting to make their next call, each under its label, and the
state they share. -/
structure Pool (ρ : Type) (Call : Type) (Resp : Call → Type) (α S : Type) where
  threads : List (ρ × Prog Call Resp α)
  st : S

variable {ρ Call : Type} {Resp : Call → Type} {α β S A M : Type}

namespace Pool

/-- One step of a pool: a thread makes its call under the guard, or the state
moves by itself. -/
inductive Step (step : (c : Call) → A → S → Option (Resp c × S))
    (G : Call → A → S → Prop) (E : S → S → Prop) :
    Pool ρ Call Resp α S → Pool ρ Call Resp α S → Prop where
  | call {pre post l c k a r s s'} (hG : G c a s) (hs : step c a s = some (r, s')) :
      Step step G E ⟨pre ++ (l, .call c k) :: post, s⟩
        ⟨pre ++ (l, k r) :: post, s'⟩
  | env {ts s s'} (hE : E s s') : Step step G E ⟨ts, s⟩ ⟨ts, s'⟩

/-- Runs of a pool, of any length. -/
abbrev Reaches (step : (c : Call) → A → S → Option (Resp c × S))
    (G : Call → A → S → Prop) (E : S → S → Prop) :
    Pool ρ Call Resp α S → Pool ρ Call Resp α S → Prop :=
  Relation.ReflTransGen (Step step G E)

section Play

variable (step : (c : Call) → A → S → Option (Resp c × S)) (G : Call → A → S → Prop)
  [∀ c a s, Decidable (G c a s)]

/-- Let thread `i` make its call under the choice `a`, if the guard allows it. -/
def turn (i : ℕ) (a : A) (p : Pool ρ Call Resp α S) : Option (Pool ρ Call Resp α S) :=
  match p.threads[i]? with
  | some (l, .call c k) =>
      if G c a p.st then
        (step c a p.st).map fun rs => ⟨p.threads.set i (l, k rs.1), rs.2⟩
      else none
  | _ => none

/-- Follow a schedule: which thread moves, and under which choice. -/
def play : List (ℕ × A) → Pool ρ Call Resp α S → Option (Pool ρ Call Resp α S)
  | [], p => some p
  | (i, a) :: sched, p => (turn step G i a p).bind (play sched)

end Play

variable {step : (c : Call) → A → S → Option (Resp c × S)}
  {G : Call → A → S → Prop} {E : S → S → Prop}

theorem Reaches.mono {G' : Call → A → S → Prop} {E' : S → S → Prop}
    (hG : ∀ c a s, G c a s → G' c a s) (hE : ∀ s s', E s s' → E' s s')
    {p p' : Pool ρ Call Resp α S} (h : Reaches step G E p p') :
    Reaches step G' E' p p' := by
  refine Relation.ReflTransGen.mono (fun x y hxy => ?_) _ _ h
  cases hxy with
  | call hg hs => exact .call (hG _ _ _ hg) hs
  | env he => exact .env (hE _ _ he)

/-- No step changes what the threads were started for. -/
theorem Step.labels {p p' : Pool ρ Call Resp α S} (h : Step step G E p p') :
    p'.threads.map Prod.fst = p.threads.map Prod.fst := by
  cases h with
  | call => simp only [List.map_append, List.map_cons]
  | env => rfl

theorem Reaches.labels {p p' : Pool ρ Call Resp α S} (h : Reaches step G E p p') :
    p'.threads.map Prod.fst = p.threads.map Prod.fst := by
  induction h with
  | refl => rfl
  | tail _ hstep ih => exact hstep.labels.trans ih

/-- Every thread has returned. -/
def Finished (p : Pool ρ Call Resp α S) : Prop := ∀ t ∈ p.threads, (t.2.result?).isSome

theorem turn_step [∀ c a s, Decidable (G c a s)] {i : ℕ} {a : A}
    {p p' : Pool ρ Call Resp α S} (h : turn step G i a p = some p') : Step step G E p p' := by
  obtain ⟨ts, s⟩ := p
  simp only [turn] at h
  split at h
  · next l c k hi =>
      split at h
      · next hG =>
          obtain ⟨⟨r, s'⟩, hs, rfl⟩ := Option.map_eq_some_iff.mp h
          obtain ⟨hlt, hget⟩ := List.getElem?_eq_some_iff.mp hi
          have hsplit : ts = ts.take i ++ (l, .call c k) :: ts.drop (i + 1) := by
            rw [← hget, List.cons_getElem_drop_succ, List.take_append_drop]
          have hset : ts.set i (l, k r) = ts.take i ++ (l, k r) :: ts.drop (i + 1) :=
            List.set_eq_take_append_cons_drop .. |>.trans (if_pos hlt)
          rw [hset]
          have hstep : Step step G E ⟨ts.take i ++ (l, .call c k) :: ts.drop (i + 1), s⟩
              ⟨ts.take i ++ (l, k r) :: ts.drop (i + 1), s'⟩ := .call hG hs
          rwa [← hsplit] at hstep
      · cases h
  · cases h

/-- A schedule that can be followed is a run. -/
theorem play_reaches [∀ c a s, Decidable (G c a s)] {sched : List (ℕ × A)}
    {p p' : Pool ρ Call Resp α S} (h : play step G sched p = some p') :
    Reaches step G E p p' := by
  induction sched generalizing p with
  | nil =>
      rw [play, Option.some.injEq] at h
      exact h ▸ .refl
  | cons x sched ih =>
      rw [play] at h
      obtain ⟨q, hq, hrest⟩ := Option.bind_eq_some_iff.mp h
      exact .head (turn_step hq) (ih hrest)

end Pool

/-! ## Tokens -/

section Tokens

variable [AddCommMonoid M]

/-- Owning `g`, the program keeps `I` at every step whatever tokens `f` the
others own, and returns with tokens that satisfy `Q`. -/
def Safe (step : (c : Call) → A → S → Option (Resp c × S)) (I : S → M → Prop)
    (G : Call → A → S → Prop) (Q : α → M → Prop) : Prog Call Resp α → M → Prop
  | .ret a, g => Q a g
  | .call c k, g => ∀ s f a r s', I s (g + f) → G c a s →
      step c a s = some (r, s') →
      ∃ g', I s' (g' + f) ∧ Safe step I G Q (k r) g'

variable {step : (c : Call) → A → S → Option (Resp c × S)} {I : S → M → Prop}
  {G : Call → A → S → Prop} {E : S → S → Prop}

theorem safe_ret {Q : α → M → Prop} {a : α} {g : M} (h : Q a g) :
    Safe step I G Q (.ret a : Prog Call Resp α) g := h

theorem Safe.mono {Q R : α → M → Prop} (hQR : ∀ a g, Q a g → R a g)
    {p : Prog Call Resp α} {g : M} (h : Safe step I G Q p g) :
    Safe step I G R p g := by
  induction p generalizing g with
  | ret a => exact hQR a g h
  | call c k ih =>
      intro s f a r s' hI hG hs
      obtain ⟨g', hI', hk⟩ := h s f a r s' hI hG hs
      exact ⟨g', hI', ih r hk⟩

theorem Safe.bind {Q : α → M → Prop} {R : β → M → Prop} {p : Prog Call Resp α}
    {q : α → Prog Call Resp β} {g : M} (hp : Safe step I G Q p g)
    (hq : ∀ a g', Q a g' → Safe step I G R (q a) g') :
    Safe step I G R (p >>= q) g := by
  induction p generalizing g with
  | ret a => exact hq a g hp
  | call c k ih =>
      intro s f a r s' hI hG hs
      obtain ⟨g', hI', hk⟩ := hp s f a r s' hI hG hs
      exact ⟨g', hI', ih r hk⟩

/-- A call that keeps the invariant for every owner of the tokens. -/
theorem Safe.keep {Q : α → M → Prop} {c : Call} {k : Resp c → Prog Call Resp α}
    {g : M}
    (hc : ∀ s h a r s', I s h → G c a s → step c a s = some (r, s') → I s' h)
    (hk : ∀ r, Safe step I G Q (k r) g) : Safe step I G Q (.call c k) g :=
  fun s f a r s' hI hG hs => ⟨g, hc s (g + f) a r s' hI hG hs, hk r⟩

/-- A program made of such calls only. -/
theorem Safe.of_uses {P : Call → Prop}
    (hc : ∀ c s h a r s', P c → I s h → G c a s → step c a s = some (r, s') →
      I s' h)
    {p : Prog Call Resp α} (hp : p.Uses P) (g : M) :
    Safe step I G (fun _ g' => g' = g) p g := by
  induction p with
  | ret a => exact rfl
  | call c k ih =>
      exact Safe.keep (fun s h a r s' => hc c s h a r s' hp.1)
        (fun r => ih r (hp.2 r))

/-- Every thread of the pool is safe with its share of the tokens, and the
state agrees with all the shares together. -/
def Accounted (step : (c : Call) → A → S → Option (Resp c × S))
    (I : S → M → Prop) (G : Call → A → S → Prop) (Q : ρ → α → M → Prop)
    (p : Pool ρ Call Resp α S) : Prop :=
  ∃ gs : List M,
    List.Forall₂ (fun t g => Safe step I G (Q t.1) t.2 g) p.threads gs ∧
      I p.st gs.sum

/-- A list related to an appended one splits along with it. -/
theorem forall₂_append_split {R : ρ → β → Prop} {l₁ l₂ : List ρ} {u : List β}
    (h : List.Forall₂ R (l₁ ++ l₂) u) :
    ∃ u₁ u₂, List.Forall₂ R l₁ u₁ ∧ List.Forall₂ R l₂ u₂ ∧ u = u₁ ++ u₂ := by
  induction l₁ generalizing u with
  | nil => exact ⟨[], u, .nil, h, rfl⟩
  | cons x l₁ ih =>
      obtain ⟨b, v, hb, hv, rfl⟩ := List.forall₂_cons_left_iff.mp h
      obtain ⟨u₁, u₂, h₁, h₂, rfl⟩ := ih hv
      exact ⟨b :: u₁, u₂, .cons hb h₁, h₂, rfl⟩

theorem Accounted.next {Q : ρ → α → M → Prop}
    (hE : ∀ s s' g, I s g → E s s' → I s' g) {p p' : Pool ρ Call Resp α S}
    (h : Accounted step I G Q p) (hstep : Pool.Step step G E p p') :
    Accounted step I G Q p' := by
  obtain ⟨gs, hts, hI⟩ := h
  cases hstep with
  | env he => exact ⟨gs, hts, hE _ _ _ hI he⟩
  | @call pre post l c k a r s s' hG hs =>
      obtain ⟨gpre, gmid, hpre, hmid, rfl⟩ :=
        forall₂_append_split hts
      cases hmid with
      | @cons _ g _ gpost hc hpost =>
          -- The moving thread's tokens in front, everyone else's behind.
          have hI' : I s (g + (gpre.sum + gpost.sum)) := by
            rw [List.sum_append, List.sum_cons] at hI
            rwa [add_left_comm]
          obtain ⟨g', hIs, hk⟩ := hc s _ a r s' hI' hG hs
          refine ⟨gpre ++ g' :: gpost, List.rel_append hpre (.cons hk hpost), ?_⟩
          rw [List.sum_append, List.sum_cons, add_left_comm]
          exact hIs

/-- A pool whose threads are accounted for stays so along every run. -/
theorem Accounted.reaches {Q : ρ → α → M → Prop}
    (hE : ∀ s s' g, I s g → E s s' → I s' g) {p p' : Pool ρ Call Resp α S}
    (h : Accounted step I G Q p) (hrun : Pool.Reaches step G E p p') :
    Accounted step I G Q p' := by
  induction hrun with
  | refl => exact h
  | tail _ hstep ih => exact ih.next hE hstep

/-- What a thread of an accounted pool has returned. -/
theorem Accounted.returned {Q : ρ → α → M → Prop} {p : Pool ρ Call Resp α S}
    (h : Accounted step I G Q p) {t : ρ × Prog Call Resp α} (ht : t ∈ p.threads) {a : α}
    (hres : t.2.result? = some a) : ∃ g, Q t.1 a g := by
  obtain ⟨gs, hthreads, -⟩ := h
  obtain ⟨i, hi, rfl⟩ := List.mem_iff_getElem.mp ht
  have hsafe := List.Forall₂.get hthreads hi (hthreads.length_eq ▸ hi)
  simp only [List.get_eq_getElem] at hsafe
  cases hp : (p.threads[i]).2 with
  | call c k =>
      rw [hp] at hres
      cases hres
  | ret b =>
      rw [hp] at hres hsafe
      cases hres
      exact ⟨_, hsafe⟩

/-- Threads that all start with no token. -/
theorem Accounted.start {Q : ρ → α → M → Prop} {ts : List (ρ × Prog Call Resp α)}
    {s : S} (hts : ∀ t ∈ ts, Safe step I G (Q t.1) t.2 0) (hI : I s 0) :
    Accounted step I G Q (⟨ts, s⟩ : Pool ρ Call Resp α S) := by
  refine ⟨List.replicate ts.length 0, ?_, by simpa using hI⟩
  induction ts with
  | nil => exact .nil
  | cons t ts ih =>
      exact .cons (hts t (by simp)) (ih fun t ht => hts t (by simp [ht]))

end Tokens

end FileHub.Lib
