import Mathlib.Algebra.BigOperators.Fin
import FileHub.Lib.Pool

/-!
# What each program of a pool contributes

A measure `f` of the state takes values in a commutative group. Along a
schedule every step moves it by some difference, and `net f i` is the sum of
the differences that thread `i` makes. All threads together make the whole
difference (`sum_net`), and what one of them makes can be read off its program
(`Nets`), whatever state it finds at each of its calls.
-/

namespace FileHub.Lib

open Prog

variable {ρ Call : Type} {Resp : Call → Type} {α β S A M : Type} [AddCommGroup M]

/-- However its calls are answered under the guard, the program, having made
the difference `g` so far, returns in `Q`. -/
def Nets (step : (c : Call) → A → S → Option (Resp c × S)) (G : Call → A → S → Prop)
    (f : S → M) (Q : α → M → Prop) : Prog Call Resp α → M → Prop
  | .ret a, g => Q a g
  | .call c k, g => ∀ s a r s', G c a s → step c a s = some (r, s') →
      Nets step G f Q (k r) (g + (f s' - f s))

variable {step : (c : Call) → A → S → Option (Resp c × S)} {G : Call → A → S → Prop}
  {f : S → M}

theorem Nets.mono {Q R : α → M → Prop} (hQR : ∀ a g, Q a g → R a g) {p : Prog Call Resp α}
    {g : M} (h : Nets step G f Q p g) : Nets step G f R p g := by
  induction p generalizing g with
  | ret a => exact hQR a g h
  | call c k ih => exact fun s a r s' hG hs => ih r (h s a r s' hG hs)

theorem Nets.bind {Q : α → M → Prop} {R : β → M → Prop} {p : Prog Call Resp α}
    {q : α → Prog Call Resp β} {g : M} (hp : Nets step G f Q p g)
    (hq : ∀ a g', Q a g' → Nets step G f R (q a) g') : Nets step G f R (p >>= q) g := by
  induction p generalizing g with
  | ret a => exact hq a g hp
  | call c k ih => exact fun s a r s' hG hs => ih r (hp s a r s' hG hs)

/-- A program none of whose calls moves the measure. -/
theorem Nets.of_uses {P : Call → Prop}
    (hc : ∀ c s a r s', P c → G c a s → step c a s = some (r, s') → f s' = f s)
    {p : Prog Call Resp α} (hp : p.Uses P) (g : M) :
    Nets step G f (fun _ g' => g' = g) p g := by
  induction p with
  | ret a => exact rfl
  | call c k ih =>
      intro s a r s' hG hs
      rw [hc c s a r s' hp.1 hG hs, sub_self, add_zero]
      exact ih r (hp.2 r)

namespace Pool

variable [∀ c a s, Decidable (G c a s)]

/-- The difference thread `i` makes along a schedule. -/
def net (step : (c : Call) → A → S → Option (Resp c × S)) (G : Call → A → S → Prop)
    [∀ c a s, Decidable (G c a s)] (f : S → M) (i : ℕ) :
    List (ℕ × A) → Pool ρ Call Resp α S → M
  | [], _ => 0
  | (j, a) :: sched, p =>
      match turn step G j a p with
      | none => 0
      | some q => (if j = i then f q.st - f p.st else 0) + net step G f i sched q

/-- A turn is a step of the thread it names. -/
theorem turn_eq_some {i : ℕ} {a : A} {p q : Pool ρ Call Resp α S}
    (h : turn step G i a p = some q) : ∃ l c k r, p.threads[i]? = some (l, .call c k) ∧
      G c a p.st ∧ step c a p.st = some (r, q.st) ∧ q.threads = p.threads.set i (l, k r) := by
  rw [turn] at h
  split at h
  · next l c k hi =>
      split at h
      · next hG =>
          obtain ⟨⟨r, s'⟩, hs, rfl⟩ := Option.map_eq_some_iff.mp h
          exact ⟨l, c, k, r, hi, hG, hs, rfl⟩
      · cases h
  · cases h

section Mono

variable {G' : Call → A → S → Prop} [∀ c a s, Decidable (G' c a s)]
  {p p' : Pool ρ Call Resp α S} (hG : ∀ c a s, G c a s → G' c a s)

include hG

/-- What a guard lets pass, a weaker one does. -/
theorem turn_mono {i : ℕ} {a : A} (h : turn step G i a p = some p') :
    turn step G' i a p = some p' := by
  rw [turn] at h ⊢
  split at h
  · split at h
    · next hg => rwa [if_pos (hG _ _ _ hg)]
    · cases h
  · cases h

theorem play_mono {sched : List (ℕ × A)} (h : play step G sched p = some p') :
    play step G' sched p = some p' := by
  induction sched generalizing p with
  | nil => exact h
  | cons x sched ih =>
      rw [play] at h ⊢
      obtain ⟨q, hq, hrest⟩ := Option.bind_eq_some_iff.mp h
      exact Option.bind_eq_some_iff.mpr ⟨q, turn_mono hG hq, ih hrest⟩

theorem net_mono {sched : List (ℕ × A)} (h : play step G sched p = some p') (i : ℕ) :
    net step G f i sched p = net step G' f i sched p := by
  induction sched generalizing p with
  | nil => rfl
  | cons x sched ih =>
      rw [play] at h
      obtain ⟨q, hq, hrest⟩ := Option.bind_eq_some_iff.mp h
      rw [net, net, hq, turn_mono hG hq]
      dsimp only
      rw [ih hrest]

end Mono

/-- What a thread makes along a schedule is what its program says. -/
theorem net_of_nets {Q : α → M → Prop} {i : ℕ} {sched : List (ℕ × A)}
    {p p' : Pool ρ Call Resp α S} (hplay : play step G sched p = some p')
    {t : ρ × Prog Call Resp α} (ht : p.threads[i]? = some t) {g : M}
    (h : Nets step G f Q t.2 g) {t' : ρ × Prog Call Resp α} (ht' : p'.threads[i]? = some t') :
    Nets step G f Q t'.2 (g + net step G f i sched p) := by
  induction sched generalizing p t g with
  | nil =>
      rw [play, Option.some.injEq] at hplay
      subst hplay
      rw [ht, Option.some.injEq] at ht'
      rwa [net, add_zero, ← ht']
  | cons x sched ih =>
      obtain ⟨j, a⟩ := x
      rw [play] at hplay
      obtain ⟨q, hturn, hplay⟩ := Option.bind_eq_some_iff.mp hplay
      obtain ⟨l, c, k, r, hj, hG, hs, hset⟩ := turn_eq_some hturn
      simp only [net, hturn]
      by_cases hji : j = i
      · subst hji
        rw [hj, Option.some.injEq] at ht
        subst ht
        obtain ⟨hlt, -⟩ := List.getElem?_eq_some_iff.mp hj
        have hq : q.threads[j]? = some (l, k r) := by
          rw [hset, List.getElem?_set_self hlt]
        rw [if_pos rfl, ← add_assoc]
        exact ih hplay hq (h p.st a r q.st hG hs)
      · have hq : q.threads[i]? = some t := by
          rw [hset, List.getElem?_set_ne hji, ht]
        rw [if_neg hji, zero_add]
        exact ih hplay hq h

/-- All threads together make the whole difference. -/
theorem sum_net {sched : List (ℕ × A)} {p p' : Pool ρ Call Resp α S}
    (hplay : play step G sched p = some p') :
    ∑ i : Fin p.threads.length, net step G f i sched p = f p'.st - f p.st := by
  induction sched generalizing p with
  | nil =>
      rw [play, Option.some.injEq] at hplay
      subst hplay
      simp [net]
  | cons x sched ih =>
      obtain ⟨j, a⟩ := x
      rw [play] at hplay
      obtain ⟨q, hturn, hplay⟩ := Option.bind_eq_some_iff.mp hplay
      obtain ⟨l, c, k, r, hj, hG, hs, hset⟩ := turn_eq_some hturn
      obtain ⟨hlt, -⟩ := List.getElem?_eq_some_iff.mp hj
      have hlength : q.threads.length = p.threads.length := by rw [hset, List.length_set]
      have hrest := ih hplay
      rw [Fin.sum_univ_eq_sum_range fun i => net step G f i sched q, hlength] at hrest
      rw [Fin.sum_univ_eq_sum_range fun i => net step G f i ((j, a) :: sched) p]
      simp only [net, hturn, Finset.sum_add_distrib, hrest, Finset.sum_ite_eq,
        Finset.mem_range, if_pos hlt]
      abel

end Pool

end FileHub.Lib
