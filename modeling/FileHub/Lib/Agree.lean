import FileHub.Lib.Issues
import FileHub.Lib.Net

/-!
# Two environments that agree on what a program asks

A program is reasoned about in an environment `step` that answers every call as
it is meant. The environment it really runs in, `step'`, does so only for some
calls, in some states. `Agree` says for which: calls in `P`, states in `I`,
choices allowed by `F`; and that what such a call is answered satisfies `R` and
leaves a state in `I` again.

A program that `Issues` such calls runs alike in both environments, alone
(`Agree.exec`), in a pool (`Agree.reaches`) and along a schedule (`Agree.play`),
so what was proved of the one holds of the other.
-/

namespace FileHub.Lib.Prog

variable {ρ Call : Type} {Resp : Call → Type} {α β S A M : Type} {P : Call → Prop}
  {R : (c : Call) → Resp c → Prop}

/-! ## Environments that agree -/

structure Agree (step step' : (c : Call) → A → S → Option (Resp c × S)) (I : S → Prop)
    (P : Call → Prop) (R : (c : Call) → Resp c → Prop) (F : Call → A → Prop) : Prop where
  same : ∀ {c a s}, I s → P c → F c a → step' c a s = step c a s
  /-- A call that cannot proceed cannot proceed in either. -/
  stuck : ∀ {c a s}, I s → P c → step' c a s = none → step c a s = none
  kept : ∀ {c a s r s'}, I s → P c → F c a → step c a s = some (r, s') → I s' ∧ R c r

variable {step step' : (c : Call) → A → S → Option (Resp c × S)} {I : S → Prop}
  {F : Call → A → Prop}

section Alone

variable {Q : α → Prop} {p : Prog Call Resp α} {ω : ℕ → A} {s : S}

/-- A run alone, with its calls and the states between them. -/
theorem Agree.run (h : Agree step step' I P R F) (hp : Issues P R Q p) (hs : I s)
    (hF : ∀ m ∈ trace step' ω p s, F m.1 m.2) :
    Prog.exec step' ω p s = Prog.exec step ω p s ∧
      Prog.trace step' ω p s = Prog.trace step ω p s ∧
      Prog.moves step' ω p s = Prog.moves step ω p s ∧ I (Prog.exec step ω p s).st := by
  induction p generalizing ω s with
  | ret a => exact ⟨rfl, rfl, rfl, hs⟩
  | call c k ih =>
      cases hstep : step' c (ω 0) s with
      | none =>
          have hnone := h.stuck hs hp.1 hstep
          simp only [Prog.exec, Prog.trace, Prog.moves, hstep, hnone]
          exact ⟨trivial, trivial, trivial, hs⟩
      | some rs =>
          obtain ⟨r, s'⟩ := rs
          simp only [trace, hstep, List.forall_mem_cons] at hF
          have hsame := h.same hs hp.1 hF.1
          rw [hstep] at hsame
          obtain ⟨hs', hr⟩ := h.kept hs hp.1 hF.1 hsame.symm
          obtain ⟨hexec, htrace, hmoves, hI⟩ := ih r (hp.2 r hr) hs' hF.2
          simp only [Prog.exec, Prog.trace, Prog.moves, hstep, ← hsame, hexec, htrace, hmoves]
          exact ⟨trivial, trivial, trivial, hI⟩

theorem Agree.exec (h : Agree step step' I P R F) (hp : Issues P R Q p) (hs : I s)
    (hF : ∀ m ∈ trace step' ω p s, F m.1 m.2) :
    Prog.exec step' ω p s = Prog.exec step ω p s :=
  (h.run hp hs hF).1

theorem Agree.moves (h : Agree step step' I P R F) (hp : Issues P R Q p) (hs : I s)
    (hF : ∀ m ∈ trace step' ω p s, F m.1 m.2) :
    Prog.moves step' ω p s = Prog.moves step ω p s :=
  (h.run hp hs hF).2.2.1

theorem Agree.st (h : Agree step step' I P R F) (hp : Issues P R Q p) (hs : I s)
    (hF : ∀ m ∈ trace step' ω p s, F m.1 m.2) : I (Prog.exec step' ω p s).st := by
  rw [h.exec hp hs hF]
  exact (h.run hp hs hF).2.2.2

end Alone

/-- What every choice of a script satisfies, every call of a run is made under. -/
theorem trace_forall {P : A → Prop} {ω : ℕ → A} (hω : ∀ n, P (ω n)) (p : Prog Call Resp α)
    (s : S) : ∀ m ∈ trace step ω p s, P m.2 := by
  induction p generalizing ω s with
  | ret a => exact fun _ hm => nomatch hm
  | call c k ih =>
      intro m hm
      rw [trace] at hm
      split at hm
      · cases hm
      · rcases List.mem_cons.mp hm with rfl | hm
        · exact hω 0
        · exact ih _ (fun n => hω (n + 1)) _ m hm

/-! ## Pools -/

/-- Every thread issues what it may, and the state is one the environments agree on. -/
def Agreed (I : S → Prop) (P : Call → Prop) (R : (c : Call) → Resp c → Prop)
    (p : Pool ρ Call Resp α S) : Prop :=
  I p.st ∧ ∀ t ∈ p.threads, Asks P R t.2

section Together

variable {G : Call → A → S → Prop} {E : S → S → Prop} {p p' : Pool ρ Call Resp α S}

theorem Agree.next (h : Agree step step' I P R F) (hG : ∀ c a s, G c a s → F c a)
    (hE : ∀ s s', I s → E s s' → I s') (hp : Agreed I P R p)
    (hstep : Pool.Step step' G E p p') : Pool.Step step G E p p' ∧ Agreed I P R p' := by
  obtain ⟨hI, hthreads⟩ := hp
  cases hstep with
  | env he => exact ⟨.env he, hE _ _ hI he, hthreads⟩
  | @call pre post l c k a r s s' hg hs =>
      obtain ⟨hc, hk⟩ := hthreads (l, .call c k) (by simp)
      rw [h.same hI hc (hG _ _ _ hg)] at hs
      obtain ⟨hI', hr⟩ := h.kept hI hc (hG _ _ _ hg) hs
      refine ⟨.call hg hs, hI', fun t ht => ?_⟩
      rcases List.mem_append.mp ht with ht | ht
      · exact hthreads t (List.mem_append_left _ ht)
      · rcases List.mem_cons.mp ht with rfl | ht
        · exact hk r hr
        · exact hthreads t (List.mem_append_right _ (List.mem_cons_of_mem _ ht))

theorem Agree.reaches (h : Agree step step' I P R F) (hG : ∀ c a s, G c a s → F c a)
    (hE : ∀ s s', I s → E s s' → I s') (hp : Agreed I P R p)
    (hrun : Pool.Reaches step' G E p p') :
    Pool.Reaches step G E p p' ∧ Agreed I P R p' := by
  induction hrun with
  | refl => exact ⟨.refl, hp⟩
  | tail _ hstep ih =>
      obtain ⟨hrun, hagreed⟩ := ih
      obtain ⟨hstep', hagreed'⟩ := h.next hG hE hagreed hstep
      exact ⟨.tail hrun hstep', hagreed'⟩

variable [∀ c a s, Decidable (G c a s)]

theorem Agree.turn (h : Agree step step' I P R F) (hG : ∀ c a s, G c a s → F c a)
    (hp : Agreed I P R p) (i : ℕ) (a : A) :
    Pool.turn step' G i a p = Pool.turn step G i a p := by
  rw [Pool.turn, Pool.turn]
  split
  · next l c k hi =>
      split
      · next hg =>
          have hc := (hp.2 _ (List.mem_of_getElem? hi)).1
          rw [h.same hp.1 hc (hG _ _ _ hg)]
      · rfl
  · rfl

theorem Agree.turn_agreed (h : Agree step step' I P R F) (hG : ∀ c a s, G c a s → F c a)
    (hp : Agreed I P R p) {i : ℕ} {a : A} (hturn : Pool.turn step G i a p = some p') :
    Agreed I P R p' := by
  obtain ⟨l, c, k, r, hi, hg, hs, hset⟩ := Pool.turn_eq_some hturn
  obtain ⟨hc, hk⟩ := hp.2 _ (List.mem_of_getElem? hi)
  obtain ⟨hI, hr⟩ := h.kept hp.1 hc (hG _ _ _ hg) hs
  refine ⟨hI, fun t ht => ?_⟩
  rw [hset] at ht
  rcases List.mem_or_eq_of_mem_set ht with ht | rfl
  · exact hp.2 t ht
  · exact hk r hr

theorem Agree.play (h : Agree step step' I P R F) (hG : ∀ c a s, G c a s → F c a)
    (hp : Agreed I P R p) (sched : List (ℕ × A)) :
    Pool.play step' G sched p = Pool.play step G sched p := by
  induction sched generalizing p with
  | nil => rfl
  | cons x sched ih =>
      rw [Pool.play, Pool.play, h.turn hG hp]
      cases hturn : Pool.turn step G x.1 x.2 p with
      | none => rfl
      | some q => exact ih (h.turn_agreed hG hp hturn)

theorem Agree.net [AddCommGroup M] (h : Agree step step' I P R F)
    (hG : ∀ c a s, G c a s → F c a) (hp : Agreed I P R p) (f : S → M) (i : ℕ)
    (sched : List (ℕ × A)) :
    Pool.net step' G f i sched p = Pool.net step G f i sched p := by
  induction sched generalizing p with
  | nil => rfl
  | cons x sched ih =>
      rw [Pool.net, Pool.net, h.turn hG hp]
      cases hturn : Pool.turn step G x.1 x.2 p with
      | none => rfl
      | some q =>
          dsimp only
          rw [ih (h.turn_agreed hG hp hturn)]

end Together

end FileHub.Lib.Prog
