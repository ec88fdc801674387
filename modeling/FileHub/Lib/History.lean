import Mathlib.Data.List.Infix

/-!
# Properties of every state of a history

A system takes one request after the other: `next` is what a request makes of
the state. `Throughout` says that a property holds in every state a list of
requests passes through, the first and the last included; `Meets` says that
every request of the list satisfies a condition in the state it finds.

An invariant that each request keeps holds throughout. Where requests keep it
only under a condition, and break it otherwise, it holds throughout exactly
when every request meets the condition (`throughout_iff_meets`).
-/

namespace FileHub.Lib

variable {S R : Type} {next : S → R → S}

/-- `I` holds in every state of the history. -/
def Throughout (next : S → R → S) (I : S → Prop) : List R → S → Prop
  | [], s => I s
  | r :: rs, s => I s ∧ Throughout next I rs (next s r)

/-- Every request finds a state it satisfies the condition in. -/
def Meets (next : S → R → S) (C : S → R → Prop) : List R → S → Prop
  | [], _ => True
  | r :: rs, s => C s r ∧ Meets next C rs (next s r)

theorem Throughout.head {I : S → Prop} {rs : List R} {s : S}
    (h : Throughout next I rs s) : I s := by
  cases rs with
  | nil => exact h
  | cons r rs => exact h.1

/-- The states of a history are those its prefixes lead to. -/
theorem throughout_iff_foldl {I : S → Prop} {rs : List R} {s : S} :
    Throughout next I rs s ↔ ∀ pre, pre <+: rs → I (pre.foldl next s) := by
  induction rs generalizing s with
  | nil =>
      constructor
      · intro h pre hpre
        rw [List.prefix_nil.mp hpre]
        exact h
      · exact fun h => h [] List.nil_prefix
  | cons r rs ih =>
      constructor
      · rintro ⟨hs, hrest⟩ pre hpre
        cases pre with
        | nil => exact hs
        | cons x pre =>
            obtain ⟨rfl, htail⟩ := List.cons_prefix_cons.mp hpre
            exact ih.mp hrest pre htail
      · intro h
        refine ⟨h [] List.nil_prefix, ih.mpr fun pre hpre => ?_⟩
        exact h (r :: pre) (List.cons_prefix_cons.mpr ⟨rfl, hpre⟩)

theorem Throughout.mono {I J : S → Prop} (hIJ : ∀ s, I s → J s) {rs : List R} {s : S}
    (h : Throughout next I rs s) : Throughout next J rs s := by
  rw [throughout_iff_foldl] at h ⊢
  exact fun pre hpre => hIJ _ (h pre hpre)

/-- What every request keeps. -/
theorem Throughout.of_step {I : S → Prop} (hstep : ∀ s r, I s → I (next s r)) {rs : List R}
    {s : S} (hs : I s) : Throughout next I rs s := by
  induction rs generalizing s with
  | nil => exact hs
  | cons r rs ih => exact ⟨hs, ih (hstep s r hs)⟩

/-- Of states that satisfy `A`, which every request keeps while `I` holds: if a
request keeps `I` exactly when it meets the condition, a history does. -/
theorem throughout_iff_meets {A I : S → Prop} {C : S → R → Prop}
    (hA : ∀ s r, A s → I s → A (next s r))
    (hstep : ∀ s r, A s → I s → (I (next s r) ↔ C s r)) {rs : List R} {s : S}
    (hAs : A s) (hs : I s) :
    Throughout next I rs s ↔ Meets next C rs s := by
  induction rs generalizing s with
  | nil => exact iff_of_true hs trivial
  | cons r rs ih =>
      constructor
      · rintro ⟨-, hrest⟩
        have hnext := hrest.head
        exact ⟨(hstep s r hAs hs).mp hnext, (ih (hA s r hAs hs) hnext).mp hrest⟩
      · rintro ⟨hC, hrest⟩
        have hnext := (hstep s r hAs hs).mpr hC
        exact ⟨hs, (ih (hA s r hAs hs) hnext).mpr hrest⟩

/-! ## Two systems that agree

On requests of the list that meet the condition `next'` does what `next` does,
in states that satisfy `J`, and leaves one that does. -/

section

variable {next' : S → R → S} {I J : S → Prop} {C : S → R → Prop} {rs : List R} {s : S}

theorem Meets.throughout_congr (h : Meets next' C rs s)
    (hnext : ∀ r ∈ rs, ∀ s, J s → C s r → next' s r = next s r ∧ J (next s r)) (hs : J s) :
    Throughout next' I rs s ↔ Throughout next I rs s := by
  induction rs generalizing s with
  | nil => rfl
  | cons r rs ih =>
      obtain ⟨hsame, hJ⟩ := hnext r List.mem_cons_self s hs h.1
      have hrest := h.2
      rw [hsame] at hrest
      rw [Throughout, Throughout, hsame,
        ih hrest (fun r' hr' => hnext r' (List.mem_cons_of_mem _ hr')) hJ]

theorem Meets.congr (h : Meets next' C rs s)
    (hnext : ∀ r ∈ rs, ∀ s, J s → C s r → next' s r = next s r ∧ J (next s r)) (hs : J s) :
    Meets next C rs s := by
  induction rs generalizing s with
  | nil => trivial
  | cons r rs ih =>
      obtain ⟨hsame, hJ⟩ := hnext r List.mem_cons_self s hs h.1
      have hrest := h.2
      rw [hsame] at hrest
      exact ⟨h.1, ih hrest (fun r' hr' => hnext r' (List.mem_cons_of_mem _ hr')) hJ⟩

theorem Meets.mono {D : S → R → Prop} (hCD : ∀ s r, C s r → D s r) (h : Meets next C rs s) :
    Meets next D rs s := by
  induction rs generalizing s with
  | nil => trivial
  | cons r rs ih => exact ⟨hCD s r h.1, ih h.2⟩

theorem meets_true : Meets next (fun _ _ => True) rs s := by
  induction rs generalizing s with
  | nil => trivial
  | cons r rs ih => exact ⟨trivial, ih⟩

/-- Where the systems agree on every request of the list. -/
theorem meets_congr (hnext : ∀ r ∈ rs, ∀ s, J s → next' s r = next s r ∧ J (next s r))
    (hs : J s) : Meets next' C rs s ↔ Meets next C rs s := by
  induction rs generalizing s with
  | nil => rfl
  | cons r rs ih =>
      obtain ⟨hsame, hJ⟩ := hnext r List.mem_cons_self s hs
      rw [Meets, Meets, hsame, ih (fun r' hr' => hnext r' (List.mem_cons_of_mem _ hr')) hJ]

end

end FileHub.Lib
