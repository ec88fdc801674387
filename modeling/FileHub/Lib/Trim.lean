import Mathlib.Data.List.DropRight

/-!
# Trimming a list at both ends

`trimBy p` drops what satisfies `p` at the front and at the back. A list is its
front, its trimmed middle and its back, and the middle, if there is one, begins
and ends with an element that fails `p`.
-/

namespace FileHub.Lib

variable {α : Type} {p : α → Bool} {s t : List α}

def trimBy (p : α → Bool) (s : List α) : List α := (s.dropWhile p).rdropWhile p

/-- The middle between front and back. -/
theorem trimBy_split (p : α → Bool) (s : List α) :
    s = s.takeWhile p ++ trimBy p s ++ (s.dropWhile p).rtakeWhile p := by
  rw [trimBy, List.append_assoc, List.rdropWhile_append_rtakeWhile, List.takeWhile_append_dropWhile]

theorem mem_of_mem_trimBy {x : α} (h : x ∈ trimBy p s) : x ∈ s := by
  rw [trimBy_split p s]
  exact List.mem_append_left _ (List.mem_append_right _ h)

theorem dropWhile_eq_nil (h : ∀ x ∈ s.dropWhile p, p x) : s.dropWhile p = [] := by
  cases hs : s.dropWhile p with
  | nil => rfl
  | cons x rest =>
      have hhead := List.head?_dropWhile_not p s
      rw [hs, List.head?_cons] at hhead
      dsimp only at hhead
      rw [h x (by rw [hs]; exact List.mem_cons_self)] at hhead
      cases hhead

theorem trimBy_eq_nil : trimBy p s = [] ↔ ∀ x ∈ s, p x := by
  constructor
  · intro h
    have hnil := dropWhile_eq_nil (List.rdropWhile_eq_nil_iff.mp h)
    exact List.dropWhile_eq_nil_iff.mp hnil
  · intro h
    rw [trimBy, List.dropWhile_eq_nil_iff.mpr h, List.rdropWhile_nil]

/-- All of a blank list is its front. -/
theorem takeWhile_of_trimBy_eq_nil (h : trimBy p s = []) : s.takeWhile p = s :=
  List.takeWhile_eq_self_iff.mpr (trimBy_eq_nil.mp h)

theorem exists_trimBy_end (h : trimBy p s ≠ []) :
    ∃ core x, trimBy p s = core ++ [x] ∧ p x = false := by
  have hlast := List.rdropWhile_last_not p (s.dropWhile p) h
  exact ⟨_, _, (List.dropLast_append_getLast h).symm, by simpa [trimBy] using hlast⟩

theorem exists_trimBy_start (h : trimBy p s ≠ []) :
    ∃ x rest, trimBy p s = x :: rest ∧ p x = false := by
  obtain ⟨x, rest, hx⟩ := List.exists_cons_of_ne_nil h
  refine ⟨x, rest, hx, ?_⟩
  obtain ⟨rest', hrest⟩ : trimBy p s <+: s.dropWhile p := List.rdropWhile_prefix _ _
  have hhead := List.head?_dropWhile_not p s
  rw [← hrest, hx] at hhead
  exact hhead

theorem trimBy_of_ends (hfirst : ∀ x ∈ s.head?, p x = false)
    (hlast : ∀ x ∈ s.getLast?, p x = false) : trimBy p s = s := by
  have hdrop : s.dropWhile p = s := by
    cases s with
    | nil => rfl
    | cons x s => exact List.dropWhile_cons_of_neg (by simp [hfirst x rfl])
  rw [trimBy, hdrop, List.rdropWhile_eq_self_iff]
  intro hs h
  rw [hlast _ (List.getLast?_eq_some_getLast hs)] at h
  cases h

/-- Nothing is left to trim. -/
theorem trimBy_trimBy : trimBy p (trimBy p s) = trimBy p s := by
  by_cases h : trimBy p s = []
  · rw [h]
    rfl
  · obtain ⟨x, rest, hstart, hx⟩ := exists_trimBy_start h
    obtain ⟨core, y, hend, hy⟩ := exists_trimBy_end h
    refine trimBy_of_ends ?_ ?_
    · rw [hstart]
      rintro _ ⟨⟩
      exact hx
    · rw [hend, List.getLast?_concat]
      rintro _ ⟨⟩
      exact hy

theorem rdropWhile_append_of_all (h : ∀ x ∈ t, p x) : (s ++ t).rdropWhile p = s.rdropWhile p := by
  induction t using List.reverseRecOn with
  | nil => rw [List.append_nil]
  | append_singleton t x ih =>
      rw [← List.append_assoc, List.rdropWhile_concat_pos _ _ _ (h x (by simp)),
        ih fun y hy => h y (List.mem_append_left _ hy)]

theorem rdropWhile_append_of_exists (h : ∃ x ∈ t, ¬p x) :
    (s ++ t).rdropWhile p = s ++ t.rdropWhile p := by
  induction t using List.reverseRecOn with
  | nil =>
      obtain ⟨x, hx, -⟩ := h
      cases hx
  | append_singleton t x ih =>
      rw [← List.append_assoc, List.rdropWhile_concat, List.rdropWhile_concat]
      split
      · next hx =>
        obtain ⟨y, hy, hpy⟩ := h
        refine ih ⟨y, ?_, hpy⟩
        rcases List.mem_append.mp hy with hy | hy
        · exact hy
        · rw [List.mem_singleton.mp hy] at hpy
          exact absurd hx hpy
      · rw [List.append_assoc]

/-- What follows does not count if and only if it is dropped. -/
theorem trimBy_append_iff (h : trimBy p s ≠ []) :
    trimBy p (s ++ t) = trimBy p s ↔ ∀ x ∈ t, p x := by
  have hdrop : (s ++ t).dropWhile p = s.dropWhile p ++ t := by
    rw [List.dropWhile_append, if_neg]
    intro hnil
    rw [trimBy, List.isEmpty_iff.mp hnil] at h
    exact h (List.rdropWhile_nil p)
  constructor
  · intro heq
    by_contra hexists
    push Not at hexists
    rw [trimBy, trimBy, hdrop, rdropWhile_append_of_exists (by simpa using hexists)] at heq
    have hlen := congrArg List.length heq
    have hle := (List.rdropWhile_prefix p (s.dropWhile p)).length_le
    rw [List.length_append] at hlen
    have hnil : t.rdropWhile p = [] := List.length_eq_zero_iff.mp (by omega)
    obtain ⟨x, hx, hpx⟩ := hexists
    exact hpx (List.rdropWhile_eq_nil_iff.mp hnil x hx)
  · intro hall
    rw [trimBy, hdrop, rdropWhile_append_of_all hall, trimBy]

end FileHub.Lib
