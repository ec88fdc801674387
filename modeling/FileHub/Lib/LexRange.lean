import Mathlib.Order.Lattice
import Mathlib.Data.List.TakeWhile
import Mathlib.Data.List.Nodup

/-!
# Counting one value by a range query on a list

A range query written for lists in ascending order: it first compares the ends
of the list with the bounds of the range, then looks for the first element that
is not below the range and counts from there. Asked for the range of a single
value it decides membership in an ascending list. In any other list it still
decides whether the value is `Found`: whether nothing before it is above it,
and the last element is not below it.
-/

namespace FileHub.Lib

variable {α : Type} [LinearOrder α]

/-- How many elements from the first one not below `m` on equal `m`, if the
ends of the list leave room for it. -/
def lexCount (l : List α) (m : α) : ℕ :=
  if l.getLast?.any (fun last => decide (m ≤ last)) ∧
      l.head?.any (fun first => decide (first ≤ m)) then
    match l.dropWhile fun e => decide (e < m) with
    | [] => 0
    | e :: rest => if e ≤ m then ((e :: rest).takeWhile fun e => decide (e = m)).length else 0
  else 0

/-- `m` is in the list, after smaller elements only, and the last is no smaller. -/
def Found (l : List α) (m : α) : Prop :=
  ∃ pre post, l = pre ++ m :: post ∧ (∀ e ∈ pre, e < m) ∧ ∀ last ∈ l.getLast?, m ≤ last

theorem Found.mem {l : List α} {m : α} (h : Found l m) : m ∈ l := by
  obtain ⟨pre, post, rfl, -⟩ := h
  exact List.mem_append_right _ List.mem_cons_self

theorem lexCount_of_found {l : List α} {m : α} (hl : l.Nodup) (h : Found l m) :
    lexCount l m = 1 := by
  obtain ⟨pre, post, rfl, hpre, hlast⟩ := h
  have hne : pre ++ m :: post ≠ [] := List.append_ne_nil_of_right_ne_nil _ (List.cons_ne_nil _ _)
  have hends : (pre ++ m :: post).getLast?.any (fun last => decide (m ≤ last)) ∧
      (pre ++ m :: post).head?.any (fun first => decide (first ≤ m)) := by
    constructor
    · rw [List.getLast?_eq_some_getLast hne] at hlast ⊢
      exact decide_eq_true (hlast _ rfl)
    · cases pre with
      | nil => exact decide_eq_true le_rfl
      | cons first pre => exact decide_eq_true (hpre first List.mem_cons_self).le
  have hdrop : (pre ++ m :: post).dropWhile (fun e => decide (e < m)) = m :: post := by
    rw [List.dropWhile_append_of_pos fun e he => decide_eq_true (hpre e he),
      List.dropWhile_cons_of_neg (by simp)]
  have hpost : m ∉ post := (List.nodup_cons.mp hl.of_append_right).1
  have htake : post.takeWhile (fun e => decide (e = m)) = [] := by
    rw [List.takeWhile_eq_nil_iff]
    intro hlt hhead
    rw [decide_eq_true_eq] at hhead
    exact hpost (hhead ▸ List.getElem_mem hlt)
  rw [lexCount, if_pos hends, hdrop]
  dsimp only
  rw [if_pos le_rfl, List.takeWhile_cons_of_pos (by simp), htake]
  rfl

theorem found_of_lexCount {l : List α} {m : α} (h : lexCount l m ≠ 0) : Found l m := by
  rw [lexCount] at h
  split at h
  · next hends =>
      split at h
      · exact absurd rfl h
      · next e rest hdrop =>
          split at h
          · next hle =>
              have hhead : ¬ e < m := by
                have hnot := List.head?_dropWhile_not (fun e => decide (e < m)) l
                rw [hdrop] at hnot
                simpa using hnot
              obtain rfl : e = m := le_antisymm hle (not_lt.mp hhead)
              refine ⟨l.takeWhile fun x => decide (x < e), rest, ?_, fun x hx => ?_, ?_⟩
              · rw [← hdrop, List.takeWhile_append_dropWhile]
              · simpa using List.mem_takeWhile_imp hx
              · intro last hl
                rw [Option.mem_def] at hl
                rw [hl] at hends
                simpa using hends.1
          · exact absurd rfl h
  · exact absurd rfl h

theorem lexCount_eq_zero_iff {l : List α} {m : α} (hl : l.Nodup) :
    lexCount l m = 0 ↔ ¬ Found l m := by
  constructor
  · intro h hf
    have hone := lexCount_of_found hl hf
    omega
  · intro h
    by_contra hne
    exact h (found_of_lexCount hne)

/-- In an ascending list what is in it is found. -/
theorem found_iff_mem {l : List α} {m : α} (hl : l.Pairwise (· < ·)) : Found l m ↔ m ∈ l := by
  refine ⟨Found.mem, fun h => ?_⟩
  obtain ⟨pre, post, rfl⟩ := List.append_of_mem h
  obtain ⟨-, hpost, hcross⟩ := List.pairwise_append.mp hl
  refine ⟨pre, post, rfl, fun e he => hcross e he m List.mem_cons_self, fun last hlast => ?_⟩
  have hmem := List.mem_of_getLast? hlast
  rw [List.getLast?_append, List.getLast?_cons] at hlast
  cases hp : post.getLast? with
  | none =>
      rw [hp] at hlast
      cases hlast
      exact le_rfl
  | some b =>
      rw [hp] at hlast
      cases hlast
      exact ((List.pairwise_cons.mp hpost).1 b (List.mem_of_getLast? hp)).le

end FileHub.Lib
