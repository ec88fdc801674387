import Mathlib.Data.List.Infix
import FileHub.Lib.CString

/-!
# Where `strstr` stops

A scanner that hops over a text with `strstr` finds the first occurrence of
what it looks for, wherever that is. These lemmas say where it cannot be: in a
stretch that lacks a byte of the pattern and ends in a byte the pattern lacks
(`strstr_append_of_not_mem`), or, for a pattern of two bytes, in a stretch that
does not contain it (`strstr_pair`), even where the stretch ends in its first
byte. Otherwise it starts no later than the occurrence one knows of
(`strstr_append`). For a pattern whose first byte comes once, the text splits at
the first occurrence in one way (`strstr_eq_some`).
-/

namespace FileHub.Lib

variable {pat l s : Bytes} {x y q : UInt8}

theorem strstr_start (h : pat <+: s) : strstr s pat = some s := by
  rw [strstr.eq_def, if_pos (List.isPrefixOf_iff_prefix.mpr h)]

theorem strstr_cons {b : UInt8} (h : ¬ pat <+: b :: s) : strstr (b :: s) pat = strstr s pat := by
  rw [strstr.eq_def, if_neg (mt List.isPrefixOf_iff_prefix.mp h)]

/-- A prefix without the byte ends before it. -/
theorem prefix_of_not_mem (h : pat <+: l ++ x :: s) (hx : x ∉ pat) : pat <+: l := by
  induction l generalizing pat with
  | nil =>
      cases pat with
      | nil => exact List.nil_prefix
      | cons p pat =>
          obtain ⟨rfl, -⟩ := List.cons_prefix_cons.mp h
          exact absurd List.mem_cons_self hx
  | cons b l ih =>
      cases pat with
      | nil => exact List.nil_prefix
      | cons p pat =>
          obtain ⟨rfl, hrest⟩ := List.cons_prefix_cons.mp h
          exact List.cons_prefix_cons.mpr
            ⟨rfl, ih hrest fun hm => hx (List.mem_cons_of_mem _ hm)⟩

/-- Nothing is found in a stretch that lacks `q`, nor across the `x` that ends it. -/
theorem strstr_append_of_not_mem (hq : q ∈ pat) (hl : q ∉ l) (hx : x ∉ pat) :
    strstr (l ++ x :: s) pat = strstr s pat := by
  induction l with
  | nil =>
      refine strstr_cons fun h => ?_
      have hnil := List.prefix_nil.mp (prefix_of_not_mem (l := []) h hx)
      rw [hnil] at hq
      cases hq
  | cons b l ih =>
      rw [List.cons_append, strstr_cons, ih fun hm => hl (List.mem_cons_of_mem _ hm)]
      intro h
      exact hl ((prefix_of_not_mem (l := b :: l) h hx).subset hq)

/-- The first occurrence starts no later than a given one. -/
theorem strstr_append (l pat s : Bytes) :
    ∃ l', l' <:+ l ∧ strstr (l ++ (pat ++ s)) pat = some (l' ++ (pat ++ s)) := by
  induction l with
  | nil => exact ⟨[], List.suffix_rfl, strstr_start (List.prefix_append _ _)⟩
  | cons b l ih =>
      by_cases h : pat <+: b :: l ++ (pat ++ s)
      · exact ⟨b :: l, List.suffix_rfl, strstr_start h⟩
      · obtain ⟨l', hl', hs⟩ := ih
        rw [List.cons_append] at h ⊢
        exact ⟨l', hl'.trans (List.suffix_cons _ _), (strstr_cons h).trans hs⟩

theorem strstr_pair (hxy : x ≠ y) (h : ¬ [x, y] <:+: l) :
    strstr (l ++ x :: y :: s) [x, y] = some (x :: y :: s) := by
  induction l with
  | nil => exact strstr_start ⟨s, rfl⟩
  | cons b l ih =>
      rw [List.cons_append, strstr_cons, ih fun hl => h (hl.trans (List.suffix_cons b l).isInfix)]
      intro hpre
      obtain ⟨rfl, hy⟩ := List.cons_prefix_cons.mp hpre
      cases l with
      | nil => exact hxy (List.cons_prefix_cons.mp hy).1.symm
      | cons c l =>
          obtain ⟨rfl, -⟩ := List.cons_prefix_cons.mp hy
          exact h (List.prefix_append [x, y] l).isInfix

theorem infix_of_strstr {t : Bytes} (h : strstr s pat = some t) :
    ∃ l, s = l ++ t ∧ pat <+: t ∧ (pat ≠ [] → ¬ pat <:+: l) := by
  induction s with
  | nil =>
      rw [strstr.eq_def] at h
      split at h
      · next hpre =>
        rw [← Option.some.inj h]
        exact ⟨[], rfl, List.isPrefixOf_iff_prefix.mp hpre, fun hne => mt List.infix_nil.mp hne⟩
      · cases h
  | cons b s ih =>
      by_cases hpre : pat <+: b :: s
      · rw [strstr_start hpre] at h
        rw [← Option.some.inj h]
        exact ⟨[], rfl, hpre, fun hne => mt List.infix_nil.mp hne⟩
      · rw [strstr_cons hpre] at h
        obtain ⟨l, rfl, ht, hl⟩ := ih h
        refine ⟨b :: l, rfl, ht, fun hne hin => ?_⟩
        rcases List.infix_cons_iff.mp hin with hin | hin
        · exact hpre (hin.trans (List.prefix_append (b :: l) t))
        · exact hl hne hin

theorem strstr_eq_none (h : strstr s pat = none) : ¬ pat <:+: s := by
  rintro ⟨l, r, rfl⟩
  obtain ⟨l', -, hs⟩ := strstr_append l pat r
  rw [List.append_assoc, hs] at h
  cases h

/-- A pattern that cannot overlap itself is found behind a stretch without it. -/
theorem strstr_append_of_not_infix (hq : q ∉ pat) (h : ¬ q :: pat <:+: l) :
    strstr (l ++ (q :: pat ++ s)) (q :: pat) = some (q :: pat ++ s) := by
  induction l with
  | nil => exact strstr_start (List.prefix_append _ _)
  | cons b l ih =>
      rw [List.cons_append, strstr_cons, ih fun hl => h (hl.trans (List.suffix_cons b l).isInfix)]
      intro hpre
      have hl : b :: l <+: b :: (l ++ (q :: pat ++ s)) := List.prefix_append (b :: l) _
      rcases List.prefix_or_prefix_of_prefix hpre hl with hin | ⟨r, hr⟩
      · exact h hin.isInfix
      rw [← hr, List.cons_append, List.cons_prefix_cons, List.prefix_append_right_inj] at hpre
      have hpat : pat = l ++ r := (List.cons.inj hr).2.symm
      cases r with
      | nil =>
          rw [List.append_nil] at hr
          exact h (hr ▸ List.infix_rfl)
      | cons c r =>
          have hc : c = b := (List.cons_prefix_cons.mp hpre.2).1
          have hb : b = q := (List.cons.inj hr).1
          rw [hpat, hc, hb] at hq
          exact hq (List.mem_append_right _ List.mem_cons_self)

theorem strstr_eq_some {t : Bytes} (hq : q ∉ pat) :
    strstr s (q :: pat) = some t ↔
      ∃ l r, s = l ++ (q :: pat ++ r) ∧ t = q :: pat ++ r ∧ ¬ q :: pat <:+: l := by
  constructor
  · intro h
    obtain ⟨l, rfl, ⟨r, rfl⟩, hl⟩ := infix_of_strstr h
    exact ⟨l, r, rfl, rfl, hl (List.cons_ne_nil _ _)⟩
  · rintro ⟨l, r, rfl, rfl, hl⟩
    exact strstr_append_of_not_infix hq hl

end FileHub.Lib
