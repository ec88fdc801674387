import FileHub.Api.CommonStrings
import FileHub.Lib.Trim

/-!
# `TrimSpace` in place

The scan from the back reads before it compares its index with the other one,
so on the empty string it reads in front of the buffer. A string of blanks is
trimmed to the empty one, so trimming it again does the same.

The indices are `int`s. The scan from the back starts at the string's last
index as an `int`, and what it returns is the trimmed part up to there: that is
the trimmed string if only blanks are behind.
-/

namespace FileHub

open Lib

namespace InMemory

/-! ## Strings that are trimmed -/

/-- The string without the blanks at its ends. -/
def trim (s : Bytes) : Bytes := trimBy isSpace s

/-- `TrimSpace` on a buffer returns 0 and leaves the string in it. -/
def Leaves (inbuf s : Bytes) (inbuf' : Bytes) : Prop :=
  trimSpace inbuf = some (0, inbuf') ∧ readStr inbuf' = some s

/-- On the string and its terminator. -/
def Trims (s : Bytes) : Prop := ∃ inbuf, Leaves (s ++ [0]) (trim s) inbuf

/-- And once more on what it left. -/
def TrimsAgain (s : Bytes) : Prop :=
  ∃ inbuf inbuf', Leaves (s ++ [0]) (trim s) inbuf ∧ Leaves inbuf (trim s) inbuf'

/-! ## When it holds -/

/-- The last index is that of an `int` that is not negative, with blanks at most
behind it; the leading blanks and the result can be counted. -/
structure InRange (s : Bytes) : Prop where
  last : 0 ≤ asInt (s.length - 1)
  behind : ∀ b ∈ s.drop (asInt (s.length - 1) + 1).toNat, isSpace b
  leading : (s.takeWhile isSpace).length ≤ INT_MAX
  length : (trim s).length ≤ INT_MAX

variable {s t pre post : Bytes}

/-- Up to the range of `int`, only the empty string is out of range. -/
theorem inRange_of_le (h : s.length ≤ INT_MAX) : InRange s ↔ s ≠ [] := by
  constructor
  · rintro ⟨hlast, -⟩ rfl
    exact absurd hlast (by decide)
  · intro hs
    have hpos := List.length_pos_iff.mpr hs
    have hint : asInt (s.length - 1) = s.length - 1 := by
      have := asInt_of_le (show s.length - 1 ≤ INT_MAX by omega)
      rwa [Nat.cast_sub hpos] at this
    have htrim : (trim s).length ≤ s.length := by
      have := congrArg List.length (trimBy_split isSpace s)
      rw [List.length_append, List.length_append] at this
      rw [trim]
      omega
    refine ⟨by omega, ?_, (List.takeWhile_prefix _).length_le.trans h, htrim.trans h⟩
    rw [hint, show ((s.length : Int) - 1 + 1).toNat = s.length by omega, List.drop_length]
    nofun

/-! ## The scans -/

theorem isSpace_and_ne_zero (b : UInt8) : (isSpace b && b != 0) = isSpace b := by
  by_cases hb : b = 0
  · subst hb
    rfl
  · rw [bne_iff_ne.mpr hb, Bool.and_true]

theorem skipSpaces_append (h0 : 0 ∉ s) (left : ℕ) (pre post : Bytes) :
    skipSpaces (pre ++ (s ++ 0 :: post)) left pre.length =
      if (s.takeWhile isSpace).length ≤ left then
        some (pre.length + (s.takeWhile isSpace).length) else none := by
  induction s generalizing pre left with
  | nil =>
      rw [skipSpaces.eq_def]
      dsimp only
      rw [List.nil_append, getElem?_append_length]
      rfl
  | cons b s ih =>
      rw [List.mem_cons, not_or] at h0
      have hread := getElem?_append_length pre b (s ++ 0 :: post)
      rw [skipSpaces.eq_def]
      dsimp only
      rw [List.cons_append, hread, Option.bind_eq_bind, Option.bind_some, isSpace_and_ne_zero]
      cases hb : isSpace b with
      | false =>
          rw [List.takeWhile_cons_of_neg (by simp [hb]), if_neg Bool.false_ne_true]
          rfl
      | true =>
          rw [List.takeWhile_cons_of_pos hb, if_pos rfl, List.length_cons]
          cases left with
          | zero => rfl
          | succ left =>
              have hnext := ih h0.2 left (pre ++ [b])
              rw [List.append_assoc, List.singleton_append, List.length_append,
                List.length_singleton] at hnext
              dsimp only
              rw [hnext]
              by_cases hle : (s.takeWhile isSpace).length ≤ left
              · rw [if_pos hle, if_pos (by omega), Nat.add_right_comm, Nat.add_assoc]
              · rw [if_neg hle, if_neg (by omega)]

theorem skipBack_le {m : Bytes} {i j : ℕ} (hj : j < m.length) (hij : j ≤ i) :
    skipBack m i j = some j := by
  have hread := List.getElem?_eq_getElem hj
  cases j with
  | zero =>
      rw [skipBack, hread]
      rfl
  | succ j =>
      rw [skipBack, hread, Option.bind_eq_bind, Option.bind_some, decide_eq_false (by omega),
        Bool.and_false]
      rfl

/-- Back over blanks to what is none. -/
theorem skipBack_append {front blanks : Bytes} {x : UInt8} {i : ℕ} (hx : isSpace x = false)
    (hblanks : ∀ b ∈ blanks, isSpace b = true) (hi : i ≤ front.length) (post : Bytes) :
    skipBack (front ++ x :: (blanks ++ post)) i (front.length + blanks.length) =
      some front.length := by
  induction blanks using List.reverseRecOn generalizing post with
  | nil =>
      have hread := getElem?_append_length front x post
      rw [List.nil_append, List.length_nil, Nat.add_zero]
      cases hlen : front.length with
      | zero =>
          rw [hlen] at hread
          rw [skipBack, hread]
          rfl
      | succ n =>
          rw [hlen] at hread
          rw [skipBack, hread, Option.bind_eq_bind, Option.bind_some, hx]
          rfl
  | append_singleton blanks b ih =>
      have hb := hblanks b (by simp)
      have hread := getElem?_append_length (front ++ x :: blanks) b post
      have hsplit : front ++ x :: (blanks ++ [b] ++ post) =
          (front ++ x :: blanks) ++ b :: post := by simp
      have hlen : (front ++ x :: blanks).length = front.length + blanks.length + 1 := by
        simp
        omega
      have hnext := ih (fun b' hb' => hblanks b' (List.mem_append_left _ hb')) (b :: post)
      have hmem : front ++ x :: (blanks ++ b :: post) = (front ++ x :: blanks) ++ b :: post := by
        simp
      rw [hlen] at hread
      rw [hmem] at hnext
      rw [hsplit, List.length_append, List.length_singleton, ← Nat.add_assoc, skipBack, hread,
        Option.bind_eq_bind, Option.bind_some, hb, decide_eq_true (by omega)]
      exact hnext

/-! ## One call -/

/-- The call with the index that the scan from the back starts at. -/
theorem trimSpace_eq (h0 : 0 ∉ s) (post : Bytes) {i j : ℕ}
    (hfront : (s.takeWhile isSpace).length = i) (hleading : i ≤ INT_MAX)
    (hlast : asInt (s.length - 1) = j) :
    trimSpace (s ++ 0 :: post) = (skipBack (s ++ 0 :: post) i j).bind fun j =>
      match asInt (j - i + 1) with
      | .negSucc _ => none
      | .ofNat count => (strncpyWithin (s ++ 0 :: post) 0 i count).bind fun inbuf =>
          (poke inbuf count 0).bind fun inbuf => some ((0 : Int), inbuf) := by
  have hlen := strlen_append h0 [] post
  have hskip := skipSpaces_append h0 INT_MAX [] post
  rw [List.nil_append, List.length_nil] at hlen hskip
  rw [hfront, if_pos hleading, Nat.zero_add] at hskip
  rw [trimSpace, hlen, Option.bind_eq_bind, Option.bind_some, hskip, Option.bind_some, hlast]
  rfl

variable {a b : Bytes} {i j : ℕ}

/-- The string is `a` up to the index `j`, and `b`. -/
structure SplitAt (s a b : Bytes) (i j : ℕ) : Prop where
  split : s = a ++ b
  length : a.length = j + 1
  last : asInt (s.length - 1) = j
  front : (s.takeWhile isSpace).length = i
  leading : i ≤ INT_MAX

theorem SplitAt.le (h : SplitAt s a b i j) : j ≤ INT_MAX := by
  have hrange := (asInt_range (s.length - 1)).2
  rw [h.last] at hrange
  omega

/-- The text up to `j` is copied to the start of the buffer and terminated. -/
theorem SplitAt.copy (h : SplitAt s a b i j) (h0 : 0 ∉ s) {front text back : Bytes}
    (ha : a = front ++ text ++ back) (hfront : front.length = i) (post : Bytes) :
    ∃ rest, (strncpyWithin (s ++ 0 :: post) 0 i text.length).bind (fun inbuf =>
      (poke inbuf text.length 0).bind fun inbuf => some ((0 : Int), inbuf)) =
        some (0, text ++ 0 :: rest) := by
  have htext : 0 ∉ text := by
    rw [h.split, ha] at h0
    exact fun hmem => h0 (by simp [hmem])
  obtain ⟨rest, hlen, hcopy⟩ := strncpyWithin_append htext [] front (back ++ b ++ 0 :: post)
  obtain ⟨c, rest, rfl⟩ := List.exists_cons_of_ne_nil (show rest ≠ [] by
    rw [← List.length_pos_iff, hlen]
    simp)
  have hmem : s ++ 0 :: post = [] ++ front ++ text ++ (back ++ b ++ 0 :: post) := by
    rw [h.split, ha]
    simp
  rw [List.length_nil, Nat.zero_add, hfront] at hcopy
  refine ⟨rest, ?_⟩
  rw [hmem, hcopy, Option.bind_some, List.nil_append, poke_append]
  rfl

theorem SplitAt.run_of_text (h : SplitAt s a b i j) (h0 : 0 ∉ s) (htext : trim a ≠ [])
    (post : Bytes) :
    ((trim a).length ≤ INT_MAX →
        ∃ rest, trimSpace (s ++ 0 :: post) = some (0, trim a ++ 0 :: rest)) ∧
      (INT_MAX < (trim a).length → trimSpace (s ++ 0 :: post) = none) := by
  obtain ⟨core, x, hcore, hx⟩ := exists_trimBy_end htext
  have hsplit := trimBy_split isSpace a
  have hfront : (a.takeWhile isSpace).length = i := by
    have hlt : (a.takeWhile isSpace).length ≠ a.length := by
      intro heq
      have := congrArg List.length hsplit
      rw [hcore] at this
      simp only [List.length_append, List.length_singleton] at this
      omega
    rw [← h.front, h.split, List.takeWhile_append, if_neg hlt]
  have hback : ∀ c ∈ (a.dropWhile isSpace).rtakeWhile isSpace, isSpace c = true :=
    fun c hc => List.mem_rtakeWhile_imp hc
  generalize (a.dropWhile isSpace).rtakeWhile isSpace = back at hsplit hback
  generalize a.takeWhile isSpace = front at hsplit hfront
  have hscan : skipBack (s ++ 0 :: post) i j = some (front ++ core).length := by
    have hmem : s ++ 0 :: post = (front ++ core) ++ x :: (back ++ (b ++ 0 :: post)) := by
      rw [h.split, hsplit, hcore]
      simp
    have hj : j = (front ++ core).length + back.length := by
      have hlen := h.length
      rw [hsplit, hcore] at hlen
      simp only [List.length_append, List.length_singleton] at hlen ⊢
      omega
    rw [hmem, hj]
    exact skipBack_append hx hback (by rw [List.length_append]; omega) _
  have hcount : ((front ++ core).length : Int) - i + 1 = (trim a).length := by
    rw [trim, hcore, List.length_append, List.length_append, List.length_singleton]
    omega
  rw [trimSpace_eq h0 post h.front h.leading h.last, hscan, Option.bind_some, hcount]
  constructor
  · intro hle
    rw [asInt_of_le hle]
    exact h.copy h0 hsplit hfront post
  · intro hgt
    have hle : (trim a).length ≤ INT_MAX + 1 := by
      have hlen := congrArg List.length hsplit
      have := h.length
      have := h.le
      rw [List.length_append, List.length_append] at hlen
      rw [trim]
      omega
    rw [show (trim a).length = INT_MAX + 1 by omega]
    rfl

theorem SplitAt.run_of_blank (h : SplitAt s a b i j) (h0 : 0 ∉ s) (hblank : trim a = [])
    (post : Bytes) :
    (i = j + 1 → ∃ rest, trimSpace (s ++ 0 :: post) = some (0, 0 :: rest)) ∧
      (i ≠ j + 1 → trimSpace (s ++ 0 :: post) = none) := by
  have hge : j + 1 ≤ i := by
    have htake := takeWhile_of_trimBy_eq_nil hblank
    rw [← h.front, h.split, List.takeWhile_append, htake, if_pos rfl, List.length_append, h.length]
    omega
  have hmem : j < (s ++ 0 :: post).length := by
    rw [h.split, List.length_append, List.length_append, h.length]
    omega
  rw [trimSpace_eq h0 post h.front h.leading h.last, skipBack_le hmem (by omega), Option.bind_some]
  constructor
  · rintro rfl
    rw [show (j : Int) - (j + 1 : ℕ) + 1 = (0 : ℕ) by omega, asInt_of_le (Nat.zero_le _)]
    exact h.copy h0 (show a = a ++ [] ++ [] by simp) h.length post
  · intro hne
    have hleading := h.leading
    rw [INT_MAX] at hleading
    have hneg : asInt ((j : Int) - i + 1) = (j : Int) - i + 1 :=
      asInt_of_range (by omega) (by rw [INT_MAX]; omega)
    obtain ⟨count, hcount⟩ :=
      Int.eq_negSucc_of_lt_zero (show asInt ((j : Int) - i + 1) < 0 by omega)
    rw [hcount]

theorem trimSpace_of_neg (h0 : 0 ∉ s) (hlast : asInt (s.length - 1) < 0) (post : Bytes) :
    trimSpace (s ++ 0 :: post) = none := by
  have hlen := strlen_append h0 [] post
  rw [List.nil_append, List.length_nil] at hlen
  rw [trimSpace, hlen, Option.bind_eq_bind, Option.bind_some]
  cases skipSpaces (s ++ 0 :: post) INT_MAX 0 with
  | none => rfl
  | some i =>
      obtain ⟨j, hj⟩ := Int.eq_negSucc_of_lt_zero hlast
      rw [hj]
      rfl

theorem trimSpace_of_leading (h0 : 0 ∉ s) (hleading : INT_MAX < (s.takeWhile isSpace).length)
    (post : Bytes) : trimSpace (s ++ 0 :: post) = none := by
  have hlen := strlen_append h0 [] post
  have hskip := skipSpaces_append h0 INT_MAX [] post
  rw [List.nil_append, List.length_nil] at hlen hskip
  rw [if_neg (by omega)] at hskip
  rw [trimSpace, hlen, Option.bind_eq_bind, Option.bind_some, hskip]
  rfl

theorem exists_splitAt (hlast : 0 ≤ asInt (s.length - 1))
    (hleading : (s.takeWhile isSpace).length ≤ INT_MAX) :
    ∃ a j, SplitAt s a (s.drop (asInt (s.length - 1) + 1).toNat)
      (s.takeWhile isSpace).length j := by
  obtain ⟨j, hj⟩ := Int.eq_ofNat_of_zero_le hlast
  have hpos : 0 < s.length := by
    by_contra hzero
    rw [show s.length = 0 by omega] at hlast
    exact absurd hlast (by decide)
  have hle := asInt_le (s.length - 1)
  rw [Nat.cast_sub hpos, Nat.cast_one, hj] at hle
  refine ⟨s.take (j + 1), j, ?_, ?_, hj, rfl, hleading⟩
  · rw [hj, show ((j : Int) + 1).toNat = j + 1 by omega, List.take_append_drop]
  · rw [List.length_take]
    omega

/-- In range, the string is trimmed, whatever is in the buffer behind it. -/
theorem InRange.run (h : InRange s) (h0 : 0 ∉ s) (post : Bytes) :
    ∃ rest, trimSpace (s ++ 0 :: post) = some (0, trim s ++ 0 :: rest) := by
  obtain ⟨a, j, hsplit⟩ := exists_splitAt h.last h.leading
  have hbehind := h.behind
  have hlength := h.length
  generalize s.drop (asInt (s.length - 1) + 1).toNat = b at hsplit hbehind
  by_cases htext : trim a = []
  · have hblank : trim s = [] := by
      rw [trim, trimBy_eq_nil] at htext ⊢
      rw [hsplit.split]
      intro c hc
      exact (List.mem_append.mp hc).elim (htext c) (hbehind c)
    have hlead : (s.takeWhile isSpace).length = j + 1 := by
      have hle := h.leading
      rw [takeWhile_of_trimBy_eq_nil hblank] at hle ⊢
      have hlen := hsplit.length
      have hlast := hsplit.last
      have hs := congrArg List.length hsplit.split
      rw [List.length_append] at hs
      rw [← Nat.cast_pred (by omega), asInt_of_le (by omega)] at hlast
      omega
    rw [hblank]
    exact (hsplit.run_of_blank h0 htext post).1 hlead
  · have htrim : trim s = trim a := by
      rw [hsplit.split]
      exact (trimBy_append_iff htext).mpr hbehind
    rw [htrim] at hlength ⊢
    exact (hsplit.run_of_text h0 htext post).1 hlength

/-- What is left is the trimmed string only in range. -/
theorem Trims.inRange (h : Trims s) (h0 : 0 ∉ s) : InRange s := by
  obtain ⟨inbuf, hrun, hread⟩ := h
  have hlast : 0 ≤ asInt (s.length - 1) := by
    by_contra hneg
    rw [trimSpace_of_neg h0 (by omega)] at hrun
    cases hrun
  have hleading : (s.takeWhile isSpace).length ≤ INT_MAX := by
    by_contra hgt
    rw [trimSpace_of_leading h0 (by omega)] at hrun
    cases hrun
  obtain ⟨a, j, hsplit⟩ := exists_splitAt hlast hleading
  suffices hbehind : (∀ c ∈ s.drop (asInt (s.length - 1) + 1).toNat, isSpace c) ∧
      (trim s).length ≤ INT_MAX from ⟨hlast, hbehind.1, hleading, hbehind.2⟩
  generalize s.drop (asInt (s.length - 1) + 1).toNat = b at hsplit
  by_cases htext : trim a = []
  · obtain ⟨hblank, hbeyond⟩ := hsplit.run_of_blank h0 htext []
    by_cases hlead : (s.takeWhile isSpace).length = j + 1
    · obtain ⟨rest, hrest⟩ := hblank hlead
      cases hrest.symm.trans hrun
      have hnil : trim s = [] := (Option.some.inj hread).symm
      rw [hnil]
      refine ⟨fun c hc => ?_, Nat.zero_le _⟩
      exact trimBy_eq_nil.mp hnil c (hsplit.split ▸ List.mem_append_right _ hc)
    · cases (hbeyond hlead).symm.trans hrun
  · obtain ⟨hcopied, hoverflow⟩ := hsplit.run_of_text h0 htext []
    by_cases hlength : (trim a).length ≤ INT_MAX
    · obtain ⟨rest, hrest⟩ := hcopied hlength
      cases hrest.symm.trans hrun
      have htext0 : 0 ∉ trim a := fun hmem => h0 <| by
        rw [hsplit.split]
        exact List.mem_append_left _ (mem_of_mem_trimBy hmem)
      rw [readStr_append htext0] at hread
      have heq : trim s = trim a := (Option.some.inj hread).symm
      refine ⟨?_, heq ▸ hlength⟩
      rw [hsplit.split] at heq
      exact (trimBy_append_iff htext).mp heq
    · cases (hoverflow (by omega)).symm.trans hrun

/-! ## Once and twice -/

theorem inRange_trim (h : InRange s) (hne : trim s ≠ []) : InRange (trim s) :=
  (inRange_of_le h.length).mpr hne

/-- The string is trimmed exactly if it is in range, and trimming it again changes nothing
exactly if, besides, it is not all blanks. -/
theorem trims_iff (h0 : 0 ∉ s) :
    (Trims s ↔ InRange s) ∧ (TrimsAgain s ↔ InRange s ∧ ∃ b ∈ s, ¬isSpace b) := by
  have h0' : 0 ∉ trim s := fun hmem => h0 (mem_of_mem_trimBy hmem)
  refine ⟨⟨fun h => h.inRange h0, fun h => ?_⟩, ⟨?_, ?_⟩⟩
  · obtain ⟨rest, hrun⟩ := h.run h0 []
    exact ⟨_, hrun, readStr_append h0' rest⟩
  · rintro ⟨inbuf, inbuf', hfirst, hsecond, -⟩
    have hrange := Trims.inRange ⟨inbuf, hfirst⟩ h0
    refine ⟨hrange, ?_⟩
    obtain ⟨rest, hrun⟩ := hrange.run h0 []
    cases hrun.symm.trans hfirst.1
    by_contra hblank
    push Not at hblank
    have hnil : trim s = [] := trimBy_eq_nil.mpr hblank
    have hnone : trimSpace ([] ++ 0 :: rest) = none :=
      trimSpace_of_neg List.not_mem_nil (by decide) rest
    rw [hnil] at hsecond
    cases hnone.symm.trans hsecond
  · rintro ⟨hrange, b, hb, hspace⟩
    have hne : trim s ≠ [] := fun hnil => hspace (trimBy_eq_nil.mp hnil b hb)
    obtain ⟨rest, hrun⟩ := hrange.run h0 []
    obtain ⟨rest', hrun'⟩ := (inRange_trim hrange hne).run h0' rest
    rw [show trim (trim s) = trim s from trimBy_trimBy] at hrun'
    exact ⟨_, _, ⟨hrun, readStr_append h0' rest⟩, hrun', readStr_append h0' rest'⟩

theorem padded_trims : TrimsAgain (ascii " a b\n") :=
  (trims_iff (by decide)).2.mpr
    ⟨(inRange_of_le (by decide)).mpr (by decide), 97, by decide⟩

/-- The index -1 is read. -/
theorem empty_notTrims : ¬Trims [] := by
  rintro ⟨inbuf, hrun, -⟩
  have hnone : trimSpace ([] ++ [0]) = none := by decide
  cases hnone.symm.trans hrun

end InMemory

end FileHub
