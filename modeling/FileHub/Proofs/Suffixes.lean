import Mathlib.Data.List.DropRight
import FileHub.Api.Common
import FileHub.Api.CommonStrings

/-!
# The suffix of a file name

The scan back stops at the last dot or at the first byte, so what it stops at
is a dot if and only if the name has one. What follows is copied by its length
as an `int`. Up to the range of `int` that is the length, and the function is
the one the upload is modelled with.
-/

namespace FileHub

open Lib

/-! ## The suffix to be found -/

/-- What follows the last dot, or `null`. -/
def suffixOf (file_name : Bytes) : Bytes :=
  let suffix := file_name.rtakeWhile (· != 46)
  if 46 ∈ file_name ∧ suffix ≠ [] then suffix else ascii "null"

/-- `GetFileSuffix` returns 0 with that in the buffer. -/
def GetsSuffix (file_name buffer : Bytes) : Prop :=
  ∃ suffix, InMemory.getFileSuffix (some (file_name ++ [0])) buffer = some (0, suffix) ∧
    readStr suffix = some (suffixOf file_name)

/-! ## The scan -/

variable {file_name buffer : Bytes}

theorem scanDot_concat {k : ℕ} (hk : k ≤ file_name.length) :
    InMemory.scanDot (file_name ++ [0]) k = some (scanDot file_name k) := by
  induction k with
  | zero =>
      have hread : (file_name ++ [0])[0]?.isSome := by simp
      obtain ⟨b, hb⟩ := Option.isSome_iff_exists.mp hread
      rw [InMemory.scanDot, hb]
      rfl
  | succ k ih =>
      rw [InMemory.scanDot, scanDot]
      rcases hk.eq_or_lt with hk' | hlt
      · -- the first byte looked at is the terminator
        have hread : (file_name ++ [0])[k + 1]? = some 0 := by
          rw [hk', getElem?_append_length]
        have hnone : file_name[k + 1]? = none := List.getElem?_eq_none (by omega)
        rw [hread, hnone, if_neg (by decide)]
        exact ih (by omega)
      · rw [List.getElem?_append_left hlt, List.getElem?_eq_getElem hlt]
        by_cases hdot : file_name[k + 1] = 46
        · rw [hdot, if_pos rfl]
          rfl
        · rw [if_neg (by simpa using hdot), ← ih (by omega)]
          exact if_neg hdot

/-- The name before its last dot and after it. -/
theorem dot_cases (file_name : Bytes) :
    46 ∉ file_name ∨ ∃ before suffix, file_name = before ++ 46 :: suffix ∧ 46 ∉ suffix := by
  by_cases h : 46 ∈ file_name.reverse
  · obtain ⟨suffix, before, hsplit, hsuffix⟩ := List.eq_append_cons_of_mem h
    refine .inr ⟨before.reverse, suffix.reverse, ?_, by simpa using hsuffix⟩
    rw [← List.reverse_reverse file_name, hsplit]
    simp
  · exact .inl (by simpa using h)

theorem scanDot_of_not_mem (h : 46 ∉ file_name) (k : ℕ) : scanDot file_name k = 0 := by
  induction k with
  | zero => rfl
  | succ k ih =>
      rw [scanDot, if_neg fun hk => h (List.mem_of_getElem? hk), ih]

theorem scanDot_append {before suffix : Bytes} (h : 46 ∉ suffix) {k : ℕ}
    (hk : before.length ≤ k) : scanDot (before ++ 46 :: suffix) k = before.length := by
  induction k with
  | zero => rw [scanDot, Nat.le_zero.mp hk]
  | succ k ih =>
      rw [scanDot]
      rcases hk.eq_or_lt with hk' | hlt
      · rw [← hk', getElem?_append_length, if_pos rfl]
      · have hread : (before ++ 46 :: suffix)[k + 1]? ≠ some 46 := by
          intro hread
          rw [List.getElem?_append_right (by omega),
            show k + 1 - before.length = k - before.length + 1 by omega,
            List.getElem?_cons_succ] at hread
          exact h (List.mem_of_getElem? hread)
        rw [if_neg hread, ih (by omega)]

theorem suffixOf_of_not_mem (h : 46 ∉ file_name) : suffixOf file_name = ascii "null" :=
  if_neg fun hboth => h hboth.1

theorem suffixOf_append {before suffix : Bytes} (h : 46 ∉ suffix) :
    suffixOf (before ++ 46 :: suffix) = if suffix ≠ [] then suffix else ascii "null" := by
  have htake : (before ++ 46 :: suffix).rtakeWhile (· != 46) = suffix := by
    have hreverse : (before ++ 46 :: suffix).reverse = suffix.reverse ++ 46 :: before.reverse := by
      simp
    have hall : ∀ b ∈ suffix.reverse, (b != 46) = true := by
      intro b hb
      rw [List.mem_reverse] at hb
      exact bne_iff_ne.mpr (ne_of_mem_of_not_mem hb h)
    rw [List.rtakeWhile, hreverse, List.takeWhile_append_of_pos hall,
      List.takeWhile_cons_of_neg (by simp), List.append_nil, List.reverse_reverse]
  rw [suffixOf, htake]
  simp

/-- The function on byte strings, with which the upload is modelled, is what is claimed. -/
theorem getFileSuffix_eq (file_name : Bytes) : getFileSuffix file_name = suffixOf file_name := by
  rcases dot_cases file_name with h | ⟨before, suffix, rfl, h⟩
  · rw [getFileSuffix, suffixOf_of_not_mem h]
    exact if_neg fun hk => h (List.mem_of_getElem? hk)
  · have hlen : (before ++ 46 :: suffix).length - (before.length + 1) = suffix.length := by
      rw [List.length_append, List.length_cons]
      omega
    have hdrop : (before ++ 46 :: suffix).drop (before.length + 1) = suffix := by
      rw [← List.drop_drop, List.drop_left]
      rfl
    rw [getFileSuffix, suffixOf_append h, scanDot_append h (by simp), getElem?_append_length,
      if_pos rfl, hlen, hdrop]
    simp [List.length_eq_zero_iff]

/-! ## The copy -/

theorem strncpy_append {s : Bytes} (h0 : 0 ∉ s) {n : ℕ} (hn : n ≤ s.length)
    (hbuffer : n ≤ buffer.length) (post : Bytes) :
    strncpy buffer (s ++ post) n = some (s.take n ++ buffer.drop n) := by
  have hcStr : cStr ((s ++ post).take n) = s.take n := by
    rw [List.take_append_of_le_length hn]
    exact cStr_of_forall fun b hb hb0 => h0 (hb0 ▸ List.mem_of_mem_take hb)
  rw [strncpy, if_pos ⟨hbuffer, .inl (by rw [List.length_append]; omega)⟩]
  dsimp only
  rw [hcStr, List.length_take, min_eq_left hn, Nat.sub_self, List.replicate_zero, List.append_nil]

theorem copySuffix_append {suffix : Bytes} (h0 : 0 ∉ suffix) {len : ℕ}
    (hlen : len ≤ suffix.length) (hsize : len < 2 ^ 64) (hbuffer : len < buffer.length) :
    ∃ rest, InMemory.copySuffix buffer (suffix ++ [0]) len =
      some (suffix.take len ++ 0 :: rest) := by
  obtain ⟨b, rest, hrest⟩ := List.exists_cons_of_ne_nil
    (show buffer.drop len ≠ [] by rw [Ne, List.drop_eq_nil_iff]; omega)
  have hpoke := poke_append (suffix.take len) b 0 rest
  rw [List.length_take, min_eq_left hlen] at hpoke
  refine ⟨rest, ?_⟩
  rw [InMemory.copySuffix, asSize_of_lt hsize, strncpy_append h0 hlen hbuffer.le, hrest]
  exact hpoke

theorem copySuffix_neg {k : Bytes} {len : Int} (hneg : len < 0) :
    InMemory.copySuffix buffer k len = none := by
  rw [InMemory.copySuffix]
  cases strncpy buffer k (asSize len) with
  | none => rfl
  | some suffix => exact if_pos hneg

theorem strncpy_null (hbuffer : 5 ≤ buffer.length) :
    ∃ suffix, strncpy buffer (ascii "null" ++ [0]) 5 = some suffix ∧
      readStr suffix = some (ascii "null") := by
  refine ⟨ascii "null" ++ 0 :: buffer.drop 5, ?_, readStr_append (by decide) _⟩
  rw [strncpy, if_pos ⟨hbuffer, .inl (by decide)⟩]
  have hcStr : cStr ((ascii "null" ++ [0]).take 5) = ascii "null" := by decide
  dsimp only
  rw [hcStr]
  rfl

/-! ## The whole function -/

theorem run_of_not_mem (h0 : 0 ∉ file_name) (h : 46 ∉ file_name) :
    InMemory.getFileSuffix (some (file_name ++ [0])) buffer =
      (strncpy buffer (ascii "null" ++ [0]) 5).map (0, ·) := by
  have hscan : InMemory.scanDot (file_name ++ [0]) file_name.length = some 0 := by
    rw [scanDot_concat le_rfl, scanDot_of_not_mem h]
  have hread : ∃ b, (file_name ++ [0])[0]? = some b ∧ b ≠ 46 := by
    cases file_name with
    | nil => exact ⟨0, rfl, by decide⟩
    | cons b file_name =>
        rw [List.mem_cons, not_or] at h
        exact ⟨b, rfl, fun hb => h.1 hb.symm⟩
  obtain ⟨b, hb, hdot⟩ := hread
  have hlen := strlen_append h0 [] []
  rw [List.nil_append, List.length_nil] at hlen
  simp only [InMemory.getFileSuffix, hlen, hscan, hb, Option.bind_eq_bind, Option.bind_some,
    if_neg hdot, Option.map_eq_bind]
  rfl

theorem run_append {before suffix : Bytes} (buffer : Bytes) (h0 : 0 ∉ before ++ 46 :: suffix)
    (h : 46 ∉ suffix) :
    InMemory.getFileSuffix (some ((before ++ 46 :: suffix) ++ [0])) buffer =
      if asInt suffix.length ≠ 0 then
        (InMemory.copySuffix buffer (suffix ++ [0]) (asInt suffix.length)).map (0, ·)
      else (strncpy buffer (ascii "null" ++ [0]) 5).map (0, ·) := by
  have hscan : InMemory.scanDot ((before ++ 46 :: suffix) ++ [0])
      (before ++ 46 :: suffix).length = some before.length := by
    rw [scanDot_concat le_rfl, scanDot_append h (by simp)]
  have hlen := strlen_append h0 [] []
  rw [List.nil_append, List.length_nil] at hlen
  have hread : ((before ++ 46 :: suffix) ++ [0])[before.length]? = some 46 := by
    rw [List.append_assoc, List.cons_append, getElem?_append_length]
  have hdrop : ((before ++ 46 :: suffix) ++ [0]).drop (before.length + 1) = suffix ++ [0] := by
    rw [List.append_assoc, ← List.drop_drop, List.drop_left]
    rfl
  have hdiff : ((before ++ 46 :: suffix).length : Int) - (before.length + 1) = suffix.length := by
    rw [List.length_append, List.length_cons]
    omega
  rw [InMemory.getFileSuffix]
  dsimp only
  rw [hlen, Option.bind_eq_bind, Option.bind_some, hscan, Option.bind_some, hread,
    Option.bind_eq_bind, Option.bind_some, if_pos rfl, hdiff, hdrop]
  split
  · rw [Option.map_eq_bind]
    rfl
  · rw [Option.map_eq_bind]
    rfl

theorem getsSuffix_null (hbuffer : 5 ≤ buffer.length)
    (hrun : InMemory.getFileSuffix (some (file_name ++ [0])) buffer =
      (strncpy buffer (ascii "null" ++ [0]) 5).map (0, ·)) :
    GetsSuffix file_name buffer ↔ suffixOf file_name = ascii "null" := by
  obtain ⟨null, hcopy, hnull⟩ := strncpy_null hbuffer
  rw [hcopy, Option.map_some] at hrun
  constructor
  · intro ⟨suffix, hsuffix, hread⟩
    rw [hrun] at hsuffix
    cases hsuffix
    exact Option.some.inj (hread.symm.trans hnull)
  · intro h
    exact ⟨null, hrun, h ▸ hnull⟩

/-- A suffix is copied as far as its length is an `int`. -/
theorem getsSuffix_append {before suffix : Bytes} (h0 : 0 ∉ before ++ 46 :: suffix)
    (h : 46 ∉ suffix) (hne : suffix ≠ []) (hbuffer : 5 ≤ buffer.length)
    (hroom : suffix.length < buffer.length) :
    GetsSuffix (before ++ 46 :: suffix) buffer ↔ suffix.length ≤ INT_MAX := by
  have hrun := run_append buffer h0 h
  have hpos := List.length_pos_iff.mpr hne
  have hsuffix : suffixOf (before ++ 46 :: suffix) = suffix := by
    rw [suffixOf_append h, if_pos hne]
  have hint := asInt_le suffix.length
  have hmax := (asInt_range suffix.length).2
  have h0' : 0 ∉ suffix := fun hmem => h0 (by simp [hmem])
  by_cases hle : suffix.length ≤ INT_MAX
  · refine iff_of_true ?_ hle
    have hsize : suffix.length < 2 ^ 64 := by
      rw [INT_MAX] at hle
      omega
    obtain ⟨rest, hcopy⟩ := @copySuffix_append buffer suffix h0' _ le_rfl hsize hroom
    rw [asInt_of_le hle, if_pos (by omega), hcopy, List.take_length] at hrun
    exact ⟨_, hrun, by rw [hsuffix, readStr_append h0']⟩
  · refine iff_of_false ?_ hle
    cases hcase : asInt suffix.length with
    | negSucc n =>
        rw [hcase, if_pos (by omega), copySuffix_neg (by omega)] at hrun
        rintro ⟨result, hresult, -⟩
        rw [hrun] at hresult
        cases hresult
    | ofNat n =>
        rw [hcase] at hrun hmax
        rw [Int.ofNat_eq_natCast] at hrun hmax
        by_cases hn : n = 0
        · rw [hn, Nat.cast_zero, if_neg (not_not.mpr rfl)] at hrun
          rw [getsSuffix_null hbuffer hrun, hsuffix]
          intro hnull
          rw [hnull] at hle
          exact hle (by decide)
        · have hshort : n ≤ suffix.length := by omega
          have hsize : n < 2 ^ 64 := by
            rw [INT_MAX] at hmax
            omega
          obtain ⟨rest, hcopy⟩ := @copySuffix_append buffer suffix h0' n hshort hsize (by omega)
          rw [if_pos (by omega), hcopy] at hrun
          rintro ⟨result, hresult, hread⟩
          rw [hrun] at hresult
          cases hresult
          rw [hsuffix, readStr_append fun hmem => h0' (List.mem_of_mem_take hmem)] at hread
          have hlen := congrArg List.length (Option.some.inj hread)
          rw [List.length_take] at hlen
          omega

/-- `GetFileSuffix` gets the suffix exactly if its length is an `int`. -/
theorem getsSuffix_iff (h0 : 0 ∉ file_name) (hbuffer : 5 ≤ buffer.length)
    (hroom : (suffixOf file_name).length < buffer.length) :
    GetsSuffix file_name buffer ↔ (suffixOf file_name).length ≤ INT_MAX := by
  have hnull : (ascii "null").length ≤ INT_MAX := by decide
  rcases dot_cases file_name with h | ⟨before, suffix, rfl, h⟩
  · have hsuffix := suffixOf_of_not_mem h
    rw [getsSuffix_null hbuffer (run_of_not_mem h0 h), hsuffix]
    exact iff_of_true rfl hnull
  · by_cases hne : suffix = []
    · subst hne
      have hsuffix := @suffixOf_append before [] h
      have hrun := run_append buffer h0 h
      rw [List.length_nil, asInt_of_le (Nat.zero_le _), if_neg (by simp)] at hrun
      rw [getsSuffix_null hbuffer hrun, hsuffix]
      exact iff_of_true rfl hnull
    · have hsuffix := @suffixOf_append before suffix h
      rw [if_pos hne] at hsuffix
      rw [hsuffix] at hroom ⊢
      exact getsSuffix_append h0 h hne hbuffer hroom

namespace SuffixOf

theorem sample_getsSuffix : GetsSuffix (ascii "a.tar.gz") (List.replicate 8 7) :=
  (getsSuffix_iff (by decide) (by decide) (by decide)).mpr
    (by decide)

theorem negative_notGets {n : ℕ} (hneg : asInt n < 0) (buffer : Bytes) :
    ¬GetsSuffix (46 :: List.replicate n 97) buffer := by
  have hmem (b : UInt8) (hb : b ≠ 97) : b ∉ List.replicate n 97 := fun h =>
    hb (List.eq_of_mem_replicate h)
  have h0 : 0 ∉ ([] ++ 46 :: List.replicate n 97 : Bytes) := by
    rw [List.nil_append, List.mem_cons, not_or]
    exact ⟨by decide, hmem 0 (by decide)⟩
  have hrun := run_append buffer h0 (hmem 46 (by decide))
  rw [List.length_replicate, if_pos (by omega), copySuffix_neg hneg] at hrun
  intro ⟨result, hresult, _⟩
  cases hrun.symm.trans hresult

/-- A dot and 2^31 letters: their number as an `int` is negative. -/
theorem longSuffix_notGets :
    ¬∃ buffer, GetsSuffix (46 :: List.replicate 2147483648 97) buffer := by
  intro ⟨buffer, h⟩
  exact negative_notGets (show asInt (2147483648 : ℕ) < 0 by decide) buffer h

end SuffixOf

end FileHub
