import FileHub.Base.Util

/-!
# Where `MemFind` finds

Forwards the loop ends one position early: an occurrence at the very end of the
block is not looked at, unless it is the whole block, which is compared apart.
The rest of what can go wrong is the lengths: a string longer than the block is
noticed only if its length is given, and the position is an `int`.
-/

namespace FileHub

open Lib

/-! ## The position to be found -/

def OccursAt (src_str sub_str : Bytes) (i : ℕ) : Prop := sub_str <+: src_str.drop i

/-- What the position returned has to be. -/
def Finds (src_str sub_str : Bytes) (flag : Bool) : Option ℕ → Prop
  | some i => OccursAt src_str sub_str i ∧
      ∀ j, OccursAt src_str sub_str j → if flag then i ≤ j else j ≤ i
  | none => ∀ i, ¬OccursAt src_str sub_str i

/-- `MemFind` stays in its blocks and returns that position. -/
def MemFinds (src_str sub_str : Bytes) (sub_len : ℕ) (flag : Bool) : Prop :=
  ∃ found, memFind (some src_str) src_str.length (some (sub_str ++ [0])) sub_len flag =
    some found ∧ Finds src_str sub_str flag found

/-! ## When it holds -/

/-- A string longer than the block comes with its length, or backwards and the
position is negative. Forwards, the occurrence at the end is not the only one;
if the positions exceed `int`, one that does not is an occurrence. Backwards,
no occurrence is past the position of the last one as an `int`. -/
structure WithinReach (src_str sub_str : Bytes) (sub_len : ℕ) (flag : Bool) : Prop where
  longer : src_str.length < sub_str.length →
    sub_len ≠ 0 ∨ flag = false ∧ asInt (src_str.length - sub_str.length) < 0
  forwards : sub_str.length < src_str.length → flag = true →
    if src_str.length - sub_str.length ≤ INT_MAX then
      OccursAt src_str sub_str (src_str.length - sub_str.length) →
        ∃ i < src_str.length - sub_str.length, OccursAt src_str sub_str i
    else ∃ i ≤ INT_MAX, OccursAt src_str sub_str i
  backwards : sub_str.length < src_str.length → flag = false →
    ∀ i, OccursAt src_str sub_str i → i ≤ asInt (src_str.length - sub_str.length)

/-! ## The loops -/

variable {src_str sub_str : Bytes}

instance (i : ℕ) : Decidable (OccursAt src_str sub_str i) :=
  inferInstanceAs (Decidable (sub_str <+: _))

theorem OccursAt.le {i : ℕ} (h : OccursAt src_str sub_str i) (hsub : sub_str ≠ []) :
    i + sub_str.length ≤ src_str.length := by
  have hlen := h.length_le
  have hpos := List.length_pos_iff.mpr hsub
  rw [List.length_drop] at hlen
  omega

theorem memcmp_drop {i : ℕ} (hi : i + sub_str.length ≤ src_str.length) :
    memcmp (src_str.drop i) (sub_str ++ [0]) sub_str.length =
      some (decide (OccursAt src_str sub_str i)) := by
  rw [memcmp, if_pos (by simp; omega), List.take_left]
  congr 1
  rw [Bool.beq_eq_decide_eq, decide_eq_decide, eq_comm]
  exact List.prefix_iff_eq_take.symm

theorem memcmp_outside {i : ℕ} (hi : src_str.length < i + sub_str.length) (hsub : sub_str ≠ []) :
    memcmp (src_str.drop i) (sub_str ++ [0]) sub_str.length = none := by
  have hpos := List.length_pos_iff.mpr hsub
  rw [memcmp, if_neg]
  rw [List.length_drop]
  omega

theorem findUp_of_occursAt {i k left bound : ℕ} (hk : OccursAt src_str sub_str k) (hik : i ≤ k)
    (hbound : k < bound) (hleft : k ≤ i + left)
    (hfirst : ∀ j, i ≤ j → j < k → ¬OccursAt src_str sub_str j)
    (hin : bound + sub_str.length ≤ src_str.length) :
    findUp src_str (sub_str ++ [0]) sub_str.length bound left i = some (some k) := by
  induction left generalizing i with
  | zero =>
      obtain rfl : i = k := by omega
      rw [findUp, if_pos hbound, memcmp_drop (by omega), decide_eq_true hk]
      rfl
  | succ left ih =>
      rw [findUp, if_pos (by omega), memcmp_drop (by omega)]
      rcases hik.eq_or_lt with rfl | hlt
      · rw [decide_eq_true hk]
        rfl
      · rw [decide_eq_false (hfirst i le_rfl hlt)]
        exact ih hlt (by omega) fun j hj => hfirst j (by omega)

theorem findUp_of_none {i left bound : ℕ}
    (hnone : ∀ j, i ≤ j → j < bound → ¬OccursAt src_str sub_str j) (hleft : bound ≤ i + left)
    (hin : bound + sub_str.length ≤ src_str.length) :
    findUp src_str (sub_str ++ [0]) sub_str.length bound left i = some none := by
  induction left generalizing i with
  | zero => rw [findUp, if_neg (by omega)]
  | succ left ih =>
      rw [findUp]
      split
      · next hi =>
        rw [memcmp_drop (by omega), decide_eq_false (hnone i le_rfl hi)]
        exact ih (fun j hj => hnone j (by omega)) (by omega)
      · rfl

/-- The position overflows before it gets to the end. -/
theorem findUp_overflow {i left bound : ℕ}
    (hnone : ∀ j, i ≤ j → j ≤ i + left → ¬OccursAt src_str sub_str j) (hleft : i + left < bound)
    (hin : bound + sub_str.length ≤ src_str.length) :
    findUp src_str (sub_str ++ [0]) sub_str.length bound left i = none := by
  induction left generalizing i with
  | zero =>
      rw [findUp, if_pos (by omega), memcmp_drop (by omega),
        decide_eq_false (hnone i le_rfl (by omega))]
      rfl
  | succ left ih =>
      rw [findUp, if_pos (by omega), memcmp_drop (by omega),
        decide_eq_false (hnone i le_rfl (by omega))]
      exact ih (fun j hj hle => hnone j (by omega) (by omega)) (by omega)

theorem findUp_outside {i left bound : ℕ} (hbound : i < bound)
    (hi : src_str.length < i + sub_str.length) (hsub : sub_str ≠ []) :
    findUp src_str (sub_str ++ [0]) sub_str.length bound left i = none := by
  rw [findUp.eq_def]
  dsimp only
  rw [if_pos hbound, memcmp_outside hi hsub]
  rfl

theorem findDown_outside {i : ℕ} (hi : src_str.length < sub_str.length) (hsub : sub_str ≠ []) :
    findDown src_str (sub_str ++ [0]) sub_str.length i = none := by
  have houtside (j : ℕ) : memcmp (src_str.drop j) (sub_str ++ [0]) sub_str.length = none :=
    memcmp_outside (by omega) hsub
  cases i with
  | zero =>
      have hzero := houtside 0
      rw [List.drop_zero] at hzero
      rw [findDown, hzero]
      rfl
  | succ i =>
      rw [findDown, houtside]
      rfl

theorem findDown_succ {i : ℕ} (hi : i + sub_str.length ≤ src_str.length) :
    findDown src_str (sub_str ++ [0]) sub_str.length i =
      if OccursAt src_str sub_str i then some (some i)
      else match i with
        | 0 => some none
        | i + 1 => findDown src_str (sub_str ++ [0]) sub_str.length i := by
  have hmemcmp := memcmp_drop hi
  by_cases h : OccursAt src_str sub_str i
  · rw [decide_eq_true h] at hmemcmp
    rw [if_pos h]
    cases i with
    | zero =>
        rw [List.drop_zero] at hmemcmp
        rw [findDown, hmemcmp]
        rfl
    | succ i =>
        rw [findDown, hmemcmp]
        rfl
  · rw [decide_eq_false h] at hmemcmp
    rw [if_neg h]
    cases i with
    | zero =>
        rw [List.drop_zero] at hmemcmp
        rw [findDown, hmemcmp]
        rfl
    | succ i =>
        rw [findDown, hmemcmp]
        rfl

/-- Down from `i`, the last occurrence up to there. -/
theorem findDown_eq {i : ℕ} (hi : i + sub_str.length ≤ src_str.length) :
    ∃ found, findDown src_str (sub_str ++ [0]) sub_str.length i = some found ∧
      match found with
      | some k => k ≤ i ∧ OccursAt src_str sub_str k ∧
          ∀ j ≤ i, OccursAt src_str sub_str j → j ≤ k
      | none => ∀ j ≤ i, ¬OccursAt src_str sub_str j := by
  induction i with
  | zero =>
      rw [findDown_succ hi]
      split
      · next h => exact ⟨_, rfl, le_rfl, h, fun j hj _ => hj⟩
      · next h =>
        refine ⟨_, rfl, fun j hj => ?_⟩
        rwa [Nat.le_zero.mp hj]
  | succ i ih =>
      rw [findDown_succ hi]
      split
      · next h => exact ⟨_, rfl, le_rfl, h, fun j hj _ => hj⟩
      · next h =>
        obtain ⟨found, hfound, hspec⟩ := ih (by omega)
        refine ⟨found, hfound, ?_⟩
        have hne {j : ℕ} (hj : j ≤ i + 1) (hoccurs : OccursAt src_str sub_str j) : j ≤ i := by
          rcases Nat.le_succ_iff.mp hj with hj | rfl
          · exact hj
          · exact absurd hoccurs h
        cases found with
        | some k =>
            obtain ⟨hki, hk, hlast⟩ := hspec
            exact ⟨by omega, hk, fun j hj hoccurs => hlast j (hne hj hoccurs) hoccurs⟩
        | none => exact fun j hj hoccurs => hspec j (hne hj hoccurs) hoccurs

/-! ## `MemFind` by its length -/

section

variable {sub_len : ℕ} {flag : Bool}

theorem memFind_eq (flag : Bool) (hsrc : src_str ≠ []) (h0 : 0 ∉ sub_str)
    (hlen : sub_len = sub_str.length ∨ sub_len = 0) (hgiven : sub_len ≤ src_str.length) :
    memFind (some src_str) src_str.length (some (sub_str ++ [0])) sub_len flag =
      if src_str.length = sub_str.length then
        some (if OccursAt src_str sub_str 0 then some 0 else none)
      else if flag then
        findUp src_str (sub_str ++ [0]) sub_str.length
          (asSize (src_str.length - sub_str.length)) INT_MAX 0
      else
        match asInt (src_str.length - sub_str.length) with
        | .ofNat i => findDown src_str (sub_str ++ [0]) sub_str.length i
        | .negSucc _ => some none := by
  have hstrlen : (if sub_len = 0 then Lib.strlen (sub_str ++ [0]) 0 else some sub_len) =
      some sub_str.length := by
    split
    · exact strlen_append h0 [] []
    · next hne => rw [hlen.resolve_right hne]
  have hpos := List.length_pos_iff.mpr hsrc
  rw [memFind, if_neg (by omega), if_neg (by omega), hstrlen, Option.bind_eq_bind, Option.bind_some]
  by_cases heq : src_str.length = sub_str.length
  · have hmemcmp := @memcmp_drop src_str sub_str 0 (by omega)
    rw [List.drop_zero, ← heq] at hmemcmp
    rw [if_pos heq, if_pos heq, hmemcmp]
    by_cases h : OccursAt src_str sub_str 0
    · rw [decide_eq_true h, if_pos h]
      rfl
    · rw [decide_eq_false h, if_neg h]
      rfl
  · rw [if_neg heq, if_neg heq, asInt_asSize]
    rfl

theorem memFinds_iff_of_eq {found : Option ℕ}
    (h : memFind (some src_str) src_str.length (some (sub_str ++ [0])) sub_len flag = some found) :
    MemFinds src_str sub_str sub_len flag ↔ Finds src_str sub_str flag found := by
  constructor
  · intro ⟨found', hfound, hspec⟩
    rw [h] at hfound
    cases hfound
    exact hspec
  · intro hspec
    exact ⟨found, h, hspec⟩

theorem not_memFinds
    (h : memFind (some src_str) src_str.length (some (sub_str ++ [0])) sub_len flag = none) :
    ¬MemFinds src_str sub_str sub_len flag := by
  intro ⟨found, hfound, _⟩
  rw [h] at hfound
  cases hfound

/-- A block shorter than the string. -/
theorem memFinds_longer (hsrc : src_str ≠ []) (hsub : sub_str ≠ []) (h0 : 0 ∉ sub_str)
    (hlen : sub_len = sub_str.length ∨ sub_len = 0) (hsize : sub_str.length < 2 ^ 64)
    (hlt : src_str.length < sub_str.length) :
    MemFinds src_str sub_str sub_len flag ↔
      sub_len ≠ 0 ∨ flag = false ∧ asInt (src_str.length - sub_str.length) < 0 := by
  have hnone : ∀ i, ¬OccursAt src_str sub_str i := fun i h => by
    have := h.le hsub
    omega
  have hpos := List.length_pos_iff.mpr hsrc
  rcases hlen with hlen | hlen
  · have hfind : memFind (some src_str) src_str.length (some (sub_str ++ [0])) sub_len flag =
        some none := by
      rw [memFind, if_neg (by omega), if_pos (by omega)]
      rfl
    rw [memFinds_iff_of_eq hfind]
    exact iff_of_true hnone (.inl (by omega))
  · have hfind := memFind_eq flag hsrc h0 (.inr hlen) (by omega)
    rw [if_neg (by omega)] at hfind
    cases flag with
    | true =>
        rw [if_pos rfl, findUp_outside (by rw [asSize]; omega) (by omega) hsub] at hfind
        exact iff_of_false (not_memFinds hfind) (by simp [hlen])
    | false =>
        rw [if_neg Bool.false_ne_true] at hfind
        cases hint : asInt (src_str.length - sub_str.length) with
        | ofNat i =>
            rw [hint] at hfind
            dsimp only at hfind
            rw [findDown_outside hlt hsub] at hfind
            refine iff_of_false (not_memFinds hfind) ?_
            simp [hlen]
        | negSucc i =>
            rw [hint] at hfind
            rw [memFinds_iff_of_eq hfind]
            exact iff_of_true hnone (.inr ⟨rfl, Int.negSucc_lt_zero i⟩)

theorem memFinds_forwards (hsrc : src_str ≠ []) (hsub : sub_str ≠ []) (h0 : 0 ∉ sub_str)
    (hlen : sub_len = sub_str.length ∨ sub_len = 0) (hsize : src_str.length < 2 ^ 64)
    (hlt : sub_str.length < src_str.length) :
    MemFinds src_str sub_str sub_len true ↔
      if src_str.length - sub_str.length ≤ INT_MAX then
        OccursAt src_str sub_str (src_str.length - sub_str.length) →
          ∃ i < src_str.length - sub_str.length, OccursAt src_str sub_str i
      else ∃ i ≤ INT_MAX, OccursAt src_str sub_str i := by
  have hfind := memFind_eq true hsrc h0 hlen (by omega)
  have hbound : asSize (src_str.length - sub_str.length) = src_str.length - sub_str.length := by
    rw [← Nat.cast_sub hlt.le, asSize_of_lt (by omega)]
  rw [if_neg (by omega), if_pos rfl, hbound] at hfind
  have hin : src_str.length - sub_str.length + sub_str.length ≤ src_str.length := by omega
  have hle {j : ℕ} (hj : OccursAt src_str sub_str j) : j ≤ src_str.length - sub_str.length := by
    have := hj.le hsub
    omega
  by_cases hex : ∃ k < src_str.length - sub_str.length, OccursAt src_str sub_str k
  · obtain ⟨hkbound, hk⟩ := Nat.find_spec hex
    have hmin {j : ℕ} (hj : OccursAt src_str sub_str j) : Nat.find hex ≤ j := by
      by_contra hjk
      exact Nat.find_min hex (by omega) ⟨by omega, hj⟩
    generalize Nat.find hex = k at hkbound hk hmin
    by_cases hint : k ≤ INT_MAX
    · rw [findUp_of_occursAt hk k.zero_le hkbound (by omega)
        (fun j _ hjk hj => absurd (hmin hj) (by omega)) hin] at hfind
      rw [memFinds_iff_of_eq hfind]
      refine iff_of_true ⟨hk, fun j hj => hmin hj⟩ ?_
      split
      · exact fun _ => hex
      · exact ⟨k, hint, hk⟩
    · rw [findUp_overflow (fun j _ hj h => absurd (hmin h) (by omega)) (by omega) hin] at hfind
      refine iff_of_false (not_memFinds hfind) ?_
      rw [if_neg (by omega)]
      intro ⟨i, hi, hoccurs⟩
      have := hmin hoccurs
      omega
  · have hnone (j : ℕ) (hj : j < src_str.length - sub_str.length) : ¬OccursAt src_str sub_str j :=
      fun h => hex ⟨j, hj, h⟩
    by_cases hint : src_str.length - sub_str.length ≤ INT_MAX
    · rw [findUp_of_none (fun j _ => hnone j) (by omega) hin] at hfind
      rw [memFinds_iff_of_eq hfind, if_pos hint]
      constructor
      · intro h hlast
        exact absurd hlast (h _)
      · intro h j hj
        rcases (hle hj).eq_or_lt with rfl | hjlt
        · exact hex (h hj)
        · exact hnone j hjlt hj
    · rw [findUp_overflow (fun j _ hj => hnone j (by omega)) (by omega) hin] at hfind
      refine iff_of_false (not_memFinds hfind) ?_
      rw [if_neg hint]
      intro ⟨i, hi, hoccurs⟩
      exact hnone i (by omega) hoccurs

theorem memFinds_backwards (hsrc : src_str ≠ []) (h0 : 0 ∉ sub_str)
    (hlen : sub_len = sub_str.length ∨ sub_len = 0) (hlt : sub_str.length < src_str.length) :
    MemFinds src_str sub_str sub_len false ↔
      ∀ i, OccursAt src_str sub_str i → i ≤ asInt (src_str.length - sub_str.length) := by
  have hfind := memFind_eq false hsrc h0 hlen (by omega)
  rw [if_neg (by omega), if_neg Bool.false_ne_true] at hfind
  have hint := asInt_le (src_str.length - sub_str.length)
  rw [Nat.cast_sub hlt.le] at hint
  cases hpos : asInt (src_str.length - sub_str.length) with
  | ofNat i =>
      rw [hpos] at hfind hint
      obtain ⟨found, hdown, hspec⟩ := @findDown_eq src_str sub_str i
        (by rw [Int.ofNat_eq_natCast] at hint; omega)
      dsimp only at hfind
      rw [hdown] at hfind
      rw [memFinds_iff_of_eq hfind]
      simp only [Int.ofNat_eq_natCast, Nat.cast_le]
      cases found with
      | some k =>
          obtain ⟨hki, hk, hlast⟩ := hspec
          constructor
          · intro ⟨_, h⟩ j hj
            exact (h j hj).trans hki
          · intro h
            exact ⟨hk, fun j hj => hlast j (h j hj) hj⟩
      | none =>
          constructor
          · intro h j hj
            exact absurd hj (h j)
          · intro h j hj
            exact hspec j (h j hj) hj
  | negSucc i =>
      rw [hpos] at hfind
      rw [memFinds_iff_of_eq hfind]
      constructor
      · intro h j hj
        exact absurd hj (h j)
      · intro h j hj
        have := h j hj
        omega

/-- `MemFind` finds what it looks for in its blocks exactly if the lengths and positions are
within its reach. -/
theorem memFinds_iff (hsrc : src_str ≠ []) (hsub : sub_str ≠ []) (h0 : 0 ∉ sub_str)
    (hlen : sub_len = sub_str.length ∨ sub_len = 0) (hsize : src_str.length < 2 ^ 64)
    (hsize' : sub_str.length < 2 ^ 64) :
    MemFinds src_str sub_str sub_len flag ↔ WithinReach src_str sub_str sub_len flag := by
  rcases lt_trichotomy src_str.length sub_str.length with hlt | heq | hlt
  · rw [memFinds_longer hsrc hsub h0 hlen hsize' hlt]
    constructor
    · intro h
      exact ⟨fun _ => h, by omega, by omega⟩
    · intro h
      exact h.longer hlt
  · have hfind := memFind_eq flag hsrc h0 hlen (by omega)
    rw [if_pos heq] at hfind
    rw [memFinds_iff_of_eq hfind]
    refine iff_of_true ?_ ⟨by omega, by omega, by omega⟩
    have hzero {j : ℕ} (hj : OccursAt src_str sub_str j) : j = 0 := by
      have := hj.le hsub
      omega
    split
    · next h =>
      refine ⟨h, fun j hj => ?_⟩
      rw [hzero hj]
      cases flag <;> exact le_rfl
    · next h => exact fun j hj => h (hzero hj ▸ hj)
  · cases flag with
    | true =>
        rw [memFinds_forwards hsrc hsub h0 hlen hsize hlt]
        constructor
        · intro h
          exact ⟨by omega, fun _ _ => h, nofun⟩
        · intro h
          exact h.forwards hlt rfl
    | false =>
        rw [memFinds_backwards hsrc h0 hlen hlt]
        constructor
        · intro h
          exact ⟨by omega, nofun, fun _ _ => h⟩
        · intro h
          exact h.backwards hlt rfl

/-! The string is looked for at every position but the last. -/

theorem memFinds_sample : MemFinds (ascii "abab") (ascii "ab") 0 true :=
  (memFinds_iff (by decide) (by decide) (by decide) (.inr rfl)
    (by decide) (by decide)).mpr
      ⟨by decide, fun _ _ => by decide, nofun⟩

theorem lastPosition_notFound : ¬MemFinds (ascii "ab") (ascii "b") 1 true := by
  intro ⟨found, hfound, hspec⟩
  have hnull : memFind (some (ascii "ab")) 2 (some (ascii "b" ++ [0])) 1 true = some none := by
    decide
  cases hnull.symm.trans hfound
  exact hspec 1 (by decide)

end

end FileHub
