import Mathlib.Data.Nat.Digits.Defs
import Mathlib.Data.Nat.Digits.Lemmas
import Mathlib.Data.List.TakeWhile

/-!
# Byte strings and their C reading

Text is a list of bytes. Code that passes a string on by its `c_str()` passes
the bytes before the first NUL, `cStr`; everything else about C strings used
here (prefix tests, `strstr`, decimal text) is stated on byte lists.
-/

namespace FileHub.Lib

abbrev Bytes := List UInt8

/-- A string literal of the source. -/
def ascii (s : String) : Bytes := s.toList.map fun c => c.toNat.toUInt8

/-- A literal is the list of its characters, without decoding it. -/
theorem ascii_ofList (l : List Char) :
    ascii (String.ofList l) = l.map fun c => c.toNat.toUInt8 := by
  rw [ascii, String.toList_ofList]

/-- What a callee reads through `s.c_str()`. -/
def cStr (s : Bytes) : Bytes := s.takeWhile fun b => b != 0

theorem cStr_of_forall {s : Bytes} (h : ∀ b ∈ s, b ≠ 0) : cStr s = s := by
  rw [cStr, List.takeWhile_eq_self_iff]
  simpa using h

theorem cStr_nonzero (s : Bytes) : ∀ b ∈ cStr s, b ≠ 0 := by
  intro b hb
  simpa using List.mem_takeWhile_imp hb

@[simp] theorem cStr_cStr (s : Bytes) : cStr (cStr s) = cStr s :=
  cStr_of_forall (cStr_nonzero s)

theorem cStr_append_of_forall {s : Bytes} (h : ∀ b ∈ s, b ≠ 0) (t : Bytes) :
    cStr (s ++ t) = s ++ cStr t := by
  rw [cStr, List.takeWhile_append_of_pos (by simpa using h), cStr]

theorem cStr_terminated (s : Bytes) : cStr (s ++ [0]) = cStr s := by
  induction s with
  | nil => rfl
  | cons b s ih =>
      rw [cStr] at ih ⊢
      rw [List.cons_append, List.takeWhile_cons, ih, cStr, cStr, List.takeWhile_cons]

theorem cStr_take (s : Bytes) (n : ℕ) : cStr (s.take n) = (cStr s).take n := by
  induction s generalizing n with
  | nil => simp [cStr]
  | cons b s ih =>
      cases n with
      | zero => rfl
      | succ n =>
          rw [List.take_succ_cons, cStr, cStr, List.takeWhile_cons, List.takeWhile_cons]
          split
          · rw [List.take_succ_cons]
            exact congrArg (b :: ·) (ih n)
          · rfl

/-- `strstr(s, pat)`: the rest of `s` from the first occurrence of `pat`. -/
def strstr (s pat : Bytes) : Option Bytes :=
  if pat.isPrefixOf s then some s
  else match s with
    | [] => none
    | _ :: rest => strstr rest pat

/-- `%d` of a non-negative number. -/
def decimal (n : ℕ) : Bytes :=
  if n = 0 then [48] else ((Nat.digits 10 n).map fun d => (48 + d).toUInt8).reverse

/-- `%d` and `%lld`. -/
def intText (n : Int) : Bytes :=
  if n < 0 then 45 :: decimal n.natAbs else decimal n.natAbs

/-- The number a run of decimal digits spells. -/
def ofDecimal (s : Bytes) : ℕ := s.foldl (fun n b => n * 10 + (b.toNat - 48)) 0

def isDigit (b : UInt8) : Bool := 48 ≤ b && b ≤ 57

/-- `strtol(s, NULL, 10)`. -/
def strtol (s : Bytes) : Int :=
  let digits (t : Bytes) : Int := ofDecimal (t.takeWhile isDigit)
  let n := match s.dropWhile fun b => b == 32 || 9 ≤ b && b ≤ 13 with
    | 45 :: t => -digits t
    | 43 :: t => digits t
    | t => digits t
  max (-9223372036854775808) (min n 9223372036854775807)

/-- `atoi`: the low 32 bits of the `long`. -/
def atoi (s : Bytes) : Int := (strtol s).bmod (2 ^ 32)

theorem ofDecimal_reverse (ds : List ℕ) (h : ∀ d ∈ ds, d < 10) :
    ofDecimal ((ds.map fun d => (48 + d).toUInt8).reverse) = Nat.ofDigits 10 ds := by
  induction ds with
  | nil => rfl
  | cons d ds ih =>
      have hd : d < 10 := h d (by simp)
      have hrest := ih fun x hx => h x (by simp [hx])
      rw [ofDecimal] at hrest ⊢
      have hbyte : ((48 + d).toUInt8).toNat = 48 + d := by
        simp only [Nat.toUInt8_eq, UInt8.toNat_ofNat']
        omega
      rw [List.map_cons, List.reverse_cons, List.foldl_append, hrest,
        List.foldl_cons, List.foldl_nil, hbyte, Nat.ofDigits_cons]
      omega

@[simp] theorem ofDecimal_decimal (n : ℕ) : ofDecimal (decimal n) = n := by
  rw [decimal]
  split
  · next h => subst h; rfl
  · rw [ofDecimal_reverse _ fun d hd => Nat.digits_lt_base (by omega) hd,
      Nat.ofDigits_digits]

theorem isDigit_decimal (n : ℕ) : ∀ b ∈ decimal n, isDigit b = true := by
  intro b hb
  rw [decimal] at hb
  split at hb
  · rw [List.mem_singleton] at hb
    subst hb
    rfl
  · rw [List.mem_reverse, List.mem_map] at hb
    obtain ⟨d, hd, rfl⟩ := hb
    have hlt : d < 10 := Nat.digits_lt_base (by omega) hd
    interval_cases d <;> rfl

theorem decimal_ne_nil (n : ℕ) : decimal n ≠ [] := by
  rw [decimal]
  split
  · simp
  · next h => simpa [Nat.digits_eq_nil_iff_eq_zero] using h

theorem takeWhile_isDigit_decimal (n : ℕ) : (decimal n).takeWhile isDigit = decimal n :=
  List.takeWhile_eq_self_iff.mpr (isDigit_decimal n)

/-- `strtol` reads a `long` back. -/
theorem strtol_intText {n : Int} (hmin : -9223372036854775808 ≤ n)
    (hmax : n ≤ 9223372036854775807) : strtol (intText n) = n := by
  by_cases hneg : n < 0
  · have hvalue : -((ofDecimal ((decimal n.natAbs).takeWhile isDigit) : ℕ) : Int) = n := by
      rw [takeWhile_isDigit_decimal, ofDecimal_decimal]
      omega
    rw [intText, if_pos hneg, strtol, List.dropWhile_cons_of_neg (by decide)]
    show max _ (min (-((ofDecimal ((decimal n.natAbs).takeWhile isDigit) : ℕ) : Int)) _) = n
    rw [hvalue]
    omega
  · have hvalue : ((ofDecimal ((decimal n.natAbs).takeWhile isDigit) : ℕ) : Int) = n := by
      rw [takeWhile_isDigit_decimal, ofDecimal_decimal]
      omega
    rw [intText, if_neg hneg, strtol]
    obtain ⟨d, t, hd⟩ := List.exists_cons_of_ne_nil (decimal_ne_nil n.natAbs)
    have hdigit : isDigit d = true := isDigit_decimal n.natAbs d (hd ▸ List.mem_cons_self)
    rw [isDigit, Bool.and_eq_true, decide_eq_true_eq, decide_eq_true_eq] at hdigit
    rw [hd] at hvalue ⊢
    have hspace : ¬(d == 32 || 9 ≤ d && d ≤ 13) = true := by
      simp only [Bool.or_eq_true, Bool.and_eq_true, decide_eq_true_eq, beq_iff_eq]
      rintro (rfl | ⟨-, h13⟩)
      · exact absurd hdigit.1 (by decide)
      · exact absurd (UInt8.le_trans hdigit.1 h13) (by decide)
    have hdrop : (d :: t).dropWhile (fun b => b == 32 || 9 ≤ b && b ≤ 13) = d :: t :=
      List.dropWhile_cons_of_neg hspace
    rw [hdrop]
    split
    · next h =>
      rw [(List.cons.inj h).1] at hdigit
      exact absurd hdigit.1 (by decide)
    · next h =>
      rw [(List.cons.inj h).1] at hdigit
      exact absurd hdigit.1 (by decide)
    · dsimp only
      rw [hvalue]
      omega

end FileHub.Lib
