import FileHub.Base.Util

/-!
# Decoding what was encoded

The encoder writes a byte as itself or as a percent sign and two digits. The
decoder meets these pieces one by one: a piece never begins in the middle of
another, since it takes three bytes for a percent sign and one for anything
else, and neither a percent sign nor a plus is written as itself.
-/

namespace FileHub

open Lib

theorem forall_byte {P : UInt8 → Prop} (h : ∀ n : Fin 256, P (.ofFin n)) : ∀ b, P b :=
  fun b => h b.toFin

/-- The digits of a byte give it back. -/
theorem fromHex_toHex :
    ∀ b : UInt8, fromHex (toHex (b >>> 4)) <<< 4 ||| fromHex (toHex (b % 16)) = b :=
  forall_byte (by decide +kernel)

theorem isAlnum_toHex : ∀ b : UInt8, isAlnum (toHex (b >>> 4)) ∧ isAlnum (toHex (b % 16)) :=
  forall_byte (by decide +kernel)

/-- What is appended for a byte. -/
theorem cStr_encodeByte : ∀ b : UInt8, cStr (encodeByte b) =
    if isAlnum b then [b] else [37, toHex (b >>> 4), toHex (b % 16)] :=
  forall_byte (by decide +kernel)

theorem urlDecode_plain {b : UInt8} (h : isAlnum b = true) (rest : Bytes) :
    urlDecode (b :: rest) = (urlDecode rest).map (b :: ·) := by
  have hpercent : b ≠ 37 := by
    rintro rfl
    cases h
  have hplus : b ≠ 43 := by
    rintro rfl
    cases h
  match rest with
  | [] | [_] | _ :: _ :: _ => simp [urlDecode, hpercent, hplus]

theorem urlDecode_encodeByte (b : UInt8) (rest : Bytes) :
    urlDecode (cStr (encodeByte b) ++ rest) = (urlDecode rest).map (b :: ·) := by
  rw [cStr_encodeByte]
  split
  · next h => exact urlDecode_plain h rest
  · rw [List.cons_append, List.cons_append, List.cons_append, List.nil_append, urlDecode,
      if_pos rfl, fromHex_toHex]

/-- Decoding undoes encoding, and only letters, digits and percent signs are written. -/
theorem urlDecode_urlEncode (s : Bytes) :
    urlDecode (urlEncode s) = some s ∧ ∀ b ∈ urlEncode s, isAlnum b ∨ b = 37 := by
  constructor
  · induction s with
    | nil => rfl
    | cons b s ih =>
        rw [urlEncode] at ih ⊢
        rw [List.flatMap_cons, urlDecode_encodeByte, ih]
        rfl
  · intro b hb
    obtain ⟨c, -, hb⟩ := List.mem_flatMap.mp hb
    rw [cStr_encodeByte] at hb
    split at hb
    · next h =>
      rw [List.mem_singleton.mp hb]
      exact .inl h
    · obtain ⟨hhigh, hlow⟩ := isAlnum_toHex c
      simp only [List.mem_cons, List.not_mem_nil, or_false] at hb
      obtain rfl | rfl | rfl := hb
      · exact .inr rfl
      · exact .inl hhigh
      · exact .inl hlow

/-! NUL, the two bytes the decoder treats apart, and a byte above ASCII. -/

example : urlEncode [0, 37, 43, 97, 255] = ascii "%00%25%2Ba%FF" := by decide

end FileHub
