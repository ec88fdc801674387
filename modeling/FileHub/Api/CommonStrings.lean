import FileHub.Lib.CBuffer
import FileHub.Lib.CInt

/-!
# `GetFileSuffix` and `TrimSpace` of `api_common.cc`, in memory

Both scan from both ends of a string with pointers and `int`s. They are `none`
where an access leaves the memory they are given, or an `int` overflows.
-/

namespace FileHub

open Lib

namespace InMemory

/-- `while (*k != '.' && k != p) k--`. -/
def scanDot (file_name : Bytes) : ℕ → Option ℕ
  | 0 => do
      let _ ← file_name[0]?
      return 0
  | k + 1 => do if (← file_name[k + 1]?) = 46 then return k + 1 else scanDot file_name k

/-- `strncpy(suffix, k, len); suffix[len] = '\0'`. -/
def copySuffix (suffix k : Bytes) (len : Int) : Option Bytes := do
  let suffix ← strncpy suffix k (asSize len)
  if len < 0 then none else poke suffix len.toNat 0

/-- `GetFileSuffix`: what it returns, with `suffix`. -/
def getFileSuffix (file_name : Option Bytes) (suffix : Bytes) : Option (Int × Bytes) :=
  match file_name with
  | none => some (-1, suffix)
  | some p => do
      let q ← strlen p 0
      let k ← scanDot p q
      if (← p[k]?) = 46 then
        let len := asInt (q - (k + 1))
        if len ≠ 0 then return (0, ← copySuffix suffix (p.drop (k + 1)) len)
        else return (0, ← strncpy suffix (ascii "null" ++ [0]) 5)
      else return (0, ← strncpy suffix (ascii "null" ++ [0]) 5)

/-- `isspace` of the C locale. -/
def isSpace (b : UInt8) : Bool := b == 32 || 9 ≤ b && b ≤ 13

/-- The loop from the front, with what is left of the range of `i`. -/
def skipSpaces (str : Bytes) : ℕ → ℕ → Option ℕ
  | left, i => do
      let b ← str[i]?
      if isSpace b && b != 0 then
        match left with
        | 0 => none
        | left + 1 => skipSpaces str left (i + 1)
      else return i

/-- The loop from the back. -/
def skipBack (str : Bytes) (i : ℕ) : ℕ → Option ℕ
  | 0 => do
      let _ ← str[0]?
      return 0
  | j + 1 => do
      let b ← str[j + 1]?
      if isSpace b && decide (i < j + 1) then skipBack str i j else return j + 1

/-- `TrimSpace`: what it returns, with the buffer. -/
def trimSpace (inbuf : Bytes) : Option (Int × Bytes) := do
  let len ← strlen inbuf 0
  let i ← skipSpaces inbuf INT_MAX 0
  match asInt (len - 1) with
  | .negSucc _ => none
  | .ofNat j =>
      let j ← skipBack inbuf i j
      match asInt (j - i + 1) with
      | .negSucc _ => none
      | .ofNat count =>
          let inbuf ← strncpyWithin inbuf 0 i count
          return (0, ← poke inbuf count 0)

end InMemory

end FileHub
