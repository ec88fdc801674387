import Mathlib.Logic.Function.Basic
import FileHub.Lib.CBuffer
import FileHub.Lib.CInt

/-!
# `util.cc`

The string functions. What reads or writes memory is `none` where it would do so
outside of it.
-/

namespace FileHub

open Lib

/-! ## `CStrExplode`

The constructor counts the separators for the size of `item_list_` and then
goes through the string a second time to fill it. The entries of the array are
not initialised; one that is never written holds none. The counter and the
lengths are `uint32_t`, and `idx` is an `int`. -/

structure CStrExplode where
  item_cnt_ : ℕ
  item_list_ : ℕ → Option Bytes

namespace CStrExplode

/-- An item of `len` bytes goes into a new array of `len + 1`, which is none at all
for the largest `len`. -/
def setItem (item_cnt_ : ℕ) (token : Bytes) (idx : ℕ) (item_list_ : ℕ → Option Bytes) :
    Option (ℕ → Option Bytes) :=
  let len := token.length % 2 ^ 32
  if idx < item_cnt_ ∧ len + 1 < 2 ^ 32 then
    some (Function.update item_list_ idx (some (token.take len)))
  else none

/-- The second pass from `pos` on, with what stands between `start` and `pos`. -/
def fill (seperator : UInt8) (item_cnt_ : ℕ) :
    Bytes → Bytes → ℕ → (ℕ → Option Bytes) → Option (ℕ → Option Bytes)
  | [], token, idx, item_list_ =>
      if token.length % 2 ^ 32 ≠ 0 then setItem item_cnt_ token idx item_list_
      else some item_list_
  | b :: rest, token, idx, item_list_ =>
      if token ≠ [] ∧ b = seperator then do
        let item_list_ ← setItem item_cnt_ token idx item_list_
        if idx < INT_MAX then fill seperator item_cnt_ rest [] (idx + 1) item_list_ else none
      else fill seperator item_cnt_ rest (token ++ [b]) idx item_list_

/-- The constructor, on the bytes of the C string `str`. -/
def new (str : Bytes) (seperator : UInt8) : Option CStrExplode :=
  let item_cnt_ := (1 + str.count seperator) % 2 ^ 32
  (fill seperator item_cnt_ str [] 0 fun _ => none).map fun item_list_ => ⟨item_cnt_, item_list_⟩

def getItem (e : CStrExplode) (idx : ℕ) : Option Bytes := e.item_list_ idx

end CStrExplode

/-! ## `ReplaceMark` -/

/-- `str.find('?', begin_pos)`. -/
def findMark (str : Bytes) (begin_pos : ℕ) : Option ℕ :=
  ((str.drop begin_pos).idxOf? 63).map (begin_pos + ·)

/-- What the two overloads share: the string and `begin_pos`, a `uint32_t`, with
the first mark from there on replaced by `text`. -/
def replaceFrom (text : Bytes) (x : Bytes × ℕ) : Bytes × ℕ :=
  match findMark x.1 x.2 with
  | none => x
  | some pos => (x.1.take pos ++ text ++ x.1.drop (pos + 1), (pos + text.length) % 2 ^ 32)

/-- `ReplaceMark(string &, string &, uint32_t &)`. -/
def replaceMarkString (new_value : Bytes) : Bytes × ℕ → Bytes × ℕ :=
  replaceFrom (39 :: (new_value ++ [39]))

/-- `ReplaceMark(string &, uint32_t, uint32_t &)`. -/
def replaceMarkNumber (new_value : UInt32) : Bytes × ℕ → Bytes × ℕ :=
  replaceFrom (decimal new_value.toNat)

inductive MarkValue where
  | string (s : Bytes)
  | number (n : UInt32)

def replaceMark : MarkValue → Bytes × ℕ → Bytes × ℕ
  | .string s => replaceMarkString s
  | .number n => replaceMarkNumber n

/-- The values one after the other, from `begin_pos = 0`. -/
def replaceMarks (str : Bytes) (values : List MarkValue) : Bytes :=
  (values.foldl (fun x v => replaceMark v x) (str, 0)).1

/-! ## `URLEncode` and `URLDecode` -/

def toHex (x : UInt8) : UInt8 := if x > 9 then x - 10 + 65 else x + 48

def fromHex (x : UInt8) : UInt8 := if isDigit x then x - 48 else x - 65 + 10

/-- `isalnum` of the C locale. -/
def isAlnum (b : UInt8) : Bool := isDigit b || 65 ≤ b && b ≤ 90 || 97 ≤ b && b ≤ 122

/-- `buf` for one byte of `in`. -/
def encodeByte (b : UInt8) : Bytes :=
  if isAlnum b then [b, 0, 0, 0] else [37, toHex (b >>> 4), toHex (b % 16), 0]

def urlEncode (s : Bytes) : Bytes := s.flatMap fun b => cStr (encodeByte b)

/-- `in[in.size()]` is NUL, and nothing is behind it. -/
def urlDecode : Bytes → Option Bytes
  | [] => some []
  | [b] => if b = 37 then none else some [if b = 43 then 32 else b]
  | [b, h] =>
      if b = 37 then some [fromHex h <<< 4 ||| fromHex 0]
      else (urlDecode [h]).map ((if b = 43 then 32 else b) :: ·)
  | b :: h :: l :: rest =>
      if b = 37 then (urlDecode rest).map ((fromHex h <<< 4 ||| fromHex l) :: ·)
      else (urlDecode (h :: l :: rest)).map ((if b = 43 then 32 else b) :: ·)

/-! ## `MemFind` -/

/-- The loop over `i < bound`, a `size_t`, from `i` on; `left` increments of `i`
do not overflow. -/
def findUp (src_str sub_str : Bytes) (sub_len bound : ℕ) : ℕ → ℕ → Option (Option ℕ)
  | left, i =>
      if i < bound then do
        if ← memcmp (src_str.drop i) sub_str sub_len then return some i
        else
          match left with
          | 0 => none
          | left + 1 => findUp src_str sub_str sub_len bound left (i + 1)
      else some none

/-- The loop down from `i`. -/
def findDown (src_str sub_str : Bytes) (sub_len : ℕ) : ℕ → Option (Option ℕ)
  | 0 => do
      if ← memcmp src_str sub_str sub_len then return some 0 else return none
  | i + 1 => do
      if ← memcmp (src_str.drop (i + 1)) sub_str sub_len then return some (i + 1)
      else findDown src_str sub_str sub_len i

/-- `MemFind`, as the index of what it returns. -/
def memFind (src_str : Option Bytes) (src_len : ℕ) (sub_str : Option Bytes) (sub_len : ℕ)
    (flag : Bool) : Option (Option ℕ) :=
  match src_str, sub_str with
  | some src_str, some sub_str =>
      if src_len = 0 then return none
      else if src_len < sub_len then return none
      else do
        let sub_len ← (if sub_len = 0 then strlen sub_str 0 else some sub_len)
        if src_len = sub_len then
          return if ← memcmp src_str sub_str src_len then some 0 else none
        else if flag then
          findUp src_str sub_str sub_len (asSize (src_len - sub_len)) INT_MAX 0
        else
          match asInt (asSize (src_len - sub_len)) with
          | .ofNat i => findDown src_str sub_str sub_len i
          | .negSucc _ => return none
  | _, _ => some none

end FileHub
