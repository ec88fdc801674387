import FileHub.Lib.CBuffer
import FileHub.Lib.CInt

/-!
# The page of the ranking in memory

`handleGetRankingFilelist` allocates an array of `count` entries,
`CacheConn::ZsetZrevrange` of `cache_pool.cc` fills it, and a loop over
`file_count` reads it. The callee computes the size of the page from two
positions, in `int`s that wrap around. Accesses outside of the array are `none`.
-/

namespace FileHub

open Lib

namespace RankingPage

def VALUES_ID_SIZE : ℕ := 1024

/-- `calloc(count, VALUES_ID_SIZE)`, which fails on a negative count. -/
def allocate (count : Int) : Option Bytes :=
  if count < 0 then none else some (List.replicate (count.toNat * VALUES_ID_SIZE) 0)

/-- One turn of the loop in `ZsetZrevrange`; `str` is followed by its terminator. -/
def copyValue (values : Bytes) (i : ℕ) (str : Bytes) : Option Bytes := do
  let values ← strncpyAt values (i * VALUES_ID_SIZE) (str ++ [0]) (VALUES_ID_SIZE - 1)
  poke values (i * VALUES_ID_SIZE + (VALUES_ID_SIZE - 1)) 0

/-- The loop from `i` on, with the turns that are left. -/
def copyValues (element : List Bytes) : ℕ → ℕ → Bytes → Option Bytes
  | 0, _, values => some values
  | left + 1, i, values => do
      let str ← element[i]?
      copyValues element left (i + 1) (← copyValue values i str)

/-- `ZsetZrevrange` on the reply's elements, or on a reply that is no array: the
return code with `values` and `get_num`. -/
def zsetZrevrange (from_pos end_pos : Int) (reply : Option (List Bytes)) (values : Bytes)
    (get_num : Int) : Option (Int × Bytes × Int) :=
  let count := asInt (asInt (end_pos - from_pos) + 1)
  match reply with
  | none => some (-1, values, get_num)
  | some element => do
      let max_count :=
        asInt (if element.length > asSize count then asSize count else element.length)
      let values ← copyValues element max_count.toNat 0 values
      return (0, values, max_count)

/-- The names that the loop of the handler looks up. -/
def readValues (value : Bytes) : ℕ → ℕ → Option (List Bytes)
  | 0, _ => some []
  | left + 1, i => do
      let name ← readStr ((value.drop (i * VALUES_ID_SIZE)).take VALUES_ID_SIZE)
      return name :: (← readValues value left (i + 1))

/-- `end`, the last position asked for. -/
def endPos (start count : Int) : Int := asInt (asInt (start + count) - 1)

/-- From the allocation to the loop: the names, or `none` where the handler
leaves for `END`. -/
def names (start count : Int) (reply : Option (List Bytes)) : Option (Option (List Bytes)) :=
  match allocate count with
  | none => some none
  | some value => do
      let (ret, value, file_count) ← zsetZrevrange start (endPos start count) reply value 0
      if ret ≠ 0 then return none else return some (← readValues value file_count.toNat 0)

end RankingPage

end FileHub
