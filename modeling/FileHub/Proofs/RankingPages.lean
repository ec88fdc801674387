import FileHub.Api.RankingPage

/-!
# The page of the ranking stays in its array

The positions may wrap around, but their difference does not: modulo 2^32 the
callee gets back the count that the array was allocated for. So it copies no
more elements than there are entries, and the loop reads what it has copied.
-/

namespace FileHub

open Lib

namespace RankingPage

variable {start count : Int} {element : List Bytes}

/-- An element as the handler reads it. -/
def name (str : Bytes) : Bytes := (cStr str).take (VALUES_ID_SIZE - 1)

/-- An entry with an element in it. -/
def written (str : Bytes) : Bytes :=
  name str ++ List.replicate (VALUES_ID_SIZE - (name str).length) 0

theorem length_name_lt (str : Bytes) : (name str).length < VALUES_ID_SIZE := by
  rw [name, List.length_take, VALUES_ID_SIZE]
  omega

theorem length_written (str : Bytes) : (written str).length = VALUES_ID_SIZE := by
  have := length_name_lt str
  rw [written, List.length_append, List.length_replicate]
  omega

theorem readStr_written (str : Bytes) : readStr (written str) = some (name str) := by
  have hlt := length_name_lt str
  have h0 : 0 ∉ name str := fun hmem => cStr_nonzero str 0 (List.mem_of_mem_take hmem) rfl
  rw [written, show VALUES_ID_SIZE - (name str).length =
    VALUES_ID_SIZE - (name str).length - 1 + 1 by omega, List.replicate_succ]
  exact readStr_append h0 _

/-! ## The callee -/

/-- The callee gets the count back from the two positions. -/
theorem pageSize_eq (hcount : asInt count = count) :
    asInt (asInt (endPos start count - start) + 1) = count := by
  have hsum : start + count - 1 - start + 1 = count := by omega
  rw [endPos, asInt_asInt_sub (start + count), asInt_asInt_sub, asInt_asInt_add, hsum, hcount]

/-- One element goes to its entry, and the terminator is there already. -/
theorem copyValue_append {filled : Bytes} {i : ℕ} (hfilled : filled.length = i * VALUES_ID_SIZE)
    (m : ℕ) (str : Bytes) :
    copyValue (filled ++ List.replicate (VALUES_ID_SIZE + m) 0) i str =
      some (filled ++ written str ++ List.replicate m 0) := by
  have hlt := length_name_lt str
  have hname : cStr ((str ++ [0]).take (VALUES_ID_SIZE - 1)) = name str := by
    rw [cStr_take, cStr_terminated, name]
  -- the entry without its last byte
  obtain ⟨front, hfront⟩ : ∃ front, written str = front ++ [0] := by
    refine ⟨name str ++ List.replicate (VALUES_ID_SIZE - 1 - (name str).length) 0, ?_⟩
    have hsize : VALUES_ID_SIZE - (name str).length =
        VALUES_ID_SIZE - 1 - (name str).length + 1 := by omega
    rw [written, hsize, List.replicate_succ', List.append_assoc]
  have hlen : (filled ++ front).length = i * VALUES_ID_SIZE + (VALUES_ID_SIZE - 1) := by
    have hwritten := length_written str
    rw [hfront, List.length_append, List.length_singleton] at hwritten
    rw [List.length_append, hfilled]
    omega
  have hcopy : strncpy (List.replicate (VALUES_ID_SIZE + m) 0) (str ++ [0]) (VALUES_ID_SIZE - 1) =
      some (written str ++ List.replicate m 0) := by
    have hsize : VALUES_ID_SIZE - 1 - (name str).length +
        (VALUES_ID_SIZE + m - (VALUES_ID_SIZE - 1)) =
        VALUES_ID_SIZE - (name str).length + m := by omega
    rw [strncpy, if_pos ⟨by rw [List.length_replicate]; omega, .inr (by simp)⟩]
    dsimp only
    rw [hname, List.drop_replicate, written, List.append_assoc, List.append_assoc,
      List.replicate_append_replicate, List.replicate_append_replicate, hsize]
  have hpoke := poke_append (filled ++ front) 0 0 (List.replicate m 0)
  rw [hlen] at hpoke
  rw [copyValue, strncpyAt, ← hfilled, List.drop_left, hcopy, List.take_left, Option.map_some,
    Option.bind_eq_bind, Option.bind_some, hfilled, hfront]
  simpa using hpoke

/-- The elements from `i` on go to the entries from `i` on. -/
theorem copyValues_append {filled : Bytes} {left i : ℕ} (m : ℕ)
    (hfilled : filled.length = i * VALUES_ID_SIZE) (hleft : i + left ≤ element.length) :
    copyValues element left i (filled ++ List.replicate (left * VALUES_ID_SIZE + m) 0) =
      some (filled ++ ((element.drop i).take left).flatMap written ++ List.replicate m 0) := by
  induction left generalizing filled i with
  | zero => simp [copyValues]
  | succ left ih =>
      have hi : i < element.length := by omega
      have hsize : (left + 1) * VALUES_ID_SIZE + m =
          VALUES_ID_SIZE + (left * VALUES_ID_SIZE + m) := by
        rw [Nat.succ_mul]
        omega
      have hnext : (filled ++ written element[i]).length = (i + 1) * VALUES_ID_SIZE := by
        rw [List.length_append, length_written, hfilled, Nat.succ_mul]
      rw [copyValues, List.getElem?_eq_getElem hi, Option.bind_eq_bind, Option.bind_some, hsize,
        copyValue_append hfilled, Option.bind_some, ih hnext (by omega),
        List.drop_eq_getElem_cons hi, List.take_succ_cons, List.flatMap_cons]
      simp only [List.append_assoc]

theorem readValues_append {filled post : Bytes} {i : ℕ} (es : List Bytes)
    (hfilled : filled.length = i * VALUES_ID_SIZE) :
    readValues (filled ++ es.flatMap written ++ post) es.length i = some (es.map name) := by
  induction es generalizing filled i with
  | nil => rfl
  | cons str es ih =>
      have hentry : ((filled ++ (str :: es).flatMap written ++ post).drop
          (i * VALUES_ID_SIZE)).take VALUES_ID_SIZE = written str := by
        rw [← hfilled, List.append_assoc, List.drop_left, List.flatMap_cons, List.append_assoc,
          ← length_written str, List.take_left]
      have hfilled' : (filled ++ written str).length = (i + 1) * VALUES_ID_SIZE := by
        rw [List.length_append, length_written, hfilled, Nat.succ_mul]
      have hrest := ih hfilled'
      rw [List.length_cons, readValues, hentry, readStr_written, Option.bind_eq_bind,
        Option.bind_some, List.flatMap_cons, ← List.append_assoc, hrest]
      rfl

/-! ## The page -/

/-- The array after the call: one entry for each element that fits, the others as `calloc` left
them. -/
def page (count : Int) (element : List Bytes) : Bytes :=
  (element.take count.toNat).flatMap written ++
    List.replicate ((count.toNat - element.length) * VALUES_ID_SIZE) 0

theorem copyValues_page :
    copyValues element (min element.length count.toNat) 0
        (List.replicate (count.toNat * VALUES_ID_SIZE) 0) = some (page count element) := by
  have hcopy := @copyValues_append element [] (min element.length count.toNat) 0
    ((count.toNat - element.length) * VALUES_ID_SIZE) (Nat.zero_mul _).symm (by omega)
  have hsize : min element.length count.toNat * VALUES_ID_SIZE +
      (count.toNat - element.length) * VALUES_ID_SIZE = count.toNat * VALUES_ID_SIZE := by
    rw [← Nat.add_mul]
    congr 1
    omega
  rw [List.nil_append, List.nil_append, List.drop_zero, hsize, min_comm,
    ← List.take_eq_take_min] at hcopy
  rw [min_comm, hcopy, page]

theorem zsetZrevrange_page (hcount : asInt count = count) (hpos : 0 ≤ count) :
    zsetZrevrange start (endPos start count) (some element)
        (List.replicate (count.toNat * VALUES_ID_SIZE) 0) 0 =
      some (0, page count element, min (element.length : Int) count) := by
  have hmax := (asInt_range count).2
  rw [hcount, INT_MAX] at hmax
  have hsize : asSize count = count.toNat := by
    rw [← Int.toNat_of_nonneg hpos, asSize_of_lt (by omega), Int.toNat_natCast]
  have hnum : asInt
      (if element.length > asSize count then (asSize count : Int) else element.length) =
      (min element.length count.toNat : ℕ) := by
    rw [hsize]
    split
    · rw [asInt_of_le (by rw [INT_MAX]; omega)]
      omega
    · rw [asInt_of_le (by rw [INT_MAX]; omega)]
      omega
  rw [zsetZrevrange, pageSize_eq hcount]
  rw [hnum, Int.toNat_natCast, copyValues_page, Nat.cast_min, Int.toNat_of_nonneg hpos]
  rfl

/-- Whatever the two numbers wrap around to: the callee writes the first entries, at most `count`
of them, each terminated in its 1024 bytes, and the loop reads those and no more. -/
theorem page_inBounds (hcount : asInt count = count) (hpos : 0 ≤ count) :
    allocate count = some (List.replicate (count.toNat * VALUES_ID_SIZE) 0) ∧
      zsetZrevrange start (endPos start count) (some element)
          (List.replicate (count.toNat * VALUES_ID_SIZE) 0) 0 =
        some (0, page count element, min (element.length : Int) count) ∧
      (∀ str, (written str).length = VALUES_ID_SIZE ∧ readStr (written str) = some (name str)) ∧
      names start count (some element) = some (some ((element.take count.toNat).map name)) := by
  have hallocate : allocate count = some (List.replicate (count.toNat * VALUES_ID_SIZE) 0) :=
    if_neg (by omega)
  have hpage := @zsetZrevrange_page start count element hcount hpos
  refine ⟨hallocate, hpage, fun str => ⟨length_written str, readStr_written str⟩, ?_⟩
  have hread := @readValues_append [] (List.replicate
    ((count.toNat - element.length) * VALUES_ID_SIZE) 0) 0 (element.take count.toNat)
    (Nat.zero_mul _).symm
  have hnum : (min (element.length : Int) count).toNat = (element.take count.toNat).length := by
    rw [List.length_take]
    omega
  rw [List.nil_append] at hread
  rw [names, hallocate]
  dsimp only
  rw [hpage, Option.bind_eq_bind, Option.bind_some, if_neg (not_not.mpr rfl), hnum,
    page, hread]
  rfl

/-! The positions wrap around: the last one is negative. -/

theorem wrapped_inBounds :
    endPos 2147483647 2 = -2147483648 ∧
      names 2147483647 2 (some [ascii "a", ascii "b", ascii "c"]) =
        some (some [ascii "a", ascii "b"]) := by
  obtain ⟨-, -, -, hnames⟩ := @page_inBounds 2147483647 2 [ascii "a", ascii "b", ascii "c"]
    (by decide) (by decide)
  refine ⟨by decide, hnames.trans ?_⟩
  decide

end RankingPage

end FileHub
