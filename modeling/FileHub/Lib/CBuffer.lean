import FileHub.Lib.CString

/-!
# C strings in a buffer

A buffer is the list of its bytes and a pointer into it an index, so what a
pointer reads from is the list from there on. Everything that reads or writes
is `none` where it would leave the buffer: a scan that meets no terminator, an
index that is not one of the buffer.

The lemmas are about a buffer whose contents are known as a concatenation; a
string in it is a stretch without NUL and the NUL behind it.
-/

namespace FileHub.Lib

/-- The string at the start of a memory. -/
def readStr : Bytes → Option Bytes
  | [] => none
  | b :: rest => if b = 0 then some [] else (readStr rest).map (b :: ·)

/-- `strlen(buf + i)`. -/
def strlen (buf : Bytes) (i : ℕ) : Option ℕ := (readStr (buf.drop i)).map List.length

/-- `strchr(buf + i, c)` for a `c` that is not NUL: the index, or null. -/
def strchr (buf : Bytes) (i : ℕ) (c : UInt8) : Option (Option ℕ) :=
  (readStr (buf.drop i)).map fun s => if c ∈ s then some (i + s.idxOf c) else none

/-- `buf[i] = b`. -/
def poke (buf : Bytes) (i : ℕ) (b : UInt8) : Option Bytes :=
  if i < buf.length then some (buf.set i b) else none

/-- `memcmp(s1, s2, n) == 0`. -/
def memcmp (s1 s2 : Bytes) (n : ℕ) : Option Bool :=
  if n ≤ s1.length ∧ n ≤ s2.length then some (s1.take n == s2.take n) else none

/-- `strncpy(dst, src, n)` between two buffers: the string at `src`, cut off or
filled up with NULs to `n` bytes. -/
def strncpy (dst src : Bytes) (n : ℕ) : Option Bytes :=
  if n ≤ dst.length ∧ (n ≤ src.length ∨ 0 ∈ src) then
    let s := cStr (src.take n)
    some (s ++ List.replicate (n - s.length) 0 ++ dst.drop n)
  else none

/-- `strncpy(buf + i, src, n)`. -/
def strncpyAt (buf : Bytes) (i : ℕ) (src : Bytes) (n : ℕ) : Option Bytes :=
  (strncpy (buf.drop i) src n).map (buf.take i ++ ·)

/-- `memset(buf + i, 0, n)`. -/
def zeroFill (buf : Bytes) (i : ℕ) : ℕ → Option Bytes
  | 0 => some buf
  | n + 1 => do zeroFill (← poke buf i 0) (i + 1) n

/-- `strncpy(buf + dst, buf + src, n)` in one buffer, byte by byte in ascending order. -/
def strncpyWithin (buf : Bytes) (dst src : ℕ) : ℕ → Option Bytes
  | 0 => some buf
  | n + 1 => do
      let b ← buf[src]?
      if b = 0 then zeroFill buf dst (n + 1)
      else strncpyWithin (← poke buf dst b) (dst + 1) (src + 1) n

variable {s pre post : Bytes} {b c : UInt8}

theorem readStr_append (h : 0 ∉ s) (post : Bytes) : readStr (s ++ 0 :: post) = some s := by
  induction s with
  | nil => rfl
  | cons b s ih =>
      rw [List.mem_cons, not_or] at h
      rw [List.cons_append, readStr, if_neg fun hb => h.1 hb.symm, ih h.2]
      rfl

theorem readStr_drop (h : 0 ∉ s) (pre post : Bytes) :
    readStr ((pre ++ (s ++ 0 :: post)).drop pre.length) = some s := by
  rw [List.drop_left, readStr_append h]

theorem strlen_append (h : 0 ∉ s) (pre post : Bytes) :
    strlen (pre ++ (s ++ 0 :: post)) pre.length = some s.length := by
  rw [strlen, readStr_drop h]
  rfl

theorem strchr_append (h : 0 ∉ s) (pre post : Bytes) (c : UInt8) :
    strchr (pre ++ (s ++ 0 :: post)) pre.length c =
      some (if c ∈ s then some (pre.length + s.idxOf c) else none) := by
  rw [strchr, readStr_drop h]
  rfl

theorem poke_append (pre : Bytes) (b c : UInt8) (post : Bytes) :
    poke (pre ++ b :: post) pre.length c = some (pre ++ c :: post) := by
  rw [poke, if_pos (by simp), List.set_append_right _ _ le_rfl, Nat.sub_self]
  rfl

theorem getElem?_append_length (pre : Bytes) (b : UInt8) (post : Bytes) :
    (pre ++ b :: post)[pre.length]? = some b := by
  rw [List.getElem?_append_right le_rfl, Nat.sub_self]
  rfl

/-- A string moved down over a gap. -/
theorem strncpyWithin_append {text : Bytes} (h0 : 0 ∉ text) (front gap post : Bytes) :
    ∃ rest, rest.length = gap.length + post.length ∧
      strncpyWithin (front ++ gap ++ text ++ post) front.length (front.length + gap.length)
        text.length = some (front ++ text ++ rest) := by
  induction text generalizing front gap with
  | nil => exact ⟨gap ++ post, List.length_append, by simp [strncpyWithin]⟩
  | cons b text ih =>
      rw [List.mem_cons, not_or] at h0
      -- the gap moves along with the byte
      obtain ⟨c, gap', hgap⟩ := List.exists_cons_of_ne_nil (show gap ++ [b] ≠ [] by simp)
      have hlen : gap'.length = gap.length := by
        have := congrArg List.length hgap
        simpa using this.symm
      obtain ⟨rest, hrest, hcopy⟩ := ih h0.2 (front ++ [b]) gap'
      have hread : (front ++ gap ++ b :: text ++ post)[front.length + gap.length]? = some b := by
        rw [← List.length_append, List.append_assoc, List.cons_append, getElem?_append_length]
      have hsplit : front ++ gap ++ b :: text ++ post = front ++ c :: (gap' ++ text ++ post) := by
        have := congrArg (fun l => front ++ (l ++ (text ++ post))) hgap
        simpa using this
      refine ⟨rest, by omega, ?_⟩
      rw [List.length_cons, strncpyWithin, hread, Option.bind_eq_bind, Option.bind_some,
        if_neg fun hb => h0.1 hb.symm, hsplit, poke_append, Option.bind_eq_bind, Option.bind_some]
      rw [List.length_append, List.length_singleton, hlen] at hcopy
      simpa [Nat.add_right_comm] using hcopy

end FileHub.Lib
