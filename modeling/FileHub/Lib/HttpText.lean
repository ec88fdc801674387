import FileHub.Lib.CString

/-!
# Reading an HTTP message

The reader of the other side: lines that end in CRLF up to an empty one, and
after it a body of the length that `Content-Length` announces. `headerBlock`
writes such a head, and reading it back gives the lines and what follows
(`readHeaders_headerBlock`).
-/

namespace FileHub.Lib

def crlf : Bytes := [13, 10]

/-- Up to the first CRLF, and what follows it. -/
def readLine : Bytes → Option (Bytes × Bytes)
  | [] => none
  | b :: rest =>
      if crlf.isPrefixOf (b :: rest) then some ([], rest.drop 1)
      else (readLine rest).map fun p => (b :: p.1, p.2)

/-- The lines before the first empty one, and what follows that one. -/
def readHeaders : ℕ → Bytes → Option (List Bytes × Bytes)
  | 0, _ => none
  | fuel + 1, s =>
      match readLine s with
      | none => none
      | some ([], rest) => some ([], rest)
      | some (line, rest) => (readHeaders fuel rest).map fun p => (line :: p.1, p.2)

/-- What a line `name:digits` announces. -/
def numberOf (name line : Bytes) : Option ℕ :=
  if name.isPrefixOf line then
    let digits := line.drop name.length
    if digits ≠ [] ∧ digits.all isDigit then some (ofDecimal digits) else none
  else none

/-- The body of a response whose one `Content-Length` is the number of bytes
after its headers. -/
def readResponse (s : Bytes) : Option Bytes :=
  match readHeaders (s.length + 1) s with
  | none => none
  | some (lines, body) =>
      match lines with
      | [] => none
      | status :: headers =>
          if (ascii "HTTP/1.1 ").isPrefixOf status ∧
              headers.filterMap (numberOf (ascii "Content-Length:")) = [body.length] then
            some body
          else none

/-- The lines, each ended, and an empty one. -/
def headerBlock (lines : List Bytes) : Bytes := (lines.map (· ++ crlf)).flatten ++ crlf

theorem readLine_append {line : Bytes} (h : 13 ∉ line) (rest : Bytes) :
    readLine (line ++ crlf ++ rest) = some (line, rest) := by
  induction line with
  | nil => rfl
  | cons b line ih =>
      rw [List.mem_cons, not_or] at h
      obtain ⟨hb, hline⟩ := h
      have hcr : crlf.isPrefixOf (b :: (line ++ crlf ++ rest)) = false := by
        rw [crlf, List.isPrefixOf, beq_eq_false_iff_ne.mpr hb, Bool.false_and]
      rw [List.cons_append, List.cons_append, readLine, hcr, if_neg Bool.false_ne_true, ih hline]
      rfl

theorem readHeaders_headerBlock {lines : List Bytes} (h : ∀ line ∈ lines, line ≠ [] ∧ 13 ∉ line)
    {fuel : ℕ} (hfuel : lines.length < fuel) (body : Bytes) :
    readHeaders fuel (headerBlock lines ++ body) = some (lines, body) := by
  induction lines generalizing fuel with
  | nil =>
      cases fuel with
      | zero => omega
      | succ fuel => rfl
  | cons line lines ih =>
      cases fuel with
      | zero => omega
      | succ fuel =>
          obtain ⟨hne, hcr⟩ := h line List.mem_cons_self
          have hsplit : headerBlock (line :: lines) ++ body =
              line ++ crlf ++ (headerBlock lines ++ body) := by
            simp only [headerBlock, List.map_cons, List.flatten_cons, List.append_assoc]
          have hrest := ih (fun l hl => h l (List.mem_cons_of_mem _ hl))
            (Nat.lt_of_succ_lt_succ hfuel)
          rw [hsplit, readHeaders, readLine_append hcr]
          cases line with
          | nil => exact absurd rfl hne
          | cons b line =>
              dsimp only
              rw [hrest]
              rfl

theorem length_lt_headerBlock (lines : List Bytes) : lines.length < (headerBlock lines).length := by
  induction lines with
  | nil => decide
  | cons line lines ih =>
      simp only [headerBlock, List.map_cons, List.flatten_cons, List.length_append,
        List.length_cons] at ih ⊢
      have hcrlf : crlf.length = 2 := rfl
      omega

/-- A response written with its headers is read back as they say. -/
theorem readResponse_headerBlock {status : Bytes} {headers : List Bytes}
    (h : ∀ line ∈ status :: headers, line ≠ [] ∧ 13 ∉ line)
    (hstatus : (ascii "HTTP/1.1 ").isPrefixOf status = true) (body : Bytes) :
    readResponse (headerBlock (status :: headers) ++ body) =
      if headers.filterMap (numberOf (ascii "Content-Length:")) = [body.length] then some body
      else none := by
  have hfuel := length_lt_headerBlock (status :: headers)
  rw [readResponse, readHeaders_headerBlock h (by rw [List.length_append]; omega)]
  simp only [hstatus, true_and]

theorem numberOf_decimal (name : Bytes) (n : ℕ) : numberOf name (name ++ decimal n) = some n := by
  have hpre : name.isPrefixOf (name ++ decimal n) = true :=
    List.isPrefixOf_iff_prefix.mpr (List.prefix_append _ _)
  have hdigits : (decimal n).all isDigit = true := List.all_eq_true.mpr (isDigit_decimal n)
  rw [numberOf, if_pos hpre, List.drop_left]
  simp only [hdigits, decimal_ne_nil, ne_eq, not_false_eq_true, and_self, if_true,
    ofDecimal_decimal]

end FileHub.Lib
