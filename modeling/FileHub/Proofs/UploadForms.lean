import FileHub.Api.Upload
import FileHub.Lib.Strstr

/-!
# The upload form is read back

`FormLayout.encode` is the form as the nginx upload module posts it: a boundary
line, and for each of the six fields a header line that ends in its name, an
empty line and the value. The scanner does not track the parts. It looks for
the next `name="..."` from where the last value ended, and a value is what
stands between the second and the third line end after it.

That is enough, whatever the values say. A search starts behind the value
before it, at most a boundary line away from the header it is meant to find; it
cannot stop in the boundary, which has no quote, and wherever in the header
line it stops, the next line end is the end of that line.
-/

namespace FileHub

open Lib

/-- A line of at most `max` bytes, as a C string. -/
structure FitsLine (max : ℕ) (v : Bytes) : Prop where
  line : ¬ crlf <:+: v
  cString : 0 ∉ v
  length : v.length ≤ max

inductive FormField where
  | file_name
  | file_content_type
  | file_path
  | file_md5
  | file_size
  | user
deriving DecidableEq

namespace FormField

def name : FormField → Bytes
  | file_name => ascii "file_name"
  | file_content_type => ascii "file_content_type"
  | file_path => ascii "file_path"
  | file_md5 => ascii "file_md5"
  | file_size => ascii "file_size"
  | user => ascii "user"

/-- The longest value the array of the field takes. -/
def max : FormField → ℕ
  | file_name | file_content_type | file_path | file_md5 => 127
  | file_size | user => 31

def value (form : UploadForm) : FormField → Bytes
  | file_name => form.file_name
  | file_content_type => form.file_content_type
  | file_path => form.file_path
  | file_md5 => form.file_md5
  | file_size => form.file_size
  | user => form.user

end FormField

/-- The values an upload can carry. -/
def UploadForm.Sendable (form : UploadForm) : Prop :=
  ∀ field : FormField, FitsLine field.max (field.value form)

def nameAttr (name : Bytes) : Bytes := ascii "name=\"" ++ name ++ ascii "\""

/-- What of a form does not depend on its values: the boundary, the header line
of each field up to its name, whether the boundary is repeated before each part
or stands before the first one only, and what follows the last part. -/
structure FormLayout where
  boundary : Bytes
  header : FormField → Bytes
  repeats : Bool
  tail : Bytes
  boundary_line : FitsLine 511 boundary
  boundary_quote : 34 ∉ boundary
  header_line : ∀ field, ¬ crlf <:+: header field ++ nameAttr field.name
  header_cString : ∀ field, 0 ∉ header field

namespace FormLayout

/-- What stands before each part but the first. -/
def between (l : FormLayout) : Bytes := if l.repeats then l.boundary ++ crlf else []

def part (l : FormLayout) (form : UploadForm) (field : FormField) : Bytes :=
  l.header field ++ nameAttr field.name ++ crlf ++ crlf ++ field.value form ++ crlf

/-- The parts and what stands between them. -/
def parts (l : FormLayout) (form : UploadForm) : Bytes :=
  l.part form .file_name ++ l.between ++ l.part form .file_content_type ++ l.between ++
    l.part form .file_path ++ l.between ++ l.part form .file_md5 ++ l.between ++
    l.part form .file_size ++ l.between ++ l.part form .user

def encode (l : FormLayout) (form : UploadForm) : Bytes :=
  l.boundary ++ crlf ++ l.parts form ++ l.tail

end FormLayout

theorem Except.ok_bind {ε α β : Type} (a : α) (f : α → Except ε β) :
    (Except.ok a >>= f) = f a := rfl

/-! ## One field -/

theorem not_mem_append {l s : Bytes} {b : UInt8} (hl : b ∉ l) (hs : b ∉ s) : b ∉ l ++ s :=
  fun h => (List.mem_append.mp h).elim hl hs

/-- A find in a stretch without a NUL, whatever follows it. -/
theorem strstrFrom_append {l l' s pat : Bytes} (hl : 0 ∉ l) (hsuffix : l' <:+ l)
    (h : strstr (l ++ cStr s) pat = some (l' ++ cStr s)) :
    strstrFrom (l ++ s) pat = some (l' ++ s) := by
  obtain ⟨before, rfl⟩ := hsuffix
  have hbytes : ∀ b ∈ before ++ l', b ≠ 0 := fun b hb h0 => hl (h0 ▸ hb)
  have hlen : (before ++ l' ++ cStr s).length - (l' ++ cStr s).length = before.length := by
    simp only [List.length_append]
    omega
  rw [strstrFrom, cStr_append_of_forall hbytes, h, Option.map_some, hlen, List.append_assoc,
    List.drop_left]

theorem strstrFrom_crlf {v : Bytes} (h : ¬ crlf <:+: v) (h0 : 0 ∉ v) (rest : Bytes) :
    strstrFrom (v ++ (crlf ++ rest)) crlf = some (crlf ++ rest) := by
  rw [← List.append_assoc]
  refine strstrFrom_append (not_mem_append h0 (by decide)) (List.suffix_append v crlf) ?_
  rw [List.append_assoc]
  exact strstr_pair (by decide) h

/-- The value after a line, whatever it says. -/
theorem fieldValue_line {line v : Bytes} (hline : ¬ crlf <:+: line) (hline0 : 0 ∉ line)
    (hv : ¬ crlf <:+: v) (hv0 : 0 ∉ v) (rest : Bytes) :
    fieldValue (line ++ (crlf ++ (crlf ++ (v ++ (crlf ++ rest))))) = .ok (v, rest) := by
  rw [fieldValue, strstrFrom_crlf hline hline0]
  dsimp only
  have hlen : ¬ (crlf ++ (crlf ++ (v ++ (crlf ++ rest)))).length < 4 := by
    rw [← List.append_assoc, List.length_append]
    have hcrlf : (crlf ++ crlf).length = 4 := rfl
    omega
  have hdrop : (crlf ++ (crlf ++ (v ++ (crlf ++ rest)))).drop 4 = v ++ (crlf ++ rest) := rfl
  rw [if_neg hlen, hdrop, strstrFrom_crlf hv hv0]
  dsimp only
  rw [List.length_append, Nat.add_sub_cancel, List.take_left]
  rfl

theorem nameAttr_quote (name : Bytes) : 34 ∈ nameAttr name :=
  List.mem_append_right _ List.mem_cons_self

theorem nameAttr_line (field : FormField) : 10 ∉ nameAttr field.name := by
  cases field <;> decide

namespace FormLayout

variable {form : UploadForm} (l : FormLayout) (field : FormField)

theorem part_append (form : UploadForm) (rest : Bytes) :
    l.part form field ++ rest = l.header field ++ (nameAttr field.name ++
      (crlf ++ (crlf ++ (field.value form ++ (crlf ++ rest))))) := by
  simp only [part, List.append_assoc]

theorem nameAttr_cString : 0 ∉ nameAttr field.name := by cases field <;> decide

theorem part_cString (h : form.Sendable) : 0 ∉ l.part form field := by
  have hname := nameAttr_cString field
  have hcrlf : 0 ∉ crlf := by decide
  simp only [part, List.mem_append, not_or]
  exact ⟨⟨⟨⟨⟨l.header_cString field, hname⟩, hcrlf⟩, hcrlf⟩, (h field).cString⟩, hcrlf⟩

theorem between_cString : 0 ∉ l.between := by
  rw [between]
  split
  · rw [List.mem_append, not_or]
    exact ⟨l.boundary_line.cString, by decide⟩
  · exact List.not_mem_nil

/-- The search for a name does not stop before the header. -/
theorem strstr_between (s : Bytes) :
    strstr (l.between ++ s) (nameAttr field.name) = strstr s (nameAttr field.name) := by
  rw [between]
  split
  · have hsplit : l.boundary ++ crlf ++ s = (l.boundary ++ [13]) ++ 10 :: s := by
      simp only [crlf, List.append_assoc, List.cons_append, List.nil_append]
    have hquote : 34 ∉ l.boundary ++ [13] := by
      rw [List.mem_append, not_or]
      exact ⟨l.boundary_quote, by decide⟩
    rw [hsplit]
    exact strstr_append_of_not_mem (nameAttr_quote _) hquote (nameAttr_line field)
  · rfl

/-- It stops in the header line. -/
theorem strstrFrom_part (h : form.Sendable) {before : Bytes} (hbefore : 0 ∉ before)
    (hskip : ∀ s, strstr (before ++ s) (nameAttr field.name) = strstr s (nameAttr field.name))
    (rest : Bytes) :
    ∃ line, ¬ crlf <:+: line ∧ 0 ∉ line ∧
      strstrFrom (before ++ (l.part form field ++ rest)) (nameAttr field.name) =
        some (line ++ (crlf ++ (crlf ++ (field.value form ++ (crlf ++ rest))))) := by
  obtain ⟨line, ⟨pre, hpre⟩, hstr⟩ := strstr_append (l.header field) (nameAttr field.name)
    (crlf ++ (crlf ++ (field.value form ++ (crlf ++ cStr rest))))
  have hline0 : 0 ∉ line ++ nameAttr field.name := not_mem_append
    (fun h0 => l.header_cString field (hpre ▸ List.mem_append_right _ h0)) (nameAttr_cString field)
  refine ⟨line ++ nameAttr field.name, fun hin => l.header_line field (hin.trans ⟨pre, [], ?_⟩),
    hline0, ?_⟩
  · rw [List.append_nil, ← List.append_assoc, hpre]
  have hfound : strstr (before ++ l.part form field ++ cStr rest) (nameAttr field.name) =
      some (line ++ nameAttr field.name ++ crlf ++ crlf ++ field.value form ++ crlf ++
        cStr rest) := by
    rw [List.append_assoc, hskip, part_append, hstr]
    simp only [List.append_assoc]
  have hsuffix : line ++ nameAttr field.name ++ crlf ++ crlf ++ field.value form ++ crlf <:+
      before ++ l.part form field := by
    refine ⟨before ++ pre, ?_⟩
    rw [part, ← hpre]
    simp only [List.append_assoc]
  have hfrom := strstrFrom_append (not_mem_append hbefore (l.part_cString field h)) hsuffix hfound
  simp only [List.append_assoc] at hfrom ⊢
  exact hfrom

theorem formField_part (h : form.Sendable) (rest : Bytes) :
    formField (l.between ++ (l.part form field ++ rest)) field.name =
      .ok (field.value form, rest) := by
  obtain ⟨line, hline, hline0, hfound⟩ :=
    l.strstrFrom_part field h l.between_cString (l.strstr_between field) rest
  rw [nameAttr] at hfound
  rw [formField, hfound]
  exact fieldValue_line hline hline0 (h field).line (h field).cString rest

theorem fileNameField_part (h : form.Sendable) (rest : Bytes) :
    fileNameField (l.part form .file_name ++ rest) = .ok (form.file_name, rest) := by
  obtain ⟨line, -, -, hfound⟩ :=
    l.strstrFrom_part .file_name h List.not_mem_nil (fun _ => rfl) rest
  have hname : ascii "name=\"file_name\"" = nameAttr FormField.file_name.name := by
    decide
  rw [List.nil_append] at hfound
  rw [fileNameField, hname, hfound]
  dsimp only
  rw [part_append, ← List.append_assoc]
  exact fieldValue_line (l.header_line .file_name)
    (not_mem_append (l.header_cString .file_name) (nameAttr_cString .file_name))
    (h .file_name).line (h .file_name).cString rest

/-- A value fits the array it is copied to. -/
theorem copyInto_value (h : form.Sendable) {size : ℕ} (hsize : field.max < size) :
    copyInto size (field.value form) = .ok (field.value form) :=
  if_pos (Nat.lt_of_le_of_lt (h field).length hsize)

/-- One step of the scan: look for the field and copy its value. -/
theorem formField_copyInto {β : Type} (h : form.Sendable) (size : ℕ) (hsize : field.max < size)
    (rest : Bytes) (next : Bytes → Bytes × Bytes → Except DecodeError β) :
    (formField (l.between ++ (l.part form field ++ rest)) field.name >>= fun found =>
      copyInto size found.1 >>= fun copied => next copied found) =
      next (field.value form) (field.value form, rest) := by
  rw [l.formField_part field h, Except.ok_bind]
  dsimp only
  rw [copyInto_value field h hsize, Except.ok_bind]

/-! ## The whole form -/

/-- The scan of a form gives its boundary and its values. -/
theorem scanForm_encode (l : FormLayout) (h : form.Sendable) :
    scanForm (l.encode form) = .ok (l.boundary, form) := by
  have hsplit : l.encode form =
      l.boundary ++ (crlf ++ (l.part form .file_name ++
        (l.between ++ (l.part form .file_content_type ++
        (l.between ++ (l.part form .file_path ++
        (l.between ++ (l.part form .file_md5 ++
        (l.between ++ (l.part form .file_size ++
        (l.between ++ (l.part form .user ++ l.tail)))))))))))) := by
    simp only [encode, parts, List.append_assoc]
  have hboundary : copyInto TEMP_BUF_MAX_LEN l.boundary = .ok l.boundary :=
    if_pos (Nat.lt_succ_of_le l.boundary_line.length)
  have hdrop (s : Bytes) : (crlf ++ s).drop 2 = s := rfl
  rw [hsplit, scanForm, strstrFrom_crlf l.boundary_line.line l.boundary_line.cString]
  dsimp only
  rw [List.length_append, Nat.add_sub_cancel, List.take_left, hboundary, hdrop,
    l.fileNameField_part h]
  show (copyInto 128 (FormField.file_name.value form) >>= _) = _
  rw [copyInto_value .file_name h (by decide), Except.ok_bind]
  refine (l.formField_copyInto .file_content_type h 128 (by decide) _ _).trans ?_
  refine (l.formField_copyInto .file_path h 128 (by decide) _ _).trans ?_
  refine (l.formField_copyInto .file_md5 h 128 (by decide) _ _).trans ?_
  refine (l.formField_copyInto .file_size h 32 (by decide) _ _).trans ?_
  exact l.formField_copyInto .user h 32 (by decide) l.tail _

end FormLayout

theorem of_copyInto {β : Type} {size : ℕ} {v : Bytes} {next : Bytes → Except DecodeError β}
    {b : β} (h : (copyInto size v >>= next) = .ok b) : next v = .ok b := by
  rw [copyInto] at h
  split at h
  · exact h
  · cases h

/-- The arrays take nothing from a form they hold. -/
theorem parseForm_of_scanForm {body boundary : Bytes} {form : UploadForm}
    (h : scanForm body = .ok (boundary, form)) : parseForm body = .ok form := by
  rw [scanForm] at h
  rw [parseForm]
  split at h
  · cases h
  · next p1 hp1 =>
      obtain ⟨⟨_, _⟩, hname, h⟩ := Except.exists_of_bind_eq_ok (of_copyInto h)
      obtain ⟨⟨_, _⟩, htype, h⟩ := Except.exists_of_bind_eq_ok (of_copyInto h)
      obtain ⟨⟨_, _⟩, hpath, h⟩ := Except.exists_of_bind_eq_ok (of_copyInto h)
      obtain ⟨⟨_, _⟩, hmd5, h⟩ := Except.exists_of_bind_eq_ok (of_copyInto h)
      obtain ⟨⟨_, _⟩, hsize, h⟩ := Except.exists_of_bind_eq_ok (of_copyInto h)
      obtain ⟨⟨_, _⟩, huser, h⟩ := Except.exists_of_bind_eq_ok (of_copyInto h)
      obtain ⟨-, rfl⟩ := Prod.mk.inj (Except.ok.inj (of_copyInto h))
      simp only [hname, htype, hpath, hmd5, hsize, huser, Except.ok_bind]
      rfl

/-! A form with an empty value and a value that looks like a field. -/

def curlForm : UploadForm :=
  ⟨ascii "a.txt", [], ascii "/root/tmp/1", ascii "name=\"user\"", ascii "12", ascii "u"⟩

def curlLayout : FormLayout where
  boundary := ascii "--b"
  header _ := ascii "Content-Disposition: form-data; "
  repeats := true
  tail := ascii "--b--"
  boundary_line := ⟨by decide, by decide, by decide⟩
  boundary_quote := by decide
  header_line field := by cases field <;> decide
  header_cString _ := by decide

theorem scanForm_curlForm :
    scanForm (curlLayout.encode curlForm) = .ok (ascii "--b", curlForm) :=
  curlLayout.scanForm_encode fun field => by
    cases field <;> exact ⟨by decide, by decide, by decide⟩

end FileHub
