import FileHub.Proofs.UploadForms

/-!
# Which bodies the upload scanner survives

The scanner tests whether it finds a name, and nothing else: not whether a line
end follows, not whether the step of four bytes stays in the body, not whether
the value fits its array. So it survives a body exactly if every field it finds
is complete. Where a name is missing it leaves by the error exit, and what comes
behind does not matter.

`Survives` goes through the scan one copy at a time; each step is answered by
the shape of the text at that place.
-/

namespace FileHub

open Lib

/-! ## Surviving a scan -/

/-- No null result is used, nothing outside the body is read, and no array is
overrun or left without its terminator: the log line behind each copy, the
suffix and the path read on behind a full array. -/
def Survives {α : Type} (x : Except DecodeError α) : Prop := x ≠ .error .thrown

/-! ## When it holds -/

/-- A line without its end, which `strstr` can see as a whole. -/
structure IsLine (l : Bytes) : Prop where
  line : ¬ crlf <:+: l
  cString : 0 ∉ l

/-- Where the line of a field is looked for, if its name is found. -/
def FormField.start (field : FormField) (p : Bytes) : Option Bytes :=
  (strstrFrom p (nameAttr field.name)).map fun found =>
    if field = .file_name then p else found

/-- If the name is found, there are a line end, two bytes, and a line that fits
the array, with its end, and `K` holds of that line and what follows it. -/
def Complete (field : FormField) (p : Bytes) (K : Bytes → Bytes → Prop) : Prop :=
  ∀ start, field.start p = some start →
    ∃ line a b v rest, start = line ++ (crlf ++ a :: b :: (v ++ (crlf ++ rest))) ∧
      IsLine line ∧ IsLine v ∧ v.length ≤ field.max ∧ K v rest

/-- Each field that is found is complete, and if all are, the suffix fits its
array and the path the one of 128 bytes. -/
def CompleteForm (p : Bytes) : Prop :=
  Complete .file_name p fun file_name p => Complete .file_content_type p fun _ p =>
    Complete .file_path p fun file_path p => Complete .file_md5 p fun _ p =>
      Complete .file_size p fun _ p => Complete .user p fun _ _ =>
        (getFileSuffix file_name).length ≤ 7 ∧
          file_path.length + 1 + (getFileSuffix file_name).length ≤ 127

/-- There is no line end, or a boundary of at most 511 bytes before the first
one and a form behind it. -/
def CompleteBody (post_data : Bytes) : Prop :=
  crlf <:+: cStr post_data →
    ∃ boundary p, post_data = boundary ++ (crlf ++ p) ∧ IsLine boundary ∧
      boundary.length ≤ 511 ∧ CompleteForm p

/-! ## One search -/

theorem strstrFrom_crlf_eq_some {s t : Bytes} :
    strstrFrom s crlf = some t ↔
      ∃ line rest, s = line ++ (crlf ++ rest) ∧ t = crlf ++ rest ∧ IsLine line := by
  constructor
  · intro h
    rw [strstrFrom, Option.map_eq_some_iff] at h
    obtain ⟨found, hfound, rfl⟩ := h
    obtain ⟨line, r, hs, rfl, hline⟩ :=
      (strstr_eq_some (show (13 : UInt8) ∉ [10] by decide)).mp hfound
    have hline0 : 0 ∉ line := fun h0 =>
      cStr_nonzero s 0 (by rw [hs]; exact List.mem_append_left _ h0) rfl
    obtain ⟨after, hafter⟩ : cStr s <+: s := List.takeWhile_prefix _
    have hsplit : s = line ++ (crlf ++ (r ++ after)) := by
      rw [← hafter, hs]
      simp only [List.append_assoc]
      rfl
    refine ⟨line, r ++ after, hsplit, ?_, hline, hline0⟩
    have hlen : (cStr s).length - (13 :: [10] ++ r).length = line.length := by
      rw [hs, List.length_append]
      omega
    rw [hlen, hsplit, List.drop_left]
  · rintro ⟨line, rest, rfl, rfl, hline⟩
    exact strstrFrom_crlf hline.line hline.cString rest

/-! ## One field -/

theorem fieldValue_eq_ok {s v rest : Bytes} :
    fieldValue s = .ok (v, rest) ↔
      ∃ line a b, s = line ++ (crlf ++ a :: b :: (v ++ (crlf ++ rest))) ∧
        IsLine line ∧ IsLine v := by
  constructor
  · intro h
    rw [fieldValue] at h
    split at h
    · cases h
    next p2 hp2 =>
    obtain ⟨line, r, rfl, rfl, hline⟩ := strstrFrom_crlf_eq_some.mp hp2
    split at h
    · cases h
    next hlen =>
    dsimp only at h
    split at h
    · cases h
    next stop hstop =>
    obtain ⟨v', rest', hstart, rfl, hv⟩ := strstrFrom_crlf_eq_some.mp hstop
    rw [hstart] at h
    rw [List.length_append, Nat.add_sub_cancel, List.take_left] at h
    obtain ⟨rfl, rfl⟩ := Prod.mk.inj (Except.ok.inj h)
    rcases r with _ | ⟨a, _ | ⟨b, r⟩⟩
    · exact absurd (Nat.lt_of_succ_lt (Nat.lt_succ_self 3)) hlen
    · exact absurd (Nat.lt_succ_self 3) hlen
    · have hr : r = v' ++ (crlf ++ rest') := hstart
      exact ⟨line, a, b, by rw [hr]; rfl, hline, hv⟩
  · rintro ⟨line, a, b, rfl, hline, hv⟩
    rw [fieldValue, strstrFrom_crlf hline.line hline.cString]
    dsimp only
    have hlen : ¬ (crlf ++ a :: b :: (v ++ (crlf ++ rest))).length < 4 := by
      simp only [crlf, List.length_append, List.length_cons]
      omega
    have hdrop : (crlf ++ a :: b :: (v ++ (crlf ++ rest))).drop 4 = v ++ (crlf ++ rest) := rfl
    rw [if_neg hlen, hdrop, strstrFrom_crlf hv.line hv.cString]
    dsimp only
    rw [List.length_append, Nat.add_sub_cancel, List.take_left]
    rfl

theorem fieldValue_ne_reject (s : Bytes) : fieldValue s ≠ .error .reject := by
  rw [fieldValue]
  split
  · intro h
    cases h
  · split
    · intro h
      cases h
    · dsimp only
      split <;> (intro h; cases h)

/-! ## The chain -/

section

variable {α β : Type} {x : Except DecodeError α} {f : α → Except DecodeError β}

theorem survives_ok (a : α) : Survives (.ok a : Except DecodeError α) := nofun

theorem survives_copyInto {n : ℕ} {v : Bytes} {next : Bytes → Except DecodeError β} :
    Survives (copyInto n v >>= next) ↔ v.length < n ∧ Survives (next v) := by
  rw [copyInto]
  split
  · next h => exact (and_iff_right h).symm
  · next h => exact iff_of_false (fun hs => hs rfl) fun hs => h hs.1

/-- A field is read from where the search found it. -/
theorem survives_fieldValue {start : Bytes} {n : ℕ}
    {next : Bytes × Bytes → Bytes → Except DecodeError β} :
    Survives (fieldValue start >>= fun found => copyInto n found.1 >>= next found) ↔
      ∃ line a b v rest, start = line ++ (crlf ++ a :: b :: (v ++ (crlf ++ rest))) ∧
        IsLine line ∧ IsLine v ∧ v.length < n ∧ Survives (next (v, rest) v) := by
  cases hvalue : fieldValue start with
  | error e =>
      cases e with
      | reject => exact absurd hvalue (fieldValue_ne_reject start)
      | thrown =>
          refine iff_of_false (fun hs => hs rfl) ?_
          rintro ⟨line, a, b, v, rest, hstart, hline, hv, -⟩
          have hok := fieldValue_eq_ok.mpr ⟨line, a, b, hstart, hline, hv⟩
          rw [hvalue] at hok
          cases hok
  | ok found =>
      obtain ⟨v, rest⟩ := found
      rw [Except.ok_bind, survives_copyInto]
      constructor
      · rintro ⟨hlen, hnext⟩
        obtain ⟨line, a, b, hstart, hline, hv⟩ := fieldValue_eq_ok.mp hvalue
        exact ⟨line, a, b, v, rest, hstart, hline, hv, hlen, hnext⟩
      · rintro ⟨line, a, b, v', rest', hstart, hline, hv, hlen, hnext⟩
        rw [fieldValue_eq_ok.mpr ⟨line, a, b, hstart, hline, hv⟩] at hvalue
        obtain ⟨rfl, rfl⟩ := Prod.mk.inj (Except.ok.inj hvalue)
        exact ⟨hlen, hnext⟩

end

section

variable {β : Type} {p : Bytes} {n : ℕ}
  {next : Bytes × Bytes → Bytes → Except DecodeError β}

theorem survives_formField (field : FormField) (hfield : field ≠ .file_name)
    (hn : n = field.max + 1) :
    Survives (formField p field.name >>= fun found => copyInto n found.1 >>= next found) ↔
      Complete field p fun v rest => Survives (next (v, rest) v) := by
  rw [formField, Complete, FormField.start, nameAttr]
  subst hn
  cases strstrFrom p (ascii "name=\"" ++ field.name ++ ascii "\"") with
  | none => exact iff_of_true (fun h => by cases h) fun _ h => by cases h
  | some found =>
      dsimp only
      rw [survives_fieldValue]
      simp only [Option.map_some, if_neg hfield, Option.some.injEq, forall_eq', Nat.lt_succ_iff]

theorem survives_fileNameField :
    Survives (fileNameField p >>= fun found => copyInto 128 found.1 >>= next found) ↔
      Complete .file_name p fun v rest => Survives (next (v, rest) v) := by
  have hname : ascii "name=\"file_name\"" = nameAttr FormField.file_name.name := by
    decide
  rw [fileNameField, Complete, FormField.start, hname]
  cases strstrFrom p (nameAttr FormField.file_name.name) with
  | none => exact iff_of_true (fun h => by cases h) fun _ h => by cases h
  | some found =>
      dsimp only
      rw [survives_fieldValue]
      simp only [Option.map_some, if_pos, Option.some.injEq, forall_eq', Nat.lt_succ_iff,
        FormField.max]

end

/-! ## The whole body -/

theorem Complete.congr {field : FormField} {p : Bytes} {K L : Bytes → Bytes → Prop}
    (h : ∀ v rest, K v rest ↔ L v rest) : Complete field p K ↔ Complete field p L := by
  simp only [Complete, h]

theorem survives_newFilePath {form : UploadForm} {β : Type} {next : Bytes → Except DecodeError β}
    (hnext : ∀ path, Survives (next path)) :
    Survives (newFilePath form >>= next) ↔ (getFileSuffix form.file_name).length ≤ 7 ∧
      form.file_path.length + 1 + (getFileSuffix form.file_name).length ≤ 127 := by
  have hdot : (ascii ".").length = 1 := by decide
  rw [newFilePath, bind_assoc, survives_copyInto, survives_copyInto, SUFFIX_LEN,
    List.length_append, List.length_append, hdot]
  have := hnext (form.file_path ++ ascii "." ++ getFileSuffix form.file_name)
  simp only [this, and_true]
  omega

/-- The first line of a body is its boundary. -/
theorem completeBody_split {boundary p : Bytes} (h : IsLine boundary) :
    CompleteBody (boundary ++ (crlf ++ p)) ↔ boundary.length ≤ 511 ∧ CompleteForm p := by
  constructor
  · intro hbody
    have hcString : 0 ∉ boundary ++ crlf := not_mem_append h.cString (by decide)
    have hcrlf : crlf <:+: cStr (boundary ++ (crlf ++ p)) := by
      rw [← List.append_assoc, cStr_append_of_forall fun b hb h0 => hcString (h0 ▸ hb)]
      exact ⟨boundary, cStr p, rfl⟩
    obtain ⟨boundary', p', heq, hline, hlen, hform⟩ := hbody hcrlf
    have hfound := strstrFrom_crlf_eq_some.mpr ⟨boundary', p', heq, rfl, hline⟩
    rw [strstrFrom_crlf h.line h.cString, Option.some_inj] at hfound
    have hp : p = p' := List.append_cancel_left hfound
    subst hp
    rw [← List.append_cancel_right heq] at hlen
    exact ⟨hlen, hform⟩
  · rintro ⟨hlen, hform⟩ -
    exact ⟨boundary, p, rfl, h, hlen, hform⟩

/-- The scanner and the code that builds the path survive a body exactly if it
is complete as far as it is read. -/
theorem scanUpload_survives_iff (post_data : Bytes) :
    Survives (scanUpload post_data) ↔ CompleteBody post_data := by
  rw [scanUpload, scanForm]
  cases hline : strstrFrom post_data crlf with
  | none =>
      refine iff_of_true (fun h => by cases h) fun hcrlf => ?_
      exact absurd hcrlf (strstr_eq_none (Option.map_eq_none_iff.mp hline))
  | some p1 =>
      obtain ⟨boundary, p, rfl, rfl, hboundary⟩ := strstrFrom_crlf_eq_some.mp hline
      have hdrop : (crlf ++ p).drop 2 = p := rfl
      dsimp only
      rw [bind_assoc, survives_copyInto, List.length_append, Nat.add_sub_cancel, List.take_left,
        hdrop, completeBody_split hboundary]
      simp only [bind_assoc]
      refine and_congr Nat.lt_succ_iff ?_
      refine survives_fileNameField.trans (Complete.congr fun file_name p => ?_)
      refine (survives_formField .file_content_type (by decide) rfl).trans
        (Complete.congr fun file_content_type p => ?_)
      refine (survives_formField .file_path (by decide) rfl).trans
        (Complete.congr fun file_path p => ?_)
      refine (survives_formField .file_md5 (by decide) rfl).trans
        (Complete.congr fun file_md5 p => ?_)
      refine (survives_formField .file_size (by decide) rfl).trans
        (Complete.congr fun file_size p => ?_)
      refine (survives_formField .user (by decide) rfl).trans
        (Complete.congr fun user p => ?_)
      exact survives_newFilePath fun path => survives_ok _

/-! A body that ends in the line of its first name. -/

theorem cutBody_unsafe :
    ¬Survives (scanUpload (ascii "--b" ++ crlf ++ nameAttr FormField.file_name.name)) := by
  have hthrown : (scanUpload (ascii "--b" ++ crlf ++ nameAttr FormField.file_name.name)).map
      (fun _ => ()) = .error .thrown := by decide +kernel
  intro h
  cases hscan : scanUpload (ascii "--b" ++ crlf ++ nameAttr FormField.file_name.name) with
  | error e =>
      rw [hscan] at hthrown
      rw [hscan, Except.error.inj hthrown] at h
      exact h rfl
  | ok _ =>
      rw [hscan] at hthrown
      cases hthrown

end FileHub
