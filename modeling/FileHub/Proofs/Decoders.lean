import FileHub.Api.Requests

/-!
# Which bodies make a decoder throw

A decoder tests each key for null and nothing else, so what stands there, and
what the root is, is left to jsoncpp's conversions. A decoder is the list of
its fields: the key, what it is converted to, and whether a null rejects the
body. The keys are read in order and the first null of a required one ends the
reading, so a value further on is never converted; what the body must satisfy
follows the same order.
-/

namespace FileHub

open Lib

namespace Decoder

inductive Kind where
  | text
  | number

/-- A key, with what its value is converted to. -/
structure Field where
  key : Bytes
  kind : Kind
  required : Bool

/-- Convert a value for its errors only. -/
def Kind.read : Kind → JsonValue → Except DecodeError Unit
  | .text, v => v.asString.map fun _ => ()
  | .number, v => v.asInt.map fun _ => ()

def Field.read (f : Field) (root : JsonValue) : Except DecodeError Unit := do
  match ← root.index f.key with
  | .null => if f.required then .error .reject else .ok ()
  | v => f.kind.read v

def readAll (root : JsonValue) : List Field → Except DecodeError Unit
  | [] => .ok ()
  | f :: rest => do
      f.read root
      readAll root rest

/-! ## What a body must satisfy -/

/-- A null or an object: what can be indexed by a key. -/
def Indexable : JsonValue → Prop
  | .null | .object _ => True
  | .bool _ | .int _ | .real .. | .str _ | .array _ => False

/-- The value has the type of the field, as far as jsoncpp converts: an array
or an object is no text, and a number is one that fits an `int`. -/
def Kind.Fits : Kind → JsonValue → Prop
  | .text, .array _ | .text, .object _ => False
  | .text, _ => True
  | .number, .null | .number, .bool _ => True
  | .number, .int n => -2147483648 ≤ n ∧ n ≤ 2147483647
  | .number, .real _ q => -2147483648 ≤ q ∧ q ≤ 2147483647
  | .number, .str _ | .number, .array _ | .number, .object _ => False

/-- What stands at a key of an indexable root. -/
def member : JsonValue → Bytes → JsonValue
  | .object fields, key => (fields.lookup key).getD .null
  | _, _ => .null

/-- Up to the first required key that is null, every value fits its field. -/
def Fitting (root : JsonValue) : List Field → Prop
  | [] => True
  | f :: rest =>
      f.kind.Fits (member root f.key) ∧
        (member root f.key = .null ∧ f.required = true ∨ Fitting root rest)

theorem index_member {root : JsonValue} (h : Indexable root) (key : Bytes) :
    root.index key = .ok (member root key) := by
  cases root with
  | null => rfl
  | object fields => rfl
  | bool | int | real | str | array => exact h.elim

theorem index_thrown {root : JsonValue} (h : ¬ Indexable root) (key : Bytes) :
    root.index key = .error .thrown := by
  cases root with
  | null => exact absurd trivial h
  | object fields => exact absurd trivial h
  | bool | int | real | str | array => rfl

/-- A conversion succeeds or throws, by what the value is. -/
theorem Kind.read_of_fits {k : Kind} {v : JsonValue} (h : k.Fits v) : k.read v = .ok () := by
  cases k with
  | text =>
      cases v with
      | array | object => exact h.elim
      | null | bool | int | real | str => rfl
  | number =>
      cases v with
      | null | bool => rfl
      | int n | real text q =>
          simp only [Kind.Fits] at h
          simp only [Kind.read, JsonValue.asInt]
          rw [if_pos h]
          rfl
      | str | array | object => exact h.elim

theorem Kind.read_of_not_fits {k : Kind} {v : JsonValue} (h : ¬ k.Fits v) :
    k.read v = .error .thrown := by
  cases k with
  | text =>
      cases v with
      | array | object => rfl
      | null | bool | int | real | str => exact absurd trivial h
  | number =>
      cases v with
      | null | bool => exact absurd trivial h
      | int n | real text q =>
          simp only [Kind.Fits] at h
          simp only [Kind.read, JsonValue.asInt]
          rw [if_neg h]
          rfl
      | str | array | object => rfl

theorem Kind.fits_null (k : Kind) : k.Fits .null := by
  cases k <;> trivial

theorem Field.read_of_null {f : Field} {root : JsonValue} (hi : Indexable root)
    (hn : member root f.key = .null) :
    f.read root = if f.required then .error .reject else .ok () := by
  simp only [Field.read, index_member hi, hn, bind, Except.bind]

theorem Field.read_of_ne_null {f : Field} {root : JsonValue} (hi : Indexable root)
    (hn : member root f.key ≠ .null) : f.read root = f.kind.read (member root f.key) := by
  simp only [Field.read, index_member hi, bind, Except.bind]

theorem readAll_indexable {root : JsonValue} (hi : Indexable root) (fields : List Field) :
    readAll root fields ≠ .error .thrown ↔ Fitting root fields := by
  induction fields with
  | nil =>
      constructor
      · exact fun _ => trivial
      · intro _ h
        cases h
  | cons f rest ih =>
      rw [readAll, Fitting]
      by_cases hn : member root f.key = .null
      · -- a null rejects the body, or is passed over
        rw [Field.read_of_null hi hn, hn]
        cases hr : f.required with
        | true =>
            constructor
            · exact fun _ => ⟨Kind.fits_null f.kind, .inl ⟨rfl, rfl⟩⟩
            · intro _ h
              cases h
        | false =>
            constructor
            · exact fun h => ⟨Kind.fits_null f.kind, .inr (ih.mp h)⟩
            · intro h
              rcases h.2 with h | h
              · exact absurd h.2 Bool.false_ne_true
              · exact ih.mpr h
      · rw [Field.read_of_ne_null hi hn]
        by_cases hf : f.kind.Fits (member root f.key)
        · rw [Kind.read_of_fits hf]
          constructor
          · exact fun h => ⟨hf, .inr (ih.mp h)⟩
          · intro h
            rcases h.2 with h | h
            · exact absurd h.1 hn
            · exact ih.mpr h
        · rw [Kind.read_of_not_fits hf]
          constructor
          · exact fun h => absurd rfl h
          · exact fun h => absurd h.1 hf

/-- A decoder with a field at all throws unless the root can be indexed. -/
theorem readAll_iff (root : JsonValue) (f : Field) (rest : List Field) :
    readAll root (f :: rest) ≠ .error .thrown ↔
      Indexable root ∧ Fitting root (f :: rest) := by
  by_cases hi : Indexable root
  · rw [readAll_indexable hi]
    exact ⟨fun h => ⟨hi, h⟩, And.right⟩
  · constructor
    · intro h
      apply absurd _ h
      simp only [readAll, Field.read, index_thrown hi, bind, Except.bind]
    · exact fun h => absurd h.1 hi

/-! ## The decoders by their fields -/

/-- The decoder reads just these fields, in this order. -/
def Reads {α : Type} (decode : JsonValue → Except DecodeError α) (fields : List Field) :
    Prop :=
  ∀ root, (decode root).map (fun _ => ()) = readAll root fields

theorem reads_ok {α : Type} (a : α) : Reads (fun _ => .ok a) [] := fun _ => rfl

theorem map_bind {α β γ : Type} (x : Except DecodeError α) (k : α → Except DecodeError β)
    (g : β → γ) : (x >>= k).map g = x >>= fun a => (k a).map g := by
  cases x <;> rfl

/-- Reading a field for its errors only is reading it. -/
theorem reads_bind {α β : Type} {f : Field} {rest : List Field}
    {read : JsonValue → Except DecodeError α} {next : α → JsonValue → Except DecodeError β}
    (hf : ∀ root, (read root).map (fun _ => ()) = f.read root)
    (hnext : ∀ a, Reads (next a) rest) :
    Reads (fun root => read root >>= fun a => next a root) (f :: rest) := by
  intro root
  rw [map_bind, readAll, ← hf root]
  cases read root with
  | error e => rfl
  | ok a => exact hnext a root

theorem reads_one {α : Type} {f : Field} {read : JsonValue → Except DecodeError α}
    (hf : ∀ root, (read root).map (fun _ => ()) = f.read root) : Reads read [f] := by
  intro root
  rw [hf root, readAll]
  cases f.read root <;> rfl

theorem field_reads {α : Type} {convert : JsonValue → Except DecodeError α} {k : Kind}
    (hk : ∀ v, (convert v).map (fun _ => ()) = k.read v) (key : Bytes) (root : JsonValue) :
    (root.field convert key).map (fun _ => ()) = (Field.mk key k true).read root := by
  simp only [JsonValue.field, Field.read, map_bind]
  cases root.index key with
  | error e => rfl
  | ok v =>
      cases v with
      | null => rfl
      | bool | int | real | str | array | object => exact hk _

theorem reads_text {β : Type} {key : Bytes} {rest : List Field}
    {next : Bytes → JsonValue → Except DecodeError β} (hnext : ∀ a, Reads (next a) rest) :
    Reads (fun root => root.field JsonValue.asString key >>= fun a => next a root)
      (⟨key, .text, true⟩ :: rest) :=
  reads_bind (field_reads (fun _ => rfl) key) hnext

theorem reads_number {β : Type} {key : Bytes} {rest : List Field}
    {next : Int → JsonValue → Except DecodeError β} (hnext : ∀ a, Reads (next a) rest) :
    Reads (fun root => root.field JsonValue.asInt key >>= fun a => next a root)
      (⟨key, .number, true⟩ :: rest) :=
  reads_bind (field_reads (fun _ => rfl) key) hnext

theorem reads_optional {β : Type} {key : Bytes} {rest : List Field}
    {next : Bytes → JsonValue → Except DecodeError β} (hnext : ∀ a, Reads (next a) rest) :
    Reads (fun root => root.optional key >>= fun a => next a root)
      (⟨key, .text, false⟩ :: rest) := by
  apply reads_bind _ hnext
  intro root
  simp only [JsonValue.optional, Field.read, map_bind]
  cases root.index key with
  | error e => rfl
  | ok v =>
      cases v with
      | null => rfl
      | bool | int | real | str | array | object => rfl

end Decoder

/-! ## The twelve decoders -/

inductive JsonDecoder where
  | login
  | register
  | md5
  | dealfile
  | dealsharefile
  | shareFileslist
  | count
  | fileslist
  | sharePicture
  | browsePicture
  | pictureList
  | cancelPicture

namespace JsonDecoder

open Decoder

/-- The decoder from the parsed root on, with what it returned forgotten. -/
def decode : JsonDecoder → JsonValue → Except DecodeError Unit
  | .login, root => (decodeLoginJson root).map fun _ => ()
  | .register, root => (decodeRegisterJson root).map fun _ => ()
  | .md5, root => (decodeMd5Json root).map fun _ => ()
  | .dealfile, root => (decodeDealfileJson root).map fun _ => ()
  | .dealsharefile, root => (decodeDealsharefileJson root).map fun _ => ()
  | .shareFileslist, root => (decodeShareFileslistJson root).map fun _ => ()
  | .count, root => (decodeCountJson root).map fun _ => ()
  | .fileslist, root => (decodeFileslistJson root).map fun _ => ()
  | .sharePicture, root => (decodeSharePictureJson root).map fun _ => ()
  | .browsePicture, root => (decodeBrowsePictureJson root).map fun _ => ()
  | .pictureList, root => (decodePictureListJson root).map fun _ => ()
  | .cancelPicture, root => (decodeCancelPictureJson root).map fun _ => ()

/-- The decoder on a body. -/
def run (d : JsonDecoder) (parse : Bytes → Option JsonValue) (body : Bytes) :
    Except DecodeError Unit :=
  parsed parse body d.decode

def text (key : String) : Field := ⟨ascii key, .text, true⟩

def number (key : String) : Field := ⟨ascii key, .number, true⟩

def optionalText (key : String) : Field := ⟨ascii key, .text, false⟩

/-- The first field the decoder reads. -/
def first : JsonDecoder → Field
  | .login | .md5 | .dealfile | .dealsharefile | .count | .fileslist | .cancelPicture =>
      text "user"
  | .register => text "userName"
  | .shareFileslist => number "start"
  | .sharePicture | .pictureList => text "token"
  | .browsePicture => text "urlmd5"

def others : JsonDecoder → List Field
  | .login => [text "pwd"]
  | .register =>
      [text "nickName", text "firstPwd", optionalText "phone", optionalText "email"]
  | .md5 | .dealfile => [text "token", text "md5", text "filename"]
  | .dealsharefile => [text "md5", text "filename"]
  | .shareFileslist => [number "count"]
  | .count => [text "token"]
  | .fileslist => [text "token", number "start", number "count"]
  | .sharePicture => [text "user", text "md5", text "filename"]
  | .browsePicture => []
  | .pictureList => [text "user", number "start", number "count"]
  | .cancelPicture => [text "urlmd5"]

/-- The fields in the order they are read. -/
def fields (d : JsonDecoder) : List Field := d.first :: d.others

theorem reads_fileRequest :
    Reads decodeFileRequest [text "user", text "token", text "md5", text "filename"] :=
  reads_text fun _ => reads_text fun _ => reads_text fun _ => reads_text fun _ => reads_ok _

/-- Each decoder reads its fields and does nothing else. -/
theorem decode_eq (d : JsonDecoder) (root : JsonValue) :
    d.decode root = readAll root d.fields := by
  cases d with
  | login => exact reads_text (fun _ => reads_text fun _ => reads_ok _) root
  | register =>
      exact reads_text (fun _ => reads_text fun _ => reads_text fun _ =>
        reads_optional fun _ => reads_optional fun _ => reads_ok _) root
  | md5 => exact reads_fileRequest root
  | dealfile => exact reads_fileRequest root
  | dealsharefile =>
      exact reads_text (fun _ => reads_text fun _ => reads_text fun _ => reads_ok _) root
  | shareFileslist => exact reads_number (fun _ => reads_number fun _ => reads_ok _) root
  | count => exact reads_text (fun _ => reads_text fun _ => reads_ok _) root
  | fileslist =>
      exact reads_text (fun _ => reads_text fun _ => reads_number fun _ =>
        reads_number fun _ => reads_ok _) root
  | sharePicture =>
      exact reads_text (fun _ => reads_text fun _ => reads_text fun _ => reads_text fun _ =>
        reads_ok _) root
  | browsePicture =>
      exact reads_one (field_reads (k := .text) (fun _ => rfl) (ascii "urlmd5")) root
  | pictureList =>
      exact reads_text (fun _ => reads_text fun _ => reads_number fun _ =>
        reads_number fun _ => reads_ok _) root
  | cancelPicture => exact reads_text (fun _ => reads_text fun _ => reads_ok _) root

/-- A decoder returns on a body exactly when the body is no JSON at all, or its
root can be indexed and holds what the decoder converts. -/
theorem run_returns_iff (parse : Bytes → Option JsonValue) (d : JsonDecoder) (body : Bytes) :
    d.run parse body ≠ .error .thrown ↔
      ∀ root, parse body = some root → Indexable root ∧ Fitting root d.fields := by
  rw [run, parsed]
  cases parse body with
  | none => exact ⟨fun _ => nofun, fun _ => nofun⟩
  | some root =>
      show d.decode root ≠ _ ↔ _
      rw [decode_eq, fields, readAll_iff]
      constructor
      · rintro h _ ⟨⟩
        exact h
      · exact fun h => h root rfl

/-- The empty array is JSON, and no decoder gets over it. -/
theorem emptyArray_throws :
    ¬ ∀ (d : JsonDecoder) (body : Bytes),
      d.run (fun b => if b = ascii "[]" then some (.array []) else none) body ≠
        .error .thrown := by
  intro h
  exact h .login (ascii "[]") rfl

end JsonDecoder

end FileHub
