import FileHub.Model.Conn

/-!
# Request bodies and answers

The JSON the handlers read and write, as jsoncpp hands it to them. The parser
itself is not in the repository, so a decoder takes it as an argument; from the
parsed value on, the decoders are the source's. `root["k"]` is null for an
absent key and throws unless the root is null or an object; `asString` and
`asInt` throw on the values they cannot convert. A throw is not a rejection:
no decoder catches it, and it ends the process.

The decoders differ only in the keys they read and in their order, so each is
`field` at its keys, one after the other.
-/

namespace FileHub

open Lib Prog

inductive JsonValue where
  | null
  | bool (b : Bool)
  | int (n : Int)
  /-- A number with a fraction, with the text `asString` gives. -/
  | real (text : Bytes) (value : ℚ)
  | str (s : Bytes)
  | array (elements : List JsonValue)
  | object (fields : List (Bytes × JsonValue))

/-- A decoder returned -1, or threw. -/
inductive DecodeError where
  | reject
  | thrown
deriving DecidableEq

namespace JsonValue

/-- `value[key]`. -/
def index (v : JsonValue) (key : Bytes) : Except DecodeError JsonValue :=
  match v with
  | .null => .ok .null
  | .object fields => .ok ((fields.lookup key).getD .null)
  | .bool _ | .int _ | .real .. | .str _ | .array _ => .error .thrown

def asString : JsonValue → Except DecodeError Bytes
  | .null => .ok []
  | .bool b => .ok (if b then ascii "true" else ascii "false")
  | .int n => .ok (intText n)
  | .real text _ => .ok text
  | .str s => .ok s
  | .array _ | .object _ => .error .thrown

def asInt : JsonValue → Except DecodeError Int
  | .null => .ok 0
  | .bool b => .ok (if b then 1 else 0)
  | .int n => if -2147483648 ≤ n ∧ n ≤ 2147483647 then .ok n else .error .thrown
  | .real _ q =>
      if -2147483648 ≤ q ∧ q ≤ 2147483647 then .ok (q.num.tdiv q.den) else .error .thrown
  | .str _ | .array _ | .object _ => .error .thrown

/-- Reject a null `root[key]`, otherwise convert it. -/
def field {α : Type} (convert : JsonValue → Except DecodeError α)
    (root : JsonValue) (key : Bytes) : Except DecodeError α := do
  match ← root.index key with
  | .null => .error .reject
  | v => convert v

/-- `{"code": n}`. -/
def code (n : Int) : JsonValue := .object [(ascii "code", .int n)]

end JsonValue

theorem Except.exists_of_bind_eq_ok {ε α β : Type} {x : Except ε α} {f : α → Except ε β} {b : β}
    (h : (x >>= f) = .ok b) : ∃ a, x = .ok a ∧ f a = .ok b := by
  cases x with
  | error e => cases h
  | ok a => exact ⟨a, rfl, h⟩

/-- Parse the body, then decode it. -/
def parsed {α : Type} (parse : Bytes → Option JsonValue) (body : Bytes)
    (decode : JsonValue → Except DecodeError α) : Except DecodeError α :=
  match parse body with
  | none => .error .reject
  | some root => decode root

/-- Continue with what a decoder returned: on a rejection the answer `failed`,
on a throw nothing. -/
def decoded {α β : Type} (d : Except DecodeError α) (failed : Handler β)
    (next : α → Handler β) : Handler β :=
  match d with
  | .error .reject => failed
  | .error .thrown => crash
  | .ok a => next a

end FileHub
