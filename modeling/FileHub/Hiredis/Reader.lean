import FileHub.Lib.CInt
import FileHub.Lib.CString

/-!
# `read.c`: the reply parser of hiredis

The reader holds the bytes received and not yet discarded, a cursor into them,
and a stack of tasks, one for every array it is inside of. `redisReaderFeed`
appends what the socket delivered; `redisReaderGetReply` reads items until a
whole reply is there or the bytes run out, and in the second case goes on from
the same task when it is called again.

A task holds the elements its array has so far, where the source has a pointer
to the array object and a slot to fill in it. An object is put into the array
it belongs to when its task ends.
-/

namespace FileHub.Hiredis

open Lib

/-- `redisReply`. -/
inductive RedisReply where
  | string (str : Bytes)
  | array (element : List RedisReply)
  | integer (integer : Int)
  | nil
  | status (str : Bytes)
  | error (str : Bytes)

/-- The `REDIS_REPLY_*` a type byte can announce. -/
inductive ReplyType where
  | string
  | array
  | integer
  | status
  | error
deriving DecidableEq

/-- `REDIS_ERR_*`. -/
inductive ErrType where
  | io
  | other
  | eof
  | protocol
  | oom
deriving DecidableEq

/-- `err` and `errstr`. -/
structure RedisError where
  err : ErrType
  errstr : Bytes
deriving DecidableEq

structure RedisReadTask where
  type : Option ReplyType
  elements : Int
  idx : Int
  obj : List RedisReply

/-- The task of a whole reply, as `redisReaderGetReply` sets it up. -/
def RedisReadTask.root : RedisReadTask := ⟨none, -1, -1, []⟩

/-- `redisReader`; the current task stands first in `rstack`, which is empty
where `ridx` is -1. -/
structure RedisReader where
  err : Option RedisError
  buf : Bytes
  pos : ℕ
  rstack : List RedisReadTask
  reply : Option RedisReply

/-- `redisReaderCreate`. -/
def RedisReader.create : RedisReader := ⟨none, [], 0, [], none⟩

/-- The bytes from the cursor on. -/
def RedisReader.unread (r : RedisReader) : Bytes := r.buf.drop r.pos

/-- The cursor moved over `n` bytes. -/
def RedisReader.advance (r : RedisReader) (n : ℕ) : RedisReader := { r with pos := r.pos + n }

/-! ## Errors -/

/-- `__redisReaderSetError`: the buffer and the tasks go with it. -/
def redisReaderSetError (type : ErrType) (str : Bytes) : RedisReader :=
  { err := some ⟨type, str.take 127⟩, buf := [], pos := 0, rstack := [], reply := none }

def protocolError (str : String) : RedisReader := redisReaderSetError .protocol (ascii str)

def digitChar (n : ℕ) : UInt8 := if n < 10 then (48 + n).toUInt8 else (87 + n).toUInt8

/-- `chrtos`: the byte as a quoted C character. -/
def chrtos (byte : UInt8) : Bytes :=
  let escaped :=
    if byte = 92 ∨ byte = 34 then [92, byte]
    else if byte = 10 then ascii "\\n"
    else if byte = 13 then ascii "\\r"
    else if byte = 9 then ascii "\\t"
    else if byte = 7 then ascii "\\a"
    else if byte = 8 then ascii "\\b"
    else if 32 ≤ byte ∧ byte < 127 then [byte]
    else ascii "\\x" ++ [digitChar (byte.toNat / 16), digitChar (byte.toNat % 16)]
  [34] ++ escaped ++ [34]

/-- `__redisReaderSetErrorProtocolByte`. -/
def redisReaderSetErrorProtocolByte (byte : UInt8) : RedisReader :=
  redisReaderSetError .protocol
    (ascii "Protocol error, got " ++ chrtos byte ++ ascii " as reply type byte")

/-! ## Lines and numbers -/

/-- The loops of `seekNewline`, with `n` positions left to look at. -/
def seek : ℕ → Bytes → Option ℕ
  | n + 1, b :: b' :: s =>
      if b = 13 ∧ b' = 10 then some 0 else (seek n (b' :: s)).map (· + 1)
  | _, _ => none

/-- `seekNewline`: where the first CRLF is. The last position to look at is an
`int`. -/
def seekNewline (s : Bytes) : Option ℕ := seek (asInt (s.length - 1)).toNat s

def ULLONG_MAX : ℕ := 18446744073709551615

def LLONG_MAX : ℕ := 9223372036854775807

/-- The loop over the digits behind the first; all bytes have to be digits. -/
def string2llDigits (v : ℕ) : Bytes → Option ℕ
  | [] => some v
  | b :: p =>
      if isDigit b then
        if v > ULLONG_MAX / 10 then none
        else if v * 10 > ULLONG_MAX - (b.toNat - 48) then none
        else string2llDigits (v * 10 + (b.toNat - 48)) p
      else none

/-- The first digit is not a zero. -/
def string2llNumber : Bytes → Option ℕ
  | [] => none
  | b :: p => if 49 ≤ b ∧ b ≤ 57 then string2llDigits (b.toNat - 48) p else none

def string2ll (s : Bytes) : Option Int :=
  match s with
  | [] => none
  | 45 :: p =>
      match string2llNumber p with
      | none => none
      | some v => if v > LLONG_MAX + 1 then none else some (-v)
  | b :: p =>
      if b = 48 ∧ p = [] then some 0
      else
        match string2llNumber (b :: p) with
        | none => none
        | some v => if v > LLONG_MAX then none else some v

/-- `readLine`: the line, with the cursor behind its CRLF. -/
def readLine (r : RedisReader) : Option (Bytes × RedisReader) :=
  match seekNewline r.unread with
  | none => none
  | some len => some (r.unread.take len, r.advance (len + 2))

/-! ## Tasks -/

/-- The loop of `moveToNextTask` from the task `cur`, whose object is `obj`,
inside of the tasks below it: the next task, or the reply if there is none. -/
def nextTask (obj : RedisReply) (cur : RedisReadTask) :
    List RedisReadTask → List RedisReadTask × Option RedisReply
  | [] => ([], some obj)
  | prv :: below =>
      let element := prv.obj ++ [obj]
      if cur.idx = prv.elements - 1 then nextTask (.array element) prv below
      else (⟨none, -1, cur.idx + 1, []⟩ :: { prv with obj := element } :: below, none)

def moveToNextTask (r : RedisReader) (obj : RedisReply) : RedisReader :=
  match r.rstack with
  | [] => r
  | cur :: below =>
      { r with rstack := (nextTask obj cur below).1, reply := (nextTask obj cur below).2 }

/-- `processLineItem`: an integer, a status or an error. -/
def processLineItem (r : RedisReader) (type : ReplyType) : Bool × RedisReader :=
  match readLine r with
  | none => (false, r)
  | some (p, r) =>
      if type = .integer then
        match string2ll p with
        | none => (false, protocolError "Bad integer value")
        | some v => (true, moveToNextTask r (.integer v))
      else if type = .error then (true, moveToNextTask r (.error p))
      else (true, moveToNextTask r (.status p))

/-- `processBulkItem`: a string of the announced length, once it is there with
its CRLF. -/
def processBulkItem (r : RedisReader) : Bool × RedisReader :=
  match seekNewline r.unread with
  | none => (false, r)
  | some line =>
      match string2ll (r.unread.take line) with
      | none => (false, protocolError "Bad bulk string length")
      | some len =>
          if len < -1 then (false, protocolError "Bulk string length out of range")
          else if len = -1 then
            (true, moveToNextTask (r.advance (line + 2)) .nil)
          else
            let bytelen := line + 2 + len.toNat + 2
            if r.pos + bytelen ≤ r.buf.length then
              (true, moveToNextTask (r.advance bytelen)
                (.string ((r.unread.drop (line + 2)).take len.toNat)))
            else (false, r)

/-- `processMultiBulkItem`: the header of an array, whose elements become the
next tasks. -/
def processMultiBulkItem (r : RedisReader) : Bool × RedisReader :=
  if r.rstack.length = 9 then
    (false, protocolError "No support for nested multi bulk replies with depth > 7")
  else
    match readLine r with
    | none => (false, r)
    | some (p, r) =>
        match string2ll p with
        | none => (false, protocolError "Bad multi-bulk length")
        | some elements =>
            if elements < -1 ∨ elements > INT_MAX then
              (false, protocolError "Multi-bulk length out of range")
            else if elements = -1 then (true, moveToNextTask r .nil)
            else if elements > 0 then
              let opened := r.rstack.modifyHead fun cur =>
                { cur with elements := elements, obj := [] }
              (true, { r with rstack := ⟨none, -1, 0, []⟩ :: opened })
            else (true, moveToNextTask r (.array []))

/-- The type byte. -/
def replyType (b : UInt8) : Option ReplyType :=
  if b = 45 then some .error
  else if b = 43 then some .status
  else if b = 58 then some .integer
  else if b = 36 then some .string
  else if b = 42 then some .array
  else none

def processTyped (r : RedisReader) : ReplyType → Bool × RedisReader
  | .error => processLineItem r .error
  | .status => processLineItem r .status
  | .integer => processLineItem r .integer
  | .string => processBulkItem r
  | .array => processMultiBulkItem r

/-- `processItem`; the first component is whether it returned `REDIS_OK`. The
type of the current task is remembered when the rest is not there yet. -/
def processItem (r : RedisReader) : Bool × RedisReader :=
  match r.rstack with
  | [] => (false, r)
  | cur :: below =>
      match cur.type with
      | some type => processTyped r type
      | none =>
          match r.unread with
          | [] => (false, r)
          | b :: _ =>
              match replyType b with
              | none => (false, redisReaderSetErrorProtocolByte b)
              | some type =>
                  let typed := { cur with type := some type } :: below
                  processTyped { r.advance 1 with rstack := typed } type

/-! ## The reader -/

/-- `redisReaderFeed`; false is `REDIS_ERR`. -/
def redisReaderFeed (r : RedisReader) (bytes : Bytes) : Bool × RedisReader :=
  if r.err.isSome then (false, r) else (true, { r with buf := r.buf ++ bytes })

/-- The loop of `redisReaderGetReply`. Every item takes at least one byte. -/
def processItems : ℕ → RedisReader → RedisReader
  | 0, r => r
  | fuel + 1, r =>
      if r.rstack = [] then r
      else
        match processItem r with
        | (true, r) => processItems fuel r
        | (false, r) => r

/-- A consumed kilobyte is discarded. -/
def discard (r : RedisReader) : RedisReader :=
  if r.pos ≥ 1024 then { r with buf := r.buf.drop r.pos, pos := 0 } else r

/-- `redisReaderGetReply`; false is `REDIS_ERR`. -/
def redisReaderGetReply (r : RedisReader) : Bool × Option RedisReply × RedisReader :=
  if r.err.isSome then (false, none, r)
  else if r.buf.length = 0 then (true, none, r)
  else
    let started := if r.rstack = [] then { r with rstack := [.root] } else r
    let s := processItems (started.unread.length + 1) started
    if s.err.isSome then (false, none, s)
    else
      let s := discard s
      if s.rstack = [] then (true, s.reply, { s with reply := none }) else (true, none, s)

end FileHub.Hiredis
