import FileHub.Lib.CString

/-!
# `CHttpParserWrapper`: the headers it keeps

`http_parser` reports a header line by its name and, if the line has a colon,
by its value. Neither is terminated: the name is followed in the buffer by the
rest of the request. Six headers are kept, each by a flag, which the name sets
and the next value clears, and what is stored of the value.

The url, the body and the length of the request are left out.
-/

namespace FileHub.Http

open Lib

/-- `tolower` of the C locale. -/
def lower (b : UInt8) : UInt8 := if 65 ≤ b ∧ b ≤ 90 then b + 32 else b

/-- `strncasecmp(at, key, strlen(key)) == 0` for a key without NUL; `none` if it
looks past the memory it is given. -/
def strncasecmp : Bytes → Bytes → Option Bool
  | _, [] => some true
  | [], _ :: _ => none
  | b :: at_, c :: key => if lower b = lower c then strncasecmp at_ key else some false

/-- What ends a name: a colon, CR or LF. -/
def nameEnds : Bytes := [58, 13, 10]

/-- A header line as it is reported, and what follows the name in the buffer. -/
structure HeaderLine where
  name : Bytes
  value : Option Bytes
  rest : Bytes
  stop : ∃ b more, rest = b :: more ∧ if value.isSome then b = 58 else b = 13 ∨ b = 10

/-- One of the six headers: what its `HasRead` compares with, and its setter. -/
structure Header (α : Type) where
  key : Bytes
  start : α
  set : α → Bytes → α
  set_nil : set start [] = start
  key_ends : ∀ b ∈ nameEnds, ∀ c ∈ key, lower b ≠ lower c

/-- A flag and what is stored. -/
structure Slot (α : Type) where
  read : Bool
  stored : α
deriving DecidableEq

namespace Header

variable {α : Type} [DecidableEq α]

def empty (h : Header α) : Slot α := ⟨false, h.start⟩

/-- The part of `OnHeaderField` about one header. -/
def onHeaderField (h : Header α) (slot : Slot α) (at_ : Bytes) : Option (Slot α) :=
  if slot.stored ≠ h.start then some slot
  else do if ← strncasecmp at_ h.key then return { slot with read := true } else return slot

/-- The part of `OnHeaderValue` about it. -/
def onHeaderValue (h : Header α) (slot : Slot α) (at_ : Bytes) : Slot α :=
  if slot.read then ⟨false, h.set slot.stored at_⟩ else slot

end Header

def MAX_REFERER_LEN : ℕ := 32

def referer : Header Bytes where
  key := ascii "Referer"
  start := []
  set s value := s ++ value.take MAX_REFERER_LEN
  set_nil := rfl
  key_ends := by decide +kernel

/-- The setter of the other texts. -/
def text (key : String) (h : ∀ b ∈ nameEnds, ∀ c ∈ ascii key, lower b ≠ lower c) :
    Header Bytes where
  key := ascii key
  start := []
  set s value := s ++ value
  set_nil := rfl
  key_ends := h

def forwardIp : Header Bytes := text "X-Forwarded-For" (by decide +kernel)

def userAgent : Header Bytes := text "User-Agent" (by decide +kernel)

def contentType : Header Bytes := text "Content-Type" (by decide +kernel)

/-- `atoi` gives an `int`, which is stored as `uint32_t`. -/
def contentLen : Header ℤ where
  key := ascii "Content-Length"
  start := 0
  set _ value := atoi (cStr value) % 2 ^ 32
  set_nil := by decide +kernel
  key_ends := by decide +kernel

def host : Header Bytes := text "Host" (by decide +kernel)

structure CHttpParserWrapper where
  referer_ : Slot Bytes
  forward_ip_ : Slot Bytes
  user_agent_ : Slot Bytes
  content_type_ : Slot Bytes
  content_len_ : Slot ℤ
  host_ : Slot Bytes

namespace CHttpParserWrapper

/-- What `ParseHttpContent` starts from. -/
def init : CHttpParserWrapper :=
  ⟨referer.empty, forwardIp.empty, userAgent.empty, contentType.empty, contentLen.empty,
    host.empty⟩

def onHeaderField (w : CHttpParserWrapper) (at_ : Bytes) : Option CHttpParserWrapper := do
  return {
    referer_ := ← referer.onHeaderField w.referer_ at_
    forward_ip_ := ← forwardIp.onHeaderField w.forward_ip_ at_
    user_agent_ := ← userAgent.onHeaderField w.user_agent_ at_
    content_type_ := ← contentType.onHeaderField w.content_type_ at_
    content_len_ := ← contentLen.onHeaderField w.content_len_ at_
    host_ := ← host.onHeaderField w.host_ at_ }

def onHeaderValue (w : CHttpParserWrapper) (at_ : Bytes) : CHttpParserWrapper where
  referer_ := referer.onHeaderValue w.referer_ at_
  forward_ip_ := forwardIp.onHeaderValue w.forward_ip_ at_
  user_agent_ := userAgent.onHeaderValue w.user_agent_ at_
  content_type_ := contentType.onHeaderValue w.content_type_ at_
  content_len_ := contentLen.onHeaderValue w.content_len_ at_
  host_ := host.onHeaderValue w.host_ at_

/-- The callbacks for one line. -/
def onLine (w : CHttpParserWrapper) (line : HeaderLine) : Option CHttpParserWrapper := do
  let w ← w.onHeaderField (line.name ++ line.rest)
  match line.value with
  | none => return w
  | some value => return w.onHeaderValue value

/-- `ParseHttpContent` on a request with these header lines. -/
def parseHttpContent (lines : List HeaderLine) : Option CHttpParserWrapper :=
  lines.foldlM onLine init

end CHttpParserWrapper

end FileHub.Http
