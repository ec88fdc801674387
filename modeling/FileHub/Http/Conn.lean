import FileHub.Api.Requests

/-!
# `CHttpConn`: from the bytes of a connection to handlers

Each delivery appends to the connection's input `Buffer` and calls for one
`OnRead`, run at once or queued for the thread pool. `OnRead` feeds the parser
the buffer from its front, and nothing is ever retrieved from the buffer.

`http_parser` is an argument: what a `CHttpParserWrapper` holds after
`ParseHttpContent` on the bytes.
-/

namespace FileHub.Http

open Lib

/-- `strncmp(s.c_str(), prefix, strlen(prefix)) == 0`. -/
def hasPrefix (s : Bytes) (pat : String) : Bool := (ascii pat).isPrefixOf (cStr s)

/-- What `OnRead` chooses between. -/
inductive Target where
  | api (route : Route)
  | html
  | memHtml
  | notFound
deriving DecidableEq

/-- The comparisons of `OnRead`, in its order. -/
def target (url : Bytes) : Target :=
  if hasPrefix url "/api/reg" then .api .reg
  else if hasPrefix url "/api/login" then .api .login
  else if hasPrefix url "/api/md5" then .api .md5
  else if hasPrefix url "/api/upload" then .api .upload
  else if hasPrefix url "/api/myfiles" then .api .myfiles
  else if hasPrefix url "/api/sharepic" then .api .sharepic
  else if hasPrefix url "/api/dealfile" then .api .dealfile
  else if hasPrefix url "/api/sharefiles" then .api .sharefiles
  else if hasPrefix url "/api/dealsharefile" then .api .dealsharefile
  else if hasPrefix url "/api/html" then .html
  else if hasPrefix url "/api/memhtml" then .memHtml
  else .notFound

/-- A call of a handler. -/
structure Dispatch where
  target : Target
  url : Bytes
  content : Bytes
deriving DecidableEq

def dispatch (url content : Bytes) : Dispatch := ⟨target url, url, content⟩

/-- The members of `CHttpParserWrapper` that `OnRead` reads. -/
structure Parsed where
  url_ : Bytes
  body_content_ : Bytes
  read_all_ : Bool
deriving DecidableEq

/-- A connection: its input buffer, the `OnRead` tasks in the pool, and the
handler calls so far. -/
structure CHttpConn where
  buf : Bytes
  tasks : ℕ
  dispatched : List Dispatch
deriving DecidableEq

inductive Delivery where
  | message (bytes : Bytes)
  | task
deriving DecidableEq

namespace CHttpConn

def start : CHttpConn := ⟨[], 0, []⟩

/-- `OnRead`. The length goes through an `int32_t` to a `uint32_t`. -/
def onRead (parse : Bytes → Parsed) (c : CHttpConn) : CHttpConn :=
  let http_parser_ := parse (c.buf.take (c.buf.length % 2 ^ 32))
  if http_parser_.read_all_ then
    { c with
      dispatched := c.dispatched ++ [dispatch http_parser_.url_ http_parser_.body_content_] }
  else c

/-- One event; `none` for an empty delivery, which muduo does not report, and
for a task when none is queued. -/
def step (parse : Bytes → Parsed) (num_threads_ : ℕ) (c : CHttpConn) :
    Delivery → Option CHttpConn
  | .message bytes =>
      if bytes = [] then none
      else
        let received := { c with buf := c.buf ++ bytes }
        if num_threads_ ≠ 0 then some { received with tasks := c.tasks + 1 }
        else some (received.onRead parse)
  | .task =>
      if c.tasks = 0 then none else some (({ c with tasks := c.tasks - 1 }).onRead parse)

def run (parse : Bytes → Parsed) (num_threads_ : ℕ) (c : CHttpConn) :
    List Delivery → Option CHttpConn
  | [] => some c
  | e :: es =>
      match c.step parse num_threads_ e with
      | none => none
      | some c' => run parse num_threads_ c' es

end CHttpConn

end FileHub.Http
