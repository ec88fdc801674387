import Mathlib.Logic.Function.Basic

/-!
# `HttpServer`: which object a connection's messages go to

The server gives each connection a uuid from a 32-bit counter, keeps it in the
connection's context, and keeps the connection's `CHttpConn` in `s_http_map`
under it. `insert` leaves an entry that is already there, and `erase` takes out
whatever is under the uuid.

Connections are told apart by an arbitrary type, and a `CHttpConn` is named by
the connection it was constructed for. A connection's own callbacks run one
after the other, those of different connections in any order; the counter and
the map are each accessed atomically, so `onConnection` is two steps.
-/

namespace FileHub.Http

/-- How far a connection is: not yet seen, its uuid drawn, its object inserted,
its disconnection handled. -/
inductive Phase where
  | unseen
  | drawn (uuid : UInt32)
  | opened (uuid : UInt32)
  | closed
deriving DecidableEq

structure Server (Conn : Type) where
  conn_uuid_generator_ : UInt32
  s_http_map : UInt32 → Option Conn
  phase : Conn → Phase

/-- The callbacks, `onConnection` of a new connection in its two steps. -/
inductive Event (Conn : Type) where
  | draw (conn : Conn)
  | insert (conn : Conn)
  | disconnect (conn : Conn)
  | message (conn : Conn)

namespace Server

variable {Conn : Type}

def start : Server Conn := ⟨0, fun _ => none, fun _ => .unseen⟩

/-- `onMessage`: the connection whose object's `OnRead` is run or queued. -/
def onMessage (s : Server Conn) (conn : Conn) : Option Conn :=
  match s.phase conn with
  | .opened uuid => s.s_http_map uuid
  | .unseen | .drawn _ | .closed => none

variable [DecidableEq Conn]

/-- One callback; `none` where the connection is not at it. -/
def step (s : Server Conn) : Event Conn → Option (Server Conn)
  | .draw conn =>
      match s.phase conn with
      | .unseen =>
          some ⟨s.conn_uuid_generator_ + 1, s.s_http_map,
            Function.update s.phase conn (.drawn s.conn_uuid_generator_)⟩
      | .drawn _ | .opened _ | .closed => none
  | .insert conn =>
      match s.phase conn with
      | .drawn uuid =>
          some ⟨s.conn_uuid_generator_,
            if (s.s_http_map uuid).isSome then s.s_http_map
            else Function.update s.s_http_map uuid (some conn),
            Function.update s.phase conn (.opened uuid)⟩
      | .unseen | .opened _ | .closed => none
  | .disconnect conn =>
      match s.phase conn with
      | .opened uuid =>
          some ⟨s.conn_uuid_generator_, Function.update s.s_http_map uuid none,
            Function.update s.phase conn .closed⟩
      | .unseen | .drawn _ | .closed => none
  | .message conn =>
      match s.phase conn with
      | .opened _ => some s
      | .unseen | .drawn _ | .closed => none

/-- The states of a run, the first one included, up to a callback that is not
enabled. -/
def states (s : Server Conn) : List (Event Conn) → List (Server Conn)
  | [] => [s]
  | e :: es =>
      match s.step e with
      | none => [s]
      | some s' => s :: states s' es

end Server

end FileHub.Http
