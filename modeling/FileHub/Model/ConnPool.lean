import Mathlib.Data.List.Basic
import Mathlib.Logic.Function.Basic
import Mathlib.Logic.Relation

/-!
# `CDBPool` and `CachePool`

The two pools are the same code but for the number of connections they start
with. Every method holds the mutex except while it waits, so an acquisition is
one step, or one that ends in the wait and others that leave it. A wake-up may
come at any time: the condition variable promises no more, and the predicate is
tested again after each.

`handed_out` and `waiting` are not members. They record what the clients hold
and which of them are inside the wait, with their `timeout_ms`. `misread` is
set if `front()` is ever called on the empty list.
-/

namespace FileHub

inductive PoolKind where
  | db
  | cache
deriving DecidableEq

/-- `MIN_DB_CONN_CNT` and `MIN_CACHE_CONN_CNT`. -/
def PoolKind.minConnCnt : PoolKind → ℕ
  | .db => 1
  | .cache => 2

structure ConnPool (Client Conn : Type) where
  max_conn_cnt_ : Int
  cur_conn_cnt_ : Int
  free_list_ : List Conn
  abort_request_ : Bool
  handed_out : List (Client × Conn)
  waiting : Client → Option Int
  misread : Bool

/-- What an acquisition comes to: a connection, `NULL`, or the wait. -/
inductive Got (Conn : Type) where
  | conn (c : Conn)
  | null
  | waits

namespace ConnPool

variable {Client Conn : Type}

/-- After an `Init()` that returned 0. -/
def start (max_conn_cnt : Int) (conns : List Conn) : ConnPool Client Conn :=
  ⟨max_conn_cnt, conns.length, conns, false, [], fun _ => none, false⟩

/-- The end of an acquisition: `front()` and `pop_front()`. -/
def takeFront (s : ConnPool Client Conn) (client : Client) : Got Conn × ConnPool Client Conn :=
  match s.free_list_ with
  | [] => (.null, { s with misread := true })
  | c :: rest =>
      (.conn c, { s with free_list_ := rest, handed_out := (client, c) :: s.handed_out })

variable [DecidableEq Client]

/-- `GetDBConn` and `GetCacheConn`. `created` is what `new` and `Init()` gave,
if it comes to creating a connection. -/
def getConn (s : ConnPool Client Conn) (client : Client) (timeout_ms : Int)
    (created : Option Conn) : Got Conn × ConnPool Client Conn :=
  if s.abort_request_ then (.null, s)
  else if s.free_list_.isEmpty then
    if s.max_conn_cnt_ ≤ s.cur_conn_cnt_ then
      (.waits, { s with waiting := Function.update s.waiting client (some timeout_ms) })
    else
      match created with
      | none => (.null, s)
      | some c =>
          takeFront { s with
            free_list_ := s.free_list_ ++ [c], cur_conn_cnt_ := s.cur_conn_cnt_ + 1 } client
  else takeFront s client

/-- A client in the wait has the mutex again, its time being up or not. -/
def wake (s : ConnPool Client Conn) (client : Client) (timeout_ms : Int) (expired : Bool) :
    Got Conn × ConnPool Client Conn :=
  let awake := { s with waiting := Function.update s.waiting client none }
  let ready := !s.free_list_.isEmpty || s.abort_request_
  if timeout_ms ≤ 0 then
    if ready then
      if s.abort_request_ then (.null, awake) else takeFront awake client
    else (.waits, s)
  else if ready || expired then
    if s.free_list_.isEmpty then (.null, awake)
    else if s.abort_request_ then (.null, awake)
    else takeFront awake client
  else (.waits, s)

variable [DecidableEq Conn]

/-- `RelDBConn` and `RelCacheConn`, the client giving the connection up. -/
def relConn (s : ConnPool Client Conn) (client : Client) (conn : Conn) : ConnPool Client Conn :=
  let handed_out := s.handed_out.erase (client, conn)
  if conn ∈ s.free_list_ then { s with handed_out }
  else { s with handed_out, free_list_ := s.free_list_ ++ [conn] }

/-- `new` never returns the address of a connection that exists. -/
def Unused (s : ConnPool Client Conn) (created : Option Conn) : Prop :=
  ∀ c ∈ created, c ∉ s.free_list_ ∧ c ∉ s.handed_out.map Prod.snd

instance (s : ConnPool Client Conn) (created : Option Conn) : Decidable (s.Unused created) :=
  inferInstanceAs (Decidable (∀ c ∈ created, _ ∧ _))

end ConnPool

inductive PoolEvent (Client Conn : Type) where
  | get (client : Client) (timeout_ms : Int) (created : Option Conn)
  | wake (client : Client) (expired : Bool)
  | rel (client : Client) (conn : Conn)
  | abort

namespace ConnPool

variable {Client Conn : Type} [DecidableEq Client] [DecidableEq Conn]

/-- One event; `none` where it cannot happen. A client gives up only what it
holds, and is in one call at a time. -/
def step (s : ConnPool Client Conn) : PoolEvent Client Conn → Option (ConnPool Client Conn)
  | .get client timeout_ms created =>
      if s.waiting client = none ∧ s.Unused created then
        some (s.getConn client timeout_ms created).2
      else none
  | .wake client expired =>
      match s.waiting client with
      | none => none
      | some timeout_ms => some (s.wake client timeout_ms expired).2
  | .rel client conn =>
      if s.waiting client = none ∧ (client, conn) ∈ s.handed_out then
        some (s.relConn client conn)
      else none
  | .abort => some { s with abort_request_ := true }

/-- Runs of any length. -/
def Reaches : ConnPool Client Conn → ConnPool Client Conn → Prop :=
  Relation.ReflTransGen fun s s' => ∃ e, s.step e = some s'

end ConnPool

end FileHub
