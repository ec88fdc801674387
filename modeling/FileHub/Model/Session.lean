import FileHub.Lib.CString

/-!
# `CacheConn`: the connection to a Redis server

`Init` is both the first connection and the check that every command starts
with. A context that is there counts as a good one; otherwise it connects, at
most once a second, authenticates if there is a password, and selects a
database. What became of the connection on the server's side is kept next to
the context: whether it is authenticated and which database it is on. A
connection starts unauthenticated and on database 0.
-/

namespace FileHub.Session

open Lib

/-- `password_` and `db_index_`. -/
structure Config where
  password_ : Bytes
  db_index_ : Int

/-- The server's side of a connection. -/
structure Server where
  authed : Bool
  db : Int
deriving DecidableEq

def Server.connected : Server := ⟨false, 0⟩

/-- What `redisCommand` gives: null, with the command executed or not, an error
reply, a status, or a reply of another type. -/
inductive RedisReply where
  | null (executed : Bool)
  | error
  | status (str : Bytes)
  | other
deriving DecidableEq

/-- The server did what the command says. -/
def RedisReply.executed : RedisReply → Bool
  | .null executed => executed
  | .error => false
  | .status _ | .other => true

/-- What an `Init` meets: the time, whether it can connect, and the answers to
its two commands. -/
structure InitEnv where
  cur_time : ℕ
  connects : Bool
  auth : RedisReply
  select : RedisReply

structure CacheConn where
  context_ : Option Server
  last_connect_time_ : ℕ

/-- The constructor. -/
def CacheConn.new : CacheConn := ⟨none, 0⟩

namespace CacheConn

/-- The end of `Init`: `SELECT 0`. -/
def select (env : InitEnv) (server : Server) (conn : CacheConn) : Int × CacheConn :=
  let server := if env.select.executed then { server with db := 0 } else server
  let conn := { conn with context_ := some server }
  match env.select with
  | .status str => if str.take 2 = ascii "OK" then (0, conn) else (2, conn)
  | .null _ | .error | .other => (2, conn)

/-- `Init`. Neither failed step of the handshake frees the context. -/
def init (cfg : Config) (env : InitEnv) (conn : CacheConn) : Int × CacheConn :=
  if conn.context_.isSome then (0, conn)
  else if env.cur_time < conn.last_connect_time_ + 1 then (1, conn)
  else
    let conn := { conn with last_connect_time_ := env.cur_time }
    if env.connects then
      if cfg.password_ = [] then conn.select env Server.connected
      else
        let server := { Server.connected with authed := env.auth.executed }
        match env.auth with
        | .null _ | .error => (-1, { conn with context_ := some server })
        | .status _ | .other => conn.select env server
    else (1, conn)

/-- `DeInit`. -/
def deInit (conn : CacheConn) : CacheConn := { conn with context_ := none }

end CacheConn

/-- What a method does with a null reply: most free the context, the `Hget`
into a buffer keeps it, the sorted set methods dereference the reply. -/
inductive OnNull where
  | frees
  | keeps
  | crashes

/-- What can be called. A command is an `Init` and, if that returned 0, one
`redisCommand`. -/
inductive Op where
  | init (env : InitEnv)
  | deInit
  | command (env : InitEnv) (onNull : OnNull) (replied : Bool)

/-- The state after a command was sent, unless the process is gone. -/
def afterCommand (onNull : OnNull) (replied : Bool) (conn : CacheConn) : Option CacheConn :=
  if replied then some conn
  else match onNull with
    | .frees => some conn.deInit
    | .keeps => some conn
    | .crashes => none

/-- One call: the context if its `Init` returned 0, and the state it leaves. -/
def step (cfg : Config) (conn : CacheConn) : Op → Option (Option Server) × Option CacheConn
  | .init env =>
      let (ret, conn) := conn.init cfg env
      (if ret = 0 then some conn.context_ else none, some conn)
  | .deInit => (none, some conn.deInit)
  | .command env onNull replied =>
      let (ret, conn) := conn.init cfg env
      if ret = 0 then (some conn.context_, afterCommand onNull replied conn)
      else (none, some conn)

/-- The contexts with which the `Init`s of a run returned 0. -/
def entered (cfg : Config) : CacheConn → List Op → List (Option Server)
  | _, [] => []
  | conn, op :: ops =>
      let (found, next) := step cfg conn op
      found.toList ++ match next with
        | none => []
        | some conn => entered cfg conn ops

end FileHub.Session
