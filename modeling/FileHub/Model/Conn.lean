import FileHub.Model.World

/-!
# Connections and locks as the handlers use them

The wrappers of `db_pool.cc` and `cache_pool.cc`, and the scoped lock of
`api_common.h`. A connection is a pointer that may be null, modelled by whether
it is not; the wrappers are methods, so calling one on a null pointer is a
`crash`, and so is reading a reply that hiredis returned as null in the sorted
set wrappers, which do not test it.

Every `CacheConn` method first runs `Init()`, which reconnects if it must; a
failed `Init()` and a lost reply end most methods in the value they also return
for an absent key. A reply of an unexpected type is read through
`reply->integer` or `reply->str`, which are zero and empty for it.
-/

namespace FileHub

open Lib Prog

/-- A null pointer is dereferenced, or an exception leaves the task. -/
def crash {α : Type} : Handler α := .call .crash fun e => e.elim

/-! ## MySQL -/

/-- A `CDBConn *`: whether it is not null. -/
structure CDBConn where
  live : Bool

def getDBConn (pool : DbPool) : Handler CDBConn := do
  let live : Bool ← ask (Call.getDBConn pool)
  return ⟨live⟩

namespace CDBConn

/-- `ExecuteQuery`: the rows, or a null result set. -/
def executeQuery (db_conn : CDBConn) (q : Select) : Handler (Option (List q.Row)) :=
  if db_conn.live then ask (Call.select q) else crash

/-- The common body of `ExecuteCreate`, `ExecuteDrop` and `ExecutePassQuery`:
whether the statement ran. -/
def execute (db_conn : CDBConn) (d : Dml) : Handler Bool :=
  if db_conn.live then do
    let affected : Option ℕ ← ask (Call.dml d)
    return affected.isSome
  else crash

def executeCreate (db_conn : CDBConn) (d : Dml) : Handler Bool := db_conn.execute d

def executeDrop (db_conn : CDBConn) (d : Dml) : Handler Bool := db_conn.execute d

def executePassQuery (db_conn : CDBConn) (d : Dml) : Handler Bool := db_conn.execute d

/-- `ExecuteUpdate`: under `care_affected_rows`, a statement that ran but
changed no row counts as failed. -/
def executeUpdate (db_conn : CDBConn) (d : Dml) (care_affected_rows : Bool := true) :
    Handler Bool :=
  if db_conn.live then do
    let affected : Option ℕ ← ask (Call.dml d)
    match affected with
    | none => return false
    | some n => return decide (0 < n) || !care_affected_rows
  else crash

/-- `CPrepareStatement::Init` on the connection's handle. -/
def prepare (db_conn : CDBConn) : Handler Bool :=
  if db_conn.live then ask Call.stmtInit else crash

/-- `CPrepareStatement::ExecuteUpdate`: a statement that changed no row counts
as failed. -/
def executeStmt (d : Dml) : Handler Bool := do
  let affected : Option ℕ ← ask (Call.dml d)
  return affected.any fun n => decide (0 < n)

end CDBConn

/-! ## Redis -/

/-- A `CacheConn *`: whether it is not null. -/
structure CacheConn where
  live : Bool

def getCacheConn (pool : CachePool) : Handler CacheConn := do
  let live : Bool ← ask (Call.getCacheConn pool)
  return ⟨live⟩

namespace CacheConn

/-- `Init()` and one command: `none` when `Init()` fails, otherwise what
`redisCommand` returned. -/
def command (cache_conn : CacheConn) (c : RedisCmd) :
    Handler (Option (Option Reply)) :=
  if cache_conn.live then do
    let up : Bool ← ask Call.cacheInit
    if up then
      let reply : Option Reply ← ask (Call.redis c)
      return some reply
    else
      return none
  else crash

/-- The methods that hand `value` to the caller unless the connection is down
or the reply is lost. -/
def commandOr {α : Type} (cache_conn : CacheConn) (c : RedisCmd) (down : α)
    (value : Reply → α) : Handler α := do
  match ← cache_conn.command c with
  | some (some reply) => return value reply
  | some none | none => return down

/-- The methods that read the reply without testing it for null. -/
def commandDeref {α : Type} (cache_conn : CacheConn) (c : RedisCmd) (down : α)
    (value : Reply → Handler α) : Handler α := do
  match ← cache_conn.command c with
  | some (some reply) => value reply
  | some none => crash
  | none => return down

def get (cache_conn : CacheConn) (key : Bytes) : Handler Bytes :=
  cache_conn.commandOr (.get key) [] fun
    | .string s => s
    | .status _ | .error _ | .integer _ | .nil | .array _ => []

def set (cache_conn : CacheConn) (key value : Bytes) : Handler Bytes :=
  cache_conn.commandOr (.set key value) [] Reply.str

def setEx (cache_conn : CacheConn) (key : Bytes) (timeout : ℕ) (value : Bytes) :
    Handler Bytes :=
  cache_conn.commandOr (.setex key timeout value) [] Reply.str

def del (cache_conn : CacheConn) (key : Bytes) : Handler Int :=
  cache_conn.commandOr (.del key) 0 Reply.toInteger

def hdel (cache_conn : CacheConn) (key field : Bytes) : Handler Int :=
  cache_conn.commandOr (.hdel key field) (-1) Reply.toInteger

def hset (cache_conn : CacheConn) (key field value : Bytes) : Handler Int :=
  cache_conn.commandOr (.hset key field value) (-1) Reply.toInteger

/-- `Hget(key, field, value)`: the return code with what is in `value`, cut to
the first 1024 bytes and at a NUL. -/
def hget (cache_conn : CacheConn) (key field : Bytes) : Handler (Int × Bytes) :=
  cache_conn.commandOr (.hget key field) (-1, []) fun
    | .string s => (0, cStr (s.take 1024))
    | .status _ | .error _ | .integer _ | .nil | .array _ => (-1, [])

def zsetExist (cache_conn : CacheConn) (key member : Bytes) : Handler Int :=
  cache_conn.commandDeref (.zlexcount key member) (-1) fun
    | .integer n => return n
    | .status _ | .error _ | .nil | .string _ | .array _ => return -1

def zsetAdd (cache_conn : CacheConn) (key : Bytes) (score : Int) (member : Bytes) :
    Handler Int :=
  cache_conn.commandDeref (.zadd key score member) (-1) fun
    | .integer _ => return 0
    | .status _ | .error _ | .nil | .string _ | .array _ => return -1

def zsetZrem (cache_conn : CacheConn) (key member : Bytes) : Handler Int :=
  cache_conn.commandDeref (.zrem key member) (-1) fun
    | .integer _ => return 0
    | .status _ | .error _ | .nil | .string _ | .array _ => return -1

/-- `ZsetIncr` returns 0 when `Init()` fails, and compares `reply->str`, null
in a reply that carries no string, with `OK`. -/
def zsetIncr (cache_conn : CacheConn) (key member : Bytes) : Handler Int :=
  cache_conn.commandDeref (.zincrby key member) 0 fun
    | .status s | .error s | .string s =>
        if cStr s = ascii "OK" then return 0 else return -1
    | .integer _ | .nil | .array _ => crash

def zsetZcard (cache_conn : CacheConn) (key : Bytes) : Handler Int :=
  cache_conn.commandDeref (.zcard key) (-1) fun
    | .integer n => return n
    | .status _ | .error _ | .nil | .string _ | .array _ => return -1

/-- `ZsetZrevrange`: the return code with the members copied, at most `count`
of them and each cut to 1023 bytes. The comparison with `count` is unsigned, so
a negative one bounds nothing. -/
def zsetZrevrange (cache_conn : CacheConn) (key : Bytes) (from_pos end_pos : Int) :
    Handler (Int × List Bytes) :=
  let count := end_pos - from_pos + 1
  cache_conn.commandDeref (.zrevrange key from_pos end_pos) (-1, []) fun
    | .array elements =>
        let max_count := if count < 0 then elements.length else count.toNat
        return (0, (elements.take max_count).map fun e => cStr (e.take 1023))
    | .status _ | .error _ | .integer _ | .nil | .string _ => return (-1, [])

/-- `atoi` of a score as Redis prints it. -/
def atoiScore (s : Bytes) : Int :=
  match s with
  | 45 :: digits => -(ofDecimal (digits.takeWhile isDigit) : Int)
  | _ => ofDecimal (s.takeWhile isDigit)

def zsetGetScore (cache_conn : CacheConn) (key member : Bytes) : Handler Int :=
  cache_conn.commandDeref (.zscore key member) (-1) fun
    | .string s => return atoiScore s
    | .status _ | .error _ | .integer _ | .nil | .array _ => return -1

end CacheConn

/-! ## The file-info lock -/

/-- A block that holds a `ScopedFileInfoLock`: the lock is tried, the body told
whether it was taken, and released on every way out if it was. -/
def scopedFileInfoLock {α : Type} (ms : ℕ) (body : Bool → Handler α) : Handler α := do
  let is_locked : Bool ← ask (Call.tryLockFor ms)
  let r ← body is_locked
  if is_locked then
    let _ : Unit ← ask Call.unlock
    return r
  else
    return r

end FileHub
