import Mathlib.Data.List.AList
import Mathlib.Data.List.Sort
import FileHub.Lib.CString

/-!
# The Redis side: keys and commands

One server, one database: `CacheConn::Init` selects database 0 whatever pool
the connection belongs to, so the tokens, the share locks and the ranking live
in one key space. A key holds a string, a sorted set or a hash, and a command
against a key of another type answers with an error.

A sorted set is a finite map from members to scores; its order, by score and
then by member, is computed where a command reads it. `ZLEXCOUNT key [m [m` is
the command the code uses to ask for membership. Redis defines it for sets
whose scores are all equal; what it answers on other sets depends on how the
set is stored, and is a parameter here.

Arguments reach Redis through the `%s` of `redisCommand` as C strings
(`RedisCmd.format`), so no key, member or value ever holds a NUL.
-/

namespace FileHub

open Lib

abbrev ZSet := AList fun _ : Bytes => Int

abbrev Hash := AList fun _ : Bytes => Bytes

inductive RedisVal where
  | str (v : Bytes)
  | zset (z : ZSet)
  | hash (h : Hash)

/-- The key space. -/
abbrev Redis := Bytes → Option RedisVal

/-! ## Sorted sets -/

namespace ZSet

/-- `ZRANGE` order: by score, members of one score by their bytes. -/
def before (a b : Σ _ : Bytes, Int) : Prop :=
  a.2 < b.2 ∨ a.2 = b.2 ∧ a.1 ≤ b.1

instance : DecidableRel before := fun _ _ => inferInstanceAs (Decidable (_ ∨ _))

def sorted (z : ZSet) : List (Σ _ : Bytes, Int) := z.entries.insertionSort before

/-- `ZLEXCOUNT key [m [m`: membership on a set of equal scores, and what `lex`
says on any other. -/
def zlexcount (lex : ZSet → Bytes → ℕ) (z : ZSet) (m : Bytes) : ℕ :=
  if ∀ e ∈ z.entries, ∀ e' ∈ z.entries, e.2 = e'.2 then
    if m ∈ z then 1 else 0
  else lex z m

end ZSet

/-! ## Commands -/

inductive RedisCmd where
  | get (key : Bytes)
  | set (key value : Bytes)
  | setex (key : Bytes) (timeout : ℕ) (value : Bytes)
  | del (key : Bytes)
  | zadd (key : Bytes) (score : Int) (member : Bytes)
  | zrem (key member : Bytes)
  | zincrby (key member : Bytes)
  | zlexcount (key member : Bytes)
  | zcard (key : Bytes)
  | zrevrange (key : Bytes) (from_pos end_pos : Int)
  | zscore (key member : Bytes)
  | hset (key field value : Bytes)
  | hdel (key field : Bytes)
  | hget (key field : Bytes)
deriving DecidableEq

def RedisCmd.format : RedisCmd → RedisCmd
  | .get k => .get (cStr k)
  | .set k v => .set (cStr k) (cStr v)
  | .setex k t v => .setex (cStr k) t (cStr v)
  | .del k => .del (cStr k)
  | .zadd k s m => .zadd (cStr k) s (cStr m)
  | .zrem k m => .zrem (cStr k) (cStr m)
  | .zincrby k m => .zincrby (cStr k) (cStr m)
  | .zlexcount k m => .zlexcount (cStr k) (cStr m)
  | .zcard k => .zcard (cStr k)
  | .zrevrange k a b => .zrevrange (cStr k) a b
  | .zscore k m => .zscore (cStr k) (cStr m)
  | .hset k f v => .hset (cStr k) (cStr f) (cStr v)
  | .hdel k f => .hdel (cStr k) (cStr f)
  | .hget k f => .hget (cStr k) (cStr f)

/-- `redisReply`. -/
inductive Reply where
  | status (s : Bytes)
  | error (s : Bytes)
  | integer (n : Int)
  | nil
  | string (s : Bytes)
  | array (elements : List Bytes)
deriving DecidableEq

/-- `reply->str, reply->len`, empty for the replies that carry no string. -/
def Reply.str : Reply → Bytes
  | .status s | .error s | .string s => s
  | .integer _ | .nil | .array _ => []

/-- `reply->integer`, zero for the replies that carry none. -/
def Reply.toInteger : Reply → Int
  | .integer n => n
  | .status _ | .error _ | .nil | .string _ | .array _ => 0

def wrongType : Reply :=
  .error (ascii "WRONGTYPE Operation against a key holding the wrong kind of value")

namespace Redis

/-- The sorted set at a key; a missing key reads as the empty set, a key of
another type as nothing. -/
def zset? (r : Redis) (key : Bytes) : Option ZSet :=
  match r key with
  | none => some ∅
  | some (.zset z) => some z
  | some (.str _) | some (.hash _) => none

def hash? (r : Redis) (key : Bytes) : Option Hash :=
  match r key with
  | none => some ∅
  | some (.hash h) => some h
  | some (.str _) | some (.zset _) => none

/-- Store a set back; Redis drops a key whose set became empty. -/
def putZset (r : Redis) (key : Bytes) (z : ZSet) : Redis :=
  Function.update r key (if z.entries = [] then none else some (.zset z))

def putHash (r : Redis) (key : Bytes) (h : Hash) : Redis :=
  Function.update r key (if h.entries = [] then none else some (.hash h))

/-- The slice `start .. stop` of `ZREVRANGE`, negative positions counted from
the end. -/
def slice (l : List Bytes) (start stop : Int) : List Bytes :=
  let fix (i : Int) : Int := if i < 0 then i + l.length else i
  let lo := (max (fix start) 0).toNat
  let hi := fix stop + 1
  (l.take hi.toNat).drop lo

def exec (lex : ZSet → Bytes → ℕ) (r : Redis) : RedisCmd → Reply × Redis
  | .get k =>
      match r k with
      | none => (.nil, r)
      | some (.str v) => (.string v, r)
      | some (.zset _) | some (.hash _) => (wrongType, r)
  | .set k v => (.status (ascii "OK"), Function.update r k (some (.str v)))
  | .setex k _ v => (.status (ascii "OK"), Function.update r k (some (.str v)))
  | .del k => (.integer (if (r k).isSome then 1 else 0), Function.update r k none)
  | .zadd k s m =>
      match r.zset? k with
      | none => (wrongType, r)
      | some z => (.integer (if m ∈ z then 0 else 1), r.putZset k (z.insert m s))
  | .zrem k m =>
      match r.zset? k with
      | none => (wrongType, r)
      | some z => (.integer (if m ∈ z then 1 else 0), r.putZset k (z.erase m))
  | .zincrby k m =>
      match r.zset? k with
      | none => (wrongType, r)
      | some z =>
          let s := (z.lookup m).getD 0 + 1
          (.string (intText s), r.putZset k (z.insert m s))
  | .zlexcount k m =>
      match r.zset? k with
      | none => (wrongType, r)
      | some z => (.integer (z.zlexcount lex m), r)
  | .zcard k =>
      match r.zset? k with
      | none => (wrongType, r)
      | some z => (.integer z.entries.length, r)
  | .zrevrange k a b =>
      match r.zset? k with
      | none => (wrongType, r)
      | some z => (.array (slice (z.sorted.reverse.map (·.1)) a b), r)
  | .zscore k m =>
      match r.zset? k with
      | none => (wrongType, r)
      | some z =>
          match z.lookup m with
          | none => (.nil, r)
          | some s => (.string (intText s), r)
  | .hset k f v =>
      match r.hash? k with
      | none => (wrongType, r)
      | some h => (.integer (if f ∈ h then 0 else 1), r.putHash k (h.insert f v))
  | .hdel k f =>
      match r.hash? k with
      | none => (wrongType, r)
      | some h => (.integer (if f ∈ h then 1 else 0), r.putHash k (h.erase f))
  | .hget k f =>
      match r.hash? k with
      | none => (wrongType, r)
      | some h =>
          match h.lookup f with
          | none => (.nil, r)
          | some v => (.string v, r)

end Redis

end FileHub
