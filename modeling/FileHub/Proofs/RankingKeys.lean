import FileHub.Proofs.Effects

/-!
# The two keys of the ranking

The shares are kept in Redis under two keys, a sorted set of download counts
and a hash of names. `Holds r z h` says what is there, with a missing key read
as the empty map. Each command has one effect on the pair, and the commands on
a share's lock key have none.
-/

namespace FileHub

open Lib

/-- The one key a command is about. -/
def RedisCmd.key : RedisCmd → Bytes
  | .get k | .set k _ | .setex k _ _ | .del k | .zadd k .. | .zrem k _ | .zincrby k _
  | .zlexcount k _ | .zcard k | .zrevrange k .. | .zscore k _ | .hset k .. | .hdel k _
  | .hget k _ => k

theorem RedisCmd.key_format (c : RedisCmd) : c.format.key = cStr c.key := by
  cases c <;> rfl

namespace Redis

/-- A command leaves every other key alone. -/
theorem exec_of_ne (lex : ZSet → Bytes → ℕ) (r : Redis) {c : RedisCmd} {key : Bytes}
    (h : key ≠ c.key) : (r.exec lex c).2 key = r key := by
  cases c with
  | get | zlexcount | zcard | zrevrange =>
      simp only [exec]
      split <;> rfl
  | zscore | hget =>
      simp only [exec]
      split
      · rfl
      · split <;> rfl
  | set | setex | del => exact Function.update_of_ne h _ _
  | zadd | zrem | zincrby | hset | hdel =>
      simp only [exec]
      split
      · rfl
      · exact Function.update_of_ne h _ _

theorem zset?_putZset (r : Redis) (key : Bytes) (z : ZSet) :
    (r.putZset key z).zset? key = some z := by
  rw [zset?, putZset, Function.update_self]
  split
  · next hnone =>
      have hentries : z.entries = [] := by
        by_contra hne
        rw [if_neg hne] at hnone
        cases hnone
      rw [Option.some.injEq]
      exact AList.ext hentries.symm
  · next z' hsome =>
      split at hsome
      · cases hsome
      · cases hsome
        rfl
  all_goals
    next hsome => split at hsome <;> cases hsome

theorem hash?_putHash (r : Redis) (key : Bytes) (h : Hash) :
    (r.putHash key h).hash? key = some h := by
  rw [hash?, putHash, Function.update_self]
  split
  · next hnone =>
      have hentries : h.entries = [] := by
        by_contra hne
        rw [if_neg hne] at hnone
        cases hnone
      rw [Option.some.injEq]
      exact AList.ext hentries.symm
  · next h' hsome =>
      split at hsome
      · cases hsome
      · cases hsome
        rfl
  all_goals
    next hsome => split at hsome <;> cases hsome

theorem zset?_congr {r r' : Redis} {key : Bytes} (h : r key = r' key) :
    r.zset? key = r'.zset? key := by
  rw [zset?, zset?, h]

theorem hash?_congr {r r' : Redis} {key : Bytes} (h : r key = r' key) :
    r.hash? key = r'.hash? key := by
  rw [hash?, hash?, h]

end Redis

/-! ## The keys -/

@[simp] theorem cStr_zsetKey : cStr FILE_PUBLIC_ZSET = FILE_PUBLIC_ZSET := by decide

@[simp] theorem cStr_hashKey : cStr FILE_NAME_HASH = FILE_NAME_HASH := by decide

theorem zsetKey_ne_hashKey : FILE_PUBLIC_ZSET ≠ FILE_NAME_HASH := by decide

theorem cStr_shareLockKey (id : Bytes) :
    cStr (shareLockKey id) = ascii "share_lock:" ++ cStr id :=
  cStr_append_of_forall (by decide +kernel) id

theorem lockKey_ne_zsetKey (id : Bytes) : cStr (shareLockKey id) ≠ FILE_PUBLIC_ZSET := by
  rw [cStr_shareLockKey]
  intro h
  have hhead := congrArg (List.take 1) h
  rw [List.take_append_of_le_length (by decide)] at hhead
  exact absurd hhead (by decide)

theorem lockKey_ne_hashKey (id : Bytes) : cStr (shareLockKey id) ≠ FILE_NAME_HASH := by
  rw [cStr_shareLockKey]
  intro h
  have hhead := congrArg (List.take 1) h
  rw [List.take_append_of_le_length (by decide)] at hhead
  exact absurd hhead (by decide)

@[simp] theorem cStr_shareFileid (md5 filename : Bytes) :
    cStr (shareFileid md5 filename) = shareFileid md5 filename := by
  refine cStr_of_forall fun b hb => ?_
  rcases List.mem_append.mp hb with hb | hb
  · exact cStr_nonzero md5 b hb
  · exact cStr_nonzero filename b hb

/-! ## One share under the two keys -/

/-- The set has the member. -/
def Redis.Ranked (r : Redis) (id : Bytes) : Prop :=
  ∃ z, r.zset? FILE_PUBLIC_ZSET = some z ∧ id ∈ z

/-- The hash has the field. -/
def Redis.Named (r : Redis) (id : Bytes) : Prop :=
  ∃ h, r.hash? FILE_NAME_HASH = some h ∧ id ∈ h

theorem ranked_hdel (w : World) (id id' : Bytes) :
    (w.cmd (.hdel FILE_NAME_HASH id)).redis.Ranked id' ↔ w.redis.Ranked id' := by
  have hsame : (w.cmd (.hdel FILE_NAME_HASH id)).redis.zset? FILE_PUBLIC_ZSET =
      w.redis.zset? FILE_PUBLIC_ZSET :=
    Redis.zset?_congr (Redis.exec_of_ne w.lex w.redis
      (show FILE_PUBLIC_ZSET ≠ cStr FILE_NAME_HASH by decide))
  rw [Redis.Ranked, hsame, Redis.Ranked]

theorem named_zrem (w : World) (id id' : Bytes) :
    (w.cmd (.zrem FILE_PUBLIC_ZSET id)).redis.Named id' ↔ w.redis.Named id' := by
  have hsame : (w.cmd (.zrem FILE_PUBLIC_ZSET id)).redis.hash? FILE_NAME_HASH =
      w.redis.hash? FILE_NAME_HASH :=
    Redis.hash?_congr (Redis.exec_of_ne w.lex w.redis
      (show FILE_NAME_HASH ≠ cStr FILE_PUBLIC_ZSET by decide))
  rw [Redis.Named, hsame, Redis.Named]

theorem not_ranked_zrem (w : World) {id : Bytes} (hid : cStr id = id) :
    ¬(w.cmd (.zrem FILE_PUBLIC_ZSET id)).redis.Ranked id := by
  rintro ⟨z, hz, hmem⟩
  simp only [World.cmd, RedisCmd.format, cStr_zsetKey, hid, Redis.exec] at hz
  split at hz
  · next hnone =>
      rw [hnone] at hz
      cases hz
  · rw [Redis.zset?_putZset, Option.some.injEq] at hz
    rw [← hz, AList.mem_erase] at hmem
    exact hmem.1 rfl

theorem not_named_hdel (w : World) {id : Bytes} (hid : cStr id = id) :
    ¬(w.cmd (.hdel FILE_NAME_HASH id)).redis.Named id := by
  rintro ⟨h, hh, hmem⟩
  simp only [World.cmd, RedisCmd.format, cStr_hashKey, hid, Redis.exec] at hh
  split at hh
  · next hnone =>
      rw [hnone] at hh
      cases hh
  · rw [Redis.hash?_putHash, Option.some.injEq] at hh
    rw [← hh, AList.mem_erase] at hmem
    exact hmem.1 rfl

/-- What the two keys hold. -/
structure Redis.Holds (r : Redis) (z : ZSet) (h : Hash) : Prop where
  zset : r.zset? FILE_PUBLIC_ZSET = some z
  hash : r.hash? FILE_NAME_HASH = some h

namespace Redis.Holds

variable {w : World} {z : ZSet} {h : Hash} {id : Bytes}

theorem of_eq {r r' : Redis} (hr : r.Holds z h)
    (hzset : r' FILE_PUBLIC_ZSET = r FILE_PUBLIC_ZSET)
    (hhash : r' FILE_NAME_HASH = r FILE_NAME_HASH) : r'.Holds z h :=
  ⟨(zset?_congr hzset).trans hr.zset, (hash?_congr hhash).trans hr.hash⟩

/-! ### Commands on the sorted set -/

theorem putZset {r : Redis} (hr : r.Holds z h) (z' : ZSet) :
    (r.putZset FILE_PUBLIC_ZSET z').Holds z' h := by
  refine ⟨zset?_putZset _ _ _, (hash?_congr ?_).trans hr.hash⟩
  exact Function.update_of_ne zsetKey_ne_hashKey.symm _ _

theorem putHash {r : Redis} (hr : r.Holds z h) (h' : Hash) :
    (r.putHash FILE_NAME_HASH h').Holds z h' := by
  refine ⟨(zset?_congr ?_).trans hr.zset, hash?_putHash _ _ _⟩
  exact Function.update_of_ne zsetKey_ne_hashKey _ _

theorem zadd (hw : w.redis.Holds z h) (s : Int) (id : Bytes) :
    (w.cmd (.zadd FILE_PUBLIC_ZSET s id)).redis.Holds (z.insert (cStr id) s) h := by
  simp only [World.cmd, RedisCmd.format, cStr_zsetKey, exec, hw.zset]
  exact hw.putZset _

theorem zrem (hw : w.redis.Holds z h) (id : Bytes) :
    (w.cmd (.zrem FILE_PUBLIC_ZSET id)).redis.Holds (z.erase (cStr id)) h := by
  simp only [World.cmd, RedisCmd.format, cStr_zsetKey, exec, hw.zset]
  exact hw.putZset _

theorem zincrby (hw : w.redis.Holds z h) (id : Bytes) :
    (w.cmd (.zincrby FILE_PUBLIC_ZSET id)).redis.Holds
      (z.insert (cStr id) ((z.lookup (cStr id)).getD 0 + 1)) h := by
  simp only [World.cmd, RedisCmd.format, cStr_zsetKey, exec, hw.zset]
  exact hw.putZset _

/-! ### Commands on the hash -/

theorem hset (hw : w.redis.Holds z h) (id name : Bytes) :
    (w.cmd (.hset FILE_NAME_HASH id name)).redis.Holds z (h.insert (cStr id) (cStr name)) := by
  simp only [World.cmd, RedisCmd.format, cStr_hashKey, exec, hw.hash]
  exact hw.putHash _

theorem hdel (hw : w.redis.Holds z h) (id : Bytes) :
    (w.cmd (.hdel FILE_NAME_HASH id)).redis.Holds z (h.erase (cStr id)) := by
  simp only [World.cmd, RedisCmd.format, cStr_hashKey, exec, hw.hash]
  exact hw.putHash _

/-! ### Commands on a lock -/

end Redis.Holds

end FileHub
