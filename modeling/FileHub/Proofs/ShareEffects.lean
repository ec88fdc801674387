import FileHub.Proofs.RankingKeys

/-!
# What the requests about shares make of the stores

Sharing, cancelling and counting a download, as functions on the stores, with
nothing failing. Where a handler asks Redis whether a share is in the ranking,
its effect depends on what Redis answers: `World.ranking` is that answer.
-/

namespace FileHub

open Lib
open Prog (ask)

/-- What `ZsetExist` returns for a share. -/
def World.ranking (w : World) (id : Bytes) : Int :=
  (w.reply (.zlexcount FILE_PUBLIC_ZSET id)).orFail fun n => n

/-- A share written to Redis. -/
def World.published (w : World) (id filename : Bytes) : World :=
  (w.cmd (.zadd FILE_PUBLIC_ZSET 0 id)).cmd (.hset FILE_NAME_HASH id filename)

/-- The lock key written. -/
def World.shareTaken (w : World) (id : Bytes) (now : ℕ) : World :=
  (w.cmd (.set (shareLockKey id) (decimal now))).cmd
    (.setex (shareLockKey id) 10 (decimal now))

/-- The effect of `handleShareFile` between taking the lock and releasing it. -/
def World.offered (w : World) (user md5 filename time : Bytes) : World :=
  let id := shareFileid md5 filename
  if w.ranking id = 1 then w
  else if w.db.shares md5 filename = [] then
    ((w.sql (.setSharedStatus 1 user md5 filename)).sql
      (.insertShare ⟨user, md5, time, filename, 0⟩)).published id filename
  else w.published id filename

def World.shared (w : World) (user md5 filename time : Bytes) (now : ℕ) : World :=
  let id := shareFileid md5 filename
  ((w.shareTaken id now).offered user md5 filename time).cmd (.del (shareLockKey id))

/-- The effect of `handleCancelShareFile`. -/
def World.cancelled (w : World) (user md5 filename : Bytes) : World :=
  let id := shareFileid md5 filename
  let w := (w.sql (.setSharedStatus 0 user md5 filename)).sql (.deleteShare user md5 filename)
  if (w.reply (.zrem FILE_PUBLIC_ZSET id)).orFail (fun _ => 0) = 0 then
    (w.cmd (.zrem FILE_PUBLIC_ZSET id)).cmd (.hdel FILE_NAME_HASH id)
  else w.cmd (.zrem FILE_PUBLIC_ZSET id)

/-- The ranking after a download, the count before it being `pv`. -/
def World.rankingCounted (w : World) (pv : Int) (md5 filename : Bytes) : World :=
  let id := shareFileid md5 filename
  if w.ranking id < 0 then w
  else if w.ranking id = 0 then
    let w' := w.cmd (.zadd FILE_PUBLIC_ZSET (asInt (pv + 1)) id)
    if (w.reply (.zadd FILE_PUBLIC_ZSET (asInt (pv + 1)) id)).orFail (fun _ => 0) = 0 then
      w'.cmd (.hset FILE_NAME_HASH id filename)
    else w'
  else w.cmd (.zincrby FILE_PUBLIC_ZSET id)

/-- The effect of a download of a share. -/
def World.downloaded (w : World) (md5 filename : Bytes) : World :=
  match w.db.shares md5 filename with
  | [] => w
  | row :: _ =>
      (w.sql (.setSharePv (asInt (row.pv + 1)) md5 filename)).rankingCounted row.pv md5 filename

section

variable {E : World → Prop} {w : World}

theorem cmd_zlexcount (w : World) (key member : Bytes) :
    w.cmd (.zlexcount key member) = w := by
  simp only [World.cmd, RedisCmd.format, Redis.exec]
  split <;> rfl

/-! ## Sharing -/

/-- The lock is under a key of its own. -/
theorem shareTaken_redis_of_ne (w : World) {id key : Bytes} (now : ℕ)
    (h : key ≠ cStr (shareLockKey id)) : (w.shareTaken id now).redis key = w.redis key := by
  simp only [World.shareTaken, World.cmd, RedisCmd.format, Redis.exec, Function.update_of_ne h]

theorem release_redis_of_ne (w : World) {id key : Bytes}
    (h : key ≠ cStr (shareLockKey id)) :
    (w.cmd (.del (shareLockKey id))).redis key = w.redis key := by
  simp only [World.cmd, RedisCmd.format, Redis.exec, Function.update_of_ne h]

theorem ranking_eq (w : World) (id : Bytes) :
    w.ranking id = (w.redis.zset? FILE_PUBLIC_ZSET).elim (-1) fun z =>
      (z.zlexcount w.lex (cStr id) : Int) := by
  simp only [World.ranking, World.reply, RedisCmd.format, cStr_zsetKey, Redis.exec]
  cases w.redis.zset? FILE_PUBLIC_ZSET with
  | none => rfl
  | some z => rfl

theorem ranking_shareTaken (w : World) (id id' : Bytes) (now : ℕ) :
    (w.shareTaken id now).ranking id' = w.ranking id' := by
  have hkey : (w.shareTaken id now).redis.zset? FILE_PUBLIC_ZSET =
      w.redis.zset? FILE_PUBLIC_ZSET :=
    Redis.zset?_congr (shareTaken_redis_of_ne w now (lockKey_ne_zsetKey id).symm)
  have hlex : (w.shareTaken id now).lex = w.lex := rfl
  rw [ranking_eq, ranking_eq, hkey, hlex]

@[simp] theorem shared_locked (w : World) (user md5 filename time : Bytes) (now : ℕ) :
    (w.shared user md5 filename time now).locked = w.locked := by
  simp only [World.shared, World.cmd_locked, World.offered]
  split
  · rfl
  · split <;> rfl

theorem ensures_set (key value : Bytes) (Q : Bytes → World → Prop) :
    Ensures E Q (CacheConn.set ⟨true⟩ key value) w ↔ Q (ascii "OK") (w.cmd (.set key value)) :=
  ensures_commandOr (.set key value) [] Reply.str Q

theorem ensures_setEx (key : Bytes) (timeout : ℕ) (value : Bytes) (Q : Bytes → World → Prop) :
    Ensures E Q (CacheConn.setEx ⟨true⟩ key timeout value) w ↔
      Q (ascii "OK") (w.cmd (.setex key timeout value)) :=
  ensures_commandOr (.setex key timeout value) [] Reply.str Q

/-- The first attempt at the lock succeeds, whoever has it. -/
theorem ensures_acquireShareLock (key value : Bytes) (attempts : ℕ) (Q : Bool → World → Prop) :
    Ensures E Q (acquireShareLock ⟨true⟩ key value (attempts + 1)) w ↔
      Q true ((w.cmd (.set key value)).cmd (.setex key 10 value)) := by
  have hok : ascii "OK" ≠ [] := by decide
  rw [acquireShareLock, ensures_bind, ensures_set, if_pos hok, ensures_bind, ensures_setEx,
    ensures_pure]

theorem ensures_publishShare (id filename : Bytes) (Q : Unit → World → Prop) :
    Ensures E Q (publishShare ⟨true⟩ id filename) w ↔ Q () (w.published id filename) := by
  rw [publishShare, ensures_bind, ensures_zsetAdd, ensures_bind, ensures_hset]
  rfl

theorem shareLocked_ensures (user md5 filename : Bytes) {Q : Int → World → Prop}
    (hQ : ∀ ret time, Q ret (w.offered user md5 filename time)) :
    Ensures E Q (shareLocked ⟨true⟩ ⟨true⟩ user md5 filename) w := by
  simp only [World.offered] at hQ
  rw [shareLocked, ensures_bind, ensures_zsetExist, cmd_zlexcount]
  change Ensures E Q (if w.ranking _ = 1 then _ else _) w
  by_cases hranked : w.ranking (shareFileid md5 filename) = 1
  · simp only [hranked, if_true] at hQ
    rw [if_pos hranked]
    exact hQ 3 []
  · simp only [hranked, if_false] at hQ
    rw [if_neg hranked, ensures_bind,
      ensures_checkwhetherHaveRecord _ (Db.run_share w.db md5 filename)]
    by_cases hshares : w.db.shares md5 filename = []
    · simp only [hshares, if_true] at hQ
      rw [if_pos hshares, if_neg (by decide), ensures_bind, ensures_executeUpdate]
      simp only [Dml.format, Dml.exec, Option.any_some, Bool.not_false, Bool.or_true, if_true,
        ensures_bind, ensures_localtime, ensures_executeCreate, Option.isSome_some,
        ensures_publishShare, ensures_pure]
      exact fun time => hQ 0 time
    · simp only [hshares, if_false] at hQ
      rw [if_neg hshares, if_pos rfl, ensures_bind, ensures_publishShare]
      exact hQ 3 []

theorem handleShareFile_ensures (user md5 filename : Bytes) {Q : Int → World → Prop}
    (hQ : ∀ ret time now, Q ret (w.shared user md5 filename time now)) :
    Ensures E Q (handleShareFile user md5 filename) w := by
  rw [handleShareFile]
  simp only [ensures_bind, ensures_getDBConn, ensures_getCacheConn, ensures_time]
  intro now
  rw [ensures_acquireShareLock, if_pos rfl, ensures_bind]
  refine shareLocked_ensures user md5 filename fun ret time => ?_
  rw [ensures_bind, ensures_del]
  exact hQ ret time now

/-! ## Cancelling -/

@[simp] theorem cancelled_locked (w : World) (user md5 filename : Bytes) :
    (w.cancelled user md5 filename).locked = w.locked := by
  simp only [World.cancelled]
  split <;> rfl

theorem handleCancelShareFile_ensures (user md5 filename : Bytes) {Q : Int → World → Prop}
    (hQ : ∀ ret, Q ret (w.cancelled user md5 filename)) :
    Ensures E Q (handleCancelShareFile user md5 filename) w := by
  simp only [World.cancelled] at hQ
  rw [handleCancelShareFile]
  simp only [ensures_bind, ensures_getDBConn, ensures_getCacheConn, ensures_executeUpdate,
    ensures_executeDrop, Dml.format, Dml.exec, Option.any_some, Bool.not_false, Bool.or_true,
    if_true, Option.isSome_some, ensures_zsetZrem]
  split
  · next hremoved =>
      simp only [hremoved, if_true] at hQ
      rw [ensures_bind, ensures_hdel]
      exact hQ _
  · next hremoved =>
      simp only [hremoved, if_false] at hQ
      exact hQ 1

/-! ## Counting a download -/

/-- `ZINCRBY` answers with the new score, or with an error. -/
theorem reply_zincrby (w : World) (key member : Bytes) :
    ∃ s, w.reply (.zincrby key member) = .string s ∨ w.reply (.zincrby key member) = .error s := by
  simp only [World.reply, RedisCmd.format, Redis.exec]
  cases w.redis.zset? (cStr key) with
  | none => exact ⟨_, .inr rfl⟩
  | some z => exact ⟨_, .inl rfl⟩

theorem zsetIncr_ensures (key member : Bytes) {Q : Int → World → Prop}
    (hQ : ∀ ret, Q ret (w.cmd (.zincrby key member))) :
    Ensures E Q (CacheConn.zsetIncr ⟨true⟩ key member) w := by
  rw [CacheConn.zsetIncr, ensures_commandDeref]
  obtain ⟨s, hs | hs⟩ := reply_zincrby w key member
  all_goals
    rw [hs]
    dsimp only
    split
    · exact hQ 0
    · exact hQ (-1)

theorem countRanking_ensures (pv : Int) (md5 filename : Bytes) {Q : Int → World → Prop}
    (hQ : ∀ ret, Q ret (w.rankingCounted pv md5 filename)) :
    Ensures E Q (countRanking ⟨true⟩ pv md5 filename) w := by
  simp only [World.rankingCounted] at hQ
  rw [countRanking, ensures_bind, ensures_zsetExist, cmd_zlexcount]
  change Ensures E Q (if w.ranking _ < 0 then _ else _) w
  by_cases hneg : w.ranking (shareFileid md5 filename) < 0
  · simp only [hneg, if_true] at hQ
    rw [if_pos hneg]
    exact hQ 1
  · simp only [hneg, if_false] at hQ
    rw [if_neg hneg]
    by_cases habsent : w.ranking (shareFileid md5 filename) = 0
    · simp only [habsent, if_true] at hQ
      change Ensures E Q (if w.ranking _ = 0 then _ else _) w
      rw [if_pos habsent, ensures_bind, ensures_zsetAdd]
      split
      · next hadded =>
          simp only [hadded, if_true] at hQ
          rw [ensures_bind, ensures_hset]
          exact hQ 0
      · next hadded =>
          simp only [hadded, if_false] at hQ
          exact hQ 1
    · simp only [habsent, if_false] at hQ
      change Ensures E Q (if w.ranking _ = 0 then _ else _) w
      rw [if_neg habsent, ensures_bind]
      exact zsetIncr_ensures _ _ fun ret => hQ _

@[simp] theorem downloaded_locked (w : World) (md5 filename : Bytes) :
    (w.downloaded md5 filename).locked = w.locked := by
  rw [World.downloaded]
  split
  · rfl
  · rw [World.rankingCounted]
    dsimp only
    split
    · rfl
    · split
      · split <;> rfl
      · rfl

theorem handlePvFile_ensures (md5 filename : Bytes) {Q : Int → World → Prop}
    (hQ : ∀ ret, Q ret (w.downloaded md5 filename)) :
    Ensures E Q (DealSharefile.handlePvFile md5 filename) w := by
  rw [World.downloaded] at hQ
  rw [DealSharefile.handlePvFile]
  simp only [ensures_bind, ensures_getDBConn, ensures_getCacheConn]
  refine (ensures_executeQuery (.share md5 filename) _).mpr ?_
  rw [Db.run_share]
  cases hshares : w.db.shares md5 filename with
  | nil =>
      rw [hshares] at hQ
      exact hQ 1
  | cons row rows =>
      rw [hshares] at hQ
      dsimp only
      rw [ensures_bind, ensures_executeUpdate]
      simp only [Dml.format, Dml.exec, Option.any_some, Bool.not_false, Bool.or_true, if_true]
      exact countRanking_ensures row.pv md5 filename hQ

end

end FileHub
