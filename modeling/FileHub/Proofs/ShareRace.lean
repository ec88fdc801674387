import FileHub.Proofs.KnownCalls
import FileHub.Proofs.RankingKeys
import FileHub.Proofs.Threads

/-!
# Sharing one file from several sides

`handleShareFile` guards its two existence checks and its insert by a lock key
in Redis. Nothing else does: `share_file_list` has no unique index that a
second row would break. The key is written with `SET`, which overwrites it, so
the lock excludes nobody by itself; it does exclude in the runs where every
`SET` of the key happens to find it absent and the key stays until its holder
deletes it.

In those runs a holder that has seen no row knows that there is none, and that
nobody has reported success.
-/

namespace FileHub

open Lib
open Lib.Sql (Plain)
open Prog (ask)

/-- What a call that shares the file may rely on. -/
inductive ShareStage where
  /-- It holds the lock. -/
  | entered
  /-- It holds the lock, and the file is not shared. -/
  | clear
  /-- It has shared the file. -/
  | won
deriving DecidableEq

/-- Does a `SET` find its key absent? -/
def setFindsNone (w : World) : Call → Bool
  | .redis (.set key _) => (w.redis (cStr key)).isNone
  | _ => true

namespace ShareRace

section

variable (md5 filename : Bytes)

/-- The lock of the file, as Redis sees its name. -/
def lockKey : Bytes := cStr (shareLockKey (shareFileid md5 filename))

/-- Any other key may expire. -/
def Expires (w w' : World) : Prop :=
  ∃ key ≠ lockKey md5 filename, w' = { w with redis := Function.update w.redis key none }

/-- Calls of `handleShareFile` for the file, by these users. -/
def pool (users : List Bytes) (w : World) : Pool Bytes Call Resp Int World :=
  ⟨users.map fun user => (user, handleShareFile user md5 filename), w⟩

/-- One holder, whose lock is there; as many rows as calls that shared the file. -/
structure Exclusive (w : World) (g : Multiset ShareStage) : Prop where
  alone : g.count .entered + g.count .clear ≤ 1
  locked : 0 < g.count .entered + g.count .clear → (w.redis (lockKey md5 filename)).isSome
  rows : (w.db.shares md5 filename).length = g.count .won
  once : g.count .won + g.count .clear ≤ 1

/-- The calls that leave the shares of the file and its lock as they are. -/
def Quiet (c : Call) : Prop :=
  ∀ a w r w', step c a w = some (r, w') →
    w'.db.shares md5 filename = w.db.shares md5 filename ∧
      w'.redis (lockKey md5 filename) = w.redis (lockKey md5 filename)

end

variable {md5 filename : Bytes} {α β : Type}

theorem Exclusive.congr {w w' : World} {g : Multiset ShareStage} (h : Exclusive md5 filename w g)
    (hshares : w'.db.shares md5 filename = w.db.shares md5 filename)
    (hlock : w'.redis (lockKey md5 filename) = w.redis (lockKey md5 filename)) :
    Exclusive md5 filename w' g :=
  ⟨h.alone, by rw [hlock]; exact h.locked, by rw [hshares]; exact h.rows, h.once⟩

theorem quiet_of_reads {c : Call} (hc : c.Reads) : Quiet md5 filename c := by
  intro a w r w' hs
  rw [step_reads hc hs]
  exact ⟨rfl, rfl⟩

theorem quiet_redis {c : RedisCmd} (hc : cStr c.key ≠ lockKey md5 filename) :
    Quiet md5 filename (.redis c) := by
  intro a w r w' hs
  have hne : lockKey md5 filename ≠ c.format.key := by
    rw [c.key_format]
    exact hc.symm
  simp only [step, redisStep, Option.some.injEq] at hs
  split at hs <;> cases hs <;> refine ⟨rfl, ?_⟩ <;>
    first | rfl | exact Redis.exec_of_ne _ _ hne

theorem quiet_setSharedStatus (v : Int) (user : Bytes) :
    Quiet md5 filename (.dml (.setSharedStatus v user md5 filename)) := by
  intro a w r w' hs
  by_cases ha : a.ok
  · rw [step_dml ha] at hs
    cases hs
    exact ⟨rfl, rfl⟩
  · simp only [step, if_neg ha] at hs
    cases hs
    exact ⟨rfl, rfl⟩

/-- A handler in a run whose `SET`s find their keys absent. -/
abbrev Races {α : Type} (md5 filename : Bytes) (Q : α → Multiset ShareStage → Prop)
    (p : Handler α) (g : Multiset ShareStage) : Prop :=
  Safe step (Exclusive md5 filename) (Granted setFindsNone) Q p g

theorem Races.quiet {p : Handler α} (hp : p.Uses (Quiet md5 filename))
    (g : Multiset ShareStage) : Races md5 filename (fun _ g' => g' = g) p g := by
  refine Safe.of_uses (fun c w h a r w' hc hI _ hs => ?_) hp g
  obtain ⟨hshares, hlock⟩ := hc a w r w' hs
  exact hI.congr hshares hlock

theorem Races.skip {Q : β → Multiset ShareStage → Prop} {p : Handler α} {f : α → Handler β}
    {g : Multiset ShareStage} (hp : p.Uses (Quiet md5 filename))
    (hf : ∀ a, Races md5 filename Q (f a) g) : Races md5 filename Q (p >>= f) g :=
  (Races.quiet hp g).bind fun a _ hg => hg ▸ hf a

/-! ## Walking through `handleShareFile` -/

theorem acquireShareLock_races (conn : CacheConn) (value : Bytes) (attempts : ℕ) :
    Races md5 filename (fun ok g => ok = true ∧ g = {.entered})
      (acquireShareLock conn (shareLockKey (shareFileid md5 filename)) value (attempts + 1)) 0 := by
  rw [acquireShareLock]
  refine Safe.bind (Q := fun r g => r = ascii "OK" ∧ g = {.entered}) ?_ ?_
  · refine Safe.commandOr conn fun w f hI hnone => ⟨{.entered}, ?_, rfl, rfl⟩
    rw [setFindsNone, Option.isNone_iff_eq_none] at hnone
    -- The key was not there, so nobody held the lock.
    have hfree : f.count .entered + f.count .clear = 0 := by
      have hlocked := hI.locked
      rw [zero_add, lockKey, hnone] at hlocked
      by_contra hne
      exact absurd (hlocked (Nat.pos_of_ne_zero hne)) (by simp)
    refine ⟨?_, fun _ => ?_, ?_, ?_⟩
    · simp only [Multiset.count_add, Multiset.count_singleton, reduceCtorEq, if_true, if_false]
      omega
    · simp [World.cmd, RedisCmd.format, Redis.exec, lockKey]
    · have hrows := hI.rows
      simpa [Multiset.count_singleton] using hrows
    · have honce := hI.once
      simpa [Multiset.count_singleton] using honce
  · rintro _ _ ⟨rfl, rfl⟩
    rw [if_pos (by decide)]
    refine Safe.bind (Q := fun _ g => g = {.entered}) ?_ ?_
    · refine Safe.commandOr conn fun w f hI _ => ⟨{.entered}, ?_, rfl⟩
      refine ⟨hI.alone, fun _ => ?_, hI.rows, hI.once⟩
      simp [World.cmd, RedisCmd.format, Redis.exec, lockKey]
    · rintro _ _ rfl
      exact safe_ret ⟨rfl, rfl⟩

theorem uses_publish (conn : CacheConn) (fileid name : Bytes) :
    (publishShare conn fileid name).Uses (Quiet md5 filename) := by
  refine (asks_publishShare (free_of_reads fun _ hc => quiet_of_reads hc) conn
    (quiet_redis ?_) (quiet_redis ?_)).uses
  · rw [RedisCmd.key, cStr_zsetKey]
    exact (lockKey_ne_zsetKey _).symm
  · rw [RedisCmd.key, cStr_hashKey]
    exact (lockKey_ne_hashKey _).symm

/-- The holder looks for a row. -/
theorem selectShare_races (conn : CDBConn) :
    Races md5 filename
      (fun found g => found = 1 ∧ g = {.entered} ∨ found ≠ 1 ∧ g = {.clear})
      (checkwhetherHaveRecord conn (.share md5 filename)) {.entered} := by
  refine Safe.bind (Q := fun rows g => ∃ shares : List ShareRow, rows = some shares ∧
    g = if shares = [] then {.clear} else {.entered}) ?_ ?_
  · refine Safe.executeQuery conn (q := Select.share md5 filename) fun w f hI =>
      ⟨_, ?_, w.db.shares md5 filename, Db.run_share _ _ _, rfl⟩
    by_cases hshares : w.db.shares md5 filename = []
    · have hrows := hI.rows
      have halone := hI.alone
      have hlocked := hI.locked
      rw [hshares, List.length_nil] at hrows
      simp only [Multiset.count_add, Multiset.count_singleton, reduceCtorEq, if_true,
        if_false] at hrows halone hlocked
      rw [if_pos hshares]
      refine ⟨?_, fun _ => hlocked (by omega), ?_, ?_⟩ <;>
        simp only [hshares, List.length_nil, Multiset.count_add, Multiset.count_singleton,
          reduceCtorEq, if_true, if_false] <;> omega
    · rw [if_neg hshares]
      exact hI
  · rintro _ _ ⟨shares, rfl, rfl⟩
    cases shares with
    | nil => exact safe_ret (.inr ⟨by decide, rfl⟩)
    | cons row rows => exact safe_ret (.inl ⟨rfl, rfl⟩)

theorem insertShare_races (conn : CDBConn) (user time : Bytes) :
    Races md5 filename (fun inserted g => inserted = true ∧ g = {.entered, .won})
      (conn.executeCreate (.insertShare ⟨user, md5, time, filename, 0⟩)) {.clear} := by
  refine Safe.execute conn fun w f hI _ => ⟨_, ?_, rfl, rfl⟩
  have halone := hI.alone
  have hrows := hI.rows
  have honce := hI.once
  simp only [Multiset.count_add, Multiset.count_singleton, reduceCtorEq, if_true,
    if_false] at halone hrows honce
  have hinserted : (w.sql (.insertShare ⟨user, md5, time, filename, 0⟩)).db.shares md5 filename =
      w.db.shares md5 filename ++ [⟨cStr user, cStr md5, cStr time, cStr filename, 0⟩] := by
    simp [Db.shares, World.sql, Db.sql, Dml.format, Dml.exec]
  have hone : ShareStage.won ::ₘ ({.entered} : Multiset ShareStage) = {.entered, .won} :=
    Multiset.cons_swap _ _ _
  rw [← hone]
  refine ⟨?_, fun _ => hI.locked ?_, ?_, ?_⟩ <;>
    simp only [hinserted, List.length_append, List.length_singleton, Multiset.count_add,
      Multiset.count_cons, Multiset.count_singleton, reduceCtorEq, if_true, if_false] <;> omega

/-- What a call knows when it gives up the lock, and what it answers then. -/
def Answered (r : Int) (g : Multiset ShareStage) : Prop :=
  r = 0 ∧ g = {.won} ∨ (r = 3 ∨ r = 1) ∧ g = 0

theorem shareLocked_races (conn : CDBConn) (cache : CacheConn) (user : Bytes) :
    Races md5 filename
      (fun r g => ∃ k g', (k = .entered ∨ k = .clear) ∧ g = {k} + g' ∧ Answered r g')
      (shareLocked conn cache user md5 filename) {.entered} := by
  have hreads : ∀ {c : Call}, c.Reads → Quiet md5 filename c := quiet_of_reads
  refine Races.skip (uses_zsetExist (hreads trivial) (hreads trivial) (hreads trivial))
    fun ranked => ?_
  split
  · exact safe_ret ⟨.entered, 0, .inl rfl, (add_zero _).symm, .inr ⟨.inl rfl, rfl⟩⟩
  · refine (selectShare_races conn).bind fun found g hfound => ?_
    rcases hfound with ⟨hfound, rfl⟩ | ⟨hfound, rfl⟩
    · rw [if_pos hfound]
      refine Races.skip (uses_publish cache _ _) fun _ => ?_
      exact safe_ret ⟨.entered, 0, .inl rfl, (add_zero _).symm, .inr ⟨.inl rfl, rfl⟩⟩
    · rw [if_neg hfound]
      refine Races.skip (uses_executeUpdate (quiet_setSharedStatus 1 user) (hreads trivial))
        fun updated => ?_
      split
      · refine Races.skip (uses_ask (hreads trivial)) fun time => ?_
        refine (insertShare_races conn user time).bind ?_
        rintro _ _ ⟨rfl, rfl⟩
        rw [if_pos rfl]
        refine Races.skip (uses_publish cache _ _) fun _ => ?_
        exact safe_ret ⟨.entered, {.won}, .inl rfl, rfl, .inl ⟨rfl, rfl⟩⟩
      · exact safe_ret ⟨.clear, 0, .inr rfl, (add_zero _).symm, .inr ⟨.inr rfl, rfl⟩⟩

theorem releaseShare_races (conn : CacheConn) {k : ShareStage}
    (hk : k = .entered ∨ k = .clear) (g : Multiset ShareStage) :
    Races md5 filename (fun _ g' => g' = g)
      (conn.del (shareLockKey (shareFileid md5 filename))) ({k} + g) := by
  refine Safe.commandOr conn fun w f hI _ => ⟨g, ?_, rfl⟩
  have halone := hI.alone
  have hrows := hI.rows
  have honce := hI.once
  rcases hk with rfl | rfl <;>
    simp only [Multiset.count_add, Multiset.count_singleton, reduceCtorEq, if_true,
      if_false] at halone hrows honce <;>
    refine ⟨?_, fun hpos => ?_, ?_, ?_⟩ <;>
    simp only [Multiset.count_add] at * <;> first | exact hrows.trans (by omega) | omega

theorem handleShareFile_races (user : Bytes) :
    Races md5 filename Answered (handleShareFile user md5 filename) 0 := by
  have hreads : ∀ {c : Call}, c.Reads → Quiet md5 filename c := quiet_of_reads
  refine Races.skip (uses_getDBConn (hreads trivial)) fun conn => ?_
  refine Races.skip (uses_getCacheConn (hreads trivial)) fun cache => ?_
  refine Races.skip (uses_ask (hreads trivial)) fun now => ?_
  refine (acquireShareLock_races cache (decimal now) 9).bind ?_
  rintro _ _ ⟨rfl, rfl⟩
  rw [if_pos rfl]
  refine (shareLocked_races conn cache user).bind ?_
  rintro r _ ⟨k, g, hk, rfl, hr⟩
  refine (releaseShare_races cache hk g).bind ?_
  rintro _ _ rfl
  exact safe_ret hr

/-! ## Every run -/

/-- A call that has returned 0 is one that shared the file. -/
theorem countP_returned_le {threads : List (Bytes × Handler Int)}
    {gs : List (Multiset ShareStage)}
    (h : List.Forall₂ (fun t g => Races md5 filename Answered t.2 g) threads gs) :
    (threads.countP fun t => t.2.result? = some 0) ≤ gs.sum.count .won := by
  induction h with
  | nil => exact Nat.zero_le _
  | @cons t g threads gs ht _ ih =>
      rw [List.countP_cons, List.sum_cons, Multiset.count_add, add_comm]
      refine Nat.add_le_add ?_ ih
      obtain ⟨user, p⟩ := t
      cases p with
      | call c k => exact Nat.zero_le _
      | ret r =>
          rcases ht with ⟨rfl, rfl⟩ | ⟨hr, rfl⟩
          · exact le_rfl
          · rcases hr with rfl | rfl <;> exact Nat.zero_le _

theorem shared_once_of_reaches (md5 filename : Bytes) (users : List Bytes) {w : World}
    (hnone : w.db.shares md5 filename = []) {p : Pool Bytes Call Resp Int World}
    (hrun : Pool.Reaches step (Granted setFindsNone) (Expires md5 filename)
      (pool md5 filename users w) p) :
    (p.st.db.shares md5 filename).length ≤ 1 ∧
      (p.threads.countP fun t => t.2.result? = some 0) ≤ 1 ∧
      ∀ t ∈ p.threads, ∀ r, t.2.result? = some r → r = 0 ∨ r = 3 ∨ r = 1 := by
  have hstart : Accounted step (Exclusive md5 filename) (Granted setFindsNone)
      (fun _ => Answered) (pool md5 filename users w) := by
    refine Accounted.start (fun t ht => ?_) ⟨by simp, by simp, ?_, by simp⟩
    · obtain ⟨user, -, rfl⟩ := List.mem_map.mp ht
      exact handleShareFile_races user
    · exact congrArg List.length hnone
  have hexpire : ∀ s s' g, Exclusive md5 filename s g → Expires md5 filename s s' →
      Exclusive md5 filename s' g := by
    rintro s _ g hI ⟨key, hkey, rfl⟩
    exact hI.congr rfl (Function.update_of_ne hkey.symm _ _)
  obtain ⟨gs, hthreads, hI⟩ := hstart.reaches hexpire hrun
  have honce := hI.once
  refine ⟨hI.rows.trans_le (by omega), (countP_returned_le hthreads).trans (by omega), ?_⟩
  intro t ht r hr
  obtain ⟨g, hsafe⟩ : ∃ g, Races md5 filename Answered t.2 g := by
    obtain ⟨i, hi, rfl⟩ := List.mem_iff_getElem.mp ht
    exact ⟨_, List.Forall₂.get hthreads hi (hthreads.length_eq ▸ hi)⟩
  cases hp : t.2 with
  | call c k =>
      rw [hp] at hr
      cases hr
  | ret r' =>
      rw [hp] at hr hsafe
      cases hr
      rcases hsafe with ⟨hzero, -⟩ | ⟨hother, -⟩
      · exact .inl hzero
      · exact .inr hother

/-- Where every `SET` of the lock finds it absent, the file is shared at most once. -/
theorem shared_at_most_once (server : SqlServer) {K : Bytes → Prop} (hK : server.Tells K)
    {md5 filename : Bytes} (hmd5 : K md5) (hname : K filename) {users : List Bytes}
    (husers : ∀ user ∈ users, K user) {w : World} (hw : w.db.Known K)
    (hnone : w.db.shares md5 filename = []) {p : Pool Bytes Call Resp Int World}
    (hrun : Pool.Reaches server.step (Regularly (Granted setFindsNone)) (Expires md5 filename)
      (pool md5 filename users w) p) :
    (p.st.db.shares md5 filename).length ≤ 1 ∧
      (p.threads.countP fun t => t.2.result? = some 0) ≤ 1 ∧
      ∀ t ∈ p.threads, ∀ r, t.2.result? = some r → r = 0 ∨ r = 3 ∨ r = 1 := by
  have hexpire : ∀ w w' : World, w.db.Known K → Expires md5 filename w w' → w'.db.Known K := by
    rintro w _ hw ⟨key, -, rfl⟩
    exact hw
  refine shared_once_of_reaches md5 filename users hnone
    (hK.reaches hexpire hw (fun t ht => ?_) hrun)
  obtain ⟨user, huser, rfl⟩ := List.mem_map.mp ht
  exact known_handleShareFile (husers user huser) hmd5 hname

/-! A file two users have, both sharing it. -/

def bothOwn : World :=
  { World.empty with
    db :=
      { Db.empty with
        userFileList := ⟨[⟨ascii "u", ascii "m", ascii "now", ascii "f", 0, 0⟩,
          ⟨ascii "v", ascii "m", ascii "now", ascii "f", 0, 0⟩], by decide⟩ } }

def bothShare : Pool Bytes Call Resp Int World :=
  pool (ascii "m") (ascii "f") [ascii "u", ascii "v"] bothOwn

/-- Thread 0 for so many steps, then thread 1, and so on. -/
def turns : List (ℕ × ℕ) → List (ℕ × Ans) :=
  List.flatMap fun t => List.replicate t.2 (t.1, ⟨.none, [], 0⟩)

set_option maxRecDepth 10000 in
/-- The second call takes the lock after the first has released it. -/
theorem shared_one_after_the_other :
    ∃ p, Pool.play SqlServer.strict.step (Regularly (Granted setFindsNone))
        (turns [(1, 3), (0, 19), (1, 8)]) bothShare = some p ∧
      (p.st.db.shares (ascii "m") (ascii "f")).length ≤ 1 ∧
      (p.threads.countP fun t => t.2.result? = some 0) ≤ 1 ∧
      ∀ t ∈ p.threads, ∀ r, t.2.result? = some r → r = 0 ∨ r = 3 ∨ r = 1 := by
  have hplayed : (Pool.play SqlServer.strict.step (Regularly (Granted setFindsNone))
      (turns [(1, 3), (0, 19), (1, 8)]) bothShare).isSome := by
    decide +kernel
  obtain ⟨p, hp⟩ := Option.isSome_iff_exists.mp hplayed
  have hknown : bothOwn.db.Known Plain := by
    refine ⟨?_, nofun, nofun, nofun, nofun⟩
    decide
  exact ⟨p, hp, shared_at_most_once _ SqlServer.strict_tells (by decide) (by decide) (by decide)
    hknown rfl (Pool.play_reaches hp)⟩

set_option maxRecDepth 10000 in
/-- Both calls take the lock and look for a row before either inserts one. -/
theorem shared_twice :
    ¬∀ p, Pool.Reaches SqlServer.strict.step (fun _ a _ => a.ok) (fun _ _ => False) bothShare p →
      (p.st.db.shares (ascii "m") (ascii "f")).length ≤ 1 := by
  intro hall
  have hplayed : ((Pool.play SqlServer.strict.step (fun _ a _ => a.ok)
      (turns [(0, 12), (1, 12), (0, 1), (1, 1)]) bothShare).any fun p =>
        !decide ((p.st.db.shares (ascii "m") (ascii "f")).length ≤ 1)) = true := by
    decide +kernel
  obtain ⟨p, hp, hmany⟩ := Option.any_eq_true _ _ |>.mp hplayed
  have hone := hall p (Pool.play_reaches hp)
  simp [hone] at hmany

end ShareRace

end FileHub
