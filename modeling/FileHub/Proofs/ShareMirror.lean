import FileHub.Lib.History
import FileHub.Lib.Mirror
import FileHub.Proofs.KnownCalls
import FileHub.Proofs.ShareEffects

/-!
# Redis mirrors the share table, as long as the keys are right

The ranking is meant to be `share_file_list` in another shape: a member for
every share, scored by its downloads, and a name for every member. Redis knows
a share by md5 and name run together, the table by user, md5 and name, and the
requests confuse the two. Sharing a file writes a score of 0 also for a file
that has been downloaded, if Redis does not find the member; it runs two files
together whose md5 and name do; and whoever cancels takes the member away,
whether or not the share was his.

`KeepsMirror` says when a request finds none of that. Downloads of a share keep
the mirror as long as an `int` counts them, and reading the ranking changes
nothing.
-/

namespace FileHub

open Lib
open Lib.Sql (Plain)

/-- Redis holds the share table: a member for every row, its downloads and its name. -/
structure ShareMirror (db : Db) (redis : Redis) : Prop where
  nodup : (db.shareFileList.map ShareRow.fileid).Nodup
  maps : ∃ z h, redis.Holds z h ∧
    Mirrors ShareRow.fileid ShareRow.pv db.shareFileList z ∧
    Mirrors ShareRow.fileid ShareRow.fileName db.shareFileList h

theorem ShareMirror.init {db : Db} (h : db.shareFileList = []) :
    ShareMirror db fun _ => none := by
  refine ⟨?_, ∅, ∅, ⟨rfl, rfl⟩, ?_, ?_⟩ <;> rw [h]
  · exact List.nodup_nil
  · exact .empty
  · exact .empty

/-- Where the two keys hold maps, these are the maps to compare. -/
theorem Redis.Holds.shareMirror_iff {db : Db} {r : Redis} {z : ZSet} {h : Hash}
    (hr : r.Holds z h) :
    ShareMirror db r ↔ (db.shareFileList.map ShareRow.fileid).Nodup ∧
      Mirrors ShareRow.fileid ShareRow.pv db.shareFileList z ∧
      Mirrors ShareRow.fileid ShareRow.fileName db.shareFileList h := by
  constructor
  · rintro ⟨hnodup, z', h', hr', hz, hh⟩
    obtain rfl : z' = z := Option.some.inj (hr'.zset.symm.trans hr.zset)
    obtain rfl : h' = h := Option.some.inj (hr'.hash.symm.trans hr.hash)
    exact ⟨hnodup, hz, hh⟩
  · rintro ⟨hnodup, hz, hh⟩
    exact ⟨hnodup, z, h, hr, hz, hh⟩

/-! ## Rows of one key -/

/-- The row is a share of this file. -/
def ShareRow.IsOf (r : ShareRow) (md5 filename : Bytes) : Prop :=
  r.md5 = cStr md5 ∧ r.fileName = cStr filename

theorem ShareRow.IsOf.fileid_eq {r : ShareRow} {md5 filename : Bytes}
    (h : r.IsOf md5 filename) : r.fileid = shareFileid md5 filename := by
  rw [ShareRow.fileid, shareFileid, h.1, h.2]

theorem mem_shares {db : Db} {md5 filename : Bytes} {r : ShareRow} :
    r ∈ db.shares md5 filename ↔ r ∈ db.shareFileList ∧ r.IsOf md5 filename := by
  rw [Db.shares, List.mem_filter, decide_eq_true_eq, ShareRow.IsOf]

/-- Only shares of the user's own file go under its key. -/
def OnlyShareIs (db : Db) (user md5 filename : Bytes) : Prop :=
  ∀ r ∈ db.shareFileList, r.fileid = shareFileid md5 filename →
    r.user = cStr user ∧ r.IsOf md5 filename

section

variable {w : World}

/-! ## Sharing -/

/-- Writing a share of score 0 for rows that are there. -/
theorem ShareMirror.published_iff (hw : ShareMirror w.db w.redis) {md5 filename : Bytes}
    (hshares : w.db.shares md5 filename ≠ []) :
    ShareMirror w.db (w.published (shareFileid md5 filename) filename).redis ↔
      ∀ r ∈ w.db.shareFileList, r.fileid = shareFileid md5 filename →
        r.IsOf md5 filename ∧ r.pv = 0 := by
  obtain ⟨hnodup, z, h, hr, hz, hh⟩ := hw
  obtain ⟨r₀, hr₀⟩ := List.exists_mem_of_ne_nil _ hshares
  obtain ⟨hmem, hof⟩ := mem_shares.mp hr₀
  have hoccurs : shareFileid md5 filename ∈ w.db.shareFileList.map ShareRow.fileid :=
    List.mem_map.mpr ⟨r₀, hmem, hof.fileid_eq⟩
  have hholds : (w.published (shareFileid md5 filename) filename).redis.Holds
      (z.insert (shareFileid md5 filename) 0)
      (h.insert (shareFileid md5 filename) (cStr filename)) := by
    have hafter := (hr.zadd 0 (shareFileid md5 filename)).hset (shareFileid md5 filename) filename
    rwa [cStr_shareFileid] at hafter
  -- There is one row under the key, and it is of this file.
  have hunique : ∀ r ∈ w.db.shareFileList, r.fileid = shareFileid md5 filename → r = r₀ :=
    fun r hr hkey =>
      List.inj_on_of_nodup_map hnodup hr hmem (hkey.trans hof.fileid_eq.symm)
  rw [hholds.shareMirror_iff, hz.insert_iff hoccurs, hh.insert_iff hoccurs]
  constructor
  · rintro ⟨-, hpv, -⟩ r hr hkey
    exact ⟨hunique r hr hkey ▸ hof, hpv r hr hkey⟩
  · intro hall
    refine ⟨hnodup, fun r hr hkey => (hall r hr hkey).2, fun r hr hkey => ?_⟩
    exact (hall r hr hkey).1.2

/-- Writing a share whose row has just been inserted. -/
theorem ShareMirror.inserted_iff (hw : ShareMirror w.db w.redis) {user md5 filename time : Bytes}
    {w' : World} (hredis : w'.redis = w.redis)
    (hrows : w'.db.shareFileList = w.db.shareFileList ++
      [⟨cStr user, cStr md5, time, cStr filename, 0⟩]) :
    ShareMirror w'.db (w'.published (shareFileid md5 filename) filename).redis ↔
      shareFileid md5 filename ∉ w.db.shareFileList.map ShareRow.fileid := by
  obtain ⟨hnodup, z, h, hr, hz, hh⟩ := hw
  have hkey : ShareRow.fileid ⟨cStr user, cStr md5, time, cStr filename, 0⟩ =
      shareFileid md5 filename := rfl
  constructor
  · rintro ⟨hafter, -⟩ hmem
    rw [hrows, List.map_append, List.nodup_append] at hafter
    exact hafter.2.2 _ hmem _ (by simp [hkey]) rfl
  · intro hfresh
    rw [← hredis] at hr
    have hholds := (hr.zadd 0 (shareFileid md5 filename)).hset (shareFileid md5 filename) filename
    rw [cStr_shareFileid] at hholds
    refine ⟨?_, _, _, hholds, ?_, ?_⟩
    · rw [hrows, List.map_append]
      exact List.concat_eq_append ▸ List.Nodup.concat hfresh hnodup
    · rw [hrows]
      exact @Mirrors.concat _ _ _ _ ShareRow.fileid ShareRow.pv _ _ hz
        ⟨cStr user, cStr md5, time, cStr filename, 0⟩ hfresh
    · rw [hrows]
      exact @Mirrors.concat _ _ _ _ ShareRow.fileid ShareRow.fileName _ _ hh
        ⟨cStr user, cStr md5, time, cStr filename, 0⟩ hfresh

/-- Sharing keeps the mirror if Redis finds the member, or if whatever row goes
under its key is of this very file and has not been downloaded. -/
theorem ShareMirror.offered_iff (hw : ShareMirror w.db w.redis) (user md5 filename time : Bytes) :
    ShareMirror (w.offered user md5 filename time).db (w.offered user md5 filename time).redis ↔
      w.ranking (shareFileid md5 filename) = 1 ∨
        ∀ r ∈ w.db.shareFileList, r.fileid = shareFileid md5 filename →
          r.IsOf md5 filename ∧ r.pv = 0 := by
  rw [World.offered]
  by_cases hranked : w.ranking (shareFileid md5 filename) = 1
  · rw [if_pos hranked]
    exact iff_of_true hw (.inl hranked)
  · rw [if_neg hranked, or_iff_right hranked]
    by_cases hshares : w.db.shares md5 filename = []
    · rw [if_pos hshares]
      refine (@ShareMirror.inserted_iff w hw user md5 filename (cStr time)
        ((w.sql (.setSharedStatus 1 user md5 filename)).sql
          (.insertShare ⟨user, md5, time, filename, 0⟩)) rfl rfl).trans ?_
      constructor
      · intro hfresh r hr hkey
        exact absurd (List.mem_map.mpr ⟨r, hr, hkey⟩) hfresh
      · intro hall hmem
        obtain ⟨r, hr, hkey⟩ := List.mem_map.mp hmem
        have hfound : r ∈ w.db.shares md5 filename := mem_shares.mpr ⟨hr, (hall r hr hkey).1⟩
        rw [hshares] at hfound
        cases hfound
    · rw [if_neg hshares]
      exact hw.published_iff hshares

theorem shareMirror_congr {db : Db} {r r' : Redis}
    (hzset : r' FILE_PUBLIC_ZSET = r FILE_PUBLIC_ZSET)
    (hhash : r' FILE_NAME_HASH = r FILE_NAME_HASH) :
    ShareMirror db r' ↔ ShareMirror db r := by
  constructor
  · rintro ⟨hnodup, z, h, hr, hmaps⟩
    exact ⟨hnodup, z, h, hr.of_eq hzset.symm hhash.symm, hmaps⟩
  · rintro ⟨hnodup, z, h, hr, hmaps⟩
    exact ⟨hnodup, z, h, hr.of_eq hzset hhash, hmaps⟩

theorem ShareMirror.shared_iff (hw : ShareMirror w.db w.redis) (user md5 filename time : Bytes)
    (now : ℕ) :
    ShareMirror (w.shared user md5 filename time now).db
        (w.shared user md5 filename time now).redis ↔
      w.ranking (shareFileid md5 filename) = 1 ∨
        ∀ r ∈ w.db.shareFileList, r.fileid = shareFileid md5 filename →
          r.IsOf md5 filename ∧ r.pv = 0 := by
  have htaken : ShareMirror (w.shareTaken (shareFileid md5 filename) now).db
      (w.shareTaken (shareFileid md5 filename) now).redis :=
    (shareMirror_congr
      (shareTaken_redis_of_ne w now (lockKey_ne_zsetKey _).symm)
      (shareTaken_redis_of_ne w now (lockKey_ne_hashKey _).symm)).mpr hw
  have hoffered := htaken.offered_iff user md5 filename time
  rw [ranking_shareTaken] at hoffered
  refine Iff.trans ?_ hoffered
  exact shareMirror_congr (release_redis_of_ne _ (lockKey_ne_zsetKey _).symm)
    (release_redis_of_ne _ (lockKey_ne_hashKey _).symm)

/-! ## Cancelling and deleting -/

/-- The member and the name taken away, and the user's row with them. -/
theorem ShareMirror.removed_iff (hw : ShareMirror w.db w.redis) (user md5 filename : Bytes)
    {db' : Db} {r' : Redis}
    (hrows : db'.shareFileList = w.db.shareFileList.filter fun r =>
      ¬(r.user = cStr user ∧ r.md5 = cStr md5 ∧ r.fileName = cStr filename))
    (hr' : ∀ z h, w.redis.Holds z h → r'.Holds (z.erase (shareFileid md5 filename))
      (h.erase (shareFileid md5 filename))) :
    ShareMirror db' r' ↔ OnlyShareIs w.db user md5 filename := by
  obtain ⟨hnodup, z, h, hr, hz, hh⟩ := hw
  have hdropped : ∀ r ∈ w.db.shareFileList,
      decide (¬(r.user = cStr user ∧ r.md5 = cStr md5 ∧ r.fileName = cStr filename)) = false →
      r.fileid = shareFileid md5 filename := by
    intro r _ hr
    rw [decide_eq_false_iff_not, not_not] at hr
    exact ShareRow.IsOf.fileid_eq hr.2
  rw [(hr' z h hr).shareMirror_iff, hrows, hz.filter_erase_iff hdropped,
    hh.filter_erase_iff hdropped, and_self, OnlyShareIs]
  simp only [decide_eq_false_iff_not, not_not]
  refine and_iff_right ?_
  exact hnodup.sublist (List.filter_sublist.map _)

theorem ShareMirror.cancelled_iff (hw : ShareMirror w.db w.redis) (user md5 filename : Bytes) :
    ShareMirror (w.cancelled user md5 filename).db (w.cancelled user md5 filename).redis ↔
      OnlyShareIs w.db user md5 filename := by
  obtain ⟨z₀, h₀, hr₀, -⟩ := hw.maps
  have hremoved : (((w.sql (.setSharedStatus 0 user md5 filename)).sql
      (.deleteShare user md5 filename)).reply (.zrem FILE_PUBLIC_ZSET
        (shareFileid md5 filename))).orFail (fun _ => 0) = 0 := by
    simp only [World.reply, World.sql_redis, RedisCmd.format, cStr_zsetKey, Redis.exec, hr₀.zset]
    rfl
  simp only [World.cancelled]
  rw [if_pos hremoved]
  refine hw.removed_iff user md5 filename rfl fun z h hr => ?_
  have hafter := @Redis.Holds.hdel _ _ _ (@Redis.Holds.zrem ((w.sql (.setSharedStatus 0 user md5
    filename)).sql (.deleteShare user md5 filename)) z h hr (shareFileid md5 filename))
      (shareFileid md5 filename)
  rwa [cStr_shareFileid] at hafter

/-- Deleting a file that is shared cancels the share, and deleting any other
leaves the shares alone. -/
theorem ShareMirror.deleted_iff (hw : ShareMirror w.db w.redis) (user md5 filename : Bytes) :
    ShareMirror (w.deleted user md5 filename).db (w.deleted user md5 filename).redis ↔
      ∀ r, w.db.own user md5 filename = some r → r.sharedStatus = 1 →
        OnlyShareIs w.db user md5 filename := by
  rw [World.deleted]
  cases hown : w.db.own user md5 filename with
  | none => exact iff_of_true hw (by simp)
  | some r =>
      simp only [Option.some.injEq, forall_eq']
      rw [released_redis]
      by_cases hshared : r.sharedStatus = 1
      · simp only [hshared, if_true, true_implies]
        refine hw.removed_iff user md5 filename ?_ fun z h hr => ?_
        · rw [released_shareFileList]
          rfl
        · have hafter := (hr.zrem (shareFileid md5 filename)).hdel (shareFileid md5 filename)
          rwa [cStr_shareFileid] at hafter
      · simp only [hshared, if_false, false_implies, iff_true]
        obtain ⟨hnodup, hmaps⟩ := hw
        have hrows : ((w.sql (.deleteUserFile user md5 filename)).released md5).db.shareFileList =
            w.db.shareFileList := released_shareFileList _ md5
        refine ⟨?_, ?_⟩ <;> rw [hrows]
        · exact hnodup
        · exact hmaps

/-! ## Downloads -/

/-- The share's row counted, in the table and in the ranking. -/
theorem Mirrors.counted {rows : List ShareRow} {z : ZSet} {h : Hash} {md5 filename : Bytes}
    (hnodup : (rows.map ShareRow.fileid).Nodup) (hz : Mirrors ShareRow.fileid ShareRow.pv rows z)
    (hh : Mirrors ShareRow.fileid ShareRow.fileName rows h) {row : ShareRow} (hrow : row ∈ rows)
    (hof : row.IsOf md5 filename) (v : Int) :
    let rows' := rows.map fun r =>
      if r.md5 = cStr md5 ∧ r.fileName = cStr filename then { r with pv := v } else r
    (rows'.map ShareRow.fileid).Nodup ∧
      Mirrors ShareRow.fileid ShareRow.pv rows' (z.insert (shareFileid md5 filename) v) ∧
      Mirrors ShareRow.fileid ShareRow.fileName rows' h ∧
      Mirrors ShareRow.fileid ShareRow.fileName rows'
        (h.insert (shareFileid md5 filename) (cStr filename)) := by
  intro rows'
  have hkey (r : ShareRow) : ShareRow.fileid (if r.md5 = cStr md5 ∧ r.fileName = cStr filename
      then { r with pv := v } else r) = r.fileid := by split <;> rfl
  have hname (r : ShareRow) : ShareRow.fileName (if r.md5 = cStr md5 ∧
      r.fileName = cStr filename then { r with pv := v } else r) = r.fileName := by split <;> rfl
  have hoccurs : shareFileid md5 filename ∈ rows.map ShareRow.fileid :=
    List.mem_map.mpr ⟨row, hrow, hof.fileid_eq⟩
  -- The row is the only one under its key.
  have hunique : ∀ r ∈ rows, r.fileid = shareFileid md5 filename → r = row :=
    fun r hr hid => List.inj_on_of_nodup_map hnodup hr hrow (hid.trans hof.fileid_eq.symm)
  have hkeys : rows'.map ShareRow.fileid = rows.map ShareRow.fileid := by
    rw [List.map_map]
    exact List.map_congr_left fun r _ => hkey r
  have hnames := hh.map hkey hname
  refine ⟨by rwa [hkeys], ?_, hnames, (hnames.insert_iff (hkeys ▸ hoccurs) _).mpr ?_⟩
  · refine hz.map_insert hoccurs hkey (fun r hr hid => ?_) fun r hr hid => ?_
    · rw [hunique r hr hid]
      exact congrArg ShareRow.pv (if_pos hof)
    · exact congrArg ShareRow.pv (if_neg fun hsame => hid (ShareRow.IsOf.fileid_eq hsame))
  · intro r' hr' hid
    obtain ⟨r, hr, rfl⟩ := List.mem_map.mp hr'
    rw [hkey] at hid
    rw [hname, hunique r hr hid]
    exact hof.2

/-- A download keeps the mirror, unless Redis counts on where an `int` has
started over. -/
theorem ShareMirror.downloaded_iff (hw : ShareMirror w.db w.redis) (md5 filename : Bytes) :
    ShareMirror (w.downloaded md5 filename).db (w.downloaded md5 filename).redis ↔
      ∀ row ∈ (w.db.shares md5 filename).head?,
        asInt (row.pv + 1) = row.pv + 1 ∨ w.ranking (shareFileid md5 filename) = 0 := by
  rw [World.downloaded]
  cases hshares : w.db.shares md5 filename with
  | nil => exact iff_of_true hw fun _ hrow => by cases hrow
  | cons row rows =>
      obtain ⟨hnodup, z, h, hr, hz, hh⟩ := hw
      obtain ⟨hrow, hof⟩ := mem_shares.mp (hshares ▸ List.mem_cons_self)
      generalize hpv : asInt (row.pv + 1) = pv
      obtain ⟨hnodup', hz', hh', hh''⟩ := Mirrors.counted hnodup hz hh hrow hof pv
      have hr' : (w.sql (.setSharePv pv md5 filename)).redis.Holds z h := hr
      have hsame : (w.sql (.setSharePv pv md5 filename)).ranking (shareFileid md5 filename) =
          w.ranking (shareFileid md5 filename) := rfl
      have hranking : ¬w.ranking (shareFileid md5 filename) < 0 := by
        rw [ranking_eq, hr.zset, Option.elim_some]
        omega
      simp only [World.rankingCounted, hpv, hsame, List.head?_cons, Option.mem_def,
        Option.some.injEq, forall_eq']
      rw [if_neg hranking]
      split
      · -- Redis did not find the member; it is written with the new count.
        next habsent =>
          have hadded : ((w.sql (.setSharePv pv md5 filename)).reply
              (.zadd FILE_PUBLIC_ZSET pv (shareFileid md5 filename))).orFail
                (fun _ => 0) = 0 := by
            simp only [World.reply, RedisCmd.format, cStr_zsetKey, Redis.exec, hr'.zset]
            rfl
          rw [if_pos hadded]
          have hholds := (hr'.zadd pv (shareFileid md5 filename)).hset
            (shareFileid md5 filename) filename
          rw [cStr_shareFileid] at hholds
          exact iff_of_true ⟨hnodup', _, _, hholds, hz', hh''⟩ (.inr habsent)
      · next hfound =>
          have hholds := hr'.zincrby (shareFileid md5 filename)
          have hscore := hz.lookup hrow
          rw [hof.fileid_eq] at hscore
          rw [cStr_shareFileid, hscore, Option.getD_some] at hholds
          rw [or_iff_left hfound]
          constructor
          · intro hafter
            obtain ⟨-, hmirror, -⟩ := hholds.shareMirror_iff.mp hafter
            -- The row as the `UPDATE` leaves it.
            have hcounted : { row with pv := pv } ∈ w.db.shareFileList.map fun r =>
                if r.md5 = cStr md5 ∧ r.fileName = cStr filename then { r with pv := pv }
                else r := List.mem_map.mpr ⟨row, hrow, if_pos hof⟩
            have hid : ShareRow.fileid { row with pv := pv } = shareFileid md5 filename :=
              hof.fileid_eq
            have hlookup := hmirror.lookup hcounted
            rw [hid, AList.lookup_insert] at hlookup
            exact (Option.some.inj hlookup).symm
          · rintro rfl
            exact ⟨hnodup', _, _, hholds, hz', hh'⟩

/-! ## Reading the ranking -/

theorem reads_ensures {α : Type} {E : World → Prop} {Q : α → World → Prop} {p : Handler α}
    (hp : p.Uses Call.Reads) (hE : E w) (hQ : ∀ a, Q a w) : Ensures E Q p w := by
  induction p with
  | ret a => exact hQ a
  | call c k ih =>
      intro a _
      cases hs : step c a w with
      | none => exact hE
      | some rs =>
          obtain ⟨r, w'⟩ := rs
          obtain rfl := step_reads hp.1 hs
          exact ih r (hp.2 r)

theorem reads_readRanking (cache_conn : CacheConn) (start count : Int) :
    (readRanking cache_conn start count).Uses Call.Reads :=
  uses_readRanking trivial trivial (fun _ => trivial) (fun _ => trivial) (fun _ _ => trivial)
    start count

/-- The sizes agree, so nothing is rebuilt. -/
theorem syncRanking_ensures (hw : ShareMirror w.db w.redis) {E : World → Prop}
    {Q : Option Int → World → Prop} (hQ : Q (some w.db.shareFileList.length) w) :
    Ensures E Q (syncRanking ⟨true⟩ ⟨true⟩) w := by
  obtain ⟨hnodup, z, h, hr, hz, hh⟩ := hw
  have hcard : (w.reply (.zcard FILE_PUBLIC_ZSET)).orFail id = w.db.shareFileList.length := by
    simp only [World.reply, RedisCmd.format, cStr_zsetKey, Redis.exec, hr.zset, Reply.orFail]
    rw [hz.length_eq hnodup]
    rfl
  have hread : w.cmd (.zcard FILE_PUBLIC_ZSET) = w := by
    rw [World.cmd, @exec_reads (.zcard FILE_PUBLIC_ZSET) trivial]
  simp only [syncRanking, handleGetSharefilesCount, ensures_bind, ensures_getDBConn]
  refine (ensures_executeQuery .shareCount _).mpr ?_
  simp only [Select.run, ensures_pure, if_true, ensures_bind, ensures_zsetZcard, hcard, hread]
  rw [if_neg (by omega)]
  exact hQ

theorem handleGetRankingFilelist_ensures (hw : ShareMirror w.db w.redis) (start count : Int)
    {P : World → Prop} (hP : P w) :
    Ensures P (fun _ => P) (handleGetRankingFilelist start count) w := by
  rw [handleGetRankingFilelist]
  simp only [ensures_bind, ensures_getDBConn, ensures_getCacheConn]
  refine syncRanking_ensures hw ?_
  rw [listRanking, ensures_bind]
  refine reads_ensures (reads_readRanking _ start count) hP fun files => ?_
  cases files <;> exact hP

end

/-! ## Histories -/

/-- The requests that write shares, or read the ranking. -/
inductive RankingRequest where
  | share (user md5 filename : Bytes)
  | cancel (user md5 filename : Bytes)
  | delete (user md5 filename : Bytes)
  | download (md5 filename : Bytes)
  | ranking (start count : Int)

namespace RankingRequest

def handle : RankingRequest → Handler Unit
  | .share user md5 filename => do let _ ← handleShareFile user md5 filename
  | .cancel user md5 filename => do let _ ← handleCancelShareFile user md5 filename
  | .delete user md5 filename => do let _ ← handleDeleteFile user md5 filename
  | .download md5 filename => do let _ ← DealSharefile.handlePvFile md5 filename
  | .ranking start count => do let _ ← handleGetRankingFilelist start count

/-- A file that is shared is already known to Redis, or the rows under its key
are of this file and not downloaded yet; a share that is cancelled, also by
deleting the file, is the user's own and the only one under its key; a download
can be counted in an `int`, or Redis does not find the member. -/
def KeepsMirror (w : World) : RankingRequest → Prop
  | .share _ md5 filename =>
      w.ranking (shareFileid md5 filename) = 1 ∨
        ∀ r ∈ w.db.shareFileList, r.fileid = shareFileid md5 filename →
          r.IsOf md5 filename ∧ r.pv = 0
  | .cancel user md5 filename => OnlyShareIs w.db user md5 filename
  | .delete user md5 filename =>
      ∀ r, w.db.own user md5 filename = some r → r.sharedStatus = 1 →
        OnlyShareIs w.db user md5 filename
  | .download md5 filename => ∀ row ∈ (w.db.shares md5 filename).head?,
      asInt (row.pv + 1) = row.pv + 1 ∨ w.ranking (shareFileid md5 filename) = 0
  | .ranking .. => True

variable {w : World}

theorem serve_locked (hw : w.locked = false) (h : ShareMirror w.db w.redis)
    (x : Undisturbed RankingRequest) : (serve handle w x).locked = false := by
  refine @Ensures.serve _ (fun w' => w'.locked = false) _ _ _ ?_
  match x.request with
  | .share user md5 filename =>
      rw [handle, ensures_bind]
      exact handleShareFile_ensures _ _ _ fun _ _ _ => (shared_locked _ _ _ _ _ _).trans hw
  | .cancel user md5 filename =>
      rw [handle, ensures_bind]
      exact handleCancelShareFile_ensures _ _ _ fun _ => (cancelled_locked _ _ _ _).trans hw
  | .delete user md5 filename =>
      rw [handle, ensures_bind]
      exact handleDeleteFile_ensures hw _ _ _ fun _ => (deleted_locked _ _ _ _).trans hw
  | .download md5 filename =>
      rw [handle, ensures_bind]
      exact handlePvFile_ensures _ _ fun _ => (downloaded_locked _ _ _).trans hw
  | .ranking start count =>
      rw [handle, ensures_bind]
      exact handleGetRankingFilelist_ensures h start count hw

theorem shareMirror_serve_iff (hw : w.locked = false) (h : ShareMirror w.db w.redis)
    (x : Undisturbed RankingRequest) :
    ShareMirror (serve handle w x).db (serve handle w x).redis ↔ KeepsMirror w x.request := by
  refine @Ensures.serve _ (fun w' => ShareMirror w'.db w'.redis ↔ KeepsMirror w x.request)
    _ _ _ ?_
  match x.request with
  | .share user md5 filename =>
      rw [handle, ensures_bind]
      exact handleShareFile_ensures _ _ _ fun _ time now =>
        h.shared_iff user md5 filename time now
  | .cancel user md5 filename =>
      rw [handle, ensures_bind]
      exact handleCancelShareFile_ensures _ _ _ fun _ => h.cancelled_iff user md5 filename
  | .delete user md5 filename =>
      rw [handle, ensures_bind]
      exact handleDeleteFile_ensures hw _ _ _ fun _ => h.deleted_iff user md5 filename
  | .download md5 filename =>
      rw [handle, ensures_bind]
      exact handlePvFile_ensures _ _ fun _ => h.downloaded_iff md5 filename
  | .ranking start count =>
      rw [handle, ensures_bind]
      exact handleGetRankingFilelist_ensures h start count (iff_of_true h trivial)

theorem shareMirror_throughout_iff (lex : ZSet → Bytes → ℕ) (randSeq : ℕ → ℕ)
    (userFileList : UserFileList) (fileInfo : FileInfo)
    (history : List (Undisturbed RankingRequest)) :
    Throughout (serve handle) (fun w => ShareMirror w.db w.redis) history
        { World.init lex randSeq with db := { Db.empty with userFileList, fileInfo } } ↔
      Meets (serve handle) (fun w x => KeepsMirror w x.request) history
        { World.init lex randSeq with db := { Db.empty with userFileList, fileInfo } } :=
  @throughout_iff_meets World _ _ (fun w => w.locked = false) _ _
    (fun _ x hw h => serve_locked hw h x) (fun _ x hw h => shareMirror_serve_iff hw h x) _ _
    rfl (.init rfl)

/-- The request brings known strings. -/
def Known (K : Bytes → Prop) : RankingRequest → Prop
  | .share user md5 filename | .cancel user md5 filename | .delete user md5 filename =>
      K user ∧ K md5 ∧ K filename
  | .download md5 filename => K md5 ∧ K filename
  | .ranking .. => True

theorem known_handle {K : Bytes → Prop} (request : RankingRequest) (h : request.Known K) :
    KnownCalls K request.handle := by
  cases request with
  | share => exact (known_handleShareFile h.1 h.2.1 h.2.2).bind fun _ => trivial
  | cancel => exact (known_handleCancelShareFile h.1 h.2.1 h.2.2).bind fun _ => trivial
  | delete => exact (known_handleDeleteFile h.1 h.2.1 h.2.2).bind fun _ => trivial
  | download => exact (known_sharePv h.1 h.2).bind fun _ => trivial
  | ranking => exact (known_handleGetRankingFilelist _ _).bind fun _ => trivial

/-- From an empty share table and an empty Redis, with whatever files the users
have, Redis mirrors the table after every request with known strings, if and
only if every request finds it such that it keeps the mirror. -/
theorem share_mirror_iff (server : SqlServer) {K : Bytes → Prop} (hK : server.Tells K)
    {history : List (Undisturbed RankingRequest)} (hhistory : ∀ x ∈ history, x.Known (Known K))
    (lex : ZSet → Bytes → ℕ) (randSeq : ℕ → ℕ) {userFileList : UserFileList}
    {fileInfo : FileInfo} (hfiles : Db.Known K { Db.empty with userFileList, fileInfo }) :
    Throughout (server.serve handle) (fun w => ShareMirror w.db w.redis) history
        { World.init lex randSeq with db := { Db.empty with userFileList, fileInfo } } ↔
      Meets (server.serve handle) (fun w x => KeepsMirror w x.request) history
        { World.init lex randSeq with db := { Db.empty with userFileList, fileInfo } } := by
  rw [hK.throughout_iff known_handle hhistory hfiles, hK.meets_iff known_handle hhistory hfiles]
  exact shareMirror_throughout_iff lex randSeq userFileList fileInfo history

/-- A request served at some time. -/
def undisturbed (request : RankingRequest) : Undisturbed RankingRequest where
  request := request
  script := allSucceed
  noFail := noFail_allSucceed

/-- What the mirror says of one share. -/
theorem score_of_mirror {db : Db} {r : Redis} (h : ShareMirror db r) :
    ∀ row ∈ db.shareFileList,
      ((r.zset? FILE_PUBLIC_ZSET).bind fun z => z.lookup row.fileid) = some row.pv := by
  intro row hrow
  obtain ⟨-, z, h, hr, hz, -⟩ := h
  rw [hr.zset]
  exact hz.lookup hrow

theorem known_undisturbed {user md5 filename : Bytes} (huser : Plain user) (hmd5 : Plain md5)
    (hname : Plain filename) :
    (undisturbed (.share user md5 filename)).Known (Known Plain) ∧
      (undisturbed (.cancel user md5 filename)).Known (Known Plain) :=
  ⟨⟨⟨huser, hmd5, hname⟩, fun _ => trivial⟩, ⟨⟨huser, hmd5, hname⟩, fun _ => trivial⟩⟩

set_option maxRecDepth 10000 in
/-- One user shares a file and cancels the share. -/
theorem own_cancel_keeps_mirror :
    Throughout (SqlServer.strict.serve handle) (fun w => ShareMirror w.db w.redis)
      [undisturbed (.share (ascii "u") (ascii "m") (ascii "f")),
        undisturbed (.cancel (ascii "u") (ascii "m") (ascii "f"))] .empty := by
  have hknown := known_undisturbed (show Plain (ascii "u") by decide)
    (show Plain (ascii "m") by decide) (show Plain (ascii "f") by decide)
  refine (share_mirror_iff _ SqlServer.strict_tells (fun x hx => ?_) _ _ .empty).mpr
    ⟨.inr nofun, ?_, trivial⟩
  · simp only [List.mem_cons, List.not_mem_nil, or_false] at hx
    rcases hx with rfl | rfl
    · exact hknown.1
    · exact hknown.2
  · have hshares : ∀ r ∈ (SqlServer.strict.serve handle .empty (undisturbed
        (.share (ascii "u") (ascii "m") (ascii "f")))).db.shareFileList,
          r = ⟨ascii "u", ascii "m", [], ascii "f", 0⟩ := by
      decide +kernel
    intro r hr _
    rw [hshares r hr]
    exact ⟨by decide, by decide, by decide⟩

/-- One user shares a file and another cancels the share: the share stays and
its member goes. -/
theorem foreign_cancel_breaks_mirror :
    ¬Throughout (SqlServer.strict.serve handle) (fun w => ShareMirror w.db w.redis)
      [undisturbed (.share (ascii "u") (ascii "m") (ascii "f")),
        undisturbed (.cancel (ascii "v") (ascii "m") (ascii "f"))] .empty := by
  rintro ⟨-, -, h⟩
  have hscore := score_of_mirror h.head
  revert hscore
  decide +kernel

end RankingRequest

end FileHub
