import FileHub.Proofs.KnownCalls
import FileHub.Proofs.Scripts

/-!
# Deleting a file, whatever fails

`handleDeleteFile` touches six stores one after the other and takes nothing
back. A deletion that reports success should have made all its changes, one
that reports a failure none. What it does make is decided by how its calls go,
and `Completes` lists those that matter.
-/

namespace FileHub

open Lib
open Lib.Sql (Plain)
open Prog (ask after Along along_bind)

/-- The share is of this file by this user. -/
def ShareRow.IsBy (user md5 filename : Bytes) (r : ShareRow) : Prop :=
  r.user = cStr user ∧ r.md5 = cStr md5 ∧ r.fileName = cStr filename

instance (user md5 filename : Bytes) : DecidablePred (ShareRow.IsBy user md5 filename) :=
  fun r => inferInstanceAs (Decidable (r.user = _ ∧ r.md5 = _ ∧ r.fileName = _))

/-- The shares of a file by one user. -/
def Db.sharesBy (db : Db) (user md5 filename : Bytes) : List ShareRow :=
  db.shareFileList.filter fun r => ShareRow.IsBy user md5 filename r

namespace DeleteFile

variable (user md5 filename : Bytes) (w : World)

/-! ## All of it or nothing -/

/-- The row says that the file is shared, or there is a share. -/
def Shared : Prop :=
  (∃ r, w.db.own user md5 filename = some r ∧ r.sharedStatus = 1) ∨
    w.db.sharesBy user md5 filename ≠ []

/-- The file is gone: the row, its share, and one reference, with the last of
which the object goes too. -/
structure Deleted (w' : World) : Prop where
  row : w'.db.own user md5 filename = none
  share : w'.db.sharesBy user md5 filename = []
  ranking : Shared user md5 filename w →
    ¬w'.redis.Ranked (shareFileid md5 filename) ∧ ¬w'.redis.Named (shareFileid md5 filename)
  reference : ∃ i, w.db.info md5 = some i ∧
    if i.count = 1 then
      w'.db.info md5 = none ∧ w'.fdfs.objects = w.fdfs.objects.filter fun o => o ≠ i.fileId
    else
      w'.db.info md5 = some { i with count := i.count - 1 } ∧ w'.fdfs.objects = w.fdfs.objects

/-- The three tables are as they were. -/
structure Untouched (db db' : Db) : Prop where
  userFileList : db'.userFileList = db.userFileList
  shareFileList : db'.shareFileList = db.shareFileList
  fileInfo : db'.fileInfo = db.fileInfo

/-- Every other row is as it was. -/
structure OthersKept (db db' : Db) : Prop where
  rows : ∀ k, k ≠ (cStr user, cStr md5, cStr filename) →
    db'.userFileList.find? k = db.userFileList.find? k
  shares : (db'.shareFileList.filter fun r => ¬ShareRow.IsBy user md5 filename r) =
    db.shareFileList.filter fun r => ¬ShareRow.IsBy user md5 filename r
  infos : ∀ m, m ≠ cStr md5 → db'.fileInfo.find? m = db.fileInfo.find? m

structure AllOrNothing (ret : Int) (w' : World) : Prop where
  all : ret = 0 → Deleted user md5 filename w w'
  nothing : ret ≠ 0 → Untouched w.db w'.db
  others : OthersKept user md5 filename w.db w'.db

/-! ## When it holds -/

/-- The lock is granted, the count read, the reference taken from it and, after
the lock is given back, the object removed if it was the last. -/
def Releases (i : FileInfoRow) (ω : ℕ → Ans) : Prop :=
  (ω 0).ok ∧ (ω 1).ok ∧ (ω 2).ok ∧ (i.count = 1 → (ω 4).ok)

instance (i : FileInfoRow) (ω : ℕ → Ans) : Decidable (Releases i ω) :=
  inferInstanceAs (Decidable (_ ∧ _ ∧ _ ∧ (_ → _)))

/-- How the calls of a deletion of the row `r` of the file `i` must go. The first
three ask for the connections and read the row. Of a shared file the next are
the two commands, each with its `Init`, and the `DELETE` of the share; then, as
of any other file, comes the `DELETE` of the row. Once that succeeds the
reference, the object and the share must go; where it fails, no share may have
gone. -/
def Completes (r : UserFileRow) (i : FileInfoRow) (ω : ℕ → Ans) : Prop :=
  let zrem := after 3 ω
  let hdel := afterCommand zrem
  let rest := afterCommand hdel
  if r.sharedStatus = 1 then
    (rest 0).ok →
      if (rest 1).ok then
        Releases i (after 2 rest) ∧ (w.redis.Ranked (shareFileid md5 filename) → Ran zrem) ∧
          (w.redis.Named (shareFileid md5 filename) → Ran hdel)
      else w.db.sharesBy user md5 filename = []
  else (ω 3).ok → Releases i (after 4 ω) ∧ w.db.sharesBy user md5 filename = []

/-! ## Giving up the reference -/

section Parts

variable {user md5 filename : Bytes} {w : World} {conn : CDBConn} {cache : CacheConn}
  {i : FileInfoRow} {ω : ℕ → Ans}

/-- The count read and taken down under the lock. -/
def GivesUp (ω : ℕ → Ans) : Prop := (ω 0).ok ∧ (ω 1).ok ∧ (ω 2).ok

theorem dropReference_along (hinfo : w.db.info md5 = some i) (hpos : 0 < i.count) :
    Along step (fun r w' ω' =>
        GivesUp ω ∧ r = some (i.count, i.fileId) ∧ w' = w.uncounted md5 ∧ ω' = after 4 ω ∨
        ¬GivesUp ω ∧ w' = w ∧ (r = none ∨ r = some (0, [])))
      (dropReference conn md5) ω w := by
  refine along_scopedFileInfoLock (fun hlock hfree => ?_) fun hlock => ?_
  · have hback (w' : World) (h : w'.locked = false) : (w'.setLocked true).setLocked false = w' := by
      rw [World.setLocked_setLocked, World.setLocked_self h]
    rw [if_pos rfl, along_bind]
    refine along_executeQuery (fun hread => ?_) fun hread => ?_
    · rw [Db.run_fileInfo, World.setLocked_db, hinfo]
      dsimp only [Option.toList]
      by_cases hone : i.count = 1
      · rw [if_neg (by omega), if_pos hone, along_bind]
        refine along_execute (fun hdrop => ?_) fun hdrop => ?_
        · refine .inl ⟨⟨hlock, hread, hdrop⟩, rfl, ?_, rfl⟩
          rw [World.sql_setLocked, hback _ (by exact hfree), World.uncounted, hinfo]
          dsimp only
          rw [if_neg (by omega), if_pos hone]
        · exact .inr ⟨fun h => hdrop h.2.2, hback w hfree, .inl rfl⟩
      · rw [if_pos (by omega), along_bind]
        refine along_executeUpdate (fun hdecr => ?_) fun hdecr => ?_
        · rw [World.setLocked_db, Db.affects_decrCount hinfo]
          refine .inl ⟨⟨hlock, hread, hdecr⟩, rfl, ?_, rfl⟩
          rw [World.sql_setLocked, hback _ (by exact hfree), World.uncounted, hinfo]
          dsimp only
          rw [if_pos (by omega)]
        · exact .inr ⟨fun h => hdecr h.2.2, hback w hfree, .inl rfl⟩
    · exact .inr ⟨fun h => hread h.2.1, hback w hfree, .inl rfl⟩
  · exact .inr ⟨fun h => hlock h.1, rfl, .inr rfl⟩

/-- How `deleteOwned` ends: the row could not be deleted, or it was and the
reference released, or it was and the reference was not. -/
def OwnedDeletion (user md5 filename : Bytes) (i : FileInfoRow) (w : World) (ω : ℕ → Ans)
    (ret : Int) (w' : World) : Prop :=
  (¬(ω 0).ok ∧ ret = 1 ∧ w' = w) ∨
  ((ω 0).ok ∧
    (Releases i (after 1 ω) ∧ ret = 0 ∧
        w' = (w.sql (.deleteUserFile user md5 filename)).released md5 ∨
      ¬Releases i (after 1 ω) ∧
        w'.db.userFileList = (w.sql (.deleteUserFile user md5 filename)).db.userFileList ∧
        (ret = 0 → w'.db.fileInfo = w.db.fileInfo)))

theorem deleteOwned_along (conn : CDBConn) (user filename : Bytes)
    (hinfo : w.db.info md5 = some i) (hpos : 0 < i.count) :
    Along step (fun ret w' _ => OwnedDeletion user md5 filename i w ω ret w')
      (deleteOwned conn user md5 filename) ω w := by
  rw [deleteOwned, along_bind]
  refine along_execute (fun hrow => ?_) fun hrow => .inl ⟨hrow, rfl, rfl⟩
  have hdropped : ((Dml.deleteUserFile user md5 filename).format.exec w.db).isSome = true := rfl
  rw [hdropped, if_pos rfl, along_bind]
  have hinfo' : (w.sql (.deleteUserFile user md5 filename)).db.info md5 = some i := hinfo
  refine (dropReference_along hinfo' hpos).mono ?_
  rintro r w' ω' (⟨hup, rfl, rfl, rfl⟩ | ⟨hup, rfl, hr⟩)
  · dsimp only
    by_cases hone : i.count = 1
    · rw [if_pos hone, along_bind]
      refine (Prog.along_ask (Call.fdfsDelete i.fileId) _).mpr fun r' s' hs => ?_
      by_cases hobject : (ω 5).ok
      · have hs' : step (.fdfsDelete i.fileId) (ω 5) _ = some (r', s') := hs
        simp only [step, if_pos hobject] at hs'
        cases hs'
        refine .inr ⟨hrow, .inl ⟨⟨hup.1, hup.2.1, hup.2.2, fun _ => hobject⟩, rfl, ?_⟩⟩
        rw [World.released, hinfo']
        dsimp only
        rw [if_pos hone, uncounted_fdfs]
      · have hs' : step (.fdfsDelete i.fileId) (ω 5) _ = some (r', s') := hs
        simp only [step, if_neg hobject] at hs'
        cases hs'
        exact .inr ⟨hrow, .inr ⟨fun h => hobject (h.2.2.2 hone), uncounted_userFileList _ md5,
          fun h => absurd h (by decide)⟩⟩
    · rw [if_neg hone]
      refine .inr ⟨hrow, .inl ⟨⟨hup.1, hup.2.1, hup.2.2, fun h => absurd h hone⟩, rfl, ?_⟩⟩
      rw [World.released, hinfo']
      dsimp only
      rw [if_neg hone]
  · have hkept : ¬Releases i (after 1 ω) := fun h => hup ⟨h.1, h.2.1, h.2.2.1⟩
    rcases hr with rfl | rfl
    · exact .inr ⟨hrow, .inr ⟨hkept, rfl, fun h => absurd h (by decide)⟩⟩
    · dsimp only
      rw [if_neg (by decide)]
      exact .inr ⟨hrow, .inr ⟨hkept, rfl, fun _ => rfl⟩⟩

/-! ## Taking the share back -/

theorem deleteShared_along :
    Along step (fun dropped w' ω' =>
        ω' = after 1 (afterCommand (afterCommand ω)) ∧
        dropped = decide (afterCommand (afterCommand ω) 0).ok ∧
        w'.db = (if dropped then w.db.sql (.deleteShare user md5 filename) else w.db) ∧
        w'.fdfs = w.fdfs ∧
        (w'.redis.Ranked (shareFileid md5 filename) ↔
          w.redis.Ranked (shareFileid md5 filename) ∧ ¬Ran ω) ∧
        (w'.redis.Named (shareFileid md5 filename) ↔
          w.redis.Named (shareFileid md5 filename) ∧ ¬Ran (afterCommand ω)))
      (deleteShared conn cache user md5 filename) ω w := by
  have hid := cStr_shareFileid md5 filename
  rw [deleteShared, along_bind]
  refine (along_commandDeref_effect fun r => by cases r <;> rfl).mono fun _ w₁ ω₁ h₁ => ?_
  obtain rfl := h₁.script
  rw [along_bind]
  refine along_commandOr_effect.mono fun _ w₂ ω₂ h₂ => ?_
  obtain rfl := h₂.script
  have hranked := (h₂.ranked_of_hdel _).trans (h₁.ranked hid)
  have hnamed := (h₂.named hid).trans (and_congr_left' (h₁.named_of_zrem _))
  have hdb : w₂.db = w.db := h₂.db.trans h₁.db
  have hfdfs : w₂.fdfs = w.fdfs := h₂.fdfs.trans h₁.fdfs
  refine along_execute (fun hshare => ?_) fun hshare => ?_
  · have hdropped : ((Dml.deleteShare user md5 filename).format.exec w₂.db).isSome = true := rfl
    refine ⟨rfl, hdropped.trans (decide_eq_true hshare).symm, ?_, hfdfs, hranked, hnamed⟩
    rw [hdropped, if_pos rfl, World.sql_db, hdb]
  · exact ⟨rfl, (decide_eq_false hshare).symm, hdb, hfdfs, hranked, hnamed⟩

/-! ## All or nothing -/

section

variable {db db' : Db}

theorem OthersKept.trans {db'' : Db} (h : OthersKept user md5 filename db db')
    (h' : OthersKept user md5 filename db' db'') : OthersKept user md5 filename db db'' :=
  ⟨fun k hk => (h'.rows k hk).trans (h.rows k hk), h'.shares.trans h.shares,
    fun m hm => (h'.infos m hm).trans (h.infos m hm)⟩

theorem OthersKept.refl (db : Db) : OthersKept user md5 filename db db :=
  ⟨fun _ _ => rfl, rfl, fun _ _ => rfl⟩

theorem othersKept_deleteShare (db : Db) :
    OthersKept user md5 filename db (db.sql (.deleteShare user md5 filename)) := by
  refine ⟨fun _ _ => rfl, ?_, fun _ _ => rfl⟩
  show ((db.shareFileList.filter fun r => ¬(r.user = cStr user ∧ r.md5 = cStr md5 ∧
    r.fileName = cStr filename)).filter _) = _
  rw [List.filter_filter]
  refine List.filter_congr fun r _ => ?_
  exact Bool.and_self _

theorem othersKept_deleteUserFile (db : Db) :
    OthersKept user md5 filename db (db.sql (.deleteUserFile user md5 filename)) := by
  refine ⟨fun k hk => ?_, rfl, fun _ _ => rfl⟩
  exact (Table.find?_deleteKey db.userFileList _ k).trans (if_neg hk)

theorem sharesBy_deleteShare (db : Db) (user md5 filename : Bytes) :
    (db.sql (.deleteShare user md5 filename)).sharesBy user md5 filename = [] := by
  rw [Db.sharesBy, List.filter_eq_nil_iff]
  intro r hr
  exact fun h => of_decide_eq_true (List.mem_filter.mp hr).2 (of_decide_eq_true h)

theorem shareFileList_deleteShare (db : Db) :
    (db.sql (.deleteShare user md5 filename)).shareFileList = db.shareFileList ↔
      db.sharesBy user md5 filename = [] := by
  rw [Db.sharesBy, List.filter_eq_nil_iff]
  refine List.filter_eq_self.trans (forall₂_congr fun r _ => ?_)
  exact decide_eq_true_iff.trans (not_congr decide_eq_true_iff.symm)

/-- What giving up a reference makes of `file_info`. -/
theorem find?_uncounted (hinfo : w.db.info md5 = some i) (hpos : 0 < i.count) (m : Bytes) :
    (w.uncounted md5).db.fileInfo.find? m =
      if m = cStr md5 then
        if i.count = 1 then none else some { i with count := i.count - 1 }
      else w.db.fileInfo.find? m := by
  rw [World.uncounted, hinfo]
  dsimp only
  by_cases hone : i.count = 1
  · rw [if_neg (by omega), if_pos hone, if_pos hone]
    exact Table.find?_deleteKey w.db.fileInfo (cStr md5) m
  · rw [if_pos (by omega), if_neg hone]
    refine (Db.find?_addCount w.db.fileInfo (-1) (cStr md5) m).trans ?_
    by_cases hm : m = cStr md5
    · subst hm
      rw [← Db.info, hinfo, Option.map_some, if_pos rfl, if_pos rfl]
      rfl
    · simp only [hm, if_false, Option.map_id']

theorem info_deleted (user filename : Bytes) (hinfo : w.db.info md5 = some i) (hpos : 0 < i.count) :
    let w' := (w.sql (.deleteUserFile user md5 filename)).released md5
    if i.count = 1 then
      w'.db.info md5 = none ∧ w'.fdfs.objects = w.fdfs.objects.filter fun o => o ≠ i.fileId
    else
      w'.db.info md5 = some { i with count := i.count - 1 } ∧ w'.fdfs.objects = w.fdfs.objects := by
  have hinfo' : (w.sql (.deleteUserFile user md5 filename)).db.info md5 = some i := hinfo
  have hfind := find?_uncounted hinfo' hpos (cStr md5)
  rw [if_pos rfl] at hfind
  dsimp only
  rw [World.released, hinfo']
  dsimp only
  by_cases hone : i.count = 1
  · rw [if_pos hone] at hfind ⊢
    rw [if_pos hone]
    exact ⟨hfind, rfl⟩
  · rw [if_neg hone] at hfind ⊢
    rw [if_neg hone, uncounted_fdfs]
    exact ⟨hfind, rfl⟩

theorem othersKept_deleted (hinfo : w.db.info md5 = some i) (hpos : 0 < i.count) :
    OthersKept user md5 filename w.db
      ((w.sql (.deleteUserFile user md5 filename)).released md5).db := by
  refine (othersKept_deleteUserFile w.db).trans ⟨fun k _ => ?_, ?_, fun m hm => ?_⟩
  · rw [released_userFileList]
    rfl
  · rw [released_shareFileList]
    rfl
  · rw [released_db, find?_uncounted (by exact hinfo) hpos, if_neg hm]
    rfl

/-- What `deleteOwned` has to do after `w` has become `w₁` by what went before. -/
theorem OwnedDeletion.allOrNothing_iff {w₁ w' : World} {ret : Int} {r : UserFileRow}
    (h : OwnedDeletion user md5 filename i w₁ ω ret w')
    (hothers : OthersKept user md5 filename w.db w₁.db)
    (hrows : w₁.db.userFileList = w.db.userFileList) (hinfos : w₁.db.fileInfo = w.db.fileInfo)
    (hfdfs : w₁.fdfs = w.fdfs) (hown : w.db.own user md5 filename = some r)
    (hinfo : w.db.info md5 = some i) (hpos : 0 < i.count) :
    AllOrNothing user md5 filename w ret w' ↔
      if (ω 0).ok then
        Releases i (after 1 ω) ∧ w₁.db.sharesBy user md5 filename = [] ∧
          (Shared user md5 filename w → ¬w₁.redis.Ranked (shareFileid md5 filename) ∧
            ¬w₁.redis.Named (shareFileid md5 filename))
      else w₁.db.shareFileList = w.db.shareFileList := by
  have hinfo₁ : w₁.db.info md5 = some i := by rw [Db.info, hinfos]; exact hinfo
  rcases h with ⟨hrow, rfl, rfl⟩ | ⟨hrow, h⟩
  · rw [if_neg hrow]
    constructor
    · exact fun h => (h.nothing (by decide)).shareFileList
    · exact fun h => ⟨fun hret => absurd hret (by decide), fun _ => ⟨hrows, h, hinfos⟩, hothers⟩
  · rw [if_pos hrow]
    rcases h with ⟨hreleases, rfl, rfl⟩ | ⟨hreleases, hlist, hkept⟩
    · constructor
      · intro h
        have hdeleted := h.all rfl
        refine ⟨hreleases, ?_, ?_⟩
        · have hshare := hdeleted.share
          rwa [Db.sharesBy, released_shareFileList] at hshare
        · have hranking := hdeleted.ranking
          rwa [released_redis] at hranking
      · rintro ⟨-, hshare, hranking⟩
        refine ⟨fun _ => ⟨?_, ?_, ?_, i, hinfo, ?_⟩, fun hret => absurd rfl hret,
          hothers.trans (othersKept_deleted hinfo₁ hpos)⟩
        · rw [Db.own, released_userFileList]
          exact (Table.find?_deleteKey w₁.db.userFileList _ _).trans (if_pos rfl)
        · rwa [Db.sharesBy, released_shareFileList]
        · rwa [released_redis]
        · have hdeleted := info_deleted user filename hinfo₁ hpos
          rwa [hfdfs] at hdeleted
    · refine iff_of_false (fun h => ?_) fun h => hreleases h.1
      by_cases hret : ret = 0
      · obtain ⟨i', hinfo', hfile⟩ := (h.all hret).reference
        cases hinfo.symm.trans hinfo'
        have hsame : w'.db.info md5 = some i := by
          rw [Db.info, hkept hret]
          exact hinfo₁
        rw [hsame] at hfile
        split at hfile
        · cases hfile.1
        · have hcount := congrArg (Option.map FileInfoRow.count) hfile.1
          simp only [Option.map_some, Option.some.injEq] at hcount
          omega
      · have hgone : w'.db.own user md5 filename = none := by
          rw [Db.own, hlist]
          exact (Table.find?_deleteKey w₁.db.userFileList _ _).trans (if_pos rfl)
        rw [Db.own, (h.nothing hret).userFileList, ← Db.own, hown] at hgone
        cases hgone

end

theorem along_getResultOneStatus {Q : Int × Int → World → (ℕ → Ans) → Prop}
    (h : Q ((w.db.own user md5 filename).elim (-1, 0) fun r => (0, r.sharedStatus)) w
      (after 1 ω)) :
    Along step Q (getResultOneStatus conn user md5 filename) ω w := by
  rw [getResultOneStatus, along_bind]
  refine along_executeQuery (fun _ => ?_) fun _ => along_crash _
  rw [Db.run_userFile]
  cases hown : w.db.own user md5 filename with
  | none => rwa [hown] at h
  | some r => rwa [hown] at h

theorem handleDeleteFile_along
    (hcount : (w.db.count? (cStr md5)).getD 0 = w.db.refs (cStr md5)) :
    Along step (fun ret w' _ => AllOrNothing user md5 filename w ret w' ↔
        ∀ r i, w.db.own user md5 filename = some r → w.db.info md5 = some i →
          Completes user md5 filename w r i ω)
      (handleDeleteFile user md5 filename) ω w := by
  rw [handleDeleteFile, along_bind]
  refine along_getDBConn ?_
  rw [along_bind]
  refine along_getCacheConn ?_
  rw [along_bind]
  refine along_getResultOneStatus ?_
  cases hown : w.db.own user md5 filename with
  | none =>
      dsimp only [Option.elim]
      rw [if_neg (by decide)]
      exact iff_of_true ⟨fun hret => absurd hret (by decide), fun _ => ⟨rfl, rfl, rfl⟩, .refl _⟩
        fun _ _ hr => by cases hr
  | some r =>
      dsimp only [Option.elim]
      rw [if_pos rfl]
      obtain ⟨i, hinfo, hpos⟩ : ∃ i, w.db.info md5 = some i ∧ 0 < i.count := by
        have hrefs := Db.refs_pos_of_own (Option.isSome_of_mem hown)
        cases hinfo : w.db.info md5 with
        | none =>
            have hnone := Db.isSome_count? w.db md5
            rw [hinfo, Option.isSome_none, Option.isSome_eq_false_iff,
              Option.isNone_iff_eq_none] at hnone
            rw [hnone, Option.getD_none] at hcount
            omega
        | some i =>
            rw [Db.count?_of_info hinfo, Option.getD_some] at hcount
            exact ⟨i, rfl, by omega⟩
      have hrow : (∀ r' i', some r = some r' → w.db.info md5 = some i' →
          Completes user md5 filename w r' i' ω) ↔ Completes user md5 filename w r i ω := by
        rw [hinfo]
        exact ⟨fun h => h r i rfl rfl, fun h r' i' hr hi => by cases hr; cases hi; exact h⟩
      rw [hrow]
      rw [Prog.after_after, Prog.after_after]
      by_cases hshared : r.sharedStatus = 1
      · rw [if_pos hshared, along_bind, Completes, if_pos hshared]
        refine deleteShared_along.mono fun dropped w₁ ω₁ h₁ => ?_
        obtain ⟨rfl, rfl, hdb, hfdfs, hranked, hnamed⟩ := h₁
        generalize afterCommand (afterCommand (after 3 ω)) = rest at hdb ⊢
        by_cases hdrop : (rest 0).ok
        · rw [decide_eq_true hdrop, if_pos rfl] at hdb
          rw [decide_eq_true hdrop, if_pos rfl, forall_prop_of_true hdrop]
          have hinfo₁ : w₁.db.info md5 = some i := by rw [hdb]; exact hinfo
          refine (deleteOwned_along _ user filename hinfo₁ hpos).mono fun ret w' _ hdel => ?_
          refine (hdel.allOrNothing_iff (by rw [hdb]; exact othersKept_deleteShare w.db)
            (by rw [hdb]; rfl) (by rw [hdb]; rfl) hfdfs hown hinfo hpos).trans ?_
          have hsharing : Shared user md5 filename w := .inl ⟨r, hown, hshared⟩
          rw [hdb, hranked, hnamed, shareFileList_deleteShare, not_and_not_right,
            not_and_not_right, sharesBy_deleteShare, Prog.after_after, Prog.after_apply]
          simp [hsharing]
        · rw [decide_eq_false hdrop, if_neg (by decide)] at hdb
          rw [decide_eq_false hdrop, if_neg Bool.false_ne_true]
          refine iff_of_true ⟨fun hret => absurd hret (by decide), fun _ => ?_, ?_⟩
            fun hok => absurd hok hdrop
          · rw [hdb]
            exact ⟨rfl, rfl, rfl⟩
          · rw [hdb]
            exact .refl _
      · rw [if_neg hshared, Completes, if_neg hshared]
        refine (deleteOwned_along _ user filename hinfo hpos).mono fun ret w' _ hdel => ?_
        refine (hdel.allOrNothing_iff (.refl _) rfl rfl rfl hown hinfo hpos).trans ?_
        have hsharing : Shared user md5 filename w ↔ w.db.sharesBy user md5 filename ≠ [] := by
          refine or_iff_right ?_
          rintro ⟨r', hr', hstatus⟩
          cases hown.symm.trans hr'
          exact hshared hstatus
        rw [hsharing, Prog.after_after, Prog.after_apply]
        split
        · next hrowok =>
            rw [forall_prop_of_true hrowok]
            exact and_congr_right fun _ => and_iff_left_of_imp fun hnone hsome =>
              absurd hnone hsome
        · next hrowok => exact iff_of_true rfl fun hok => absurd hok hrowok

end Parts

/-- A deletion of a file with known strings is all or nothing exactly when the calls it
depends on go well. -/
theorem deletion_iff (server : SqlServer) {K : Bytes → Prop} (hK : server.Tells K)
    (hw : w.db.Known K) (huser : K user) (hmd5 : K md5) (hname : K filename)
    (hcount : (w.db.count? (cStr md5)).getD 0 = w.db.refs (cStr md5)) {ω : ℕ → Ans} {ret : Int}
    (hω : server.Regular ω (handleDeleteFile user md5 filename) w)
    (hres : (server.runIn ω (handleDeleteFile user md5 filename) w).res = some ret) :
    AllOrNothing user md5 filename w ret
        (server.runIn ω (handleDeleteFile user md5 filename) w).st ↔
      ∀ r i, w.db.own user md5 filename = some r → w.db.info md5 = some i →
        Completes user md5 filename w r i ω := by
  rw [hK.runIn_eq (known_handleDeleteFile huser hmd5 hname) hw hω] at hres ⊢
  exact (handleDeleteFile_along hcount).returned hres

/-! A file with one owner, not shared. -/

def onlyCopy : World :=
  { World.empty with
    db :=
      { Db.empty with
        userFileList := .single ⟨ascii "u", ascii "m", ascii "now", ascii "f", 0, 0⟩
        fileInfo := .single ⟨ascii "m", ascii "x", ascii "http", 1, ascii "txt", 1⟩ }
    fdfs := ⟨[ascii "x"], [ascii "x"], by decide⟩ }

def handleOnlyCopy : Handler Int := handleDeleteFile (ascii "u") (ascii "m") (ascii "f")

theorem known_onlyCopy : onlyCopy.db.Known Plain := by
  refine ⟨?_, ?_, nofun, nofun, nofun⟩ <;> decide

/-- Nothing fails: the file is gone with its object. -/
theorem onlyCopy_deleted :
    AllOrNothing (ascii "u") (ascii "m") (ascii "f") onlyCopy 0
      (SqlServer.strict.runIn allSucceed handleOnlyCopy onlyCopy).st := by
  refine (deletion_iff _ _ _ _ _ SqlServer.strict_tells known_onlyCopy (by decide) (by decide)
    (by decide) (by decide +kernel) (by decide +kernel) (by decide +kernel)).mpr ?_
  have hown : onlyCopy.db.own (ascii "u") (ascii "m") (ascii "f") =
      some ⟨ascii "u", ascii "m", ascii "now", ascii "f", 0, 0⟩ := by decide +kernel
  have hinfo : onlyCopy.db.info (ascii "m") =
      some ⟨ascii "m", ascii "x", ascii "http", 1, ascii "txt", 1⟩ := by decide +kernel
  intro r i hr hi
  cases hown.symm.trans hr
  cases hinfo.symm.trans hi
  rw [Completes, if_neg (by decide)]
  exact fun _ => by decide +kernel

/-- The lock times out: the deletion reports success, and the count stays. -/
theorem onlyCopy_leaked :
    (onlyCopy.db.count? (ascii "m")).getD 0 = onlyCopy.db.refs (ascii "m") ∧
    ¬∀ ω ret, (SqlServer.strict.runIn ω handleOnlyCopy onlyCopy).res = some ret →
      AllOrNothing (ascii "u") (ascii "m") (ascii "f") onlyCopy ret
        (SqlServer.strict.runIn ω handleOnlyCopy onlyCopy).st := by
  refine ⟨by decide +kernel, fun hall => ?_⟩
  have hres : (SqlServer.strict.runIn (failingAt [] [4]) handleOnlyCopy onlyCopy).res = some 0 := by
    decide +kernel
  have hinfo : (onlyCopy.db.info (ascii "m")).all (fun i => i.count = 1) = true := by
    decide +kernel
  have hkept : ((SqlServer.strict.runIn (failingAt [] [4]) handleOnlyCopy onlyCopy).st.db.info
      (ascii "m")).isSome = true := by
    decide +kernel
  obtain ⟨i, hi, hfile⟩ := ((hall _ 0 hres).all rfl).reference
  rw [hi, Option.all_some, decide_eq_true_eq] at hinfo
  rw [if_pos hinfo] at hfile
  rw [hfile.1] at hkept
  cases hkept

end DeleteFile

end FileHub
