import FileHub.Lib.History
import FileHub.Proofs.KnownCalls
import FileHub.Proofs.ShareEffects

/-!
# The share flag and the share table

That a user shares a file is stored twice, as a row of `share_file_list` and as
`shared_status = 1` in his row of `user_file_list`. Uploading, saving,
cancelling and deleting keep the two in agreement. Sharing does so only for a
user who has the file: the update of a row that is not there succeeds, and the
share is inserted all the same.

Redis has a say in whether a request to share gets that far, and nothing is
assumed of what it holds.
-/

namespace FileHub

open Lib
open Lib.Sql (Plain)

namespace Db

/-- `share_file_list` has a row for the user, md5 and name. -/
def IsShared (db : Db) (k : Bytes × Bytes × Bytes) : Prop :=
  ∃ r ∈ db.shareFileList, (r.user, r.md5, r.fileName) = k

/-- The user's row says that he shares it. -/
def IsFlagged (db : Db) (k : Bytes × Bytes × Bytes) : Prop :=
  ∃ r ∈ db.userFileList.find? k, r.sharedStatus = 1

end Db

def FlagsAgree (db : Db) : Prop := ∀ k, db.IsShared k ↔ db.IsFlagged k

theorem FlagsAgree.empty : FlagsAgree Db.empty := by
  intro k
  simp [Db.IsShared, Db.IsFlagged, Db.empty]

/-! ## The statements -/

namespace Db

variable {db : Db} {k : Bytes × Bytes × Bytes}

theorem shareFileList_insertUserFile (db : Db) (r : UserFileRow) :
    (db.sql (.insertUserFile r)).shareFileList = db.shareFileList := by
  cases h : (Dml.insertUserFile r).format.exec db with
  | none => rw [sql_of_none h]
  | some n =>
      obtain ⟨t, -, rfl⟩ := Option.map_eq_some_iff.mp h
      rw [sql_of_some h]

theorem shareFileList_insertFileInfo (db : Db) (row : FileInfoRow) :
    (db.sql (.insertFileInfo row)).shareFileList = db.shareFileList := by
  cases h : (Dml.insertFileInfo row).format.exec db with
  | none => rw [sql_of_none h]
  | some n =>
      obtain ⟨t, -, rfl⟩ := Option.map_eq_some_iff.mp h
      rw [sql_of_some h]

theorem isFlagged_insertUserFile {r : UserFileRow} (hr : r.sharedStatus = 0) :
    (db.sql (.insertUserFile r)).IsFlagged k ↔ db.IsFlagged k := by
  cases hown : db.own r.user r.md5 r.fileName with
  | some x => rw [sql_insertUserFile_of_own (Option.isSome_of_mem hown)]
  | none =>
      obtain ⟨t, r', ht, hkey, hstatus, hsql⟩ := sql_insertUserFile hown
      rw [hsql, IsFlagged, IsFlagged]
      simp only [Table.find?_insert ht, hkey]
      by_cases hk : k = (cStr r.user, cStr r.md5, cStr r.fileName)
      · -- The new row is not shared, and there was none before.
        subst hk
        rw [own] at hown
        rw [if_pos rfl, hown]
        simp [hstatus, hr]
      · rw [if_neg hk]

theorem isFlagged_setSharedStatus (v : Int) (user md5 filename : Bytes) :
    (db.sql (.setSharedStatus v user md5 filename)).IsFlagged k ↔
      if k = (cStr user, cStr md5, cStr filename) then
        (db.own user md5 filename).isSome ∧ v = 1
      else db.IsFlagged k := by
  have hfind : (db.sql (.setSharedStatus v user md5 filename)).userFileList.find? k =
      (db.userFileList.find? k).map fun r =>
        if r.key = (cStr user, cStr md5, cStr filename) then { r with sharedStatus := v }
        else r := by
    have hset := Table.find?_updateWhere db.userFileList
      (fun r => r.key = (cStr user, cStr md5, cStr filename))
      (fun r => { r with sharedStatus := v }) (fun _ => rfl) k
    simp only [decide_eq_true_eq] at hset
    exact hset
  rw [IsFlagged, IsFlagged, hfind]
  cases hk : db.userFileList.find? k with
  | none =>
      split
      · next heq =>
          subst heq
          simp [own, hk]
      · simp
  | some r =>
      obtain ⟨-, rfl⟩ := Table.find?_eq_some.mp hk
      by_cases heq : r.key = (cStr user, cStr md5, cStr filename)
      · rw [heq] at hk
        simp [heq, own, hk]
      · simp [heq]

theorem isFlagged_deleteUserFile (user md5 filename : Bytes) :
    (db.sql (.deleteUserFile user md5 filename)).IsFlagged k ↔
      k ≠ (cStr user, cStr md5, cStr filename) ∧ db.IsFlagged k := by
  have hfind : (db.sql (.deleteUserFile user md5 filename)).userFileList.find? k =
      if k = (cStr user, cStr md5, cStr filename) then none else db.userFileList.find? k :=
    Table.find?_deleteKey db.userFileList _ k
  rw [IsFlagged, IsFlagged, hfind]
  split
  · next hk => simp [hk]
  · next hk => simp [hk]

theorem isShared_insertShare (r : ShareRow) :
    (db.sql (.insertShare r)).IsShared k ↔
      k = (cStr r.user, cStr r.md5, cStr r.fileName) ∨ db.IsShared k := by
  have hrows : (db.sql (.insertShare r)).shareFileList = db.shareFileList ++
      [{ r with user := cStr r.user, md5 := cStr r.md5, createTime := cStr r.createTime,
                fileName := cStr r.fileName }] := rfl
  rw [IsShared, IsShared, hrows]
  simp only [List.mem_append, List.mem_singleton, or_and_right, exists_or, exists_eq_left]
  rw [or_comm, eq_comm]

theorem isShared_deleteShare (user md5 filename : Bytes) :
    (db.sql (.deleteShare user md5 filename)).IsShared k ↔
      k ≠ (cStr user, cStr md5, cStr filename) ∧ db.IsShared k := by
  have hrows : (db.sql (.deleteShare user md5 filename)).shareFileList =
      db.shareFileList.filter fun r =>
        ¬(r.user = cStr user ∧ r.md5 = cStr md5 ∧ r.fileName = cStr filename) := rfl
  rw [IsShared, IsShared, hrows]
  simp only [List.mem_filter, decide_eq_true_eq]
  constructor
  · rintro ⟨r, ⟨hr, hne⟩, rfl⟩
    exact ⟨by simpa using hne, r, hr, rfl⟩
  · rintro ⟨hne, r, hr, rfl⟩
    exact ⟨r, ⟨hr, by simpa using hne⟩, rfl⟩

end Db

/-! ## The requests -/

section

variable {w : World}

/-- Statements that touch neither side. -/
theorem FlagsAgree.of_eq {db db' : Db} (h : FlagsAgree db)
    (hshares : db'.shareFileList = db.shareFileList)
    (hflags : ∀ k, db'.IsFlagged k ↔ db.IsFlagged k) : FlagsAgree db' := by
  intro k
  rw [hflags k, ← h k, Db.IsShared, Db.IsShared, hshares]

theorem FlagsAgree.insertUserFile {db : Db} (h : FlagsAgree db) {r : UserFileRow}
    (hr : r.sharedStatus = 0) : FlagsAgree (db.sql (.insertUserFile r)) :=
  h.of_eq (Db.shareFileList_insertUserFile db r) fun _ => Db.isFlagged_insertUserFile hr

theorem FlagsAgree.recorded (h : FlagsAgree w.db) (row : FileInfoRow)
    (user filename time : Bytes) :
    FlagsAgree (w.recorded row user filename time).db := by
  rw [World.recorded]
  refine FlagsAgree.insertUserFile ?_ rfl
  split
  · exact h
  · refine h.of_eq (Db.shareFileList_insertFileInfo w.db row) fun k => ?_
    rw [World.sql_db, Db.IsFlagged, Db.userFileList_insertFileInfo, Db.IsFlagged]

theorem FlagsAgree.saved (h : FlagsAgree w.db) (user md5 filename time : Bytes) :
    FlagsAgree (w.saved user md5 filename time).db := by
  rw [World.saved]
  split
  · exact h
  · exact @FlagsAgree.insertUserFile (w.sql (.incrCount md5)).db h _ rfl

/-- The flag taken back and the share removed. -/
theorem FlagsAgree.cancelled (h : FlagsAgree w.db) (user md5 filename : Bytes) :
    FlagsAgree (w.cancelled user md5 filename).db := by
  have hdb : (w.cancelled user md5 filename).db =
      (w.db.sql (.setSharedStatus 0 user md5 filename)).sql (.deleteShare user md5 filename) := by
    rw [World.cancelled]
    split <;> rfl
  rw [hdb]
  intro k
  have hflag : ((w.db.sql (.setSharedStatus 0 user md5 filename)).sql
      (.deleteShare user md5 filename)).IsFlagged k ↔
      (w.db.sql (.setSharedStatus 0 user md5 filename)).IsFlagged k := Iff.rfl
  have hshare : (w.db.sql (.setSharedStatus 0 user md5 filename)).IsShared k ↔
      w.db.IsShared k := Iff.rfl
  rw [Db.isShared_deleteShare, hshare, hflag, Db.isFlagged_setSharedStatus, h k]
  split
  · next hk => simp [hk]
  · next hk => simp [hk]

theorem FlagsAgree.released (h : FlagsAgree w.db) (md5 : Bytes) :
    FlagsAgree (w.released md5).db := by
  refine h.of_eq (released_shareFileList w md5) fun k => ?_
  rw [Db.IsFlagged, released_userFileList, Db.IsFlagged]

theorem FlagsAgree.deleted (h : FlagsAgree w.db) (user md5 filename : Bytes) :
    FlagsAgree (w.deleted user md5 filename).db := by
  rw [World.deleted]
  cases hown : w.db.own user md5 filename with
  | none => exact h
  | some r =>
      refine FlagsAgree.released (fun k => ?_) md5
      rw [World.sql_db, Db.isFlagged_deleteUserFile]
      by_cases hshared : r.sharedStatus = 1
      · rw [if_pos hshared]
        exact (Db.isShared_deleteShare user md5 filename).trans (and_congr_right fun _ => h k)
      · rw [if_neg hshared]
        refine (h k).trans (iff_and_self.mpr ?_)
        rintro ⟨x, hx, hstatus⟩ rfl
        -- The row is not shared, so there is no share to leave behind.
        obtain rfl : x = r := Option.some.inj (hx.symm.trans hown)
        exact hshared hstatus

/-- A share keeps the two in agreement unless it is inserted for a user who does
not have the file. -/
theorem FlagsAgree.offered_iff (h : FlagsAgree w.db) (user md5 filename time : Bytes) :
    FlagsAgree (w.offered user md5 filename time).db ↔
      w.ranking (shareFileid md5 filename) = 1 ∨ w.db.shares md5 filename ≠ [] ∨
        (w.db.own user md5 filename).isSome := by
  rw [World.offered]
  by_cases hranked : w.ranking (shareFileid md5 filename) = 1
  · rw [if_pos hranked]
    exact iff_of_true h (.inl hranked)
  · rw [if_neg hranked]
    by_cases hshares : w.db.shares md5 filename = []
    · rw [if_pos hshares]
      have hagree : FlagsAgree ((w.db.sql (.setSharedStatus 1 user md5 filename)).sql
          (.insertShare ⟨user, md5, time, filename, 0⟩)) ↔
          (w.db.own user md5 filename).isSome := by
        have hflag (k : Bytes × Bytes × Bytes) :
            ((w.db.sql (.setSharedStatus 1 user md5 filename)).sql
              (.insertShare ⟨user, md5, time, filename, 0⟩)).IsFlagged k ↔
            (w.db.sql (.setSharedStatus 1 user md5 filename)).IsFlagged k := Iff.rfl
        have hshare (k : Bytes × Bytes × Bytes) :
            (w.db.sql (.setSharedStatus 1 user md5 filename)).IsShared k ↔
            w.db.IsShared k := Iff.rfl
        constructor
        · intro hafter
          have hk := hafter (cStr user, cStr md5, cStr filename)
          rw [hflag, Db.isFlagged_setSharedStatus, if_pos rfl, Db.isShared_insertShare] at hk
          exact (hk.mp (.inl rfl)).1
        · intro hown k
          rw [hflag, Db.isFlagged_setSharedStatus, Db.isShared_insertShare, hshare, h k]
          by_cases hk : k = (cStr user, cStr md5, cStr filename)
          · simp [hk, hown]
          · simp [hk]
      exact Iff.trans hagree (by simp [hranked, hshares])
    · rw [if_neg hshares]
      exact iff_of_true h (.inr (.inl hshares))

theorem FlagsAgree.shared_iff (h : FlagsAgree w.db) (user md5 filename time : Bytes) (now : ℕ) :
    FlagsAgree (w.shared user md5 filename time now).db ↔
      w.ranking (shareFileid md5 filename) = 1 ∨ w.db.shares md5 filename ≠ [] ∨
        (w.db.own user md5 filename).isSome := by
  have htaken : FlagsAgree (w.shareTaken (shareFileid md5 filename) now).db := h
  have hoffered := htaken.offered_iff user md5 filename time
  rw [ranking_shareTaken] at hoffered
  exact hoffered

end

/-! ## Histories -/

/-- The requests that write either side. An upload comes as far as
`storeFileinfo`. -/
inductive SharingRequest where
  | upload (form : UploadForm) (fileid fdfs_file_url : Bytes)
  | save (user md5 filename : Bytes)
  | share (user md5 filename : Bytes)
  | cancel (user md5 filename : Bytes)
  | delete (user md5 filename : Bytes)

namespace SharingRequest

def handle : SharingRequest → Handler Unit
  | .upload form fileid fdfs_file_url => do
      let db_conn ← getDBConn .filehubMaster
      let _ ← storeFileinfo db_conn form.user form.file_name form.file_md5
        (strtol form.file_size) fileid fdfs_file_url
  | .save user md5 filename => do let _ ← handleSaveFile user md5 filename
  | .share user md5 filename => do let _ ← handleShareFile user md5 filename
  | .cancel user md5 filename => do let _ ← handleCancelShareFile user md5 filename
  | .delete user md5 filename => do let _ ← handleDeleteFile user md5 filename

/-- A request to share finds the share in the ranking or in the table, or comes
from a user who has the file. -/
def KeepsFlags (w : World) : SharingRequest → Prop
  | .share user md5 filename =>
      w.ranking (shareFileid md5 filename) = 1 ∨ w.db.shares md5 filename ≠ [] ∨
        (w.db.own user md5 filename).isSome
  | .upload .. | .save .. | .cancel .. | .delete .. => True

variable {w : World}

theorem serve_locked (hw : w.locked = false) (x : Undisturbed SharingRequest) :
    (serve handle w x).locked = false := by
  refine @Ensures.serve _ (fun w' => w'.locked = false) _ _ _ ?_
  match x.request with
  | .upload form fileid url =>
      rw [handle, ensures_bind, ensures_getDBConn, ensures_bind]
      exact storeFileinfo_ensures hw form fileid url fun time =>
        (recorded_locked _ _ _ _ _).trans hw
  | .save user md5 filename =>
      rw [handle, ensures_bind]
      exact handleSaveFile_ensures hw _ _ _ fun _ _ => (saved_locked _ _ _ _ _).trans hw
  | .share user md5 filename =>
      rw [handle, ensures_bind]
      exact handleShareFile_ensures _ _ _ fun _ _ _ => (shared_locked _ _ _ _ _ _).trans hw
  | .cancel user md5 filename =>
      rw [handle, ensures_bind]
      exact handleCancelShareFile_ensures _ _ _ fun _ => (cancelled_locked _ _ _ _).trans hw
  | .delete user md5 filename =>
      rw [handle, ensures_bind]
      exact handleDeleteFile_ensures hw _ _ _ fun _ => (deleted_locked _ _ _ _).trans hw

theorem flagsAgree_serve_iff (hw : w.locked = false) (h : FlagsAgree w.db)
    (x : Undisturbed SharingRequest) :
    FlagsAgree (serve handle w x).db ↔ KeepsFlags w x.request := by
  refine @Ensures.serve _ (fun w' => FlagsAgree w'.db ↔ KeepsFlags w x.request) _ _ _ ?_
  match x.request with
  | .upload form fileid url =>
      rw [handle, ensures_bind, ensures_getDBConn, ensures_bind]
      exact storeFileinfo_ensures hw form fileid url fun time =>
        iff_of_true (h.recorded _ _ _ time) trivial
  | .save user md5 filename =>
      rw [handle, ensures_bind]
      exact handleSaveFile_ensures hw _ _ _ fun _ time =>
        iff_of_true (h.saved user md5 filename time) trivial
  | .share user md5 filename =>
      rw [handle, ensures_bind]
      exact handleShareFile_ensures _ _ _ fun _ time now =>
        h.shared_iff user md5 filename time now
  | .cancel user md5 filename =>
      rw [handle, ensures_bind]
      exact handleCancelShareFile_ensures _ _ _ fun _ =>
        iff_of_true (h.cancelled user md5 filename) trivial
  | .delete user md5 filename =>
      rw [handle, ensures_bind]
      exact handleDeleteFile_ensures hw _ _ _ fun _ =>
        iff_of_true (h.deleted user md5 filename) trivial

theorem flagsAgree_throughout_iff (lex : ZSet → Bytes → ℕ) (randSeq : ℕ → ℕ) (redis : Redis)
    (history : List (Undisturbed SharingRequest)) :
    Throughout (serve handle) (fun w => FlagsAgree w.db) history
        { World.init lex randSeq with redis := redis } ↔
      Meets (serve handle) (fun w x => KeepsFlags w x.request) history
        { World.init lex randSeq with redis := redis } :=
  @throughout_iff_meets World _ _ (fun w => w.locked = false) _ _
    (fun _ x hw _ => serve_locked hw x) (fun _ x hw h => flagsAgree_serve_iff hw h x) _ _
    rfl FlagsAgree.empty

/-- The request brings known strings; the file's id and url, and the suffix of
its name, can stand between quotes. -/
def Known (K : Bytes → Prop) : SharingRequest → Prop
  | .upload form fileid url =>
      form.Known K ∧ Plain (getFileSuffix form.file_name) ∧ Plain fileid ∧ Plain url
  | .save user md5 filename | .share user md5 filename | .cancel user md5 filename
  | .delete user md5 filename => K user ∧ K md5 ∧ K filename

theorem known_handle {K : Bytes → Prop} (request : SharingRequest) (h : request.Known K) :
    KnownCalls K request.handle := by
  cases request with
  | upload form fileid url =>
      obtain ⟨hform, hsuffix, hid, hurl⟩ := h
      refine (uses_getDBConn trivial).asks.bind fun conn => ?_
      exact (known_storeFileinfo conn hform.user hform.md5 hform.name hsuffix hid hurl _).bind
        fun _ => trivial
  | save => exact (known_handleSaveFile h.1 h.2.1 h.2.2).bind fun _ => trivial
  | share => exact (known_handleShareFile h.1 h.2.1 h.2.2).bind fun _ => trivial
  | cancel => exact (known_handleCancelShareFile h.1 h.2.1 h.2.2).bind fun _ => trivial
  | delete => exact (known_handleDeleteFile h.1 h.2.1 h.2.2).bind fun _ => trivial

/-- From empty tables, and whatever is in Redis, flag and share agree after every
request with known strings, if and only if every request to share finds the
share made already or comes from a user who has the file. -/
theorem flags_agree_iff (server : SqlServer) {K : Bytes → Prop} (hK : server.Tells K)
    {history : List (Undisturbed SharingRequest)} (hhistory : ∀ x ∈ history, x.Known (Known K))
    (lex : ZSet → Bytes → ℕ) (randSeq : ℕ → ℕ) (redis : Redis) :
    Throughout (server.serve handle) (fun w => FlagsAgree w.db) history
        { World.init lex randSeq with redis := redis } ↔
      Meets (server.serve handle) (fun w x => KeepsFlags w x.request) history
        { World.init lex randSeq with redis := redis } := by
  rw [hK.throughout_iff known_handle hhistory .empty, hK.meets_iff known_handle hhistory .empty]
  exact flagsAgree_throughout_iff lex randSeq redis history

def undisturbed (request : SharingRequest) : Undisturbed SharingRequest where
  request := request
  script := allSucceed
  noFail := noFail_allSucceed

def shareUploaded : List (Undisturbed SharingRequest) :=
  [undisturbed (.upload (smallForm (ascii "u")) (ascii "x") (ascii "http")),
    undisturbed (.share (ascii "u") (ascii "m") (ascii "a.txt"))]

/-- Somebody uploads a file and shares it. -/
theorem own_share_agrees :
    Throughout (SqlServer.strict.serve handle) (fun w => FlagsAgree w.db) shareUploaded
      .empty := by
  refine (flags_agree_iff _ SqlServer.strict_tells (fun x hx => ?_) _ _ _).mpr
    ⟨trivial, .inr (.inr (by decide +kernel)), trivial⟩
  simp only [shareUploaded, List.mem_cons, List.not_mem_nil, or_false] at hx
  rcases hx with rfl | rfl
  · exact ⟨⟨⟨by decide, by decide, by decide⟩, by decide, by decide, by decide⟩, fun _ => trivial⟩
  · exact ⟨⟨by decide, by decide, by decide⟩, fun _ => trivial⟩

/-- Somebody shares a file that he does not have. -/
def shareUnowned : Undisturbed SharingRequest :=
  undisturbed (.share (ascii "u") (ascii "m") (ascii "f"))

/-- The share is there, and no row of the user says so. -/
theorem unowned_share_disagrees :
    ¬Throughout (SqlServer.strict.serve handle) (fun w => FlagsAgree w.db) [shareUnowned]
      .empty := by
  rintro ⟨-, h⟩
  have hagree := (h (ascii "u", ascii "m", ascii "f")).mp
  simp only [Db.IsShared, Db.IsFlagged] at hagree
  revert hagree
  decide +kernel

end SharingRequest

end FileHub
