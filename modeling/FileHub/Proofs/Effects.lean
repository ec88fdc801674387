import FileHub.Api.DealSharefile
import FileHub.Api.Md5
import FileHub.Api.Upload
import FileHub.Api.Sharefiles
import FileHub.Proofs.NoFault

/-!
# What each request makes of the stores

With nothing failing and nobody else at work, a request turns the stores into
others in one go, and these functions are what it turns them into. They forget
the order of the calls, the lock and the answer, and leave open only what the
outside supplies. For each handler a theorem says that it does no more and no
less than its function; everything about histories of undisturbed requests is
then proved about the functions.
-/

namespace FileHub

open Lib
open Prog (ask)

section

variable {E : World → Prop} {w : World}

/-- `CheckwhetherHaveRecord` on a statement that runs. -/
theorem ensures_checkwhetherHaveRecord (q : Select) {rows : List q.Row}
    (h : q.run w.db = some rows) (Q : Int → World → Prop) :
    Ensures E Q (checkwhetherHaveRecord ⟨true⟩ q) w ↔ Q (if rows = [] then 0 else 1) w := by
  rw [checkwhetherHaveRecord, ensures_bind]
  refine (ensures_executeQuery q _).trans ?_
  rw [h]
  cases rows with
  | nil => rfl
  | cons r rows => rfl

theorem ensures_getResultOneStatus (user md5 filename : Bytes) (Q : Int × Int → World → Prop) :
    Ensures E Q (getResultOneStatus ⟨true⟩ user md5 filename) w ↔
      Q ((w.db.own user md5 filename).elim (-1, 0) fun r => (0, r.sharedStatus)) w := by
  rw [getResultOneStatus, ensures_bind]
  refine (ensures_executeQuery (.userFile user md5 filename) _).trans ?_
  rw [Db.run_userFile]
  cases w.db.own user md5 filename with
  | none => rfl
  | some r => rfl

/-! ## Deleting -/

/-- The file taken out of the shares. -/
def World.unshared (w : World) (user md5 filename : Bytes) : World :=
  ((w.cmd (.zrem FILE_PUBLIC_ZSET (shareFileid md5 filename))).cmd
    (.hdel FILE_NAME_HASH (shareFileid md5 filename))).sql (.deleteShare user md5 filename)

/-- One reference given up: the counter, or the row with the last of them. -/
def World.uncounted (w : World) (md5 : Bytes) : World :=
  match w.db.info md5 with
  | none => w
  | some i =>
      if 1 < i.count then w.sql (.decrCount md5)
      else if i.count = 1 then w.sql (.deleteFileInfo md5)
      else w

/-- The object goes with the last reference. -/
def World.released (w : World) (md5 : Bytes) : World :=
  match w.db.info md5 with
  | none => w
  | some i =>
      if i.count = 1 then { w.uncounted md5 with fdfs := w.fdfs.remove i.fileId }
      else w.uncounted md5

@[simp] theorem uncounted_fdfs (w : World) (md5 : Bytes) :
    (w.uncounted md5).fdfs = w.fdfs := by
  rw [World.uncounted]
  split
  · rfl
  · split
    · rfl
    · split <;> rfl

@[simp] theorem uncounted_locked (w : World) (md5 : Bytes) :
    (w.uncounted md5).locked = w.locked := by
  rw [World.uncounted]
  split
  · rfl
  · split
    · rfl
    · split <;> rfl

@[simp] theorem released_locked (w : World) (md5 : Bytes) :
    (w.released md5).locked = w.locked := by
  rw [World.released]
  split
  · rfl
  · split <;> simp

theorem uncounted_userFileList (w : World) (md5 : Bytes) :
    (w.uncounted md5).db.userFileList = w.db.userFileList := by
  rw [World.uncounted]
  split
  · rfl
  · split
    · rfl
    · split <;> rfl

theorem released_db (w : World) (md5 : Bytes) : (w.released md5).db = (w.uncounted md5).db := by
  rw [World.released]
  cases hinfo : w.db.info md5 with
  | none => rw [World.uncounted, hinfo]
  | some i =>
      dsimp only
      split <;> rfl

theorem released_userFileList (w : World) (md5 : Bytes) :
    (w.released md5).db.userFileList = w.db.userFileList := by
  rw [released_db, uncounted_userFileList]

theorem released_shareFileList (w : World) (md5 : Bytes) :
    (w.released md5).db.shareFileList = w.db.shareFileList := by
  rw [released_db, World.uncounted]
  split
  · rfl
  · split
    · rfl
    · split <;> rfl

theorem released_redis (w : World) (md5 : Bytes) : (w.released md5).redis = w.redis := by
  rw [World.released, World.uncounted]
  cases w.db.info md5 with
  | none => rfl
  | some i =>
      dsimp only
      split <;> split <;> rfl

def World.deleted (w : World) (user md5 filename : Bytes) : World :=
  match w.db.own user md5 filename with
  | none => w
  | some r =>
      let w := if r.sharedStatus = 1 then w.unshared user md5 filename else w
      (w.sql (.deleteUserFile user md5 filename)).released md5

@[simp] theorem deleted_locked (w : World) (user md5 filename : Bytes) :
    (w.deleted user md5 filename).locked = w.locked := by
  rw [World.deleted]
  split
  · rfl
  · simp only [released_locked, World.sql_locked]
    split <;> rfl

theorem ensures_dropReference (hw : w.locked = false) (md5 : Bytes)
    (Q : Option (Int × Bytes) → World → Prop) :
    Ensures E Q (dropReference ⟨true⟩ md5) w ↔
      Q ((w.db.info md5).map fun i => (i.count, i.fileId)) (w.uncounted md5) := by
  rw [dropReference, ensures_scopedFileInfoLock, if_neg (by simp [hw])]
  simp only [if_true, ensures_bind]
  rw [ensures_executeQuery, Db.run_fileInfo]
  have hinfo : (w.setLocked true).db.info md5 = w.db.info md5 := rfl
  have hback : w.setLocked false = w := World.setLocked_self hw
  have hsql : ∀ d, (w.sql d).setLocked false = w.sql d := fun _ => World.setLocked_self hw
  rw [hinfo, World.uncounted]
  cases h : w.db.info md5 with
  | none => simp [hback]
  | some i =>
      have hrows : 0 < w.db.fileInfo.rows.countP fun r => r.md5 = cStr md5 :=
        Table.countP_key_pos.mpr (Option.isSome_of_mem h)
      simp only [Option.toList_some, Option.map_some]
      split
      · simp [Dml.format, Dml.exec, hrows, hsql]
      · split
        · simp [Dml.format, Dml.exec, hsql]
        · simp [hback]

theorem deleteOwned_ensures (hw : w.locked = false) (user md5 filename : Bytes)
    {Q : Int → World → Prop}
    (hQ : ∀ ret, Q ret ((w.sql (.deleteUserFile user md5 filename)).released md5)) :
    Ensures E Q (deleteOwned ⟨true⟩ user md5 filename) w := by
  rw [deleteOwned, ensures_bind, ensures_executeDrop]
  have hdropped : ((Dml.deleteUserFile user md5 filename).format.exec w.db).isSome = true := rfl
  have hw₁ : (w.sql (.deleteUserFile user md5 filename)).locked = false := hw
  rw [if_pos hdropped, ensures_bind]
  revert hQ hw₁
  generalize w.sql (.deleteUserFile user md5 filename) = w₁
  intro hQ hw₁
  rw [ensures_dropReference hw₁]
  rw [World.released] at hQ
  cases h : w₁.db.info md5 with
  | none => simpa [h, World.uncounted] using hQ 1
  | some i =>
      simp only [h] at hQ
      simp only [Option.map_some]
      by_cases hlast : i.count = 1
      · simp only [hlast, if_true] at hQ
        simp only [hlast, if_true, removeFileFromFastDfs, ensures_bind, ensures_fdfsDelete,
          ensures_pure, uncounted_fdfs]
        exact hQ 0
      · simp only [hlast, if_false] at hQ
        simp only [hlast, if_false, ensures_pure]
        exact hQ 0

theorem handleDeleteFile_ensures (hw : w.locked = false) (user md5 filename : Bytes)
    {Q : Int → World → Prop} (hQ : ∀ ret, Q ret (w.deleted user md5 filename)) :
    Ensures E Q (handleDeleteFile user md5 filename) w := by
  rw [World.deleted] at hQ
  cases h : w.db.own user md5 filename with
  | none =>
      simp only [h] at hQ
      simpa [handleDeleteFile, ensures_getResultOneStatus, h] using hQ 1
  | some r =>
      simp only [h] at hQ
      simp only [handleDeleteFile, ensures_bind, ensures_getDBConn, ensures_getCacheConn,
        ensures_getResultOneStatus, h, Option.elim_some, if_true]
      by_cases hshared : r.sharedStatus = 1
      · simp only [hshared, if_true] at hQ
        have hdropped (w : World) :
            ((Dml.deleteShare user md5 filename).format.exec w.db).isSome = true := rfl
        simp only [hshared, if_true, deleteShared, ensures_bind, ensures_zsetZrem,
          ensures_hdel, ensures_executeDrop, hdropped]
        exact deleteOwned_ensures (by exact hw) user md5 filename hQ
      · simp only [hshared, if_false] at hQ
        simp only [hshared, if_false]
        exact deleteOwned_ensures hw user md5 filename hQ

/-! ## Saving, and the instant upload -/

/-- A row of a user for a file not yet shared or downloaded. -/
abbrev newUserFile (user md5 filename time : Bytes) : UserFileRow :=
  ⟨user, md5, time, filename, 0, 0⟩

def World.saved (w : World) (user md5 filename time : Bytes) : World :=
  if (w.db.own user md5 filename).isSome ∨ w.db.info md5 = none then w
  else (w.sql (.incrCount md5)).sql (.insertUserFile (newUserFile user md5 filename time))

@[simp] theorem saved_locked (w : World) (user md5 filename time : Bytes) :
    (w.saved user md5 filename time).locked = w.locked := by
  rw [World.saved]
  split <;> rfl

theorem ensures_countSaved (hw : w.locked = false) (md5 : Bytes) (Q : Bool → World → Prop) :
    Ensures E Q (countSaved ⟨true⟩ md5) w ↔ Q (w.db.info md5).isSome (w.sql (.incrCount md5)) := by
  have hsql : (w.sql (.incrCount md5)).setLocked false = w.sql (.incrCount md5) :=
    World.setLocked_self hw
  rw [countSaved, ensures_scopedFileInfoLock, if_neg (by simp [hw]), if_pos rfl,
    ensures_executeUpdate, World.sql_setLocked, World.setLocked_setLocked, hsql]
  have haffected : (decide (0 < w.db.fileInfo.rows.countP fun r => r.md5 = cStr md5)) =
      (w.db.info md5).isSome :=
    Bool.eq_iff_iff.mpr (decide_eq_true_iff.trans Table.countP_key_pos)
  simp only [Dml.format, Dml.exec, Option.any_some, Bool.not_true, Bool.or_false,
    World.setLocked_db, haffected]

theorem handleSaveFile_ensures (hw : w.locked = false) (user md5 filename : Bytes)
    {Q : Int → World → Prop} (hQ : ∀ ret time, Q ret (w.saved user md5 filename time)) :
    Ensures E Q (handleSaveFile user md5 filename) w := by
  simp only [World.saved] at hQ
  rw [handleSaveFile]
  simp only [ensures_bind, ensures_getDBConn]
  rw [ensures_checkwhetherHaveRecord _ (Db.run_userFile w.db user md5 filename)]
  cases h : w.db.own user md5 filename with
  | some r =>
      simp only [h, Option.isSome_some, true_or, if_true] at hQ
      simpa using hQ 5 []
  | none =>
      simp only [h, Option.isSome_none, Bool.false_eq_true, false_or] at hQ
      simp only [Option.toList_none, if_true, zero_ne_one, if_false, ensures_bind]
      rw [ensures_countSaved hw]
      cases hi : w.db.info md5 with
      | none =>
          simp only [hi, if_true] at hQ
          simpa [World.sql_self (Db.sql_incrCount_of_info hi)] using hQ 1 []
      | some i =>
          simp only [hi, reduceCtorEq, if_false] at hQ
          simp only [Option.isSome_some, if_true, ensures_bind, ensures_localtime,
            ensures_executeCreate, ensures_pure]
          exact fun time => hQ _ time

/-- What an instant upload makes of the counter, whoever asks for it. -/
def World.counted (w : World) (user md5 filename : Bytes) : World :=
  if (w.db.own user md5 filename).isSome then w else w.sql (.incrCount md5)

theorem handleDealMd5_ensures (hw : w.locked = false) (user md5 filename : Bytes)
    {Q : Md5State → World → Prop}
    (hQ : Q (if (w.db.own user md5 filename).isSome then .md5FileExist else .md5Failed)
      (w.counted user md5 filename)) :
    Ensures E Q (handleDealMd5 user md5 filename) w := by
  simp only [World.counted] at hQ
  rw [handleDealMd5]
  simp only [ensures_bind, ensures_getDBConn, ensures_getCacheConn]
  rw [ensures_checkwhetherHaveRecord _ (Db.run_userFile w.db user md5 filename)]
  cases h : w.db.own user md5 filename with
  | some r =>
      simp only [h, Option.isSome_some, if_true] at hQ
      simpa using hQ
  | none =>
      simp only [h, Option.isSome_none, Bool.false_eq_true, if_false] at hQ
      have hsql : (w.sql (.incrCount md5)).setLocked false = w.sql (.incrCount md5) :=
        World.setLocked_self hw
      simp only [Option.toList_none, if_true, zero_ne_one, if_false, countMd5,
        ensures_scopedFileInfoLock, hw, Bool.false_eq_true, ensures_bind,
        ensures_executePassQuery, World.sql_setLocked, World.setLocked_setLocked, hsql,
        ensures_pure]
      exact hQ

/-- The user a token belongs to, as `Get` reads it. -/
def World.tokenUser (w : World) (token : Bytes) : Bytes :=
  match w.reply (.get token) with
  | .string s => s
  | .status _ | .error _ | .integer _ | .nil | .array _ => []

theorem cmd_get (w : World) (key : Bytes) : w.cmd (.get key) = w := by
  simp only [World.cmd, RedisCmd.format, Redis.exec]
  split <;> rfl

theorem ensures_get (key : Bytes) (Q : Bytes → World → Prop) :
    Ensures E Q (CacheConn.get ⟨true⟩ key) w ↔ Q (w.tokenUser key) w := by
  refine (ensures_commandOr _ _ _ Q).trans ?_
  rw [cmd_get]
  rfl

theorem ensures_verifyToken (user token : Bytes) (Q : Int → World → Prop) :
    Ensures E Q (verifyToken user token) w ↔
      Q (if w.tokenUser token = user then 0 else -1) w := by
  rw [verifyToken]
  simp only [ensures_bind, ensures_getCacheConn, if_true, ensures_get]
  by_cases h : w.tokenUser token = user <;> simp [h]

/-- A request whose body goes through a decoder does nothing unless it decodes. -/
theorem decoded_ensures {α β : Type} {d : Except DecodeError α} {r : β}
    {next : α → Handler β} {P : World → Prop} (hnothing : ∀ e, d = .error e → P w)
    (hnext : ∀ a, d = .ok a → Ensures P (fun _ => P) (next a) w) :
    Ensures P (fun _ => P) (decoded d (return r) next) w := by
  match d with
  | .error .reject => exact hnothing _ rfl
  | .error .thrown => exact (ensures_crash _).mpr (hnothing _ rfl)
  | .ok a => exact hnext a rfl

/-- The effect of `ApiMd5`. -/
def World.instant (w : World) (parse : Bytes → Option JsonValue) (post_data : Bytes) : World :=
  match parsed parse post_data decodeMd5Json with
  | .error _ => w
  | .ok req =>
      if w.tokenUser req.token = req.user then
        w.counted (cStr req.user) (cStr req.md5) (cStr req.filename)
      else w

@[simp] theorem instant_locked (w : World) (parse : Bytes → Option JsonValue)
    (post_data : Bytes) : (w.instant parse post_data).locked = w.locked := by
  rw [World.instant]
  split
  · rfl
  · split
    · rw [World.counted]
      split <;> rfl
    · rfl

theorem apiMd5_ensures (hw : w.locked = false) (parse : Bytes → Option JsonValue)
    (post_data : Bytes) {P : World → Prop} (hP : P (w.instant parse post_data)) :
    Ensures P (fun _ => P) (apiMd5 parse post_data) w := by
  rw [World.instant] at hP
  refine decoded_ensures (fun e he => by simpa [he] using hP) fun req hreq => ?_
  simp only [hreq] at hP
  rw [ensures_bind, ensures_verifyToken]
  by_cases htoken : w.tokenUser req.token = req.user
  · simp only [htoken, if_true] at hP
    simp only [htoken, if_true, ensures_bind]
    exact handleDealMd5_ensures hw _ _ _ hP
  · simp only [htoken, if_false] at hP
    simpa [htoken] using hP

/-! ## Uploading -/

/-- The two tables after a file was recorded, or as far as that went. -/
def World.recorded (w : World) (row : FileInfoRow) (user filename time : Bytes) : World :=
  (if (w.db.info row.md5).isSome then w.sql (.incrCount row.md5)
    else w.sql (.insertFileInfo row)).sql
      (.insertUserFile (newUserFile user row.md5 filename time))

/-- The row `storeFileinfo` inserts. -/
def uploadRow (form : UploadForm) (fileid url : Bytes) : FileInfoRow :=
  ⟨form.file_md5, fileid, url, strtol form.file_size, getFileSuffix form.file_name, 1⟩

/-- A file recorded, and its object taken back unless it was new. -/
def World.uploaded (w : World) (form : UploadForm) (fileid url time : Bytes) : World :=
  let w' := w.recorded (uploadRow form fileid url) form.user form.file_name time
  if (w.db.own form.user form.file_md5 form.file_name).isSome ∨
      (w.db.info form.file_md5).isSome then
    { w' with fdfs := w'.fdfs.remove fileid }
  else w'

@[simp] theorem recorded_locked (w : World) (row : FileInfoRow) (user filename time : Bytes) :
    (w.recorded row user filename time).locked = w.locked := by
  rw [World.recorded, World.sql_locked]
  split <;> rfl

@[simp] theorem uploaded_locked (w : World) (form : UploadForm) (fileid url time : Bytes) :
    (w.uploaded form fileid url time).locked = w.locked := by
  have hrecorded := recorded_locked w (uploadRow form fileid url) form.user form.file_name time
  rw [World.uploaded]
  split <;> exact hrecorded

theorem insertUploaded_ensures (user filename md5 : Bytes) (file_exsit : Bool)
    {Q : Int × Bool → World → Prop}
    (hQ : ∀ time, Q (if (w.db.own user md5 filename).isSome then -1 else 0, file_exsit)
      (w.sql (.insertUserFile (newUserFile user md5 filename time)))) :
    Ensures E Q (insertUploaded ⟨true⟩ user filename md5 file_exsit) w := by
  simp only [insertUploaded, ensures_bind, ensures_localtime, ensures_executeCreate,
    ensures_pure]
  intro time
  have hinserted := Db.isSome_insertUserFile w.db (newUserFile user md5 filename time)
  rw [newUserFile] at hinserted
  rw [hinserted]
  have := hQ time
  cases h : (w.db.own user md5 filename).isSome <;> simpa [h] using this

theorem storeFileinfo_ensures (hw : w.locked = false) (form : UploadForm)
    (fileid url : Bytes) {Q : Int × Bool → World → Prop}
    (hQ : ∀ time, Q
      (if (w.db.own form.user form.file_md5 form.file_name).isSome then -1 else 0,
        (w.db.info form.file_md5).isSome)
      (w.recorded (uploadRow form fileid url) form.user form.file_name time)) :
    Ensures E Q (storeFileinfo ⟨true⟩ form.user form.file_name form.file_md5
      (strtol form.file_size) fileid url) w := by
  have hback (d d' : Dml) : ((w.sql d).sql d').setLocked false = (w.sql d).sql d' :=
    World.setLocked_self hw
  have hcreated : ((Dml.insertFileInfo (uploadRow form fileid url)).format.exec
      (w.setLocked true).db).isSome = !(w.db.info form.file_md5).isSome :=
    Db.isSome_insertFileInfo w.db (uploadRow form fileid url)
  rw [storeFileinfo, ensures_scopedFileInfoLock, if_neg (by simp [hw]), if_pos rfl,
    ensures_bind, ensures_executeCreate, ← uploadRow, hcreated]
  have hmd5 : (uploadRow form fileid url).md5 = form.file_md5 := rfl
  simp only [World.recorded, hmd5] at hQ
  cases h : (w.db.info form.file_md5).isSome with
  | false =>
      simp only [h, Bool.false_eq_true, if_false] at hQ
      rw [Bool.not_false, if_pos rfl]
      refine insertUploaded_ensures _ _ _ _ fun time => ?_
      have hown := Db.own_insertFileInfo w.db (uploadRow form fileid url) form.user form.file_md5
        form.file_name
      simp only [World.sql_setLocked, World.setLocked_setLocked, hback]
      rw [← hown] at hQ
      exact hQ time
  | true =>
      simp only [h, if_true] at hQ
      have hexists : w.sql (.insertFileInfo (uploadRow form fileid url)) = w :=
        World.sql_self (Db.sql_insertFileInfo_of_info h)
      have hupdated : ((Dml.incrCount form.file_md5).format.exec
          (w.setLocked true).db).isSome = true := rfl
      rw [Bool.not_true, if_neg (by simp), World.sql_setLocked, hexists, ensures_bind,
        ensures_executePassQuery, hupdated, if_pos rfl]
      refine insertUploaded_ensures _ _ _ _ fun time => ?_
      simp only [World.sql_setLocked, World.setLocked_setLocked, hback]
      exact hQ time

/-- The stores once FastDFS has the object. -/
def World.kept (w : World) (fileid : Bytes) : World :=
  { w with fdfs := w.fdfs.store fileid }

@[simp] theorem kept_db (w : World) (fileid : Bytes) : (w.kept fileid).db = w.db := rfl

theorem storeUpload_ensures (hw : w.locked = false) (form : UploadForm)
    (fileid url : Bytes) {Q : Int → World → Prop}
    (hQ : ∀ ret time, Q ret (w.uploaded form fileid url time)) :
    Ensures E Q (storeUpload ⟨true⟩ form fileid url) w := by
  rw [storeUpload, ensures_bind]
  refine storeFileinfo_ensures hw form fileid url fun time => ?_
  have hQ := fun ret => hQ ret time
  rw [World.uploaded] at hQ
  dsimp only
  have hback : ((if (w.db.own form.user form.file_md5 form.file_name).isSome then (-1 : Int)
      else 0) < 0 ∨ (w.db.info form.file_md5).isSome = true) ↔
      (w.db.own form.user form.file_md5 form.file_name).isSome = true ∨
        (w.db.info form.file_md5).isSome = true := by
    refine or_congr_left ?_
    split
    · next h => simp [h]
    · next h => simp [h]
  by_cases hor : (w.db.own form.user form.file_md5 form.file_name).isSome = true ∨
      (w.db.info form.file_md5).isSome = true
  · rw [if_pos hor] at hQ
    rw [if_pos (hback.mpr hor)]
    simp only [removeFileFromFastDfs, ensures_bind, ensures_fdfsDelete, ensures_pure]
    exact hQ _
  · rw [if_neg hor] at hQ
    rw [if_neg (hback.not.mpr hor)]
    exact hQ _

theorem uploadForm_ensures (hw : w.locked = false) (ip : Bytes) (form : UploadForm)
    {Q : Int → World → Prop}
    (hkept : ip = [] → ∀ fileid, fileid ∉ w.fdfs.used → Q (-1) (w.kept fileid))
    (hQ : ip ≠ [] → ∀ ret fileid url time, fileid ∉ w.fdfs.used →
      Q ret ((w.kept fileid).uploaded form fileid url time)) :
    Ensures E Q (uploadForm ip ⟨true⟩ form) w := by
  rw [uploadForm]
  simp only [ensures_bind, ensures_rename, if_true]
  refine ensures_fdfsUpload _ fun fileid hfresh => ?_
  simp only [ensures_unlink, getFullUrlByFileid]
  by_cases hip : ip = []
  · simp only [hip, if_true]
    exact hkept hip fileid hfresh
  · simp only [hip, if_false, ensures_bind, ensures_fdfsFileInfo, if_true, ensures_pure]
    exact storeUpload_ensures (by exact hw) form fileid _ fun ret time =>
      hQ hip ret fileid _ time hfresh

/-- `ApiUpload` leaves the stores alone, or with an object more, or with a file
recorded. -/
theorem apiUpload_ensures (hw : w.locked = false) (ip post_data : Bytes)
    {P : World → Prop} (hnothing : ∀ e, parseForm post_data = .error e → P w)
    (hkept : ip = [] → ∀ form, parseForm post_data = .ok form →
      ∀ fileid, fileid ∉ w.fdfs.used → P (w.kept fileid))
    (hstored : ip ≠ [] → ∀ form, parseForm post_data = .ok form →
      ∀ fileid url time, fileid ∉ w.fdfs.used →
        P ((w.kept fileid).uploaded form fileid url time)) :
    Ensures P (fun _ => P) (apiUpload ip post_data) w := by
  rw [apiUpload]
  simp only [ensures_bind, ensures_getDBConn]
  refine decoded_ensures hnothing fun form hform => ?_
  rw [ensures_bind]
  exact uploadForm_ensures hw ip form (fun hip => hkept hip form hform)
    fun hip _ fileid url time hfresh => hstored hip form hform fileid url time hfresh

end

end FileHub
