import FileHub.Model.Tables

/-!
# What the statements do to the tables

`Db.sql` is the tables after a statement, whether it was refused or not.
Rows are read back as the statements address them: `own` is the row of a user
for a file, `info` the `file_info` row for an md5, `shares` the shares of a
file. Rows are counted too: `refs` is the number of rows of `user_file_list`
with an md5, `count?` the number `file_info` keeps for it, and each of the six
statements that touch either moves at most one of the two, by at most one.
`fileIds` are the FastDFS objects that `file_info` names.
-/

namespace FileHub

open Lib

namespace Db

def sql (db : Db) (d : Dml) : Db := (d.format.exec db).elim db Prod.snd

/-- The user's row for a file, as the statements look it up. -/
def own (db : Db) (user md5 filename : Bytes) : Option UserFileRow :=
  db.userFileList.find? (cStr user, cStr md5, cStr filename)

/-- The `file_info` row for an md5. -/
def info (db : Db) (md5 : Bytes) : Option FileInfoRow := db.fileInfo.find? (cStr md5)

/-- The shares with an md5 and a file name. -/
def shares (db : Db) (md5 filename : Bytes) : List ShareRow :=
  db.shareFileList.filter fun r => r.md5 = cStr md5 ∧ r.fileName = cStr filename

/-- The rows of `user_file_list` with the md5. -/
def refs (db : Db) (m : Bytes) : ℕ := db.userFileList.rows.countP fun r => r.md5 = m

/-- The counter of the `file_info` row for the md5. -/
def count? (db : Db) (m : Bytes) : Option Int := (db.fileInfo.find? m).map (·.count)

/-- The objects `file_info` names, row by row. -/
def fileIds (db : Db) : List Bytes := db.fileInfo.rows.map (·.fileId)

variable {db : Db}

theorem sql_of_none {d : Dml} (h : d.format.exec db = none) : db.sql d = db := by
  rw [sql, h]
  rfl

theorem sql_of_some {d : Dml} {n : ℕ} {db' : Db} (h : d.format.exec db = some (n, db')) :
    db.sql d = db' := by
  rw [sql, h]
  rfl

@[simp] theorem run_userFile (db : Db) (user md5 filename : Bytes) :
    Select.run db (.userFile user md5 filename) = some (db.own user md5 filename).toList :=
  congrArg some (Table.filter_key _ _)

@[simp] theorem run_fileInfo (db : Db) (md5 : Bytes) :
    Select.run db (.fileInfo md5) = some (db.info md5).toList :=
  congrArg some (Table.filter_key _ _)

@[simp] theorem run_share (db : Db) (md5 filename : Bytes) :
    Select.run db (.share md5 filename) = some (db.shares md5 filename) := rfl

/-! ## The inserts -/


theorem isSome_insertUserFile (db : Db) (r : UserFileRow) :
    ((Dml.insertUserFile r).format.exec db).isSome =
      !(db.own r.user r.md5 r.fileName).isSome := by
  simp only [Dml.format, Dml.exec, Option.isSome_map]
  exact Table.isSome_insert

theorem isSome_insertFileInfo (db : Db) (row : FileInfoRow) :
    ((Dml.insertFileInfo row).format.exec db).isSome = !(db.info row.md5).isSome := by
  simp only [Dml.format, Dml.exec, Option.isSome_map]
  exact Table.isSome_insert

/-- An insert into `user_file_list` that succeeds. -/
theorem sql_insertUserFile {r : UserFileRow} (h : db.own r.user r.md5 r.fileName = none) :
    ∃ t r', db.userFileList.insert r' = some t ∧
      r'.key = (cStr r.user, cStr r.md5, cStr r.fileName) ∧
      r'.sharedStatus = r.sharedStatus ∧
      db.sql (.insertUserFile r) = { db with userFileList := t } := by
  have hsome := isSome_insertUserFile db r
  rw [h, Option.isSome_none, Bool.not_false] at hsome
  obtain ⟨⟨n, db'⟩, hexec⟩ := Option.isSome_iff_exists.mp hsome
  obtain ⟨t, ht, heq⟩ := Option.map_eq_some_iff.mp hexec
  rw [Prod.mk.injEq] at heq
  exact ⟨t, _, ht, rfl, rfl, (sql_of_some hexec).trans heq.2.symm⟩

theorem sql_insertUserFile_of_own {r : UserFileRow}
    (h : (db.own r.user r.md5 r.fileName).isSome) : db.sql (.insertUserFile r) = db := by
  refine sql_of_none ?_
  rw [← Option.not_isSome_iff_eq_none, isSome_insertUserFile, h]
  simp

theorem isSome_own_insertUserFile {r : UserFileRow}
    (h : db.own r.user r.md5 r.fileName = none) :
    ((db.sql (.insertUserFile r)).own r.user r.md5 r.fileName).isSome := by
  obtain ⟨t, row, ht, hkey, -, hsql⟩ := sql_insertUserFile h
  rw [hsql, own, Table.find?_insert ht, hkey, if_pos rfl]
  rfl

theorem find?_insertUserFile {r : UserFileRow} {k : Bytes × Bytes × Bytes}
    (hk : k ≠ (cStr r.user, cStr r.md5, cStr r.fileName)) :
    (db.sql (.insertUserFile r)).userFileList.find? k = db.userFileList.find? k := by
  cases hown : db.own r.user r.md5 r.fileName with
  | some x => rw [sql_insertUserFile_of_own (Option.isSome_of_mem hown)]
  | none =>
      obtain ⟨t, row, ht, hkey, -, hsql⟩ := sql_insertUserFile hown
      rw [hsql, Table.find?_insert ht, hkey, if_neg hk]

/-- An insert into `file_info` that succeeds. -/
theorem sql_insertFileInfo {row : FileInfoRow} (h : db.info row.md5 = none) :
    ∃ t row', db.fileInfo.insert row' = some t ∧ row'.md5 = cStr row.md5 ∧
      row'.fileId = cStr row.fileId ∧ row'.count = row.count ∧
      db.sql (.insertFileInfo row) = { db with fileInfo := t } := by
  have hsome := isSome_insertFileInfo db row
  rw [h, Option.isSome_none, Bool.not_false] at hsome
  obtain ⟨⟨n, db'⟩, hexec⟩ := Option.isSome_iff_exists.mp hsome
  obtain ⟨t, ht, heq⟩ := Option.map_eq_some_iff.mp hexec
  rw [Prod.mk.injEq] at heq
  exact ⟨t, _, ht, rfl, rfl, rfl, (sql_of_some hexec).trans heq.2.symm⟩

theorem sql_insertFileInfo_of_info {row : FileInfoRow} (h : (db.info row.md5).isSome) :
    db.sql (.insertFileInfo row) = db := by
  refine sql_of_none ?_
  rw [← Option.not_isSome_iff_eq_none, isSome_insertFileInfo, h]
  simp

/-! ## What a statement leaves alone -/

@[simp] theorem fileInfo_insertUserFile (db : Db) (r : UserFileRow) :
    (db.sql (.insertUserFile r)).fileInfo = db.fileInfo := by
  cases h : (Dml.insertUserFile r).format.exec db with
  | none => rw [sql_of_none h]
  | some n =>
      obtain ⟨t, -, rfl⟩ := Option.map_eq_some_iff.mp h
      rw [sql_of_some h]

@[simp] theorem userFileList_insertFileInfo (db : Db) (row : FileInfoRow) :
    (db.sql (.insertFileInfo row)).userFileList = db.userFileList := by
  cases h : (Dml.insertFileInfo row).format.exec db with
  | none => rw [sql_of_none h]
  | some n =>
      obtain ⟨t, -, rfl⟩ := Option.map_eq_some_iff.mp h
      rw [sql_of_some h]

theorem own_insertFileInfo (db : Db) (row : FileInfoRow) (user md5 filename : Bytes) :
    (db.sql (.insertFileInfo row)).own user md5 filename = db.own user md5 filename := by
  rw [own, userFileList_insertFileInfo, own]

theorem count?_insertUserFile (db : Db) (r : UserFileRow) (m : Bytes) :
    (db.sql (.insertUserFile r)).count? m = db.count? m := by
  rw [count?, fileInfo_insertUserFile, count?]

theorem refs_insertFileInfo (db : Db) (row : FileInfoRow) (m : Bytes) :
    (db.sql (.insertFileInfo row)).refs m = db.refs m := by
  rw [refs, userFileList_insertFileInfo, refs]

/-- Counting a reference to a file nobody stored changes nothing. -/
theorem sql_incrCount_of_info {md5 : Bytes} (h : db.info md5 = none) :
    db.sql (.incrCount md5) = db := by
  have hrows : ∀ r ∈ db.fileInfo.rows, decide (r.md5 = cStr md5) = false := by
    simpa using Table.find?_eq_none.mp h
  have hexec : (Dml.incrCount md5).format.exec db =
      some (db.fileInfo.rows.countP fun r => r.md5 = cStr md5, db) := by
    simp only [Dml.format, Dml.exec, FileInfo.addCount]
    rw [Table.updateWhere_of_forall hrows]
  exact sql_of_some hexec

/-! ## The counter -/

/-- Counting up affects a row if and only if the file is known. -/
theorem affects_incrCount (db : Db) (md5 : Bytes) :
    (((Dml.incrCount md5).format.exec db).any fun r => decide (0 < r.1) || !true) =
      (db.info md5).isSome := by
  rw [Bool.eq_iff_iff]
  simp only [Dml.format, Dml.exec, Option.any_some, Bool.not_true, Bool.or_false,
    decide_eq_true_eq]
  exact Table.countP_key_pos

theorem affects_decrCount {md5 : Bytes} {i : FileInfoRow} (h : db.info md5 = some i) :
    (((Dml.decrCount md5).format.exec db).any fun r => decide (0 < r.1) || !true) = true := by
  simp only [Dml.format, Dml.exec, Option.any_some, Bool.not_true, Bool.or_false,
    decide_eq_true_eq]
  exact Table.countP_key_pos.mpr (Option.isSome_of_mem h)

theorem find?_addCount (t : FileInfo) (d : Int) (m m' : Bytes) :
    (FileInfo.addCount t d m).find? m' =
      (t.find? m').map fun r => if m' = m then { r with count := r.count + d } else r := by
  rw [FileInfo.addCount, Table.find?_updateWhere]
  cases h : t.find? m' with
  | none => rfl
  | some r =>
      obtain ⟨-, rfl⟩ := Table.find?_eq_some.mp h
      simp only [Option.map_some, decide_eq_true_eq]

theorem count?_of_info {md5 : Bytes} {i : FileInfoRow} (h : db.info md5 = some i) :
    db.count? (cStr md5) = some i.count :=
  congrArg (Option.map FileInfoRow.count) h

theorem isSome_count? (db : Db) (md5 : Bytes) :
    (db.count? (cStr md5)).isSome = (db.info md5).isSome :=
  Option.isSome_map

theorem count?_addCount (db : Db) (d : Int) (m m' : Bytes) :
    ({ db with fileInfo := FileInfo.addCount db.fileInfo d m } : Db).count? m' =
      (db.count? m').map fun c => if m' = m then c + d else c := by
  simp only [count?, find?_addCount, Option.map_map]
  congr 1
  funext r
  simp only [Function.comp]
  split <;> rfl

theorem count?_incrCount (db : Db) (md5 m : Bytes) :
    (db.sql (.incrCount md5)).count? m =
      (db.count? m).map fun c => if m = cStr md5 then c + 1 else c :=
  count?_addCount db 1 (cStr md5) m

theorem count?_decrCount (db : Db) (md5 m : Bytes) :
    (db.sql (.decrCount md5)).count? m =
      (db.count? m).map fun c => if m = cStr md5 then c + -1 else c :=
  count?_addCount db (-1) (cStr md5) m

theorem count?_deleteFileInfo (db : Db) (md5 m : Bytes) :
    (db.sql (.deleteFileInfo md5)).count? m = if m = cStr md5 then none else db.count? m := by
  have hfind := Table.find?_deleteKey db.fileInfo (cStr md5) m
  simp only [count?]
  refine (congrArg _ hfind).trans ?_
  split <;> rfl

theorem count?_insertFileInfo {row : FileInfoRow} (h : db.info row.md5 = none) (m : Bytes) :
    (db.sql (.insertFileInfo row)).count? m =
      if m = cStr row.md5 then some row.count else db.count? m := by
  obtain ⟨t, row', ht, hmd5, -, hcount, hsql⟩ := sql_insertFileInfo h
  rw [hsql, count?, count?]
  simp only [Table.find?_insert ht, hmd5]
  split
  · rw [Option.map_some, hcount]
  · rfl

/-! ## The rows -/

theorem refs_pos_of_own {user md5 filename : Bytes}
    (h : (db.own user md5 filename).isSome) : 0 < db.refs (cStr md5) := by
  obtain ⟨r, hr⟩ := Option.isSome_iff_exists.mp h
  obtain ⟨hmem, hkey⟩ := Table.find?_eq_some.mp hr
  have hmd5 : r.md5 = cStr md5 := congrArg (fun k => k.2.1) hkey
  exact List.countP_pos_iff.mpr ⟨r, hmem, decide_eq_true hmd5⟩

theorem refs_insertUserFile {r : UserFileRow} (h : db.own r.user r.md5 r.fileName = none)
    (m : Bytes) :
    (db.sql (.insertUserFile r)).refs m =
      db.refs m + if m = cStr r.md5 then 1 else 0 := by
  obtain ⟨t, r', ht, hkey, -, hsql⟩ := sql_insertUserFile h
  have hmd5 : r'.md5 = cStr r.md5 := congrArg (fun k => k.2.1) hkey
  rw [hsql, refs, refs]
  refine (Table.countP_insert ht _).trans ?_
  simp only [decide_eq_true_eq, hmd5, @eq_comm Bytes (cStr r.md5) m]

theorem refs_deleteUserFile {user md5 filename : Bytes}
    (h : (db.own user md5 filename).isSome) (m : Bytes) :
    (db.sql (.deleteUserFile user md5 filename)).refs m + (if m = cStr md5 then 1 else 0) =
      db.refs m := by
  obtain ⟨r, hr⟩ := Option.isSome_iff_exists.mp h
  have hmd5 : r.md5 = cStr md5 := congrArg (fun k => k.2.1) (Table.find?_eq_some.mp hr).2
  have hcount := Table.countP_deleteKey hr fun r => r.md5 = m
  simp only [hmd5, decide_eq_true_eq, @eq_comm Bytes (cStr md5) m] at hcount
  exact hcount

/-! ## The objects named -/

theorem fileIds_addCount (t : FileInfo) (d : Int) (m : Bytes) :
    (FileInfo.addCount t d m).rows.map (·.fileId) = t.rows.map (·.fileId) := by
  rw [FileInfo.addCount, Table.updateWhere, List.map_map]
  refine List.map_congr_left fun r _ => ?_
  simp only [Function.comp]
  split <;> rfl

theorem fileIds_incrCount (db : Db) (md5 : Bytes) :
    (db.sql (.incrCount md5)).fileIds = db.fileIds :=
  fileIds_addCount db.fileInfo 1 (cStr md5)

theorem fileIds_decrCount (db : Db) (md5 : Bytes) :
    (db.sql (.decrCount md5)).fileIds = db.fileIds :=
  fileIds_addCount db.fileInfo (-1) (cStr md5)

theorem fileIds_insertUserFile (db : Db) (r : UserFileRow) :
    (db.sql (.insertUserFile r)).fileIds = db.fileIds := by
  rw [fileIds, fileInfo_insertUserFile, fileIds]

theorem fileIds_insertFileInfo {row : FileInfoRow} (h : db.info row.md5 = none) :
    (db.sql (.insertFileInfo row)).fileIds = db.fileIds ++ [cStr row.fileId] := by
  obtain ⟨t, row', ht, -, hid, -, hsql⟩ := sql_insertFileInfo h
  rw [hsql, fileIds, fileIds]
  simp only [Table.insert_rows ht, List.map_append, List.map_cons, List.map_nil, hid]

/-- The objects named before a file is forgotten are its own and those named after. -/
theorem fileIds_deleteFileInfo {md5 : Bytes} {i : FileInfoRow} (h : db.info md5 = some i) :
    db.fileIds.Perm (i.fileId :: (db.sql (.deleteFileInfo md5)).fileIds) :=
  (Table.perm_deleteKey h).map FileInfoRow.fileId

end Db

end FileHub
