import FileHub.Lib.CString
import FileHub.Lib.Table

/-!
# The SQL side: tables and statements

The tables of `sql/filehub.sql` and the statements the handlers send. Each
statement is one constructor, named for what it does and carrying the
arguments its `sprintf` template takes, in the template's order where the
order matters to a reader. `Dml.exec` and `Select.run` give the intended effect
of the text; a server that is sent the text has this effect where the strings are
such that `SqlServer.Tells` holds.

Two conventions of the source live here. The arguments reach the statement
through `%s`, so what MySQL sees of each is its C string: `Select.run` and
`Dml.format` cut them there. And the affected rows of an `UPDATE` are the
rows whose value changed, as the comment at `CDBConn::ExecuteUpdate` says, not
the rows it matched.

The unique indexes are carried by the tables. `share_file_list` and
`share_picture_list` have none besides their serial number, which no statement
reads, so they are plain lists of rows; `user_info` has two indexes, which its one
insert checks. Text comparison is equality here; a server has its own. The
counters are integers; none of the statements relies on their width.
-/

namespace FileHub

open Lib

/-- A row of `user_file_list`. -/
structure UserFileRow where
  user : Bytes
  md5 : Bytes
  createTime : Bytes
  fileName : Bytes
  sharedStatus : Int
  pv : Int
deriving DecidableEq

/-- `idx_user_md5_file_name`. -/
def UserFileRow.key (r : UserFileRow) : Bytes × Bytes × Bytes :=
  (r.user, r.md5, r.fileName)

/-- A row of `file_info`, unique in `md5` (`uq_md5`). -/
structure FileInfoRow where
  md5 : Bytes
  fileId : Bytes
  url : Bytes
  size : Int
  type : Bytes
  count : Int
deriving DecidableEq

/-- A row of `share_file_list`. -/
structure ShareRow where
  user : Bytes
  md5 : Bytes
  createTime : Bytes
  fileName : Bytes
  pv : Int
deriving DecidableEq

/-- A row of `share_picture_list`. -/
structure PictureRow where
  user : Bytes
  filemd5 : Bytes
  fileName : Bytes
  urlmd5 : Bytes
  key : Bytes
  pv : Int
  createTime : Bytes
deriving DecidableEq

/-- A row of `user_info`, unique in the user name and in the nick name. -/
structure UserRow where
  userName : Bytes
  nickName : Bytes
  password : Bytes
  phone : Bytes
  email : Bytes
  createTime : Bytes
deriving DecidableEq

abbrev UserFileList := Table UserFileRow UserFileRow.key

abbrev FileInfo := Table FileInfoRow FileInfoRow.md5

structure Db where
  userFileList : UserFileList
  fileInfo : FileInfo
  shareFileList : List ShareRow
  sharePictureList : List PictureRow
  userInfo : List UserRow

def Db.empty : Db := ⟨.empty, .empty, [], [], []⟩

/-! ## Reading -/

/-- The `SELECT` statements. Those that read different columns of the same
rows are one constructor; a caller names the column it reads. -/
inductive Select where
  | userFile (user md5 fileName : Bytes)
  | fileInfo (md5 : Bytes)
  | share (md5 fileName : Bytes)
  | shareByPv
  | shareCount
  | shareList (start count : Int)
  | picture (urlmd5 : Bytes)
  | pictureCount (user : Bytes)
  | pictureList (user : Bytes) (start count : Int)
  | password (userName : Bytes)
  | userId (userName : Bytes)
  | userFilesCount (user : Bytes)
  | userFiles (user : Bytes) (start count : Int)
deriving DecidableEq

/-- A row of each result set. -/
abbrev Select.Row : Select → Type
  | .userFile .. => UserFileRow
  | .fileInfo _ => FileInfoRow
  | .share .. => ShareRow
  | .shareByPv => ShareRow
  | .shareCount => Int
  | .shareList .. => ShareRow × FileInfoRow
  | .picture _ => PictureRow
  | .pictureCount _ => Int
  | .pictureList .. => PictureRow × FileInfoRow
  | .password _ => Bytes
  | .userId _ => UserRow
  | .userFilesCount _ => Int
  | .userFiles .. => UserFileRow × FileInfoRow

/-- The share key: `md5` followed by `file_name`. -/
def ShareRow.fileid (r : ShareRow) : Bytes := r.md5 ++ r.fileName

/-- `LIMIT start, count`, which takes no negative number. -/
def limit {α : Type} (rows : List α) (start count : Int) : Option (List α) :=
  if start < 0 ∨ count < 0 then none
  else some ((rows.drop start.toNat).take count.toNat)

/-- The rows of `file_info` joined to a row on its md5. -/
def FileInfo.joined {α : Type} (t : FileInfo) (md5 : α → Bytes) (rows : List α) :
    List (α × FileInfoRow) :=
  rows.flatMap fun r => (t.rows.filter fun i => i.md5 = md5 r).map fun i => (r, i)

/-- The result set of a statement, or `none` where MySQL rejects the text. -/
def Select.run (db : Db) : (q : Select) → Option (List q.Row)
  | .userFile u m f => some <|
      db.userFileList.rows.filter fun r => r.key = (cStr u, cStr m, cStr f)
  | .fileInfo m => some <| db.fileInfo.rows.filter fun r => r.md5 = cStr m
  | .share m f => some <|
      db.shareFileList.filter fun r => r.md5 = cStr m ∧ r.fileName = cStr f
  | .shareByPv => some <| db.shareFileList.insertionSort fun a b => b.pv ≤ a.pv
  | .shareCount => some [(db.shareFileList.length : Int)]
  | .shareList start count =>
      limit (FileInfo.joined db.fileInfo ShareRow.md5 db.shareFileList) start count
  | .picture k => some <| db.sharePictureList.filter fun r => r.urlmd5 = cStr k
  | .pictureCount u => some
      [((db.sharePictureList.filter fun r => r.user = cStr u).length : Int)]
  | .pictureList u start count =>
      limit (FileInfo.joined db.fileInfo PictureRow.filemd5
        (db.sharePictureList.filter fun r => r.user = cStr u)) start count
  | .password u => some <|
      (db.userInfo.filter fun r => r.userName = cStr u).map (·.password)
  | .userId u => some <| db.userInfo.filter fun r => r.userName = cStr u
  | .userFilesCount u => some
      [((db.userFileList.rows.filter fun r => r.user = cStr u).length : Int)]
  | .userFiles u start count =>
      limit (FileInfo.joined db.fileInfo UserFileRow.md5
        (db.userFileList.rows.filter fun r => r.user = cStr u)) start count

/-! ## Writing -/

/-- The `INSERT`, `UPDATE` and `DELETE` statements. -/
inductive Dml where
  | insertUserFile (r : UserFileRow)
  | deleteUserFile (user md5 fileName : Bytes)
  | setSharedStatus (v : Int) (user md5 fileName : Bytes)
  | setUserFilePv (v : Int) (user md5 fileName : Bytes)
  | insertFileInfo (r : FileInfoRow)
  | incrCount (md5 : Bytes)
  | decrCount (md5 : Bytes)
  | deleteFileInfo (md5 : Bytes)
  | insertShare (r : ShareRow)
  | deleteShare (user md5 fileName : Bytes)
  | setSharePv (v : Int) (md5 fileName : Bytes)
  | insertPicture (r : PictureRow)
  | incrPicturePv (urlmd5 : Bytes)
  | deletePicture (user urlmd5 : Bytes)
  | insertUser (r : UserRow)
deriving DecidableEq

def Dml.format : Dml → Dml
  | .insertUserFile r => .insertUserFile
      { r with user := cStr r.user, md5 := cStr r.md5,
               createTime := cStr r.createTime, fileName := cStr r.fileName }
  | .deleteUserFile u m f => .deleteUserFile (cStr u) (cStr m) (cStr f)
  | .setSharedStatus v u m f => .setSharedStatus v (cStr u) (cStr m) (cStr f)
  | .setUserFilePv v u m f => .setUserFilePv v (cStr u) (cStr m) (cStr f)
  | .insertFileInfo r => .insertFileInfo
      { r with md5 := cStr r.md5, fileId := cStr r.fileId, url := cStr r.url,
               type := cStr r.type }
  | .incrCount m => .incrCount (cStr m)
  | .decrCount m => .decrCount (cStr m)
  | .deleteFileInfo m => .deleteFileInfo (cStr m)
  | .insertShare r => .insertShare
      { r with user := cStr r.user, md5 := cStr r.md5,
               createTime := cStr r.createTime, fileName := cStr r.fileName }
  | .deleteShare u m f => .deleteShare (cStr u) (cStr m) (cStr f)
  | .setSharePv v m f => .setSharePv v (cStr m) (cStr f)
  | .insertPicture r => .insertPicture
      { r with user := cStr r.user, filemd5 := cStr r.filemd5,
               fileName := cStr r.fileName, urlmd5 := cStr r.urlmd5,
               key := cStr r.key, createTime := cStr r.createTime }
  | .incrPicturePv k => .incrPicturePv (cStr k)
  | .deletePicture u k => .deletePicture (cStr u) (cStr k)
  -- The one prepared statement: its arguments are bound, not printed.
  | .insertUser r => .insertUser r

def UserFileList.setStatus (t : UserFileList) (v : Int) (k : Bytes × Bytes × Bytes) :
    UserFileList :=
  t.updateWhere (fun r => r.key = k) (fun r => { r with sharedStatus := v })
    fun _ => rfl

def UserFileList.setPv (t : UserFileList) (v : Int) (k : Bytes × Bytes × Bytes) :
    UserFileList :=
  t.updateWhere (fun r => r.key = k) (fun r => { r with pv := v }) fun _ => rfl

def FileInfo.addCount (t : FileInfo) (d : Int) (m : Bytes) : FileInfo :=
  t.updateWhere (fun r => r.md5 = m) (fun r => { r with count := r.count + d })
    fun _ => rfl

/-- Run a statement: the affected rows and the new tables, or `none` where a
unique index refuses it. The `ON DUPLICATE KEY` clause of the share insert has
no key to be duplicate in, so it inserts. -/
def Dml.exec (db : Db) : Dml → Option (ℕ × Db)
  | .insertUserFile r =>
      (db.userFileList.insert r).map fun t => (1, { db with userFileList := t })
  | .deleteUserFile u m f => some
      (db.userFileList.rows.countP fun r => r.key = (u, m, f),
        { db with userFileList :=
            db.userFileList.deleteWhere fun r => r.key = (u, m, f) })
  | .setSharedStatus v u m f => some
      (db.userFileList.rows.countP fun r =>
          r.key = (u, m, f) ∧ r.sharedStatus ≠ v,
        { db with userFileList := UserFileList.setStatus db.userFileList v (u, m, f) })
  | .setUserFilePv v u m f => some
      (db.userFileList.rows.countP fun r => r.key = (u, m, f) ∧ r.pv ≠ v,
        { db with userFileList := UserFileList.setPv db.userFileList v (u, m, f) })
  | .insertFileInfo r =>
      (db.fileInfo.insert r).map fun t => (1, { db with fileInfo := t })
  | .incrCount m => some
      (db.fileInfo.rows.countP fun r => r.md5 = m,
        { db with fileInfo := FileInfo.addCount db.fileInfo 1 m })
  | .decrCount m => some
      (db.fileInfo.rows.countP fun r => r.md5 = m,
        { db with fileInfo := FileInfo.addCount db.fileInfo (-1) m })
  | .deleteFileInfo m => some
      (db.fileInfo.rows.countP fun r => r.md5 = m,
        { db with fileInfo := db.fileInfo.deleteWhere fun r => r.md5 = m })
  | .insertShare r => some (1, { db with shareFileList := db.shareFileList ++ [r] })
  | .deleteShare u m f => some
      (db.shareFileList.countP fun r => r.user = u ∧ r.md5 = m ∧ r.fileName = f,
        { db with shareFileList := db.shareFileList.filter fun r =>
            ¬(r.user = u ∧ r.md5 = m ∧ r.fileName = f) })
  | .setSharePv v m f => some
      (db.shareFileList.countP fun r => r.md5 = m ∧ r.fileName = f ∧ r.pv ≠ v,
        { db with shareFileList := db.shareFileList.map fun r =>
            if r.md5 = m ∧ r.fileName = f then { r with pv := v } else r })
  | .insertPicture r => some
      (1, { db with sharePictureList := db.sharePictureList ++ [r] })
  | .incrPicturePv k => some
      (db.sharePictureList.countP fun r => r.urlmd5 = k,
        { db with sharePictureList := db.sharePictureList.map fun r =>
            if r.urlmd5 = k then { r with pv := r.pv + 1 } else r })
  | .deletePicture u k => some
      (db.sharePictureList.countP fun r => r.user = u ∧ r.urlmd5 = k,
        { db with sharePictureList := db.sharePictureList.filter fun r =>
            ¬(r.user = u ∧ r.urlmd5 = k) })
  | .insertUser r =>
      if ∃ r' ∈ db.userInfo, r'.userName = r.userName ∨ r'.nickName = r.nickName then none
      else some (1, { db with userInfo := db.userInfo ++ [r] })

end FileHub
