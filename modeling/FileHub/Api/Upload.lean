import FileHub.Api.Common

/-!
# `api_upload.cc`

nginx has stored the file and posts a form with its name, type, temporary path,
md5, size and user. `ApiUpload` scans the form, moves the file into FastDFS and
records it. The form is the whole request: it carries no token.

The scan walks `post_data` with `strstr`, which a NUL stops, and by fixed steps,
which no NUL stops. Where it follows a null result or steps out of `post_data`,
the process reads memory it does not own; the scan is `thrown` there, and the
request a `crash`. `parseForm` leaves the arrays the fields are copied to out;
`scanForm` is the same scan with them.
-/

namespace FileHub

open Lib
open Prog (ask)

/-! ## The form -/

structure UploadForm where
  file_name : Bytes
  file_content_type : Bytes
  file_path : Bytes
  file_md5 : Bytes
  file_size : Bytes
  user : Bytes
deriving DecidableEq

def crlf : Bytes := [13, 10]

/-- `strstr` from a place in `post_data`. A place is what lies between it and
the end; the result is the place found. -/
def strstrFrom (begin pat : Bytes) : Option Bytes :=
  (strstr (cStr begin) pat).map fun found =>
    begin.drop ((cStr begin).length - found.length)

/-- The line that starts two bytes after the next line end, and what follows it. -/
def fieldValue (s : Bytes) : Except DecodeError (Bytes × Bytes) :=
  match strstrFrom s crlf with
  | none => .error .thrown
  | some p2 =>
      if p2.length < 4 then .error .thrown
      else
        let start := p2.drop 4
        match strstrFrom start crlf with
        | none => .error .thrown
        | some stop => .ok (start.take (start.length - stop.length), stop.drop 2)

/-- The value of the next field called `name`. -/
def formField (s name : Bytes) : Except DecodeError (Bytes × Bytes) :=
  match strstrFrom s (ascii "name=\"" ++ name ++ ascii "\"") with
  | none => .error .reject
  | some p2 => fieldValue p2

/-- The first field is looked for like the others, but its value is read from
the start of the search. -/
def fileNameField (s : Bytes) : Except DecodeError (Bytes × Bytes) :=
  match strstrFrom s (ascii "name=\"file_name\"") with
  | none => .error .reject
  | some _ => fieldValue s

/-- The scan of `ApiUpload`. -/
def parseForm (post_data : Bytes) : Except DecodeError UploadForm :=
  match strstrFrom post_data crlf with
  | none => .error .reject
  | some p1 => do
      let (file_name, rest) ← fileNameField (p1.drop 2)
      let (file_content_type, rest) ← formField rest (ascii "file_content_type")
      let (file_path, rest) ← formField rest (ascii "file_path")
      let (file_md5, rest) ← formField rest (ascii "file_md5")
      let (file_size, rest) ← formField rest (ascii "file_size")
      let (user, _) ← formField rest (ascii "user")
      return ⟨file_name, file_content_type, file_path, file_md5, file_size, user⟩

def TEMP_BUF_MAX_LEN : ℕ := 512

/-- `strncpy` into a zeroed array: the string it then holds, `thrown` where no
byte is left for the terminator. -/
def copyInto (size : ℕ) (v : Bytes) : Except DecodeError Bytes :=
  if v.length < size then .ok v else .error .thrown

/-- The scan of `ApiUpload` with its copies: the boundary and the form. -/
def scanForm (post_data : Bytes) : Except DecodeError (Bytes × UploadForm) :=
  match strstrFrom post_data crlf with
  | none => .error .reject
  | some p1 => do
      let boundary ← copyInto TEMP_BUF_MAX_LEN (post_data.take (post_data.length - p1.length))
      let (value, rest) ← fileNameField (p1.drop 2)
      let file_name ← copyInto 128 value
      let (value, rest) ← formField rest (ascii "file_content_type")
      let file_content_type ← copyInto 128 value
      let (value, rest) ← formField rest (ascii "file_path")
      let file_path ← copyInto 128 value
      let (value, rest) ← formField rest (ascii "file_md5")
      let file_md5 ← copyInto 128 value
      let (value, rest) ← formField rest (ascii "file_size")
      let file_size ← copyInto 32 value
      let (value, _) ← formField rest (ascii "user")
      let user ← copyInto 32 value
      return (boundary, ⟨file_name, file_content_type, file_path, file_md5, file_size, user⟩)

def SUFFIX_LEN : ℕ := 8

/-- The path for FastDFS: `GetFileSuffix` and the three `strcat`. -/
def newFilePath (form : UploadForm) : Except DecodeError Bytes := do
  let suffix ← copyInto SUFFIX_LEN (getFileSuffix form.file_name)
  copyInto 128 (form.file_path ++ ascii "." ++ suffix)

/-- `ApiUpload` up to the `rename`: the form and the path. -/
def scanUpload (post_data : Bytes) : Except DecodeError (UploadForm × Bytes) := do
  let (_, form) ← scanForm post_data
  let new_file_path ← newFilePath form
  return (form, new_file_path)

/-! ## Storing -/

/-- The end of `storeFileinfo`: the row of the user. -/
def insertUploaded (db_conn : CDBConn) (user filename md5 : Bytes) (file_exsit : Bool) :
    Handler (Int × Bool) := do
  let create_time : Bytes ← ask Call.localtime
  let inserted ← db_conn.executeCreate
    (.insertUserFile ⟨user, md5, create_time, filename, 0, 0⟩)
  return (if inserted then 0 else -1, file_exsit)

/-- `storeFileinfo`: the return code with `file_exsit`. Any failure of the first
insert is taken to mean that the file is known, and the update that follows
may match no row. -/
def storeFileinfo (db_conn : CDBConn) (user filename md5 : Bytes) (size : Int)
    (fileid fdfs_file_url : Bytes) : Handler (Int × Bool) :=
  scopedFileInfoLock 1000 fun is_locked =>
    if is_locked then do
      let created ← db_conn.executeCreate (.insertFileInfo
        ⟨md5, fileid, fdfs_file_url, size, getFileSuffix filename, 1⟩)
      if created then
        insertUploaded db_conn user filename md5 false
      else
        let updated ← db_conn.executePassQuery (.incrCount md5)
        if updated then insertUploaded db_conn user filename md5 true
        else return (-1, false)
    else
      return (-1, false)

/-- Store the object's data, and take the object back if it was not needed. -/
def storeUpload (db_conn : CDBConn) (form : UploadForm) (fileid url : Bytes) :
    Handler Int := do
  let (ret, file_exsit) ← storeFileinfo db_conn form.user form.file_name form.file_md5
    (strtol form.file_size) fileid url
  if ret < 0 ∨ file_exsit then
    let _ ← removeFileFromFastDfs fileid
    return ret
  else
    return ret

/-- `getFullUrlByFileid`: the url, if the storage server knows the object. -/
def getFullUrlByFileid (storage_web_server_ip fileid : Bytes) : Handler (Option Bytes) :=
  if storage_web_server_ip = [] then return none
  else do
    let known : Bool ← ask (Call.fdfsFileInfo fileid)
    return if known then
      some (ascii "http://" ++ storage_web_server_ip ++ ascii "/" ++ fileid)
    else none

/-- `ApiUpload` after the scan: 0, or -1. -/
def uploadForm (storage_web_server_ip : Bytes) (db_conn : CDBConn) (form : UploadForm) :
    Handler Int := do
  let new_file_path := form.file_path ++ ascii "." ++ getFileSuffix form.file_name
  let renamed : Bool ← ask (Call.rename form.file_path new_file_path)
  if renamed then
    let uploaded : Option Bytes ← ask (Call.fdfsUpload new_file_path)
    let _ : Bool ← ask (Call.unlink new_file_path)
    match uploaded with
    | none => return -1
    | some fileid =>
        match ← getFullUrlByFileid storage_web_server_ip fileid with
        | none => return -1
        | some url => storeUpload db_conn form fileid url
  else
    return -1

/-- The answer to a return code of `ApiUpload`. -/
def uploadAnswer (ret : Int) : Int × Option JsonValue :=
  if ret < 0 then (-1, some (.code 1)) else (0, some (.code 0))

def apiUpload (storage_web_server_ip post_data : Bytes) :
    Handler (Int × Option JsonValue) := do
  let db_conn ← getDBConn .filehubMaster
  decoded (parseForm post_data) (return uploadAnswer (-1)) fun form => do
    let ret ← uploadForm storage_web_server_ip db_conn form
    return uploadAnswer ret

end FileHub
