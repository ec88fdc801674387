import FileHub.Api.Common

/-!
# `api_myfiles.cc`: a user's own files
-/

namespace FileHub

open Lib
open Prog (ask)

def decodeCountJson (root : JsonValue) : Except DecodeError (Bytes × Bytes) := do
  let user_name ← root.field JsonValue.asString (ascii "user")
  let token ← root.field JsonValue.asString (ascii "token")
  return (user_name, token)

def encodeCountJson (ret total : Int) : JsonValue :=
  if ret = 0 then .object [(ascii "code", .int ret), (ascii "total", .int total)]
  else .code ret

def encodeGetFileListFailedJson : JsonValue := .code 1

/-- `getUserFilesCount`: the return code with `count`. -/
def getUserFilesCount (db_conn : CDBConn) (user_name : Bytes) : Handler (Int × Int) := do
  let result_set ← db_conn.executeQuery (Select.userFilesCount user_name)
  match (result_set : Option (List Int)) with
  | none | some [] => return (-1, 0)
  | some (count :: _) => return (0, count)

def handleUserFilesCount (user_name : Bytes) : Handler (Int × Int) := do
  let db_conn ← getDBConn .filehubSlave
  getUserFilesCount db_conn user_name

structure FileListRequest where
  user_name : Bytes
  token : Bytes
  start : Int
  count : Int

def decodeFileslistJson (root : JsonValue) : Except DecodeError FileListRequest := do
  let user_name ← root.field JsonValue.asString (ascii "user")
  let token ← root.field JsonValue.asString (ascii "token")
  let start ← root.field JsonValue.asInt (ascii "start")
  let count ← root.field JsonValue.asInt (ascii "count")
  return ⟨user_name, token, start, count⟩

def userFileJson (row : UserFileRow × FileInfoRow) : JsonValue :=
  .object [(ascii "user", .str (cStr row.1.user)), (ascii "md5", .str (cStr row.1.md5)),
    (ascii "create_time", .str (cStr row.1.createTime)),
    (ascii "file_name", .str (cStr row.1.fileName)),
    (ascii "share_status", .int row.1.sharedStatus), (ascii "pv", .int row.1.pv),
    (ascii "url", .str (cStr row.2.url)), (ascii "size", .int (getInt row.2.size)),
    (ascii "type", .str (cStr row.2.type))]

/-- `getUserFileList`. Its return code is not looked at. -/
def getUserFileList (user_name : Bytes) (start count : Int) : Handler JsonValue := do
  let db_conn ← getDBConn .filehubSlave
  let (ret, total) ← getUserFilesCount db_conn user_name
  if ret < 0 then
    return .code 1
  else if total = 0 then
    return .object [(ascii "code", .int 0), (ascii "count", .int 0), (ascii "total", .int 0)]
  else
    let result_set ← db_conn.executeQuery (Select.userFiles user_name start count)
    match (result_set : Option (List (UserFileRow × FileInfoRow))) with
    | none => return .code 1
    | some rows =>
        let files := rows.map userFileJson
        return .object [(ascii "code", .int 0), (ascii "total", .int total),
          (ascii "files", if files = [] then .null else .array files),
          (ascii "count", .int files.length)]

/-- `ApiMyfiles`: each command decodes, checks the token and lists. -/
def apiMyfiles (parse : Bytes → Option JsonValue) (stack url post_data : Bytes) :
    Handler (Int × Option JsonValue) :=
  let cmd := cmdOf stack url
  if cmd = ascii "count" then
    decoded (parsed parse post_data decodeCountJson)
      (return (-1, some (encodeCountJson 1 0))) fun req => do
        let ret ← verifyToken req.1 req.2
        if ret < 0 then
          return (-1, some (encodeCountJson 1 0))
        else
          let (ret, total_count) ← handleUserFilesCount req.1
          return (ret, some (if ret < 0 then encodeCountJson 1 0
            else encodeCountJson 0 total_count))
  else if cmd = ascii "normal" then
    decoded (parsed parse post_data decodeFileslistJson)
      (return (-1, some encodeGetFileListFailedJson)) fun req => do
        let ret ← verifyToken req.user_name req.token
        if ret < 0 then
          return (-1, some encodeGetFileListFailedJson)
        else
          let root ← getUserFileList req.user_name req.start req.count
          return (0, some root)
  else return (0, some encodeGetFileListFailedJson)

end FileHub
