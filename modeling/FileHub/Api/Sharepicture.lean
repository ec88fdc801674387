import FileHub.Api.Common
import FileHub.Lib.CInt

/-!
# `api_sharepicture.cc`: shared pictures

Two of the decoders require a `token` field; no handler looks at it.
-/

namespace FileHub

open Lib
open Prog (ask)

/-! ## Sharing -/

/-- `decodeSharePictureJson` reads the token first. -/
def decodeSharePictureJson (root : JsonValue) : Except DecodeError FileRequest := do
  let token ← root.field JsonValue.asString (ascii "token")
  let user ← root.field JsonValue.asString (ascii "user")
  let md5 ← root.field JsonValue.asString (ascii "md5")
  let filename ← root.field JsonValue.asString (ascii "filename")
  return ⟨user, token, md5, filename⟩

def encodeSharePictureJson (code : Int) (urlmd5 : Bytes) : JsonValue :=
  if code = HTTP_RESP_OK then
    .object [(ascii "code", .int code), (ascii "urlmd5", .str urlmd5)]
  else .code code

/-- `handleSharePicture`, which writes through a connection of the slave pool. -/
def handleSharePicture (user filemd5 file_name : Bytes) : Handler JsonValue := do
  let db_conn ← getDBConn .filehubSlave
  let urlmd5 ← randomString 32
  let create_time : Bytes ← ask Call.localtime
  let inserted ← db_conn.executeCreate
    (.insertPicture ⟨user, filemd5, file_name, urlmd5, [], 0, create_time⟩)
  return encodeSharePictureJson (if inserted then HTTP_RESP_OK else HTTP_RESP_FAIL) urlmd5

/-! ## Browsing -/

def decodeBrowsePictureJson (root : JsonValue) : Except DecodeError Bytes :=
  root.field JsonValue.asString (ascii "urlmd5")

/-- The body of `handleBrowsePicture`: the answer it writes. -/
def browsedPicture (urlmd5 : Bytes) : Handler JsonValue := do
  let db_conn ← getDBConn .filehubMaster
  let result_set ← db_conn.executeQuery (Select.picture urlmd5)
  match (result_set : Option (List PictureRow)) with
  | none | some [] => return .code HTTP_RESP_FAIL
  | some (picture :: _) =>
      let result_set ← db_conn.executeQuery (Select.fileInfo picture.filemd5)
      match (result_set : Option (List FileInfoRow)) with
      | none | some [] => return .code HTTP_RESP_FAIL
      | some (file :: _) =>
          let updated ← db_conn.executeUpdate (.incrPicturePv urlmd5)
          return if updated then
            .object [(ascii "code", .int HTTP_RESP_OK), (ascii "pv", .int (asInt (picture.pv + 1))),
              (ascii "url", .str (cStr file.url)), (ascii "user", .str (cStr picture.user)),
              (ascii "time", .str (cStr picture.createTime))]
          else .code HTTP_RESP_FAIL

/-- `handleBrowsePicture`, an `int` function with no `return`. Flowing off its end
is undefined, and the release build aborts there. -/
def handleBrowsePicture (urlmd5 : Bytes) : Handler JsonValue := do
  let _ ← browsedPicture urlmd5
  crash

/-! ## Listing -/

structure PictureListRequest where
  user : Bytes
  token : Bytes
  start : Int
  count : Int

def decodePictureListJson (root : JsonValue) : Except DecodeError PictureListRequest := do
  let token ← root.field JsonValue.asString (ascii "token")
  let user ← root.field JsonValue.asString (ascii "user")
  let start ← root.field JsonValue.asInt (ascii "start")
  let count ← root.field JsonValue.asInt (ascii "count")
  return ⟨user, token, start, count⟩

/-- `DBGetSharePictureCountByUsername` through `getSharePicturesCount`: the
return code with the count. -/
def getSharePicturesCount (db_conn : CDBConn) (user_name : Bytes) : Handler (Int × Int) := do
  let result_set ← db_conn.executeQuery (Select.pictureCount user_name)
  match (result_set : Option (List Int)) with
  | none => return (-1, 0)
  | some [] => return (0, 0)
  | some (count :: _) => return (0, count)

def pictureJson (row : PictureRow × FileInfoRow) : JsonValue :=
  .object [(ascii "user", .str (cStr row.1.user)),
    (ascii "filemd5", .str (cStr row.1.filemd5)),
    (ascii "file_name", .str (cStr row.1.fileName)),
    (ascii "urlmd5", .str (cStr row.1.urlmd5)), (ascii "pv", .int row.1.pv),
    (ascii "create_time", .str (cStr row.1.createTime)), (ascii "size", .int (getInt row.2.size))]

/-- `handleGetSharePicturesList`. The failure code is written to a local `root`
that shadows the answer's, so a failed request is answered with null. -/
def handleGetSharePicturesList (user : Bytes) (start count : Int) : Handler JsonValue := do
  let db_conn ← getDBConn .filehubSlave
  let (counted, total) ← getSharePicturesCount db_conn user
  if counted < 0 then
    return .null
  else
    let result_set ← db_conn.executeQuery (Select.pictureList user start count)
    match (result_set : Option (List (PictureRow × FileInfoRow))) with
    | none => return .null
    | some rows =>
        let files := rows.map pictureJson
        return .object ((if files = [] then [] else [(ascii "files", .array files)]) ++
          [(ascii "code", .int 0), (ascii "count", .int files.length),
            (ascii "total", .int total)])

/-! ## Cancelling -/

def decodeCancelPictureJson (root : JsonValue) : Except DecodeError (Bytes × Bytes) := do
  let user_name ← root.field JsonValue.asString (ascii "user")
  let urlmd5 ← root.field JsonValue.asString (ascii "urlmd5")
  return (user_name, urlmd5)

def handleCancelSharePicture (user urlmd5 : Bytes) : Handler JsonValue := do
  let db_conn ← getDBConn .filehubMaster
  let deleted ← db_conn.executePassQuery (.deletePicture user urlmd5)
  return .code (if deleted then HTTP_RESP_OK else HTTP_RESP_FAIL)

/-! ## The request -/

/-- A command of `ApiSharepicture`: decode and run its handler. -/
def sharepictureCommand {α : Type} (parse : Bytes → Option JsonValue) (post_data : Bytes)
    (decode : JsonValue → Except DecodeError α) (failed : JsonValue)
    (handler : α → Handler JsonValue) : Handler (Int × Option JsonValue) :=
  decoded (parsed parse post_data decode) (return (0, some failed)) fun req => do
    let root ← handler req
    return (0, some root)

def apiSharepicture (parse : Bytes → Option JsonValue) (stack url post_data : Bytes) :
    Handler (Int × Option JsonValue) :=
  let cmd := cmdOf stack url
  let failed := encodeSharePictureJson HTTP_RESP_FAIL []
  if cmd = ascii "share" then
    sharepictureCommand parse post_data decodeSharePictureJson failed fun req =>
      handleSharePicture (cStr req.user) (cStr req.md5) (cStr req.filename)
  else if cmd = ascii "browse" then
    sharepictureCommand parse post_data decodeBrowsePictureJson failed fun urlmd5 =>
      handleBrowsePicture (cStr urlmd5)
  else if cmd = ascii "normal" then
    sharepictureCommand parse post_data decodePictureListJson failed fun req =>
      handleGetSharePicturesList (cStr req.user) req.start req.count
  else if cmd = ascii "cancel" then
    -- In theory this needs a token, says the source.
    sharepictureCommand parse post_data decodeCancelPictureJson (.code 1) fun req =>
      handleCancelSharePicture (cStr req.1) (cStr req.2)
  else return (0, none)

end FileHub
