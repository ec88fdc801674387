import FileHub.Api.Dealfile

/-!
# `api_deal_sharefile.cc`: cancelling, saving and counting a shared file

None of the three commands asks for a token: the request names a user and is
believed.
-/

namespace FileHub

open Lib
open Prog (ask)

/-- `handleCancelShareFile`. It ends in 0 only if `ret` is, and the last call to
write `ret` is `Hdel`, which returns the number of fields it removed. -/
def handleCancelShareFile (user_name md5 filename : Bytes) : Handler Int := do
  let db_conn ← getDBConn .filehubMaster
  let cache_conn ← getCacheConn .rankingList
  let fileid := shareFileid md5 filename
  let updated ← db_conn.executeUpdate
    (.setSharedStatus 0 user_name md5 filename) false
  if updated then
    let dropped ← db_conn.executeDrop (.deleteShare user_name md5 filename)
    if dropped then
      let ret ← cache_conn.zsetZrem FILE_PUBLIC_ZSET fileid
      if ret = 0 then
        let ret ← cache_conn.hdel FILE_NAME_HASH fileid
        return if ret = 0 then 0 else 1
      else
        return 1
    else
      return 1
  else
    return 1

/-- The counter under the lock, in `handleSaveFile`. -/
def countSaved (db_conn : CDBConn) (md5 : Bytes) : Handler Bool :=
  scopedFileInfoLock 1000 fun is_locked =>
    if is_locked then db_conn.executeUpdate (.incrCount md5) else return false

/-- `handleSaveFile`: 0 saved, 5 the user has the file, 1 failed. -/
def handleSaveFile (user_name md5 filename : Bytes) : Handler Int := do
  let db_conn ← getDBConn .filehubMaster
  let ret ← checkwhetherHaveRecord db_conn (.userFile user_name md5 filename)
  if ret = 1 then
    return 5
  else
    let counted ← countSaved db_conn md5
    if counted then
      let creat_time : Bytes ← ask Call.localtime
      let inserted ← db_conn.executeCreate
        (.insertUserFile ⟨user_name, md5, creat_time, filename, 0, 0⟩)
      return if inserted then 0 else 1
    else
      return 1

/-- Bring the ranking up to a new download count. -/
def countRanking (cache_conn : CacheConn) (pv : Int) (md5 filename : Bytes) :
    Handler Int := do
  let fileid := shareFileid md5 filename
  let ret ← cache_conn.zsetExist FILE_PUBLIC_ZSET fileid
  if ret < 0 then
    return 1
  else if ret = 0 then
    let ret ← cache_conn.zsetAdd FILE_PUBLIC_ZSET (asInt (pv + 1)) fileid
    if ret = 0 then
      let _ ← cache_conn.hset FILE_NAME_HASH fileid filename
      return 0
    else
      return 1
  else
    let ret ← cache_conn.zsetIncr FILE_PUBLIC_ZSET fileid
    return if ret = 0 then 0 else 1

def DealSharefile.handlePvFile (md5 filename : Bytes) : Handler Int := do
  let db_conn ← getDBConn .filehubMaster
  let cache_conn ← getCacheConn .rankingList
  let result_set ← db_conn.executeQuery (Select.share md5 filename)
  match (result_set : Option (List ShareRow)) with
  | none | some [] => return 1
  | some (row :: _) =>
      let updated ← db_conn.executeUpdate
        (.setSharePv (asInt (row.pv + 1)) md5 filename) false
      if updated then countRanking cache_conn row.pv md5 filename else return 1

/-! ## The request -/

structure ShareRequest where
  user : Bytes
  md5 : Bytes
  filename : Bytes

def decodeDealsharefileJson (root : JsonValue) : Except DecodeError ShareRequest := do
  let user ← root.field JsonValue.asString (ascii "user")
  let md5 ← root.field JsonValue.asString (ascii "md5")
  let filename ← root.field JsonValue.asString (ascii "filename")
  return ⟨user, md5, filename⟩

/-- The command's handler; an unknown command leaves the decoder's 0. -/
def dealsharefileCommand (cmd : Bytes) (req : ShareRequest) : Handler Int :=
  if cmd = ascii "cancel" then handleCancelShareFile req.user req.md5 req.filename
  else if cmd = ascii "save" then handleSaveFile req.user req.md5 req.filename
  else if cmd = ascii "pv" then DealSharefile.handlePvFile req.md5 req.filename
  else return 0

/-- `ApiDealsharefile`. Only a negative result is answered with 1, and no
handler returns one. -/
def apiDealsharefile (parse : Bytes → Option JsonValue) (stack url post_data : Bytes) :
    Handler (Int × Option JsonValue) :=
  let cmd := cmdOf stack url
  decoded (parsed parse post_data decodeDealsharefileJson)
    (return (0, some (.code 1))) fun req => do
      let ret ← dealsharefileCommand cmd req
      return (0, some (.code (if ret < 0 then 1 else 0)))

end FileHub
