import FileHub.Api.Common
import FileHub.Lib.CInt

/-!
# `api_dealfile.cc`: sharing, deleting and counting a user's own file

The handlers keep the order of the source's statements and each of its exits.
A `goto END` is a `return` in the branch that takes it; where a block is left
that way from the middle, the block is a definition of its own.
-/

namespace FileHub

open Lib
open Prog (ask)

/-! ## Sharing -/

/-- `sprintf(fileid, "%s%s", md5, filename)`. -/
def shareFileid (md5 filename : Bytes) : Bytes := cStr md5 ++ cStr filename

def shareLockKey (fileid : Bytes) : Bytes := ascii "share_lock:" ++ fileid

/-- The lock loop: `Set` until it returns something, at most so many times. The
key is written whether or not it was there. -/
def acquireShareLock (cache_conn : CacheConn) (lock_key lock_val : Bytes) :
    ℕ → Handler Bool
  | 0 => return false
  | attempts + 1 => do
      let r ← cache_conn.set lock_key lock_val
      if r ≠ [] then
        let _ ← cache_conn.setEx lock_key 10 lock_val
        return true
      else
        acquireShareLock cache_conn lock_key lock_val attempts

/-- Write a share to Redis: score 0 and the name. -/
def publishShare (cache_conn : CacheConn) (fileid filename : Bytes) : Handler Unit := do
  let _ ← cache_conn.zsetAdd FILE_PUBLIC_ZSET 0 fileid
  let _ ← cache_conn.hset FILE_NAME_HASH fileid filename

/-- What `handleShareFile` does between taking and releasing the lock. -/
def shareLocked (db_conn : CDBConn) (cache_conn : CacheConn)
    (user md5 filename : Bytes) : Handler Int := do
  let fileid := shareFileid md5 filename
  let ret ← cache_conn.zsetExist FILE_PUBLIC_ZSET fileid
  if ret = 1 then
    return 3
  else
    let ret ← checkwhetherHaveRecord db_conn (.share md5 filename)
    if ret = 1 then
      publishShare cache_conn fileid filename
      return 3
    else
      let updated ← db_conn.executeUpdate (.setSharedStatus 1 user md5 filename) false
      if updated then
        let create_time : Bytes ← ask Call.localtime
        let inserted ← db_conn.executeCreate
          (.insertShare ⟨user, md5, create_time, filename, 0⟩)
        if inserted then
          publishShare cache_conn fileid filename
          return 0
        else
          -- The insert failed, but the record may be there all the same.
          let ret ← checkwhetherHaveRecord db_conn (.share md5 filename)
          if ret = 1 then
            publishShare cache_conn fileid filename
            return 0
          else
            return 1
      else
        return 1

def handleShareFile (user md5 filename : Bytes) : Handler Int := do
  let db_conn ← getDBConn .filehubMaster
  let cache_conn ← getCacheConn .rankingList
  let lock_key := shareLockKey (shareFileid md5 filename)
  let now : ℕ ← ask Call.time
  let lock_ok ← acquireShareLock cache_conn lock_key (decimal now) 10
  if lock_ok then
    let share_state ← shareLocked db_conn cache_conn user md5 filename
    let _ ← cache_conn.del lock_key
    return share_state
  else
    return 1

/-! ## Deleting -/

/-- Take the file out of the shares, for a row whose `shared_status` is 1. -/
def deleteShared (db_conn : CDBConn) (cache_conn : CacheConn)
    (user md5 filename : Bytes) : Handler Bool := do
  let fileid := shareFileid md5 filename
  let _ ← cache_conn.zsetZrem FILE_PUBLIC_ZSET fileid
  let _ ← cache_conn.hdel FILE_NAME_HASH fileid
  db_conn.executeDrop (.deleteShare user md5 filename)

/-- The block under the lock: the count and file id it read, both zero when
the lock timed out, or `none` where it leaves for `END`. -/
def dropReference (db_conn : CDBConn) (md5 : Bytes) : Handler (Option (Int × Bytes)) :=
  scopedFileInfoLock 1000 fun is_locked =>
    if is_locked then do
      let result_set ← db_conn.executeQuery (Select.fileInfo md5)
      match (result_set : Option (List FileInfoRow)) with
      | none | some [] => return none
      | some (row :: _) =>
          if 1 < row.count then
            let updated ← db_conn.executeUpdate (.decrCount md5)
            return if updated then some (row.count, row.fileId) else none
          else if row.count = 1 then
            let dropped ← db_conn.executeDrop (.deleteFileInfo md5)
            return if dropped then some (row.count, row.fileId) else none
          else
            return some (row.count, row.fileId)
    else
      return some (0, [])

/-- Delete the row, give up the reference, and remove the object if it was the
last one. -/
def deleteOwned (db_conn : CDBConn) (user md5 filename : Bytes) : Handler Int := do
  let dropped ← db_conn.executeDrop (.deleteUserFile user md5 filename)
  if dropped then
    match ← dropReference db_conn md5 with
    | none => return 1
    | some (count, file_id) =>
        if count = 1 then
          let removed ← removeFileFromFastDfs file_id
          return if removed then 0 else 1
        else
          return 0
  else
    return 1

def handleDeleteFile (user md5 filename : Bytes) : Handler Int := do
  let db_conn ← getDBConn .filehubMaster
  let cache_conn ← getCacheConn .rankingList
  let (ret, shared_status) ← getResultOneStatus db_conn user md5 filename
  if ret = 0 then
    if shared_status = 1 then
      let dropped ← deleteShared db_conn cache_conn user md5 filename
      if dropped then deleteOwned db_conn user md5 filename else return 1
    else
      deleteOwned db_conn user md5 filename
  else
    return 1

/-! ## Counting a download -/

def Dealfile.handlePvFile (user md5 filename : Bytes) : Handler Int := do
  let db_conn ← getDBConn .filehubMaster
  let result_set ← db_conn.executeQuery (Select.userFile user md5 filename)
  match (result_set : Option (List UserFileRow)) with
  | none | some [] => return 1
  | some (row :: _) =>
      let updated ← db_conn.executeUpdate
        (.setUserFilePv (asInt (row.pv + 1)) user md5 filename)
      return if updated then 0 else 1

/-! ## The request -/

def decodeDealfileJson := decodeFileRequest

/-- A command of `ApiDealfile`: decode, check the token, run its handler. -/
def dealfileCommand (parse : Bytes → Option JsonValue) (post_data : Bytes)
    (handler : Bytes → Bytes → Bytes → Handler Int) :
    Handler (Int × Option JsonValue) :=
  decoded (parsed parse post_data decodeDealfileJson)
    (return (-1, some (.code 1))) fun req => do
      let ret ← verifyToken req.user req.token
      if ret = 0 then
        let ret ← handler req.user req.md5 req.filename
        return (0, some (.code ret))
      else
        return (-1, some (.code HTTP_RESP_TOKEN_ERR))

/-- `ApiDealfile`: its return code, with the answer if it wrote one. -/
def apiDealfile (parse : Bytes → Option JsonValue) (stack url post_data : Bytes) :
    Handler (Int × Option JsonValue) :=
  let cmd := cmdOf stack url
  if cmd = ascii "share" then dealfileCommand parse post_data handleShareFile
  else if cmd = ascii "del" then dealfileCommand parse post_data handleDeleteFile
  else if cmd = ascii "pv" then dealfileCommand parse post_data Dealfile.handlePvFile
  else return (0, none)

end FileHub
