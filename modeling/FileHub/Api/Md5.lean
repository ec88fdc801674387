import FileHub.Api.Common

/-!
# `api_md5.cc`: the instant upload

The `if` around the counter's update leaves for `END` on both branches, with
`Md5Failed` on both. What the source has after it, the insertion of the user's
row and the recovery of the counter, cannot be reached and is not modelled.
-/

namespace FileHub

open Lib
open Prog (ask)

/-- `Md5State`. -/
inductive Md5State where
  | md5Ok
  | md5Failed
  | md5TokenFaild
  | md5FileExist
deriving DecidableEq

def Md5State.toInt : Md5State → Int
  | .md5Ok => 0
  | .md5Failed => 1
  | .md5TokenFaild => 4
  | .md5FileExist => 5

def decodeMd5Json := decodeFileRequest

/-- The counter under the lock. Every way out of the block is a failure. -/
def countMd5 (db_conn : CDBConn) (md5 : Bytes) : Handler Md5State :=
  scopedFileInfoLock 1000 fun is_locked =>
    if is_locked then do
      let _ ← db_conn.executePassQuery (.incrCount md5)
      return .md5Failed
    else
      return .md5Failed

def handleDealMd5 (user md5 filename : Bytes) : Handler Md5State := do
  let db_conn ← getDBConn .filehubMaster
  let _ ← getCacheConn .token
  let ret ← checkwhetherHaveRecord db_conn (.userFile user md5 filename)
  if ret = 1 then
    return .md5FileExist
  else
    countMd5 db_conn md5

/-- `ApiMd5`. A bad token is answered with the general failure code. -/
def apiMd5 (parse : Bytes → Option JsonValue) (post_data : Bytes) :
    Handler (Int × Option JsonValue) :=
  decoded (parsed parse post_data decodeMd5Json)
    (return (0, some (.code Md5State.md5Failed.toInt))) fun req => do
      let ret ← verifyToken req.user req.token
      if ret = 0 then
        let md5_state ← handleDealMd5 (cStr req.user) (cStr req.md5) (cStr req.filename)
        return (0, some (.code md5_state.toInt))
      else
        return (0, some (.code HTTP_RESP_FAIL))

end FileHub
