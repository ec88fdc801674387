import FileHub.Lib.CInt
import FileHub.Model.Json

/-!
# `api_common.cc`

What the API functions share: the token check, the two helpers that run a
`SELECT` for its first row, the url parameter lookup, and the small string
functions the upload uses.
-/

namespace FileHub

open Lib
open Prog (ask)

def FILE_PUBLIC_ZSET : Bytes := ascii "FILE_PUBLIC_ZSET"

def FILE_NAME_HASH : Bytes := ascii "FILE_NAME_HASH"

def HTTP_RESP_OK : Int := 0

def HTTP_RESP_FAIL : Int := 1

def HTTP_RESP_TOKEN_ERR : Int := 4

/-- `VerifyToken`: 0 if Redis maps the token to the user, -1 otherwise. -/
def verifyToken (user_name token : Bytes) : Handler Int := do
  let cache_conn ← getCacheConn .token
  if cache_conn.live then
    let temp_user_name ← cache_conn.get token
    if temp_user_name = user_name then return 0 else return -1
  else
    return -1

/-- `GetResultOneStatus`: the return code with `shared_status`. A failed query
is logged and its null result set read all the same. -/
def getResultOneStatus (db_conn : CDBConn) (user md5 filename : Bytes) :
    Handler (Int × Int) := do
  let result_set ← db_conn.executeQuery (Select.userFile user md5 filename)
  match (result_set : Option (List UserFileRow)) with
  | none => crash
  | some [] => return (-1, 0)
  | some (row :: _) => return (0, row.sharedStatus)

/-- `CheckwhetherHaveRecord`: -1 failed, 0 no row, 1 some row. -/
def checkwhetherHaveRecord (db_conn : CDBConn) (q : Select) : Handler Int := do
  match ← db_conn.executeQuery q with
  | none => return -1
  | some [] => return 0
  | some (_ :: _) => return 1

/-- The fields a request about one file of a user carries. -/
structure FileRequest where
  user : Bytes
  token : Bytes
  md5 : Bytes
  filename : Bytes

/-- The decoder that `api_md5.cc` and `api_dealfile.cc` each have a copy of. -/
def decodeFileRequest (root : JsonValue) : Except DecodeError FileRequest := do
  let user ← root.field JsonValue.asString (ascii "user")
  let token ← root.field JsonValue.asString (ascii "token")
  let md5 ← root.field JsonValue.asString (ascii "md5")
  let filename ← root.field JsonValue.asString (ascii "filename")
  return ⟨user, token, md5, filename⟩

/-- `RemoveFileFromFastDfs`, by whether it returned 0. -/
def removeFileFromFastDfs (fileid : Bytes) : Handler Bool :=
  ask (Call.fdfsDelete fileid)

/-- `CResultSet::GetInt` on the text of an integer column. It makes a difference
for `size` alone: the other columns are `int`. -/
def getInt (column : Int) : Int := atoi (intText column)

/-- How a parameter lookup ends: the key does not occur, it occurs with a
value, it ends the string, and the scan for the value starts past the
terminator, or the value is too long for the `int` that counts it. -/
inductive QueryValue where
  | absent
  | value (v : Bytes)
  | pastEnd
  | tooLong
deriving DecidableEq

/-- `QueryParseKeyValue` on the C string `query`. -/
def queryParseKeyValue (query key : Bytes) : QueryValue :=
  match strstr query key with
  | none => .absent
  | some temp =>
      if temp.length ≤ key.length then .pastEnd
      else
        let value := (temp.drop (key.length + 1)).takeWhile fun b => b != 35 && b != 38
        if value.length ≤ INT_MAX then .value value else .tooLong

/-- What `cmd` holds after the lookup, whose result the callers ignore. The
buffer is not initialised: without a value it holds what `stack` says. -/
def cmdOf (stack url : Bytes) : Bytes :=
  match queryParseKeyValue (cStr url) (ascii "cmd") with
  | .value v => v
  | .absent | .pastEnd | .tooLong => cStr stack

/-- The scan of `GetFileSuffix`: back from `k` to a dot or to the start. -/
def scanDot (file_name : Bytes) : ℕ → ℕ
  | 0 => 0
  | k + 1 => if file_name[k + 1]? = some 46 then k + 1 else scanDot file_name k

/-- `GetFileSuffix`: what follows the last dot, or `null`. -/
def getFileSuffix (file_name : Bytes) : Bytes :=
  let k := scanDot file_name file_name.length
  if file_name[k]? = some 46 then
    if file_name.length - (k + 1) ≠ 0 then file_name.drop (k + 1) else ascii "null"
  else ascii "null"

/-- `RandomString`: letters drawn from `rand()`. -/
def randomString : ℕ → Handler Bytes
  | 0 => return []
  | len + 1 => do
      let n : ℕ ← ask Call.rand
      let rest ← randomString len
      return (97 + n % 26).toUInt8 :: rest

end FileHub
