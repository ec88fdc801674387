import FileHub.Api.Common

/-!
# `api_login.cc`
-/

namespace FileHub

open Lib
open Prog (ask)

/-! ## The token -/

def hexDigit (n : ℕ) : UInt8 := if n < 10 then (48 + n).toUInt8 else (87 + n).toUInt8

def hexByte (b : UInt8) : Bytes := [hexDigit (b.toNat / 16), hexDigit (b.toNat % 16)]

/-- `uuid_unparse`: lower-case hexadecimal digits in five groups. -/
def uuidUnparse (uuid : Fin 16 → UInt8) : Bytes :=
  (List.finRange 16).flatMap fun i =>
    (if i.val = 4 ∨ i.val = 6 ∨ i.val = 8 ∨ i.val = 10 then [45] else []) ++
      hexByte (uuid i)

def generateUUID : Handler Bytes := do
  let uuid : Fin 16 → UInt8 ← ask Call.uuid
  return uuidUnparse uuid

/-- `setToken`: the return code with the token. What `SetEx` returned is not
looked at. -/
def setToken (user_name : Bytes) : Handler (Int × Bytes) := do
  let cache_conn ← getCacheConn .token
  let token ← generateUUID
  if cache_conn.live then
    let _ ← cache_conn.setEx token 86400 user_name
    return (0, token)
  else
    return (-1, token)

/-! ## The request -/

def decodeLoginJson (root : JsonValue) : Except DecodeError (Bytes × Bytes) := do
  let user_name ← root.field JsonValue.asString (ascii "user")
  let pwd ← root.field JsonValue.asString (ascii "pwd")
  return (user_name, pwd)

def encodeLoginJson (code : Int) (token : Bytes) : JsonValue :=
  if code = 0 then .object [(ascii "code", .int code), (ascii "token", .str token)]
  else .code code

/-- `verifyUserPassword`: 0 if the stored password is the one given, else -1. -/
def verifyUserPassword (user_name pwd : Bytes) : Handler Int := do
  let db_conn ← getDBConn .filehubSlave
  let result_set ← db_conn.executeQuery (Select.password user_name)
  match (result_set : Option (List Bytes)) with
  | none | some [] => return -1
  | some (password :: _) => return if cStr password = pwd then 0 else -1

def apiUserLogin (parse : Bytes → Option JsonValue) (post_data : Bytes) :
    Handler (Int × JsonValue) :=
  let failed : Int × JsonValue := (-1, encodeLoginJson 1 [])
  if post_data = [] then return failed
  else decoded (parsed parse post_data decodeLoginJson) (return failed) fun req => do
    let verified ← verifyUserPassword req.1 req.2
    if verified < 0 then
      return failed
    else
      let (set, token) ← setToken req.1
      if set < 0 then return failed else return (0, encodeLoginJson 0 token)

end FileHub
