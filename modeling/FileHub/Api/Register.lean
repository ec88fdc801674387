import FileHub.Api.Common

/-!
# `api_register.cc`
-/

namespace FileHub

open Lib
open Prog (ask)

structure RegisterRequest where
  user_name : Bytes
  nick_name : Bytes
  pwd : Bytes
  phone : Bytes
  email : Bytes

/-- A key the source reads only where it is not null. -/
def JsonValue.optional (root : JsonValue) (key : Bytes) : Except DecodeError Bytes := do
  match ← root.index key with
  | .null => return []
  | v => v.asString

def decodeRegisterJson (root : JsonValue) : Except DecodeError RegisterRequest := do
  let user_name ← root.field JsonValue.asString (ascii "userName")
  let nick_name ← root.field JsonValue.asString (ascii "nickName")
  let pwd ← root.field JsonValue.asString (ascii "firstPwd")
  let phone ← root.optional (ascii "phone")
  let email ← root.optional (ascii "email")
  return ⟨user_name, nick_name, pwd, phone, email⟩

/-- `registerUser`: 0 registered, 1 failed, 2 the name is taken. A failed query
is taken for a free name, and a statement that cannot be prepared leaves 0. -/
def registerUser (req : RegisterRequest) : Handler Int := do
  let db_conn ← getDBConn .filehubMaster
  if db_conn.live then
    let result_set ← db_conn.executeQuery (Select.userId req.user_name)
    match (result_set : Option (List UserRow)) with
    | some (_ :: _) => return 2
    | none | some [] =>
        let create_time : Bytes ← ask Call.localtime
        let prepared ← db_conn.prepare
        if prepared then
          let inserted ← CDBConn.executeStmt (.insertUser ⟨req.user_name, req.nick_name,
            req.pwd, req.phone, req.email, create_time⟩)
          return if inserted then 0 else 1
        else
          return 0
  else
    return 1

def apiRegisterUser (parse : Bytes → Option JsonValue) (post_data : Bytes) :
    Handler (Int × Option JsonValue) :=
  if post_data = [] then return (-1, some (.code 1))
  else decoded (parsed parse post_data decodeRegisterJson)
    (return (-1, some (.code 1))) fun req => do
      let ret ← registerUser req
      return (0, some (.code ret))

end FileHub
