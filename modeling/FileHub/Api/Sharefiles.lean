import FileHub.Api.Dealfile

/-!
# `api_sharefiles.cc`: the public list and the download ranking

The ranking is read from Redis after its size has been compared with the number
of shares in MySQL; if they differ, both Redis keys are dropped and written
again from the table. The comparison is of sizes only.

`calloc` fails on a negative count and succeeds on any other.
-/

namespace FileHub

open Lib
open Prog (ask)

def encodeSharefilesJson (code total : Int) : JsonValue :=
  if code = 0 then .object [(ascii "code", .int code), (ascii "total", .int total)]
  else .code code

/-- `handleGetSharefilesCount`: the return code with `count`. -/
def handleGetSharefilesCount : Handler (Int × Int) := do
  let db_conn ← getDBConn .filehubSlave
  let result_set ← db_conn.executeQuery Select.shareCount
  match (result_set : Option (List Int)) with
  | none => return (1, 0)
  | some [] => return (0, 0)
  | some (count :: _) => return (0, count)

def decodeShareFileslistJson (root : JsonValue) : Except DecodeError (Int × Int) := do
  let start ← root.field JsonValue.asInt (ascii "start")
  let count ← root.field JsonValue.asInt (ascii "count")
  return (start, count)

/-- A file of the list. `share_status` names no column of the result, and an
unknown column reads as 0. -/
def shareFileJson (row : ShareRow × FileInfoRow) : JsonValue :=
  .object [(ascii "user", .str (cStr row.1.user)), (ascii "md5", .str (cStr row.1.md5)),
    (ascii "file_name", .str (cStr row.1.fileName)), (ascii "share_status", .int 0),
    (ascii "pv", .int row.1.pv), (ascii "create_time", .str (cStr row.1.createTime)),
    (ascii "url", .str (cStr row.2.url)), (ascii "size", .int (getInt row.2.size)),
    (ascii "type", .str (cStr row.2.type))]

def handleGetShareFilelist (start count : Int) : Handler JsonValue := do
  let db_conn ← getDBConn .filehubSlave
  let (status, total) ← handleGetSharefilesCount
  if status = 0 then
    let result_set ← db_conn.executeQuery (Select.shareList start count)
    match (result_set : Option (List (ShareRow × FileInfoRow))) with
    | none => return .code 1
    | some rows =>
        let files := rows.map shareFileJson
        return .object ([(ascii "total", .int total), (ascii "count", .int files.length)] ++
          (if files = [] then [] else [(ascii "files", .array files)]) ++
          [(ascii "code", .int 0)])
  else
    return .code 1

/-! ## The ranking -/

/-- Write the rows of `share_file_list` to the two Redis keys. -/
def importShares (cache_conn : CacheConn) : List ShareRow → Handler Unit
  | [] => return ()
  | row :: rows => do
      let field := shareFileid row.md5 row.fileName
      let _ ← cache_conn.zsetAdd FILE_PUBLIC_ZSET row.pv field
      let _ ← cache_conn.hset FILE_NAME_HASH field row.fileName
      importShares cache_conn rows

/-- Drop the two keys and write them again. -/
def rebuildRanking (db_conn : CDBConn) (cache_conn : CacheConn) : Handler Bool := do
  let _ ← cache_conn.del FILE_PUBLIC_ZSET
  let _ ← cache_conn.del FILE_NAME_HASH
  let result_set ← db_conn.executeQuery Select.shareByPv
  match (result_set : Option (List ShareRow)) with
  | none => return false
  | some rows =>
      importShares cache_conn rows
      return true

/-- The name and score of each member, or `none` where one has no name or
none to read a score from. A score of -1 is taken for the latter. -/
def rankedFiles (cache_conn : CacheConn) : List Bytes → Handler (Option (List JsonValue))
  | [] => return some []
  | value :: values => do
      let (found, filename) ← cache_conn.hget FILE_NAME_HASH value
      if found = 0 then
        let score ← cache_conn.zsetGetScore FILE_PUBLIC_ZSET value
        if score = -1 then
          return none
        else
          let files ← rankedFiles cache_conn values
          return files.map fun files =>
            .object [(ascii "filename", .str filename), (ascii "pv", .int score)] :: files
      else
        return none

/-- Read the page of the ranking from Redis. -/
def readRanking (cache_conn : CacheConn) (start count : Int) :
    Handler (Option (List JsonValue)) :=
  if count < 0 then return none
  else do
    let (found, values) ← cache_conn.zsetZrevrange FILE_PUBLIC_ZSET start (start + count - 1)
    if found = 0 then rankedFiles cache_conn values else return none

/-- The two stores compared, and Redis rebuilt if they differ: the number of
shares, or `none` where the handler leaves for `END`. -/
def syncRanking (db_conn : CDBConn) (cache_conn : CacheConn) : Handler (Option Int) := do
  let (status, sql_num) ← handleGetSharefilesCount
  if status = 0 then
    let redis_num ← cache_conn.zsetZcard FILE_PUBLIC_ZSET
    if redis_num = -1 then
      return none
    else if redis_num = sql_num then
      return some sql_num
    else
      let rebuilt ← rebuildRanking db_conn cache_conn
      return if rebuilt then some sql_num else none
  else
    return none

/-- The page, once the stores agree. -/
def listRanking (cache_conn : CacheConn) (start count : Int) : Option Int → Handler JsonValue
  | none => return .code 1
  | some sql_num => do
      match ← readRanking cache_conn start count with
      | none => return .code 1
      | some files =>
          return .object [(ascii "code", .int 0), (ascii "total", .int sql_num),
            (ascii "count", .int files.length),
            (ascii "files", if files = [] then .null else .array files)]

def handleGetRankingFilelist (start count : Int) : Handler JsonValue := do
  let db_conn ← getDBConn .filehubSlave
  let cache_conn ← getCacheConn .rankingList
  let sql_num ← syncRanking db_conn cache_conn
  listRanking cache_conn start count sql_num

/-! ## The request -/

/-- A command of `ApiSharefiles` that lists. -/
def sharefilesList (parse : Bytes → Option JsonValue) (post_data : Bytes)
    (handler : Int → Int → Handler JsonValue) : Handler (Int × Option JsonValue) :=
  decoded (parsed parse post_data decodeShareFileslistJson)
    (return (0, some (encodeSharefilesJson 1 0))) fun req => do
      let root ← handler req.1 req.2
      return (0, some root)

def apiSharefiles (parse : Bytes → Option JsonValue) (stack url post_data : Bytes) :
    Handler (Int × Option JsonValue) :=
  let cmd := cmdOf stack url
  if cmd = ascii "count" then do
    let (status, total) ← handleGetSharefilesCount
    return (0, some (encodeSharefilesJson status total))
  else if cmd = ascii "normal" then sharefilesList parse post_data handleGetShareFilelist
  else if cmd = ascii "pvdesc" then sharefilesList parse post_data handleGetRankingFilelist
  else return (0, none)

end FileHub
