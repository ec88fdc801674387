import FileHub.Lib.SqlText
import FileHub.Model.World

/-!
# The SQL text the handlers print

Every statement but the one that registers a user is text, printed by `sprintf`
or `FormatString` with the request's strings between single quotes. `SqlCmd`
lists the places that print one, by the handler and by what the statement does;
`template` is the text there and `call` the statement that it is meant to be.

The three tests whether a share exists, two of them in `handleShareFile`, print
the same text. A row's constants stand where the source formats them by `%d`.
-/

namespace FileHub

open Lib
open Lib.Sql

inductive SqlCmd where
  -- `handleShareFile`
  | shareExists (md5 filename : Bytes)
  | shareStatus (user md5 filename : Bytes)
  | shareInsert (user md5 create_time filename : Bytes)
  -- `handleDeleteFile`
  | deleteStatus (user md5 filename : Bytes)
  | deleteShare (user md5 filename : Bytes)
  | deleteUserFile (user md5 filename : Bytes)
  | deleteCount (md5 : Bytes)
  | deleteDecr (md5 : Bytes)
  | deleteInfo (md5 : Bytes)
  -- `handlePvFile` of a user's own file
  | ownPv (user md5 filename : Bytes)
  | ownPvUpdate (pv : Int) (user md5 filename : Bytes)
  -- `handleCancelShareFile`
  | cancelStatus (user_name md5 filename : Bytes)
  | cancelShare (user_name md5 filename : Bytes)
  -- `handleSaveFile`
  | saveExists (user_name md5 filename : Bytes)
  | saveCount (md5 : Bytes)
  | saveInsert (user_name md5 creat_time filename : Bytes)
  -- `handlePvFile` of a share
  | sharePv (md5 filename : Bytes)
  | sharePvUpdate (pv : Int) (md5 filename : Bytes)
  -- `handleDealMd5`
  | md5Exists (user md5 filename : Bytes)
  | md5Count (md5 : Bytes)
  -- `storeFileinfo`
  | storeInfo (md5 fileid fdfs_file_url : Bytes) (size : Int) (suffix : Bytes)
  | storeCount (md5 : Bytes)
  | storeInsert (user md5 create_time filename : Bytes)
  -- `verifyUserPassword` and `registerUser`
  | password (user_name : Bytes)
  | userId (user_name : Bytes)
  -- `handleSharePicture`
  | pictureInsert (user filemd5 file_name urlmd5 key create_time : Bytes)
  -- `handleBrowsePicture`
  | browsePicture (urlmd5 : Bytes)
  | browseUrl (filemd5 : Bytes)
  | browsePv (urlmd5 : Bytes)
  -- `handleGetSharePicturesList` and the count it asks for
  | pictureCount (user_name : Bytes)
  | pictureList (user : Bytes) (start count : Int)
  -- `handleCancelSharePicture`
  | pictureDelete (user urlmd5 : Bytes)
  -- `getUserFilesCount` and `getUserFileList`
  | userFilesCount (user_name : Bytes)
  | userFiles (user_name : Bytes) (start count : Int)
  -- `handleGetSharefilesCount`, `handleGetShareFilelist`, `handleGetRankingFilelist`
  | shareCount
  | shareList (start count : Int)
  | shareByPv
deriving DecidableEq

namespace SqlCmd

def template : SqlCmd → List Piece
  | shareExists md5 filename =>
      [.text "select * from share_file_list where md5=", .quoted md5,
        .text " and file_name=", .quoted filename]
  | shareStatus user md5 filename =>
      [.text "update user_file_list set shared_status=1 where user=", .quoted user,
        .text " and md5=", .quoted md5, .text " and file_name=", .quoted filename]
  | shareInsert user md5 create_time filename =>
      [.text "insert into share_file_list (user, md5, create_time, file_name, pv) values (",
        .quoted user, .text ", ", .quoted md5, .text ", ", .quoted create_time, .text ", ",
        .quoted filename, .text ", 0) on duplicate key update pv = pv"]
  | deleteStatus user md5 filename =>
      [.text "select shared_status from user_file_list where user = ", .quoted user,
        .text " and md5 = ", .quoted md5, .text " and file_name = ", .quoted filename]
  | deleteShare user md5 filename =>
      [.text "delete from share_file_list where user = ", .quoted user, .text " and md5 = ",
        .quoted md5, .text " and file_name = ", .quoted filename]
  | deleteUserFile user md5 filename =>
      [.text "delete from user_file_list where user = ", .quoted user, .text " and md5 = ",
        .quoted md5, .text " and file_name = ", .quoted filename]
  | deleteCount md5 =>
      [.text "select count, file_id from file_info where md5 = ", .quoted md5]
  | deleteDecr md5 =>
      [.text "update file_info SET count = count - 1 WHERE md5 = ", .quoted md5]
  | deleteInfo md5 => [.text "delete from file_info WHERE md5 = ", .quoted md5]
  | ownPv user md5 filename =>
      [.text "select pv from user_file_list where user = ", .quoted user, .text " and md5 = ",
        .quoted md5, .text " and file_name = ", .quoted filename]
  | ownPvUpdate pv user md5 filename =>
      [.text "update user_file_list set pv = ", .num pv, .text " where user = ", .quoted user,
        .text " and md5 = ", .quoted md5, .text " and file_name = ", .quoted filename]
  | cancelStatus user_name md5 filename =>
      [.text "update user_file_list set shared_status = 0 where user = ", .quoted user_name,
        .text " and md5 = ", .quoted md5, .text " and file_name = ", .quoted filename]
  | cancelShare user_name md5 filename =>
      [.text "delete from share_file_list where user = ", .quoted user_name,
        .text " and md5 = ", .quoted md5, .text " and file_name = ", .quoted filename]
  | saveExists user_name md5 filename =>
      [.text "select * from user_file_list where user = ", .quoted user_name,
        .text " and md5 = ", .quoted md5, .text " and  file_name = ", .quoted filename]
  | saveCount md5 => [.text "update file_info set count = count+1 where md5 = ", .quoted md5]
  | saveInsert user_name md5 creat_time filename =>
      [.text "insert into user_file_list(user, md5, create_time, file_name, ",
        .text "shared_status, pv) values (",
        .quoted user_name, .text ", ", .quoted md5, .text ", ", .quoted creat_time, .text ", ",
        .quoted filename, .text ", ", .num 0, .text ", ", .num 0, .text ")"]
  | sharePv md5 filename =>
      [.text "select pv from share_file_list where md5 = ", .quoted md5,
        .text " and file_name = ", .quoted filename]
  | sharePvUpdate pv md5 filename =>
      [.text "update share_file_list set pv = ", .num pv, .text " where md5 = ", .quoted md5,
        .text " and file_name = ", .quoted filename]
  | md5Exists user md5 filename =>
      [.text "select * from user_file_list where user = ", .quoted user, .text " and md5 = ",
        .quoted md5, .text " and file_name = ", .quoted filename]
  | md5Count md5 => [.text "update file_info set count = count +1 where md5 = ", .quoted md5]
  | storeInfo md5 fileid fdfs_file_url size suffix =>
      [.text "insert into file_info (md5, file_id, url, size, type, count) values (",
        .quoted md5, .text ", ", .quoted fileid, .text ", ", .quoted fdfs_file_url, .text ", ",
        .quoted (intText size), .text ", ", .quoted suffix, .text ", ", .num 1, .text ")"]
  | storeCount md5 => [.text "update file_info set count = count +1 where md5 = ", .quoted md5]
  | storeInsert user md5 create_time filename =>
      [.text "insert into user_file_list(user, md5, create_time, file_name, ",
        .text "shared_status, pv) values (",
        .quoted user, .text ", ", .quoted md5, .text ", ", .quoted create_time, .text ", ",
        .quoted filename, .text ", ", .num 0, .text ", ", .num 0, .text ")"]
  | password user_name =>
      [.text "select password from user_info where user_name=", .quoted user_name]
  | userId user_name => [.text "select id from user_info where user_name=", .quoted user_name]
  | pictureInsert user filemd5 file_name urlmd5 key create_time =>
      [.text "insert into share_picture_list (user, filemd5, file_name, urlmd5, ",
        .text "`key`, pv, create_time) values (",
        .quoted user, .text ", ", .quoted filemd5, .text ", ", .quoted file_name, .text ", ",
        .quoted urlmd5, .text ", ", .quoted key, .text ", ", .num 0, .text ", ",
        .quoted create_time, .text ")"]
  | browsePicture urlmd5 =>
      [.text "select user, filemd5, file_name, pv, create_time from ",
        .text "share_picture_list where urlmd5 = ", .quoted urlmd5]
  | browseUrl filemd5 => [.text "select url from file_info where md5 =", .quoted filemd5]
  | browsePv urlmd5 =>
      [.text "update share_picture_list set pv = pv+1 where urlmd5 = ", .quoted urlmd5]
  | pictureCount user_name =>
      [.text "select count(*) from share_picture_list where user=", .quoted user_name]
  | pictureList user start count =>
      -- The source breaks the text over three lines, and the indentation is part of it.
      [.text "select share_picture_list.user, share_picture_list.filemd5, ",
        .text "share_picture_list.file_name,share_picture_list.urlmd5, share_picture_list.pv, ",
        .text "        share_picture_list.create_time, file_info.size from file_info, ",
        .text "share_picture_list where share_picture_list.user = ", .quoted user, .text " and  ",
        .text "        file_info.md5 = share_picture_list.filemd5 limit ", .num start,
        .text ", ", .num count]
  | pictureDelete user urlmd5 =>
      [.text "delete from share_picture_list where user = ", .quoted user,
        .text " and urlmd5 = ", .quoted urlmd5]
  | userFilesCount user_name =>
      [.text "select count(*) from user_file_list where user = ", .quoted user_name]
  | userFiles user_name start count =>
      [.text "select user_file_list.*, file_info.url, file_info.size, file_info.type ",
        .text "from file_info, ",
        .text "             user_file_list where user = ", .quoted user_name,
        .text " and file_info.md5 = user_file_list.md5 limit ", .num start, .text ", ",
        .num count, .text " "]
  | shareCount => [.text "select count(*) from share_file_list"]
  | shareList start count =>
      [.text "select share_file_list.*, file_info.url, file_info.size, file_info.type ",
        .text "from file_info, ",
        .text "        share_file_list where file_info.md5 = share_file_list.md5 limit ",
        .num start, .text ", ", .num count]
  | shareByPv => [.text "select md5, file_name, pv from share_file_list order by pv desc"]

/-- The statement the text is meant to be. -/
def call : SqlCmd → Call
  | shareExists md5 filename => .select (.share md5 filename)
  | shareStatus user md5 filename => .dml (.setSharedStatus 1 user md5 filename)
  | shareInsert user md5 create_time filename =>
      .dml (.insertShare ⟨user, md5, create_time, filename, 0⟩)
  | deleteStatus user md5 filename => .select (.userFile user md5 filename)
  | deleteShare user md5 filename => .dml (.deleteShare user md5 filename)
  | deleteUserFile user md5 filename => .dml (.deleteUserFile user md5 filename)
  | deleteCount md5 => .select (.fileInfo md5)
  | deleteDecr md5 => .dml (.decrCount md5)
  | deleteInfo md5 => .dml (.deleteFileInfo md5)
  | ownPv user md5 filename => .select (.userFile user md5 filename)
  | ownPvUpdate pv user md5 filename => .dml (.setUserFilePv pv user md5 filename)
  | cancelStatus user_name md5 filename => .dml (.setSharedStatus 0 user_name md5 filename)
  | cancelShare user_name md5 filename => .dml (.deleteShare user_name md5 filename)
  | saveExists user_name md5 filename => .select (.userFile user_name md5 filename)
  | saveCount md5 => .dml (.incrCount md5)
  | saveInsert user_name md5 creat_time filename =>
      .dml (.insertUserFile ⟨user_name, md5, creat_time, filename, 0, 0⟩)
  | sharePv md5 filename => .select (.share md5 filename)
  | sharePvUpdate pv md5 filename => .dml (.setSharePv pv md5 filename)
  | md5Exists user md5 filename => .select (.userFile user md5 filename)
  | md5Count md5 => .dml (.incrCount md5)
  | storeInfo md5 fileid fdfs_file_url size suffix =>
      .dml (.insertFileInfo ⟨md5, fileid, fdfs_file_url, size, suffix, 1⟩)
  | storeCount md5 => .dml (.incrCount md5)
  | storeInsert user md5 create_time filename =>
      .dml (.insertUserFile ⟨user, md5, create_time, filename, 0, 0⟩)
  | password user_name => .select (.password user_name)
  | userId user_name => .select (.userId user_name)
  | pictureInsert user filemd5 file_name urlmd5 key create_time =>
      .dml (.insertPicture ⟨user, filemd5, file_name, urlmd5, key, 0, create_time⟩)
  | browsePicture urlmd5 => .select (.picture urlmd5)
  | browseUrl filemd5 => .select (.fileInfo filemd5)
  | browsePv urlmd5 => .dml (.incrPicturePv urlmd5)
  | pictureCount user_name => .select (.pictureCount user_name)
  | pictureList user start count => .select (.pictureList user start count)
  | pictureDelete user urlmd5 => .dml (.deletePicture user urlmd5)
  | userFilesCount user_name => .select (.userFilesCount user_name)
  | userFiles user_name start count => .select (.userFiles user_name start count)
  | shareCount => .select .shareCount
  | shareList start count => .select (.shareList start count)
  | shareByPv => .select .shareByPv

/-- `sql_cmd` or `sql_str`. -/
def text (cmd : SqlCmd) : Bytes := print cmd.template

end SqlCmd

end FileHub
