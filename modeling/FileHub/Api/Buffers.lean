import FileHub.Api.DealSharefile
import FileHub.Api.Md5
import FileHub.Api.Sharepicture
import FileHub.Api.Sql

/-!
# The buffers `sprintf` writes to

Eight handlers format into arrays on the stack: `sql_cmd`, `fileid` and
`lock_key`. `Formatting` is a handler with what it formats: the request's
strings, and the time or the count that comes in between. `sprintfs` lists its
`sprintf` calls in the order of the source, each with the size of the array.

`handleDeleteFile` prints its two statements on the counter by `snprintf`, which
stops at the end of the array; they are listed apart, in `snprintfs`.
-/

namespace FileHub

open Lib
open Lib.Sql

def SQL_MAX_LEN : ℕ := 512

structure Sprintf where
  size : ℕ
  text : Bytes

/-- What is written, the terminator included, is no longer than the array. -/
def Sprintf.Fits (s : Sprintf) : Prop := s.text.length + 1 ≤ s.size

instance : DecidablePred Sprintf.Fits := fun s =>
  inferInstanceAs (Decidable (s.text.length + 1 ≤ s.size))

/-- `sprintf(sql_cmd, ..)`. -/
def SqlCmd.sprintf (cmd : SqlCmd) : Sprintf := ⟨SQL_MAX_LEN, cmd.text⟩

inductive Formatting where
  | shareFile (user md5 filename create_time : Bytes)
  | deleteFile (user md5 filename : Bytes)
  | ownPv (user md5 filename : Bytes) (pv : Int)
  | cancelShareFile (user_name md5 filename : Bytes)
  | saveFile (user_name md5 filename creat_time : Bytes)
  | sharePv (md5 filename : Bytes) (pv : Int)
  | dealMd5 (user md5 filename : Bytes)
  | sharePicturesList (user : Bytes) (start count : Int)

/-- The statements a handler prints into `sql_cmd` by `sprintf`. -/
def Formatting.sqlCmds : Formatting → List SqlCmd
  | .shareFile user md5 filename create_time =>
      [.shareExists md5 filename, .shareStatus user md5 filename,
        .shareInsert user md5 create_time filename, .shareExists md5 filename]
  | .deleteFile user md5 filename =>
      [.deleteStatus user md5 filename, .deleteShare user md5 filename,
        .deleteUserFile user md5 filename, .deleteCount md5]
  | .ownPv user md5 filename pv =>
      [.ownPv user md5 filename, .ownPvUpdate (asInt (pv + 1)) user md5 filename]
  | .cancelShareFile user_name md5 filename =>
      [.cancelStatus user_name md5 filename, .cancelShare user_name md5 filename]
  | .saveFile user_name md5 filename creat_time =>
      [.saveExists user_name md5 filename, .saveCount md5,
        .saveInsert user_name md5 creat_time filename]
  | .sharePv md5 filename pv =>
      [.sharePv md5 filename, .sharePvUpdate (asInt (pv + 1)) md5 filename]
  | .dealMd5 user md5 filename => [.md5Exists user md5 filename, .md5Count md5]
  | .sharePicturesList user start count => [.pictureList user start count]

/-- The statements it prints by `snprintf`. -/
def Formatting.snprintfs : Formatting → List SqlCmd
  | .deleteFile _ md5 _ => [.deleteDecr md5, .deleteInfo md5]
  | _ => []

/-- What it formats for Redis. -/
def Formatting.keys : Formatting → List Sprintf
  | .shareFile _ md5 filename _ =>
      [⟨1024, shareFileid md5 filename⟩, ⟨256, shareLockKey (shareFileid md5 filename)⟩]
  | .deleteFile _ md5 filename => [⟨1024, shareFileid md5 filename⟩]
  | .cancelShareFile _ md5 filename => [⟨512, shareFileid md5 filename⟩]
  | .sharePv md5 filename _ => [⟨1024, shareFileid md5 filename⟩]
  | .ownPv .. | .saveFile .. | .dealMd5 .. | .sharePicturesList .. => []

def Formatting.sprintfs (f : Formatting) : List Sprintf :=
  f.keys ++ f.sqlCmds.map SqlCmd.sprintf

end FileHub
