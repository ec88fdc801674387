import FileHub.Api.DealSharefile
import FileHub.Api.Md5
import FileHub.Api.Upload

/-!
# The requests that store, copy and remove files

Four requests move the rows of `user_file_list`, the counters of `file_info`
and the objects of FastDFS. A history is a list of them.
-/

namespace FileHub

open Lib

inductive StorageRequest where
  | upload (post_data : Bytes)
  | instantUpload (post_data : Bytes)
  | save (user md5 filename : Bytes)
  | delete (user md5 filename : Bytes)

def StorageRequest.handle (parse : Bytes → Option JsonValue) (ip : Bytes) :
    StorageRequest → Handler Unit
  | .upload post_data => do let _ ← apiUpload ip post_data
  | .instantUpload post_data => do let _ ← apiMd5 parse post_data
  | .save user md5 filename => do let _ ← handleSaveFile user md5 filename
  | .delete user md5 filename => do let _ ← handleDeleteFile user md5 filename

/-! A form as it arrives: each value on the second line after its name. -/

def formLines (name value : Bytes) : Bytes :=
  ascii "name=\"" ++ name ++ ascii "\"" ++ crlf ++ crlf ++ value ++ crlf

def formBody (form : UploadForm) : Bytes :=
  ascii "boundary" ++ crlf ++ formLines (ascii "file_name") form.file_name ++
    formLines (ascii "file_content_type") form.file_content_type ++
    formLines (ascii "file_path") form.file_path ++
    formLines (ascii "file_md5") form.file_md5 ++
    formLines (ascii "file_size") form.file_size ++ formLines (ascii "user") form.user

/-- The form of a small file. -/
def smallForm (user : Bytes) : UploadForm :=
  ⟨ascii "a.txt", ascii "text/plain", ascii "tmp", ascii "m", ascii "1", user⟩

end FileHub
