import FileHub.Api.DealSharefile
import FileHub.Api.Login
import FileHub.Api.Md5
import FileHub.Api.Myfiles
import FileHub.Api.Register
import FileHub.Api.Sharefiles
import FileHub.Api.Sharepicture
import FileHub.Api.Upload

/-!
# The nine API functions
-/

namespace FileHub

open Lib

inductive Route where
  | reg
  | login
  | md5
  | upload
  | myfiles
  | sharepic
  | dealfile
  | sharefiles
  | dealsharefile
deriving DecidableEq

structure ApiRequest where
  route : Route
  url : Bytes
  post_data : Bytes

/-- The API function of a route: its return code, with the answer if it wrote
one. `stack` is what the uninitialised `cmd` buffer holds. -/
def ApiRequest.handle (parse : Bytes → Option JsonValue) (ip stack : Bytes) (r : ApiRequest) :
    Handler (Int × Option JsonValue) :=
  match r.route with
  | .reg => apiRegisterUser parse r.post_data
  | .login => do
      let (ret, root) ← apiUserLogin parse r.post_data
      return (ret, some root)
  | .md5 => apiMd5 parse r.post_data
  | .upload => apiUpload ip r.post_data
  | .myfiles => apiMyfiles parse stack r.url r.post_data
  | .sharepic => apiSharepicture parse stack r.url r.post_data
  | .dealfile => apiDealfile parse stack r.url r.post_data
  | .sharefiles => apiSharefiles parse stack r.url r.post_data
  | .dealsharefile => apiDealsharefile parse stack r.url r.post_data

end FileHub
