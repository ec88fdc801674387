import FileHub.Http.Conn

/-!
# The responses of `CHttpConn`

The handlers print the JSON of their API function through a buffer of fixed
size and send what is there up to the terminator. All nine do the same around
different calls. jsoncpp's writer is an argument.
-/

namespace FileHub.Http

open Lib

def HTTP_RESPONSE_JSON_MAX : ℕ := 4096

/-- `%d` of a `uint32_t`, which is read as an `int`. -/
def formatInt32 (n : ℕ) : Bytes :=
  let n := n % 2 ^ 32
  if n < 2 ^ 31 then decimal n else 45 :: decimal (2 ^ 32 - n)

/-- `HTTP_RESPONSE_JSON` up to its `%s`. -/
def responseHeader (len : ℕ) : Bytes :=
  ascii "HTTP/1.1 200 OK\r\n" ++
  ascii "Connection:close\r\n" ++
  (ascii "Content-Length:" ++ formatInt32 len ++ ascii "\r\n") ++
  ascii "Content-Type:application/json;charset=utf-8\r\n\r\n"

/-- What `snprintf(body, size, …)` leaves in the buffer before the terminator. -/
def snprintf (size : ℕ) (text : Bytes) : Bytes := text.take (size - 1)

/-- The bytes a handler passes to `send`. -/
def sendJson (str_json : Bytes) : Bytes :=
  snprintf HTTP_RESPONSE_JSON_MAX (responseHeader str_json.length ++ cStr str_json)

/-- The text an API function left in `str_json`, empty if it wrote nothing. -/
def textOf (write : JsonValue → Bytes) : Option JsonValue → Bytes
  | none => []
  | some root => write root

/-- Call an API function and send the JSON it wrote. -/
def answerWith (write : JsonValue → Bytes) (api : Handler (Int × Option JsonValue)) :
    Handler Bytes := do
  let (_, root) ← api
  return sendJson (textOf write root)

section Handlers

variable (write : JsonValue → Bytes) (parse : Bytes → Option JsonValue) (ip stack : Bytes)

def handleRegisterRequest (post_data : Bytes) : Handler Bytes :=
  answerWith write (apiRegisterUser parse post_data)

def handleLoginRequest (post_data : Bytes) : Handler Bytes :=
  answerWith write (do
    let (ret, root) ← apiUserLogin parse post_data
    return (ret, some root))

def handleMd5Request (post_data : Bytes) : Handler Bytes :=
  answerWith write (apiMd5 parse post_data)

def handleUploadRequest (post_data : Bytes) : Handler Bytes :=
  answerWith write (apiUpload ip post_data)

def handleMyFilesRequest (url post_data : Bytes) : Handler Bytes :=
  answerWith write (apiMyfiles parse stack url post_data)

def handleSharepictureRequest (url post_data : Bytes) : Handler Bytes :=
  answerWith write (apiSharepicture parse stack url post_data)

def handleDealfileRequest (url post_data : Bytes) : Handler Bytes :=
  answerWith write (apiDealfile parse stack url post_data)

def handleSharefilesRequest (url post_data : Bytes) : Handler Bytes :=
  answerWith write (apiSharefiles parse stack url post_data)

def handleDealsharefileRequest (url post_data : Bytes) : Handler Bytes :=
  answerWith write (apiDealsharefile parse stack url post_data)

/-- The handler of a route: what it sends. -/
def respond (r : ApiRequest) : Handler Bytes :=
  match r.route with
  | .reg => handleRegisterRequest write parse r.post_data
  | .login => handleLoginRequest write parse r.post_data
  | .md5 => handleMd5Request write parse r.post_data
  | .upload => handleUploadRequest write ip r.post_data
  | .myfiles => handleMyFilesRequest write parse stack r.url r.post_data
  | .sharepic => handleSharepictureRequest write parse stack r.url r.post_data
  | .dealfile => handleDealfileRequest write parse stack r.url r.post_data
  | .sharefiles => handleSharefilesRequest write parse stack r.url r.post_data
  | .dealsharefile => handleDealsharefileRequest write parse stack r.url r.post_data

end Handlers

end FileHub.Http
