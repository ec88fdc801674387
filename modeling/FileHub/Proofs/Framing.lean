import FileHub.Http.Response
import FileHub.Lib.HttpText
import FileHub.Proofs.Outcomes

/-!
# Which answers fit their response

The header announces the length of the whole JSON, and the buffer keeps what
fits behind the header. The header takes 99 bytes besides the number, so a JSON
of up to 3992 bytes arrives as it is and the end of a longer one is missing.
-/

namespace FileHub.Http

open Lib

/-! ## The length of a number -/

theorem decimal_length_le {n k : ℕ} (hk : 0 < k) (h : n < 10 ^ k) : (decimal n).length ≤ k := by
  rw [decimal]
  split
  · exact hk
  · rw [List.length_reverse, List.length_map]
    exact (Nat.digits_length_le_iff (by omega) n).mpr h

theorem lt_decimal_length {n k : ℕ} (h : 10 ^ k ≤ n) : k < (decimal n).length := by
  have hpos : n ≠ 0 := fun h0 => absurd h (by rw [h0]; exact (Nat.pow_pos (by decide)).not_ge)
  rw [decimal, if_neg hpos, List.length_reverse, List.length_map]
  exact (Nat.lt_digits_length_iff (by omega) n).mpr h

theorem formatInt32_of_lt {n : ℕ} (h : n < 2 ^ 31) : formatInt32 n = decimal n := by
  rw [formatInt32, Nat.mod_eq_of_lt (by omega), if_pos h]

theorem formatInt32_length (n : ℕ) :
    0 < (formatInt32 n).length ∧ (formatInt32 n).length ≤ 11 := by
  have hlt : n % 2 ^ 32 < 10 ^ 10 := lt_trans (Nat.mod_lt n (by decide)) (by decide)
  rw [formatInt32]
  split
  · have hle := decimal_length_le (by decide) hlt
    exact ⟨List.length_pos_iff.mpr (decimal_ne_nil _), by omega⟩
  · have hle : (decimal (2 ^ 32 - n % 2 ^ 32)).length ≤ 10 :=
      decimal_length_le (by decide) (by omega)
    rw [List.length_cons]
    exact ⟨Nat.succ_pos _, by omega⟩

theorem not_mem_formatInt32 (n : ℕ) : 13 ∉ formatInt32 n := by
  have hdigits : ∀ m, (13 : UInt8) ∉ decimal m := fun m h =>
    absurd (isDigit_decimal m 13 h) (by decide)
  rw [formatInt32]
  split
  · exact hdigits _
  · rw [List.mem_cons, not_or]
    exact ⟨by decide, hdigits _⟩

/-! ## The header -/

def statusLine : Bytes := ascii "HTTP/1.1 200 OK"

def headerLines (len : ℕ) : List Bytes :=
  [ascii "Connection:close", ascii "Content-Length:" ++ formatInt32 len,
    ascii "Content-Type:application/json;charset=utf-8"]

theorem responseHeader_eq (len : ℕ) :
    responseHeader len = headerBlock (statusLine :: headerLines len) := by
  simp only [responseHeader, headerBlock, statusLine, headerLines, List.map_cons, List.map_nil,
    List.flatten_cons, List.flatten_nil, List.append_assoc, List.nil_append]
  repeat rw [ascii_ofList]
  rfl

theorem responseHeader_length (len : ℕ) :
    (responseHeader len).length = 99 + (formatInt32 len).length := by
  simp only [responseHeader, List.length_append]
  have h1 : (ascii "HTTP/1.1 200 OK\r\n").length = 17 := by rw [ascii_ofList]; rfl
  have h2 : (ascii "Connection:close\r\n").length = 18 := by rw [ascii_ofList]; rfl
  have h3 : (ascii "Content-Length:").length = 15 := by rw [ascii_ofList]; rfl
  have h4 : (ascii "\r\n").length = 2 := by rw [ascii_ofList]; rfl
  have h5 : (ascii "Content-Type:application/json;charset=utf-8\r\n\r\n").length = 47 := by
    rw [ascii_ofList]
    rfl
  omega

theorem headerLines_readable (len : ℕ) :
    ∀ line ∈ statusLine :: headerLines len, line ≠ [] ∧ 13 ∉ line := by
  intro line hline
  rw [headerLines, List.mem_cons, List.mem_cons, List.mem_cons, List.mem_singleton] at hline
  rcases hline with rfl | rfl | rfl | rfl
  · decide
  · decide
  · refine ⟨List.append_ne_nil_of_left_ne_nil (by decide) _, ?_⟩
    rw [List.mem_append, not_or]
    exact ⟨by decide, not_mem_formatInt32 len⟩
  · decide

/-- What is read of a response is what follows its header, if anything. -/
theorem readResponse_header (len : ℕ) (body : Bytes) :
    readResponse (responseHeader len ++ body) =
      if (headerLines len).filterMap (numberOf (ascii "Content-Length:")) = [body.length] then
        some body
      else none := by
  rw [responseHeader_eq]
  exact readResponse_headerBlock (headerLines_readable len) (by decide) body

theorem announced {len : ℕ} (h : len < 2 ^ 31) :
    (headerLines len).filterMap (numberOf (ascii "Content-Length:")) = [len] := by
  have hconnection : numberOf (ascii "Content-Length:") (ascii "Connection:close") = none := by
    decide
  have htype : numberOf (ascii "Content-Length:")
      (ascii "Content-Type:application/json;charset=utf-8") = none := by decide
  simp only [headerLines, formatInt32_of_lt h, List.filterMap_cons, List.filterMap_nil,
    hconnection, htype, numberOf_decimal]

/-! ## The response -/

theorem sendJson_eq {json : Bytes} (hnul : ∀ b ∈ json, b ≠ 0) :
    sendJson json = responseHeader json.length ++
      json.take (4095 - (responseHeader json.length).length) := by
  have hheader := responseHeader_length json.length
  have hnumber := (formatInt32_length json.length).2
  rw [sendJson, cStr_of_forall hnul, snprintf, HTTP_RESPONSE_JSON_MAX, List.take_append,
    List.take_of_length_le (by omega)]

theorem readResponse_sendJson {json : Bytes} (hnul : ∀ b ∈ json, b ≠ 0) :
    readResponse (sendJson json) = some json ↔ json.length ≤ 3992 := by
  have hheader := responseHeader_length json.length
  rw [sendJson_eq hnul, readResponse_header]
  constructor
  · intro h
    split at h
    · -- what is read is what was kept, so nothing was cut off
      have hkept := congrArg List.length (Option.some.inj h)
      rw [List.length_take, hheader] at hkept
      by_contra hlong
      have hpos := (formatInt32_length json.length).1
      have hdigits : 3 < (formatInt32 json.length).length := by
        rw [formatInt32_of_lt (by omega)]
        exact lt_decimal_length (by omega)
      omega
    · cases h
  · intro h
    have hsmall : json.length < 2 ^ 31 := by omega
    have hdigits : (formatInt32 json.length).length ≤ 4 := by
      rw [formatInt32_of_lt hsmall]
      exact decimal_length_le (by decide) (by omega)
    rw [List.take_of_length_le (by omega), announced hsmall, if_pos rfl]

/-! ## The nine handlers -/

section Handlers

variable {write : JsonValue → Bytes} {parse : Bytes → Option JsonValue} {ip stack : Bytes}
  {r : ApiRequest} {ω : ℕ → Outcomes} {ret : Int} {root : Option JsonValue}

/-- Each handler calls the API function of its route and sends the answer. -/
theorem respond_eq : respond write parse ip stack r =
    answerWith write (r.handle parse ip stack) := by
  obtain ⟨route, url, post_data⟩ := r
  cases route <;> rfl

theorem respond_sends (h : (runUnder ω (r.handle parse ip stack)).res = some (ret, root)) :
    (runUnder ω (respond write parse ip stack r)).res = some (sendJson (textOf write root)) := by
  rw [respond_eq, answerWith, runUnder, Prog.exec_bind]
  revert h
  rw [runUnder]
  rcases Prog.exec _ ω (r.handle parse ip stack) [] with ⟨_ | a, st, rest⟩
  · intro h
    cases h
  · intro h
    cases h
    rfl

/-- What a handler sends reads back as the JSON of its API function exactly where that has at
most 3992 bytes. -/
theorem framed_iff (h : (runUnder ω (r.handle parse ip stack)).res = some (ret, root))
    (hnul : ∀ b ∈ textOf write root, b ≠ 0) :
    ∃ sent, (runUnder ω (respond write parse ip stack r)).res = some sent ∧
      (readResponse sent = some (textOf write root) ↔ (textOf write root).length ≤ 3992) :=
  ⟨_, respond_sends h, readResponse_sendJson hnul⟩

end Handlers

/-! ## A registration that is refused, and a listing of thirty files -/

def insertField (f : Bytes × Bytes) : List (Bytes × Bytes) → List (Bytes × Bytes)
  | [] => [f]
  | g :: rest =>
      if List.lex f.1 g.1 (· < ·) then f :: g :: rest else g :: insertField f rest

def commaSeparated : List Bytes → Bytes
  | [] => []
  | [s] => s
  | s :: rest => s ++ 44 :: commaSeparated rest

def quoted (s : Bytes) : Bytes := 34 :: s ++ [34]

mutual

/-- What `Json::FastWriter` writes of a value whose strings need no escape, its
members in the order of their keys, the line end apart. -/
def compact : JsonValue → Bytes
  | .null => ascii "null"
  | .bool b => if b then ascii "true" else ascii "false"
  | .int n => intText n
  | .real text _ => text
  | .str s => quoted s
  | .array elements => 91 :: commaSeparated (compactAll elements) ++ [93]
  | .object fields =>
      123 :: commaSeparated (((compactFields fields).foldr insertField []).map fun f =>
        quoted f.1 ++ 58 :: f.2) ++ [125]

def compactAll : List JsonValue → List Bytes
  | [] => []
  | v :: rest => compact v :: compactAll rest

def compactFields : List (Bytes × JsonValue) → List (Bytes × Bytes)
  | [] => []
  | (key, v) :: rest => (key, compact v) :: compactFields rest

end

def fastWrite (v : JsonValue) : Bytes := compact v ++ [10]

example : fastWrite (.object [(ascii "total", .int 30), (ascii "code", .int 0)]) =
    ascii "\x7b\"code\":0,\"total\":30\x7d\n" := by
  decide +kernel

/-- The answer to a registration. -/
theorem registered_framed : ∃ sent,
    (runUnder (fun _ => registered)
      (respond fastWrite (fun _ => some registrationOfU) [] [] registerU)).res = some sent ∧
    (readResponse sent = some (textOf fastWrite (some (.code 0))) ↔
      (textOf fastWrite (some (.code 0))).length ≤ 3992) :=
  framed_iff registered_run (by decide +kernel)

def fileOfU : UserFileRow × FileInfoRow :=
  (⟨ascii "u", ascii "d41d8cd98f00b204e9800998ecf8427e", ascii "2024-01-01 00:00:00",
    ascii "notes.txt", 0, 0⟩,
   ⟨ascii "d41d8cd98f00b204e9800998ecf8427e", ascii "group1/M00/00/00/notes.txt",
    ascii "http://127.0.0.1/group1/M00/00/00/notes.txt", 0, ascii "txt", 1⟩)

/-- Every call succeeds; the token is that of `u`, who has thirty files. -/
def thirtyFiles : Outcomes
  | .redis _, _ => some (.string (ascii "u"))
  | .getDBConn _, _ | .getCacheConn _, _ | .cacheInit, _ => true
  | .select (.userFilesCount _), _ => some [30]
  | .select (.userFiles ..), _ => some (List.replicate 30 fileOfU)
  | c, h => Outcomes.failing c h

def listFilesOfU : ApiRequest :=
  ⟨.myfiles, ascii "/api/myfiles?cmd=normal", []⟩

def parsedOfU : JsonValue :=
  .object [(ascii "token", .str (ascii "t")), (ascii "user", .str (ascii "u")),
    (ascii "start", .int 0), (ascii "count", .int 30)]

/-- Their list takes more than the buffer, and no byte of it is NUL. -/
theorem thirtyFiles_text : (match (runUnder (fun _ => thirtyFiles)
      (listFilesOfU.handle (fun _ => some parsedOfU) [] [])).res with
    | none => false
    | some (_, root) => (textOf fastWrite root).all (· != 0) &&
        decide (3992 < (textOf fastWrite root).length)) = true := by
  decide +kernel

theorem thirtyFiles_cut :
    ¬ ∀ (write : JsonValue → Bytes) (parse : Bytes → Option JsonValue) (ip stack : Bytes)
      (r : ApiRequest) (ω : ℕ → Outcomes) (ret : Int) (root : Option JsonValue),
      (runUnder ω (r.handle parse ip stack)).res = some (ret, root) →
      (∀ b ∈ textOf write root, b ≠ 0) →
      ∃ sent, (runUnder ω (respond write parse ip stack r)).res = some sent ∧
        readResponse sent = some (textOf write root) := by
  intro h
  have htext := thirtyFiles_text
  cases hres : (runUnder (fun _ => thirtyFiles)
      (listFilesOfU.handle (fun _ => some parsedOfU) [] [])).res with
  | none =>
      rw [hres] at htext
      cases htext
  | some a =>
      obtain ⟨ret, root⟩ := a
      rw [hres] at htext
      obtain ⟨hall, hlong⟩ := Bool.and_eq_true_iff.mp htext
      have hnul : ∀ b ∈ textOf fastWrite root, b ≠ 0 := by simpa using hall
      obtain ⟨sent, hsent, hread⟩ := h _ _ _ _ _ _ ret root hres hnul
      rw [respond_sends hres] at hsent
      cases hsent
      have hshort := (readResponse_sendJson hnul).mp hread
      exact absurd (of_decide_eq_true hlong) (by omega)

end FileHub.Http
