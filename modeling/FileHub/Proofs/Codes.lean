import FileHub.Proofs.Outcomes

/-!
# Which answers carry a code

A client tells success from failure by the integer `code` of the JSON it gets.
Every exit of every handler writes one but two kinds. Three API functions leave
the answer empty on a command they do not know. And the picture list writes
the code of a failure to a `root` of the inner block, so what is sent is the
null of the outer one.

The handlers are run under arbitrary answers to their calls, which covers every
state of the stores and every failure that lets the handler return.
-/

namespace FileHub

open Lib
open Prog (Returns Answer Log answer)

/-! ## Codes -/

/-- The answer is an object with an integer `code`. -/
def HasCode : Option JsonValue → Prop
  | some (.object fields) => ∃ n, fields.lookup (ascii "code") = some (.int n)
  | _ => False

theorem hasCode_code (n : Int) : HasCode (some (.code n)) := ⟨n, rfl⟩

theorem hasCode_encodeLoginJson (code : Int) (token : Bytes) :
    HasCode (some (encodeLoginJson code token)) := by
  rw [encodeLoginJson]
  split <;> exact ⟨_, rfl⟩

theorem hasCode_encodeCountJson (ret total : Int) :
    HasCode (some (encodeCountJson ret total)) := by
  rw [encodeCountJson]
  split <;> exact ⟨_, rfl⟩

theorem hasCode_encodeSharefilesJson (code total : Int) :
    HasCode (some (encodeSharefilesJson code total)) := by
  rw [encodeSharefilesJson]
  split <;> exact ⟨_, rfl⟩

theorem hasCode_encodeSharePictureJson (code : Int) (urlmd5 : Bytes) :
    HasCode (some (encodeSharePictureJson code urlmd5)) := by
  rw [encodeSharePictureJson]
  split <;> exact ⟨_, rfl⟩

/-- What a handler writes to `root` has a code. -/
abbrev Coded (p : Handler JsonValue) : Prop := Returns (fun root => HasCode (some root)) p

/-- So has the answer of an API function. -/
abbrev Answers (p : Handler (Int × Option JsonValue)) : Prop := Returns (fun a => HasCode a.2) p

theorem returns_decoded {α β : Type} {P : β → Prop} {d : Except DecodeError α}
    {failed : Handler β} {next : α → Handler β} (hfailed : Returns P failed)
    (hnext : ∀ a, Returns P (next a)) : Returns P (decoded d failed next) := by
  rcases d with (_ | _) | a
  · exact hfailed
  · exact .call fun e => e.elim
  · exact hnext a

/-! ## The handlers -/

theorem answers_apiRegisterUser (parse : Bytes → Option JsonValue) (post_data : Bytes) :
    Answers (apiRegisterUser parse post_data) := by
  rw [apiRegisterUser]
  split
  · exact Prog.returns_pure (hasCode_code 1)
  · exact returns_decoded (Prog.returns_pure (hasCode_code 1)) fun req =>
      Prog.returns_bind fun ret => Prog.returns_pure (hasCode_code ret)

theorem coded_apiUserLogin (parse : Bytes → Option JsonValue) (post_data : Bytes) :
    Returns (fun a => HasCode (some a.2)) (apiUserLogin parse post_data) := by
  have hfailed : HasCode (some (encodeLoginJson 1 [])) := hasCode_encodeLoginJson 1 []
  rw [apiUserLogin]
  split
  · exact Prog.returns_pure hfailed
  · refine returns_decoded (Prog.returns_pure hfailed) fun req =>
      Prog.returns_bind fun verified => ?_
    split
    · exact Prog.returns_pure hfailed
    · refine Prog.returns_bind ?_
      rintro ⟨set, token⟩
      dsimp only
      split
      · exact Prog.returns_pure hfailed
      · exact Prog.returns_pure (hasCode_encodeLoginJson 0 token)

theorem answers_apiMd5 (parse : Bytes → Option JsonValue) (post_data : Bytes) :
    Answers (apiMd5 parse post_data) := by
  refine returns_decoded (Prog.returns_pure (hasCode_code _)) fun req =>
    Prog.returns_bind fun ret => ?_
  split
  · exact Prog.returns_bind fun md5_state => Prog.returns_pure (hasCode_code _)
  · exact Prog.returns_pure (hasCode_code _)

theorem hasCode_uploadAnswer (ret : Int) : HasCode (uploadAnswer ret).2 := by
  rw [uploadAnswer]
  split <;> exact hasCode_code _

theorem answers_apiUpload (ip post_data : Bytes) : Answers (apiUpload ip post_data) :=
  Prog.returns_bind fun _ =>
    returns_decoded (Prog.returns_pure (hasCode_uploadAnswer (-1))) fun _ =>
      Prog.returns_bind fun ret => Prog.returns_pure (hasCode_uploadAnswer ret)

theorem coded_getUserFileList (user_name : Bytes) (start count : Int) :
    Coded (getUserFileList user_name start count) := by
  refine Prog.returns_bind fun db_conn => Prog.returns_bind ?_
  rintro ⟨ret, total⟩
  dsimp only
  split
  · exact Prog.returns_pure (hasCode_code 1)
  · split
    · exact Prog.returns_pure ⟨0, rfl⟩
    · refine Prog.returns_bind fun result_set => ?_
      cases result_set with
      | none => exact Prog.returns_pure (hasCode_code 1)
      | some rows => exact Prog.returns_pure ⟨0, rfl⟩

theorem answers_apiMyfiles (parse : Bytes → Option JsonValue) (stack url post_data : Bytes) :
    Answers (apiMyfiles parse stack url post_data) := by
  simp only [apiMyfiles]
  split
  · refine returns_decoded (Prog.returns_pure (hasCode_encodeCountJson 1 0)) fun req =>
      Prog.returns_bind fun ret => ?_
    split
    · exact Prog.returns_pure (hasCode_encodeCountJson 1 0)
    · refine Prog.returns_bind fun total => Prog.returns_pure ?_
      show HasCode (some (if total.1 < 0 then _ else _))
      split
      · exact hasCode_encodeCountJson 1 0
      · exact hasCode_encodeCountJson 0 total.2
  · split
    · refine returns_decoded (Prog.returns_pure (hasCode_code 1)) fun req =>
        Prog.returns_bind fun ret => ?_
      split
      · exact Prog.returns_pure (hasCode_code 1)
      · exact (coded_getUserFileList _ _ _).bind fun root h => Prog.returns_pure h
    · exact Prog.returns_pure (hasCode_code 1)

theorem answers_dealfileCommand (parse : Bytes → Option JsonValue) (post_data : Bytes)
    (handler : Bytes → Bytes → Bytes → Handler Int) :
    Answers (dealfileCommand parse post_data handler) := by
  refine returns_decoded (Prog.returns_pure (hasCode_code 1)) fun req =>
    Prog.returns_bind fun ret => ?_
  split
  · exact Prog.returns_bind fun ret => Prog.returns_pure (hasCode_code ret)
  · exact Prog.returns_pure (hasCode_code _)

theorem answers_apiDealsharefile (parse : Bytes → Option JsonValue)
    (stack url post_data : Bytes) : Answers (apiDealsharefile parse stack url post_data) :=
  returns_decoded (Prog.returns_pure (hasCode_code 1)) fun _ =>
    Prog.returns_bind fun _ => Prog.returns_pure (hasCode_code _)

theorem coded_handleGetShareFilelist (start count : Int) :
    Coded (handleGetShareFilelist start count) := by
  refine Prog.returns_bind fun db_conn => Prog.returns_bind ?_
  rintro ⟨status, total⟩
  dsimp only
  split
  · refine Prog.returns_bind fun result_set => ?_
    cases result_set with
    | none => exact Prog.returns_pure (hasCode_code 1)
    | some rows =>
        refine Prog.returns_pure ⟨0, ?_⟩
        -- `code` is the last key, and none before it has its name
        cases rows <;> rfl
  · exact Prog.returns_pure (hasCode_code 1)

theorem coded_handleGetRankingFilelist (start count : Int) :
    Coded (handleGetRankingFilelist start count) := by
  refine Prog.returns_bind fun db_conn => Prog.returns_bind fun cache_conn =>
    Prog.returns_bind fun sql_num => ?_
  cases sql_num with
  | none => exact Prog.returns_pure (hasCode_code 1)
  | some n =>
      refine Prog.returns_bind fun files => ?_
      cases files with
      | none => exact Prog.returns_pure (hasCode_code 1)
      | some files => exact Prog.returns_pure ⟨0, rfl⟩

theorem answers_sharefilesList (parse : Bytes → Option JsonValue) (post_data : Bytes)
    {handler : Int → Int → Handler JsonValue} (h : ∀ start count, Coded (handler start count)) :
    Answers (sharefilesList parse post_data handler) :=
  returns_decoded (Prog.returns_pure (hasCode_encodeSharefilesJson 1 0)) fun req =>
    (h req.1 req.2).bind fun _ h => Prog.returns_pure h

theorem answers_sharepictureCommand {α : Type} (parse : Bytes → Option JsonValue)
    (post_data : Bytes) (decode : JsonValue → Except DecodeError α) {failed : JsonValue}
    {handler : α → Handler JsonValue} (hfailed : HasCode (some failed))
    (h : ∀ req, Coded (handler req)) :
    Answers (sharepictureCommand parse post_data decode failed handler) :=
  returns_decoded (Prog.returns_pure hfailed) fun req => (h req).bind fun _ h => Prog.returns_pure h

theorem coded_handleSharePicture (user filemd5 file_name : Bytes) :
    Coded (handleSharePicture user filemd5 file_name) := by
  rw [handleSharePicture]
  refine Prog.returns_bind fun db_conn => Prog.returns_bind fun urlmd5 => ?_
  refine Prog.returns_bind fun create_time => Prog.returns_bind fun inserted => ?_
  exact Prog.returns_pure (hasCode_encodeSharePictureJson _ _)

theorem coded_browsedPicture (urlmd5 : Bytes) : Coded (browsedPicture urlmd5) := by
  refine Prog.returns_bind fun db_conn => Prog.returns_bind fun pictures => ?_
  rcases pictures with _ | (_ | ⟨picture, _⟩)
  · exact Prog.returns_pure (hasCode_code _)
  · exact Prog.returns_pure (hasCode_code _)
  · refine Prog.returns_bind fun files => ?_
    rcases files with _ | (_ | ⟨file, _⟩)
    · exact Prog.returns_pure (hasCode_code _)
    · exact Prog.returns_pure (hasCode_code _)
    · refine Prog.returns_bind fun updated => Prog.returns_pure ?_
      split
      · exact ⟨_, rfl⟩
      · exact hasCode_code _

/-- Its caller never sees the answer. -/
theorem coded_handleBrowsePicture (urlmd5 : Bytes) : Coded (handleBrowsePicture urlmd5) :=
  (coded_browsedPicture urlmd5).bind fun _ _ => .call fun e => e.elim

theorem coded_handleCancelSharePicture (user urlmd5 : Bytes) :
    Coded (handleCancelSharePicture user urlmd5) := by
  rw [handleCancelSharePicture]
  refine Prog.returns_bind fun db_conn => Prog.returns_bind fun deleted => ?_
  exact Prog.returns_pure (hasCode_code _)

/-! ## The picture list -/

/-- A query of the run got no result set. -/
def QueryFailed (log : Log Resp) : Prop :=
  ∃ q : Select, (⟨.select q, (none : Option (List q.Row))⟩ : Σ c, Resp c) ∈ log

theorem not_queryFailed_nil : ¬ QueryFailed [] := by
  rintro ⟨q, h⟩
  cases h

theorem queryFailed_cons (q : Select) (rows : Option (List q.Row)) (log : Log Resp) :
    QueryFailed (⟨.select q, rows⟩ :: log) ↔ rows = none ∨ QueryFailed log := by
  constructor
  · rintro ⟨q', h⟩
    rcases List.mem_cons.mp h with h | h
    · cases h
      exact .inl rfl
    · exact .inr ⟨q', h⟩
  · rintro (rfl | ⟨q', h⟩)
    · exact ⟨q, List.mem_cons_self⟩
    · exact ⟨q', List.mem_cons_of_mem _ h⟩

theorem queryFailed_cons_getDBConn (pool : DbPool) (live : Bool) (log : Log Resp) :
    QueryFailed (⟨.getDBConn pool, live⟩ :: log) ↔ QueryFailed log := by
  constructor
  · rintro ⟨q, h⟩
    rcases List.mem_cons.mp h with h | h
    · cases h
    · exact ⟨q, h⟩
  · rintro ⟨q, h⟩
    exact ⟨q, List.mem_cons_of_mem _ h⟩

/-- Every run that returns satisfies `Q` with what was answered. -/
abbrev UnderAny {α : Type} (Q : α → Log Resp → Prop) (p : Handler α) (log : Log Resp) : Prop :=
  Under (fun _ => True) Q p log

theorem hasCode_picturesList (files : List JsonValue) (total : Int) :
    HasCode (some (.object ((if files = [] then [] else [(ascii "files", .array files)]) ++
      [(ascii "code", .int 0), (ascii "count", .int files.length),
        (ascii "total", .int total)]))) := by
  split <;> exact ⟨0, rfl⟩

/-- The counting query leaves a negative code exactly where it failed. -/
theorem getSharePicturesCount_under {db_conn : CDBConn} {user_name : Bytes}
    {Q : Int × Int → Log Resp → Prop} {log : Log Resp} (hlog : ¬ QueryFailed log)
    (hfailed : ∀ log', QueryFailed log' → Q (-1, 0) log')
    (hcounted : ∀ total log', ¬ QueryFailed log' → Q (0, total) log') :
    UnderAny Q (getSharePicturesCount db_conn user_name) log := by
  refine under_bind (under_executeQuery (fun _ => trivial) fun _ rows => ?_)
  rcases rows with _ | (_ | ⟨count, _⟩)
  · exact under_pure (hfailed _ ((queryFailed_cons _ _ _).mpr (.inl rfl)))
  · refine under_pure (hcounted _ _ ?_)
    rw [queryFailed_cons]
    exact fun h => h.elim nofun hlog
  · refine under_pure (hcounted _ _ ?_)
    rw [queryFailed_cons]
    exact fun h => h.elim nofun hlog

/-- The list is coded exactly where no query failed. -/
theorem handleGetSharePicturesList_coded_iff (user : Bytes) (start count : Int) :
    UnderAny (fun root log => HasCode (some root) ↔ ¬ QueryFailed log)
      (handleGetSharePicturesList user start count) [] := by
  refine under_bind (under_getDBConn fun live => ?_)
  have hlog : ¬ QueryFailed [⟨.getDBConn .filehubSlave, live⟩] :=
    (queryFailed_cons_getDBConn _ _ _).not.mpr not_queryFailed_nil
  refine under_bind (getSharePicturesCount_under hlog ?_ ?_)
  · intro log' h
    exact under_pure (iff_of_false id fun hn => hn h)
  · intro total log' h
    refine under_bind (under_executeQuery (fun _ => trivial) fun _ rows => ?_)
    cases rows with
    | none =>
        refine under_pure (iff_of_false id fun hn => hn ?_)
        exact (queryFailed_cons _ _ _).mpr (.inl rfl)
    | some rows =>
        refine under_pure (iff_of_true (hasCode_picturesList (rows.map pictureJson) total) ?_)
        rw [queryFailed_cons]
        exact fun h' => h'.elim nofun h

/-! ## All requests -/

/-- The API function of the route does not know the command, and says nothing. -/
def ApiRequest.Unknown (stack : Bytes) (r : ApiRequest) : Prop :=
  match r.route with
  | .dealfile => cmdOf stack r.url ∉ [ascii "share", ascii "del", ascii "pv"]
  | .sharefiles => cmdOf stack r.url ∉ [ascii "count", ascii "normal", ascii "pvdesc"]
  | .sharepic =>
      cmdOf stack r.url ∉ [ascii "share", ascii "browse", ascii "normal", ascii "cancel"]
  | .reg | .login | .md5 | .upload | .myfiles | .dealsharefile => False

/-- The request asks for the pictures a user shares. -/
def ApiRequest.ListsPictures (stack : Bytes) (r : ApiRequest) : Prop :=
  r.route = .sharepic ∧ cmdOf stack r.url = ascii "normal"

/-- The answer is coded, up to what was answered and the two exceptions. -/
def Coding (unknown lists : Prop) (a : Int × Option JsonValue) (log : Log Resp) : Prop :=
  HasCode a.2 ↔ ¬ unknown ∧ ¬ (lists ∧ QueryFailed log)

theorem coding_of_answers {unknown lists : Prop} {p : Handler (Int × Option JsonValue)}
    (h : Answers p) (hu : ¬ unknown) (hl : ¬ lists) : UnderAny (Coding unknown lists) p [] :=
  Under.mono (fun _ _ hcode => iff_of_true hcode ⟨hu, fun hn => hl hn.1⟩) (under_returns h)

theorem coding_congr {unknown lists lists' : Prop} {p : Handler (Int × Option JsonValue)}
    (h : lists ↔ lists') (hp : UnderAny (Coding unknown lists) p []) :
    UnderAny (Coding unknown lists') p [] := by
  rw [← propext h]
  exact hp

theorem coding_of_unknown {unknown lists : Prop} (hu : unknown) :
    UnderAny (Coding unknown lists) (return (0, none)) [] :=
  under_pure (iff_of_false id fun h => h.1 hu)

theorem apiDealfile_coding (parse : Bytes → Option JsonValue) (stack url post_data : Bytes) :
    UnderAny (Coding (cmdOf stack url ∉ [ascii "share", ascii "del", ascii "pv"]) False)
      (apiDealfile parse stack url post_data) [] := by
  simp only [apiDealfile]
  split
  · next h => exact coding_of_answers (answers_dealfileCommand _ _ _) (by simp [h]) id
  · split
    · next h => exact coding_of_answers (answers_dealfileCommand _ _ _) (by simp [h]) id
    · split
      · next h => exact coding_of_answers (answers_dealfileCommand _ _ _) (by simp [h]) id
      · exact coding_of_unknown (by simp_all)

theorem apiSharefiles_coding (parse : Bytes → Option JsonValue) (stack url post_data : Bytes) :
    UnderAny (Coding (cmdOf stack url ∉ [ascii "count", ascii "normal", ascii "pvdesc"]) False)
      (apiSharefiles parse stack url post_data) [] := by
  simp only [apiSharefiles]
  split
  · next h =>
      refine coding_of_answers (Prog.returns_bind fun counted => ?_) (by simp [h]) id
      exact Prog.returns_pure (hasCode_encodeSharefilesJson counted.1 counted.2)
  · split
    · next h =>
        exact coding_of_answers (answers_sharefilesList _ _ coded_handleGetShareFilelist)
          (by simp [h]) id
    · split
      · next h =>
          exact coding_of_answers (answers_sharefilesList _ _ coded_handleGetRankingFilelist)
            (by simp [h]) id
      · exact coding_of_unknown (by simp_all)

/-- The list command: a body that is rejected is answered with a code, and no
query was made. -/
theorem picturesCommand_coding {unknown lists : Prop} (parse : Bytes → Option JsonValue)
    (post_data : Bytes) (hu : ¬ unknown) (hl : lists) :
    UnderAny (Coding unknown lists)
      (sharepictureCommand parse post_data decodePictureListJson
        (encodeSharePictureJson HTTP_RESP_FAIL []) fun req =>
          handleGetSharePicturesList (cStr req.user) req.start req.count) [] := by
  rw [sharepictureCommand]
  rcases parsed parse post_data decodePictureListJson with (_ | _) | req
  · exact under_pure (iff_of_true (hasCode_encodeSharePictureJson _ _)
      ⟨hu, fun h => not_queryFailed_nil h.2⟩)
  · exact under_crash trivial
  · refine under_bind (Under.mono ?_
      (handleGetSharePicturesList_coded_iff (cStr req.user) req.start req.count))
    intro root log h
    exact under_pure (h.trans ⟨fun hq => ⟨hu, fun h => hq h.2⟩, fun h hq => h.2 ⟨hl, hq⟩⟩)

theorem apiSharepicture_coding (parse : Bytes → Option JsonValue)
    (stack url post_data : Bytes) :
    UnderAny (Coding
        (cmdOf stack url ∉ [ascii "share", ascii "browse", ascii "normal", ascii "cancel"])
        (cmdOf stack url = ascii "normal"))
      (apiSharepicture parse stack url post_data) [] := by
  have hfailed := hasCode_encodeSharePictureJson HTTP_RESP_FAIL []
  simp only [apiSharepicture]
  split
  · next h =>
      rw [h]
      exact coding_of_answers (answers_sharepictureCommand _ _ _ hfailed fun req =>
        coded_handleSharePicture _ _ _) (by decide) (by decide)
  · split
    · next h =>
        rw [h]
        exact coding_of_answers (answers_sharepictureCommand _ _ _ hfailed fun req =>
          coded_handleBrowsePicture _) (by decide) (by decide)
    · split
      · next h => exact picturesCommand_coding parse post_data (by simp [h]) h
      · split
        · next h =>
            rw [h]
            exact coding_of_answers (answers_sharepictureCommand _ _ _ (hasCode_code 1)
              fun req => coded_handleCancelSharePicture _ _) (by decide) (by decide)
        · exact coding_of_unknown (by simp_all)

theorem ApiRequest.handle_coding (parse : Bytes → Option JsonValue) (ip stack : Bytes)
    (r : ApiRequest) :
    UnderAny (Coding (r.Unknown stack) (r.ListsPictures stack)) (r.handle parse ip stack) [] := by
  obtain ⟨route, url, post_data⟩ := r
  cases route with
  | reg => exact coding_of_answers (answers_apiRegisterUser _ _) id nofun
  | login =>
      exact coding_of_answers ((coded_apiUserLogin _ _).bind fun _ h => Prog.returns_pure h) id
        nofun
  | md5 => exact coding_of_answers (answers_apiMd5 _ _) id nofun
  | upload => exact coding_of_answers (answers_apiUpload _ _) id nofun
  | myfiles => exact coding_of_answers (answers_apiMyfiles _ _ _ _) id nofun
  | sharepic =>
      have hlists : cmdOf stack url = ascii "normal" ↔
          ApiRequest.ListsPictures stack ⟨.sharepic, url, post_data⟩ :=
        ⟨fun h => ⟨rfl, h⟩, And.right⟩
      exact coding_congr hlists (apiSharepicture_coding parse stack url post_data)
  | dealfile =>
      exact coding_congr ⟨False.elim, nofun⟩ (apiDealfile_coding parse stack url post_data)
  | sharefiles =>
      exact coding_congr ⟨False.elim, nofun⟩ (apiSharefiles_coding parse stack url post_data)
  | dealsharefile => exact coding_of_answers (answers_apiDealsharefile _ _ _ _) id nofun

/-- The answer of a request that is answered at all has a code exactly where its command is
known and, if it lists pictures, no query failed. -/
theorem ApiRequest.hasCode_iff {parse : Bytes → Option JsonValue} {ip stack : Bytes}
    {r : ApiRequest} {ω : ℕ → Outcomes} {ret : Int} {answer : Option JsonValue}
    (h : (runUnder ω (r.handle parse ip stack)).res = some (ret, answer)) :
    HasCode answer ↔ ¬ r.Unknown stack ∧
      ¬ (r.ListsPictures stack ∧ QueryFailed (runUnder ω (r.handle parse ip stack)).st) :=
  (r.handle_coding parse ip stack).returned h

/-! A registration, and a list of pictures whose first query fails. -/

theorem registered_hasCode : HasCode (some (.code 0)) ↔
    ¬ registerU.Unknown [] ∧ ¬ (registerU.ListsPictures [] ∧
      QueryFailed (runUnder (fun _ => registered)
        (registerU.handle (fun _ => some registrationOfU) [] [])).st) :=
  ApiRequest.hasCode_iff registered_run

def picturesOfU : JsonValue :=
  .object [(ascii "token", .str (ascii "t")), (ascii "user", .str (ascii "u")),
    (ascii "start", .int 0), (ascii "count", .int 10)]

def listPicturesOfU : Handler (Int × Option JsonValue) :=
  ApiRequest.handle (fun _ => some picturesOfU) [] []
    ⟨.sharepic, ascii "/api/sharepic&cmd=normal", ascii "t"⟩

/-- The list with its first query failing: the answer is null. -/
theorem failedList_null : (match (runUnder (fun _ => Outcomes.failing) listPicturesOfU).res with
    | some (_, some .null) => true
    | _ => false) = true := by
  decide +kernel

theorem failedList_uncoded :
    ¬ ∀ (parse : Bytes → Option JsonValue) (ip stack : Bytes) (r : ApiRequest)
      (ω : ℕ → Outcomes) (ret : Int) (answer : Option JsonValue),
      (runUnder ω (r.handle parse ip stack)).res = some (ret, answer) → HasCode answer := by
  intro h
  have hnull := failedList_null
  cases hres : (runUnder (fun _ => Outcomes.failing) listPicturesOfU).res with
  | none =>
      rw [hres] at hnull
      cases hnull
  | some a =>
      obtain ⟨ret, answer⟩ := a
      have hcode := h _ _ _ _ _ ret answer hres
      rw [hres] at hnull
      match answer, hcode, hnull with
      | some (.object _), _, hnull => cases hnull

end FileHub
