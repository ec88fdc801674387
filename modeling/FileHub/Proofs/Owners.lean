import FileHub.Proofs.KnownCalls
import FileHub.Proofs.Statements
import FileHub.Proofs.Tokens

/-!
# Who changes whose data

What a user has is his rows of three tables; the download count of a share is
public and left out. A statement spares a user if it names another one, or none.

The routes that check a token name in their statements the user they checked.
The others change rows of whoever the request names: an upload, the cancelling
and saving of shares, and sharing, browsing and cancelling pictures. Requests
that take none of those branches change a user's rows only with a token of his.
-/

namespace FileHub

open Lib
open Lib.Sql (Plain)
open Prog (ask)

/-- A user's rows. -/
@[ext]
structure Belongings where
  files : List UserFileRow
  shares : List ShareRow
  pictures : List PictureRow
deriving DecidableEq

def Db.belongings (db : Db) (user : Bytes) : Belongings :=
  ⟨db.userFileList.rows.filter fun r => r.user = user,
    (db.shareFileList.filter fun r => r.user = user).map fun r => { r with pv := 0 },
    db.sharePictureList.filter fun r => r.user = user⟩

/-- The statement changes no row of the user. -/
def Dml.Spares (user : Bytes) : Dml → Prop
  | .insertUserFile r => cStr r.user ≠ user
  | .insertShare r => cStr r.user ≠ user
  | .insertPicture r => cStr r.user ≠ user
  | .deleteUserFile u .. | .setSharedStatus _ u .. | .setUserFilePv _ u .. | .deleteShare u ..
  | .deletePicture u _ => cStr u ≠ user
  | .incrPicturePv _ => False
  | .insertFileInfo _ | .incrCount _ | .decrCount _ | .deleteFileInfo _ | .setSharePv ..
  | .insertUser _ => True

section

variable {α β : Type} {p : α → Bool}

/-- An update that does not touch the rows selected, as far as `g` sees. -/
theorem map_filter_map {f : α → α} {g : α → β} (hp : ∀ a, p (f a) = p a)
    (hg : ∀ a, p a = true → g (f a) = g a) (l : List α) :
    ((l.map f).filter p).map g = (l.filter p).map g := by
  have hpf : p ∘ f = p := funext hp
  rw [List.filter_map, hpf, List.map_map]
  exact List.map_congr_left fun a ha => hg a (List.mem_filter.mp ha).2

theorem filter_map_of_eq {f : α → α} (hp : ∀ a, p (f a) = p a) (hf : ∀ a, p a = true → f a = a)
    (l : List α) : (l.map f).filter p = l.filter p := by
  have h := map_filter_map (g := id) hp hf l
  rwa [List.map_id, List.map_id] at h

/-- A row added that is not among those selected. -/
theorem filter_concat_of_false {l : List α} {a : α} (h : p a = false) :
    (l ++ [a]).filter p = l.filter p := by
  rw [List.filter_append, List.filter_cons_of_neg (by simp [h]), List.filter_nil, List.append_nil]

/-- Rows removed that are not among those selected. -/
theorem filter_filter_of_imp {q : α → Bool} (h : ∀ a, p a = true → q a = true) (l : List α) :
    (l.filter q).filter p = l.filter p := by
  rw [List.filter_filter]
  refine List.filter_congr fun a _ => ?_
  cases hp : p a with
  | false => rfl
  | true => rw [h a hp, Bool.and_self]

end

theorem belongings_insertUserFile {user : Bytes} {r : UserFileRow} (h : cStr r.user ≠ user)
    (db : Db) : (db.sql (.insertUserFile r)).belongings user = db.belongings user := by
  cases hown : db.own r.user r.md5 r.fileName with
  | some _ => rw [Db.sql_insertUserFile_of_own (Option.isSome_of_mem hown)]
  | none =>
      obtain ⟨t, r', ht, hkey, -, hsql⟩ := Db.sql_insertUserFile hown
      have huser : r'.user = cStr r.user := congrArg Prod.fst hkey
      have hfiles : (t.rows.filter fun r => r.user = user) =
          db.userFileList.rows.filter fun r => r.user = user := by
        rw [Table.insert_rows ht]
        exact filter_concat_of_false (decide_eq_false (huser ▸ h))
      rw [hsql, Db.belongings, Db.belongings, hfiles]

theorem belongings_sql {user : Bytes} {d : Dml} (h : d.Spares user) (db : Db) :
    (db.sql d).belongings user = db.belongings user := by
  cases d with
  | insertUserFile r => exact belongings_insertUserFile h db
  | insertFileInfo row =>
      cases hinfo : (db.info row.md5) with
      | some _ => rw [Db.sql_insertFileInfo_of_info (Option.isSome_of_mem hinfo)]
      | none =>
          obtain ⟨t, row', -, -, -, -, hsql⟩ := Db.sql_insertFileInfo hinfo
          rw [hsql]
          rfl
  | incrCount | decrCount | deleteFileInfo => rfl
  | insertUser r =>
      simp only [Db.sql, Dml.format, Dml.exec]
      split <;> rfl
  | deleteUserFile u m f =>
      refine Belongings.ext (filter_filter_of_imp (fun r hr => ?_) _) rfl rfl
      rw [decide_eq_true_eq] at hr
      subst hr
      simp [UserFileRow.key, Ne.symm h]
  | setSharedStatus v u m f | setUserFilePv v u m f =>
      refine Belongings.ext (filter_map_of_eq (fun r => ?_) (fun r hr => ?_) _) rfl rfl
      · split <;> rfl
      · rw [decide_eq_true_eq] at hr
        subst hr
        exact if_neg (by simp [UserFileRow.key, Ne.symm h])
  | insertShare r =>
      refine Belongings.ext rfl (congrArg (List.map _) ?_) rfl
      exact filter_concat_of_false (decide_eq_false h)
  | deleteShare u m f =>
      refine Belongings.ext rfl
        (congrArg (List.map _) (filter_filter_of_imp (fun r hr => ?_) _)) rfl
      rw [decide_eq_true_eq] at hr
      subst hr
      simp [Ne.symm h]
  | setSharePv v m f =>
      refine Belongings.ext rfl (map_filter_map (fun r => ?_) (fun r hr => ?_) _) rfl
      · split <;> rfl
      · split <;> rfl
  | insertPicture r =>
      refine Belongings.ext rfl rfl ?_
      exact filter_concat_of_false (decide_eq_false h)
  | deletePicture u k =>
      refine Belongings.ext rfl rfl (filter_filter_of_imp (fun r hr => ?_) _)
      rw [decide_eq_true_eq] at hr
      subst hr
      simp [Ne.symm h]
  | incrPicturePv => exact h.elim

/-! ## Calls and handlers -/

/-- The call changes no row of the user. -/
def Call.Spares (user : Bytes) : Call → Prop
  | .dml d => d.Spares user
  | _ => True

theorem spares_of_reads {user : Bytes} {c : Call} (hc : c.Reads) : c.Spares user := by
  cases c <;> trivial

theorem step_spares {user : Bytes} {c : Call} (hc : c.Spares user) {a : Ans} {w w' : World}
    {r : Resp c} (hs : step c a w = some (r, w')) :
    w'.db.belongings user = w.db.belongings user := by
  cases c with
  | dml d =>
      by_cases ha : a.ok
      · rw [step_dml ha] at hs
        cases hs
        exact belongings_sql hc w.db
      · rw [step, if_neg ha] at hs
        cases hs
        rfl
  | fdfsUpload | fdfsDelete =>
      simp only [step] at hs
      split at hs <;> cases hs <;> rfl
  | _ =>
      refine congrArg (Db.belongings · user) (step_aside ?_ hs).1
      trivial

/-- A handler that spares the user changes none of his rows. -/
theorem moves_spares {α : Type} {user : Bytes} {p : Handler α}
    (hp : p.Uses (Call.Spares user)) (ω : ℕ → Ans) (w : World) :
    ∀ m ∈ Prog.moves step ω p w, m.2.db.belongings user = m.1.db.belongings user :=
  hp.moves (R := fun w w' => w'.db.belongings user = w.db.belongings user)
    (fun _ _ _ _ _ hc hs => step_spares hc hs) ω w

section

variable {user : Bytes} (parse : Bytes → Option JsonValue)

theorem apiMd5_spares (post_data : Bytes) : (apiMd5 parse post_data).Uses (Call.Spares user) := by
  refine uses_decoded trivial trivial fun req _ => ?_
  refine .bind (uses_verifyToken trivial trivial trivial trivial) fun verified => ?_
  split
  · exact .bind (uses_handleDealMd5 (fun _ => spares_of_reads) trivial trivial trivial)
      fun _ => trivial
  · trivial

theorem apiUserLogin_spares (post_data : Bytes) :
    (apiUserLogin parse post_data).Uses (Call.Spares user) :=
  uses_apiUserLogin (fun _ => spares_of_reads) fun _ _ => trivial

theorem apiRegisterUser_spares (post_data : Bytes) :
    (apiRegisterUser parse post_data).Uses (Call.Spares user) :=
  uses_apiRegisterUser (fun _ => spares_of_reads) fun _ => trivial

theorem apiMyfiles_spares (stack url post_data : Bytes) :
    (apiMyfiles parse stack url post_data).Uses (Call.Spares user) :=
  uses_apiMyfiles (fun _ => spares_of_reads) parse stack url post_data

theorem apiSharefiles_spares (stack url post_data : Bytes) :
    (apiSharefiles parse stack url post_data).Uses (Call.Spares user) :=
  uses_apiSharefiles (fun _ => spares_of_reads) (fun _ => trivial) (fun _ _ => trivial)
    (fun _ _ => trivial) parse stack url post_data

end

/-! ## Requests that are not checked -/

/-- The request takes a branch that writes rows of a user it has not checked. -/
def ApiRequest.Unchecked (parse : Bytes → Option JsonValue) (stack : Bytes) (r : ApiRequest) :
    Prop :=
  match r.route with
  | .upload => ∃ form, parseForm r.post_data = .ok form
  | .dealsharefile =>
      (cmdOf stack r.url = ascii "cancel" ∨ cmdOf stack r.url = ascii "save") ∧
        ∃ req, parsed parse r.post_data decodeDealsharefileJson = .ok req
  | .sharepic =>
      cmdOf stack r.url = ascii "share" ∧
          (∃ req, parsed parse r.post_data decodeSharePictureJson = .ok req) ∨
        cmdOf stack r.url = ascii "browse" ∧
          (∃ req, parsed parse r.post_data decodeBrowsePictureJson = .ok req) ∨
        cmdOf stack r.url = ascii "cancel" ∧
          ∃ req, parsed parse r.post_data decodeCancelPictureJson = .ok req
  | .reg | .login | .md5 | .myfiles | .dealfile | .sharefiles => False

section

variable {user : Bytes} {parse : Bytes → Option JsonValue} {ip stack url post_data : Bytes}

theorem apiUpload_spares (h : ¬∃ form, parseForm post_data = .ok form) :
    (apiUpload ip post_data).Uses (Call.Spares user) :=
  .bind (uses_getDBConn trivial) fun _ =>
    uses_decoded trivial trivial fun form hform => absurd ⟨form, hform⟩ h

theorem apiDealsharefile_spares
    (h : ¬((cmdOf stack url = ascii "cancel" ∨ cmdOf stack url = ascii "save") ∧
      ∃ req, parsed parse post_data decodeDealsharefileJson = .ok req)) :
    (apiDealsharefile parse stack url post_data).Uses (Call.Spares user) := by
  refine uses_decoded trivial trivial fun req hreq => .bind ?_ fun _ => trivial
  rw [dealsharefileCommand]
  split
  · next hcmd => exact absurd ⟨.inl hcmd, req, hreq⟩ h
  · split
    · next hcmd => exact absurd ⟨.inr hcmd, req, hreq⟩ h
    · split
      · exact uses_sharePv (fun _ => spares_of_reads) (fun _ => trivial) (fun _ => trivial)
          trivial trivial
      · trivial

theorem apiSharepicture_spares
    (hshare : cmdOf stack url = ascii "share" →
      ¬∃ req, parsed parse post_data decodeSharePictureJson = .ok req)
    (hbrowse : cmdOf stack url = ascii "browse" →
      ¬∃ req, parsed parse post_data decodeBrowsePictureJson = .ok req)
    (hcancel : cmdOf stack url = ascii "cancel" →
      ¬∃ req, parsed parse post_data decodeCancelPictureJson = .ok req) :
    (apiSharepicture parse stack url post_data).Uses (Call.Spares user) := by
  rw [apiSharepicture]
  split
  · next hcmd =>
      exact uses_decoded trivial trivial fun req hreq => absurd ⟨req, hreq⟩ (hshare hcmd)
  · split
    · next hcmd =>
        exact uses_decoded trivial trivial fun req hreq => absurd ⟨req, hreq⟩ (hbrowse hcmd)
    · split
      · exact uses_decoded trivial trivial fun req _ =>
          .bind (uses_handleGetSharePicturesList (fun _ => spares_of_reads) _ _ _) fun _ => trivial
      · split
        · next hcmd =>
            exact uses_decoded trivial trivial fun req hreq => absurd ⟨req, hreq⟩ (hcancel hcmd)
        · trivial

end

/-! ## Requests that are -/

/-- The request carries the token. -/
def ApiRequest.Carries (parse : Bytes → Option JsonValue) (r : ApiRequest) (token : Bytes) :
    Prop :=
  ∃ root, parse r.post_data = some root ∧
    root.field JsonValue.asString (ascii "token") = .ok token

theorem decodeFileRequest_token {root : JsonValue} {req : FileRequest}
    (h : decodeFileRequest root = .ok req) :
    root.field JsonValue.asString (ascii "token") = .ok req.token := by
  obtain ⟨user, -, h⟩ := Except.exists_of_bind_eq_ok h
  obtain ⟨token, htoken, h⟩ := Except.exists_of_bind_eq_ok h
  obtain ⟨md5, -, h⟩ := Except.exists_of_bind_eq_ok h
  obtain ⟨filename, -, h⟩ := Except.exists_of_bind_eq_ok h
  cases h
  exact htoken

/-- The states that calls can lead to, whatever they send, and keys that expire. -/
inductive World.Reached (server : SqlServer) : World → Prop where
  | init (lex : ZSet → Bytes → ℕ) (randSeq : ℕ → ℕ) :
      World.Reached server (World.init lex randSeq)
  | call {c : Call} {a : Ans} {w w' : World} {r : Resp c} (hw : World.Reached server w)
      (hs : server.step c a w = some (r, w')) : World.Reached server w'
  | expire {w : World} (hw : World.Reached server w) (key : Bytes) :
      World.Reached server { w with redis := Function.update w.redis key none }

variable {server : SqlServer}

/-- MySQL and FastDFS leave Redis alone, whatever they are sent. -/
theorem redis_or_step {c : Call} {a : Ans} {w w' : World} {r : Resp c}
    (hs : server.step c a w = some (r, w')) :
    w'.redis = w.redis ∨ step c a w = some (r, w') := by
  cases c with
  | select => exact .inl (by cases hs; rfl)
  | dml d =>
      rw [SqlServer.step] at hs
      split at hs
      · split at hs <;> exact .inl (by cases hs; rfl)
      · split at hs <;> exact .inl (by cases hs; rfl)
  | fdfsUpload | fdfsDelete =>
      rw [SqlServer.step] at hs
      split at hs
      · exact .inl (by cases hs; rfl)
      · exact .inr hs
  | _ => exact .inr hs

/-- A string in Redis holds no NUL. -/
theorem World.Reached.str {w : World} (hw : World.Reached server w) :
    ∀ {key v : Bytes}, w.redis key = some (.str v) → ∀ b ∈ v, b ≠ 0 := by
  induction hw with
  | init =>
      intro key v h
      cases h
  | call hw hs ih =>
      intro key v h
      rcases redis_or_step hs with hsame | hs
      · exact ih (hsame ▸ h)
      · rcases TokenEvent.step_str hs h with h | ⟨k, u, -, rfl, -⟩
        · exact ih h
        · exact cStr_nonzero u
  | @expire w hw key' ih =>
      intro key v h
      dsimp only at h
      by_cases heq : key = key'
      · subst heq
        rw [Function.update_self] at h
        cases h
      · rw [Function.update_of_ne heq] at h
        exact ih h

section

variable {α : Type} {user name token : Bytes} {q : Handler α} {x : α} {w : World} {ω : ℕ → Ans}

/-- Who passes the check is named as the statements name him. -/
theorem cStr_of_verified (hw : World.Reached server w)
    (h : (runIn ω (verifyToken name token) w).res = some 0) : cStr name = name := by
  have hread := (TokenEvent.verifyToken_reads name token w).exec ω fun _ => trivial
  match hexec : Prog.exec step ω (verifyToken name token) w with
  | ⟨none, _, _⟩ =>
      rw [runIn, hexec] at h
      cases h
  | ⟨some r, _, _⟩ =>
      rw [runIn, hexec] at h
      rw [hexec] at hread
      cases h
      by_cases hname : name = []
      · subst hname
        rfl
      · have hstr := TokenEvent.str_of_tokenUser (hread rfl hname) hname
        exact cStr_of_forall (hw.str hstr)

/-- A handler behind the check changes rows of the user checked, or of nobody. -/
theorem verified_moves (hw : World.Reached server w)
    (hq : cStr name ≠ user → q.Uses (Call.Spares user)) {m : World × World}
    (hm : m ∈ Prog.moves step ω (verifyToken name token >>= fun ret =>
      if ret = 0 then q else .ret x) w)
    (hchanged : m.2.db.belongings user ≠ m.1.db.belongings user) :
    (runIn ω (verifyToken user token) w).res = some 0 := by
  have hcheck : (verifyToken name token).Uses (Call.Spares user) :=
    uses_verifyToken trivial trivial trivial trivial
  rw [Prog.moves_bind, List.mem_append] at hm
  rcases hm with hm | hm
  · exact absurd (moves_spares hcheck ω w m hm) hchanged
  · match hexec : Prog.exec step ω (verifyToken name token) w with
    | ⟨none, _, _⟩ =>
        rw [hexec] at hm
        cases hm
    | ⟨some ret, w', ω'⟩ =>
        rw [hexec] at hm
        dsimp only at hm
        by_cases hret : ret = 0
        · rw [if_pos hret] at hm
          have hres : (runIn ω (verifyToken name token) w).res = some 0 := by
            rw [runIn, hexec, hret]
          have hname : cStr name = user := by
            by_contra hne
            exact hchanged (moves_spares (hq hne) ω' w' m hm)
          rw [cStr_of_verified hw hres] at hname
          exact hname ▸ hres
        · rw [if_neg hret] at hm
          cases hm

theorem dealfileCommand_moves (hw : World.Reached server w) {r : ApiRequest}
    {parse : Bytes → Option JsonValue}
    {handler : Bytes → Bytes → Bytes → Handler Int}
    (hhandler : ∀ name md5 filename, cStr name ≠ user →
      (handler name md5 filename).Uses (Call.Spares user)) {m : World × World}
    (hm : m ∈ Prog.moves step ω (dealfileCommand parse r.post_data handler) w)
    (hchanged : m.2.db.belongings user ≠ m.1.db.belongings user) :
    ∃ token, r.Carries parse token ∧ (runIn ω (verifyToken user token) w).res = some 0 := by
  rw [dealfileCommand] at hm
  cases hroot : parse r.post_data with
  | none =>
      rw [parsed, hroot] at hm
      cases hm
  | some root =>
      cases hreq : decodeDealfileJson root with
      | error e =>
          rw [parsed, hroot] at hm
          dsimp only at hm
          rw [hreq] at hm
          cases e <;> cases hm
      | ok req =>
          rw [parsed, hroot] at hm
          dsimp only at hm
          rw [hreq] at hm
          refine ⟨req.token, ⟨root, hroot, decodeFileRequest_token hreq⟩, ?_⟩
          refine verified_moves hw (fun hname => ?_) hm hchanged
          exact .bind (hhandler _ _ _ hname) fun _ => trivial

end

theorem ApiRequest.changed_of_moves (parse : Bytes → Option JsonValue) (ip stack : Bytes)
    {w : World} (hw : World.Reached server w) {r : ApiRequest} (hr : ¬r.Unchecked parse stack)
    (ω : ℕ → Ans) (user : Bytes)
    (hchanged : ∃ m ∈ Prog.moves step ω (r.handle parse ip stack) w,
      m.2.db.belongings user ≠ m.1.db.belongings user) :
    ∃ token, r.Carries parse token ∧ (runIn ω (verifyToken user token) w).res = some 0 := by
  obtain ⟨m, hm, hchanged⟩ := hchanged
  have hspared : ∀ {α : Type} {p : Handler α}, p.Uses (Call.Spares user) →
      m ∈ Prog.moves step ω p w → False := fun hp hm => hchanged (moves_spares hp ω w m hm)
  have hreads : ∀ c : Call, c.Reads → c.Spares user := fun _ => spares_of_reads
  obtain ⟨route, url, post_data⟩ := r
  cases route with
  | reg => exact (hspared (apiRegisterUser_spares parse post_data) hm).elim
  | login =>
      refine (hspared ?_ hm).elim
      exact .bind (apiUserLogin_spares parse post_data) fun _ => trivial
  | md5 => exact (hspared (apiMd5_spares parse post_data) hm).elim
  | upload => exact (hspared (apiUpload_spares hr) hm).elim
  | myfiles => exact (hspared (apiMyfiles_spares parse stack url post_data) hm).elim
  | sharepic =>
      refine (hspared (apiSharepicture_spares (fun hcmd hreq => ?_) (fun hcmd hreq => ?_)
        fun hcmd hreq => ?_) hm).elim
      · exact hr (.inl ⟨hcmd, hreq⟩)
      · exact hr (.inr (.inl ⟨hcmd, hreq⟩))
      · exact hr (.inr (.inr ⟨hcmd, hreq⟩))
  | sharefiles => exact (hspared (apiSharefiles_spares parse stack url post_data) hm).elim
  | dealsharefile => exact (hspared (apiDealsharefile_spares hr) hm).elim
  | dealfile =>
      simp only [ApiRequest.handle, apiDealfile] at hm
      split at hm
      · refine dealfileCommand_moves hw (fun name md5 filename hname => ?_) hm hchanged
        exact uses_handleShareFile hreads (fun _ => trivial) (fun _ => trivial) trivial trivial
          trivial hname fun _ => hname
      · split at hm
        · refine dealfileCommand_moves hw (fun name md5 filename hname => ?_) hm hchanged
          exact uses_handleDeleteFile hreads trivial trivial trivial trivial (fun _ => trivial)
            hname hname trivial trivial
        · split at hm
          · refine dealfileCommand_moves hw (fun name md5 filename hname => ?_) hm hchanged
            exact uses_ownPv hreads fun _ => hname
          · cases hm

/-! ## Requests with known strings -/

namespace ApiRequest

/-- The strings that the statements of a checked request compare are known. -/
def Known (parse : Bytes → Option JsonValue) (K : Bytes → Prop) (r : ApiRequest) : Prop :=
  match r.route with
  | .reg => ∀ req, parsed parse r.post_data decodeRegisterJson = .ok req →
      K req.user_name ∧ K req.nick_name
  | .login => ∀ req, parsed parse r.post_data decodeLoginJson = .ok req → K req.1
  | .md5 => ∀ req, parsed parse r.post_data decodeMd5Json = .ok req → req.Known K
  | .myfiles => (∀ req, parsed parse r.post_data decodeCountJson = .ok req → K req.1) ∧
      ∀ req, parsed parse r.post_data decodeFileslistJson = .ok req → K req.user_name
  | .sharepic => ∀ req, parsed parse r.post_data decodePictureListJson = .ok req →
      K (cStr req.user)
  | .dealfile => ∀ req, parsed parse r.post_data decodeDealfileJson = .ok req →
      K req.user ∧ K req.md5 ∧ K req.filename
  | .dealsharefile => ∀ req, parsed parse r.post_data decodeDealsharefileJson = .ok req →
      K req.md5 ∧ K req.filename
  | .upload | .sharefiles => True

section

variable {K : Bytes → Prop} {parse : Bytes → Option JsonValue} {ip stack : Bytes}

theorem known_dealfileCommand {post_data : Bytes} {handler : Bytes → Bytes → Bytes → Handler Int}
    (hhandler : ∀ user md5 filename, K user → K md5 → K filename →
      KnownCalls K (handler user md5 filename))
    (h : ∀ req, parsed parse post_data decodeDealfileJson = .ok req →
      K req.user ∧ K req.md5 ∧ K req.filename) :
    KnownCalls K (dealfileCommand parse post_data handler) := by
  refine asks_decoded trivial trivial fun req hreq => ?_
  obtain ⟨huser, hmd5, hname⟩ := h req hreq
  refine (known_verifyToken _ _).bind fun ret => ?_
  split
  · exact (hhandler _ _ _ huser hmd5 hname).bind fun _ => trivial
  · trivial

theorem known_handle {r : ApiRequest} (hr : ¬r.Unchecked parse stack) (h : r.Known parse K) :
    KnownCalls K (r.handle parse ip stack) := by
  have hfree : ∀ c : Call, c.Free → c.Known K := fun _ hc => hc.known
  obtain ⟨route, url, post_data⟩ := r
  cases route with
  | reg =>
      refine asks_apiRegisterUser hfree (fun req hreq => known_one (h req hreq).1)
        fun req hreq time => ?_
      exact known_dml (fun cmd hcmd => by cases hcmd) (known_file (h req hreq).1 (h req hreq).2)
        fun s hs => by cases hs
  | login =>
      exact (asks_apiUserLogin hfree (fun req hreq => known_one (h req hreq))
        fun _ _ => trivial).bind fun _ => trivial
  | md5 => exact known_apiMd5 h
  | upload =>
      refine (uses_getDBConn trivial).asks.bind fun _ => ?_
      exact asks_decoded trivial trivial fun form hform => absurd ⟨form, hform⟩ hr
  | myfiles =>
      exact asks_apiMyfiles hfree (fun _ => trivial) (fun req hreq => known_one (h.1 req hreq))
        fun req hreq => ⟨known_one (h.2 req hreq), known_one (h.2 req hreq)⟩
  | sharepic =>
      simp only [ApiRequest.handle, apiSharepicture]
      split
      · next hcmd =>
          exact asks_decoded trivial trivial fun req hreq => absurd (.inl ⟨hcmd, req, hreq⟩) hr
      · split
        · next hcmd =>
            exact asks_decoded trivial trivial fun req hreq =>
              absurd (.inr (.inl ⟨hcmd, req, hreq⟩)) hr
        · split
          · exact asks_decoded trivial trivial fun req hreq =>
              (asks_handleGetSharePicturesList hfree (known_one (h req hreq))
                (known_one (h req hreq))).bind fun _ => trivial
          · split
            · next hcmd =>
                exact asks_decoded trivial trivial fun req hreq =>
                  absurd (.inr (.inr ⟨hcmd, req, hreq⟩)) hr
            · trivial
  | sharefiles =>
      have hnone : ∀ s ∈ ([] : List Bytes), K s := fun s hs => by cases hs
      exact asks_apiSharefiles hfree hnone hnone (fun _ => trivial) trivial (fun _ _ => trivial)
        (fun _ _ => trivial) (fun _ => trivial) (fun _ => trivial) (fun _ _ => trivial)
        (fun _ _ => hnone) parse stack url post_data
  | dealsharefile =>
      refine asks_decoded trivial trivial fun req hreq => Prog.Asks.bind ?_ fun _ => trivial
      obtain ⟨hmd5, hname⟩ := h req hreq
      rw [dealsharefileCommand]
      split
      · next hcmd => exact absurd ⟨.inl hcmd, req, hreq⟩ hr
      · split
        · next hcmd => exact absurd ⟨.inr hcmd, req, hreq⟩ hr
        · split
          · exact known_sharePv hmd5 hname
          · trivial
  | dealfile =>
      simp only [ApiRequest.handle, apiDealfile]
      split
      · exact known_dealfileCommand (fun _ _ _ => known_handleShareFile) h
      · split
        · exact known_dealfileCommand (fun _ _ _ => known_handleDeleteFile) h
        · split
          · exact known_dealfileCommand (fun _ _ _ => known_ownPv) h
          · trivial

/-- A request with known strings that takes none of the unchecked branches changes a user's
rows only if it carries a token that passes the check for him. -/
theorem changed_only_with_token (server : SqlServer) {K : Bytes → Prop} (hK : server.Tells K)
    (parse : Bytes → Option JsonValue) (ip stack : Bytes) {w : World}
    (hw : World.Reached server w) (hdb : w.db.Known K) {r : ApiRequest}
    (hr : ¬r.Unchecked parse stack) (hknown : r.Known parse K) {ω : ℕ → Ans}
    (hω : server.Regular ω (r.handle parse ip stack) w) (user : Bytes)
    (hchanged : ∃ m ∈ Prog.moves server.step ω (r.handle parse ip stack) w,
      m.2.db.belongings user ≠ m.1.db.belongings user) :
    ∃ token, r.Carries parse token ∧ (runIn ω (verifyToken user token) w).res = some 0 := by
  rw [hK.agree.moves (known_handle hr hknown) hdb hω] at hchanged
  exact changed_of_moves parse ip stack hw hr ω user hchanged

end

/-! A request about user `u`'s file, with the token it carries, as the parser reads it. -/

def fileBody : Bytes :=
  ascii "\x7b\"user\":\"u\",\"token\":\"00000000-0000-0000-0000-000000000000\",\"md5\":\"m\",\"filename\":\"f\"\x7d"

def fileParse (body : Bytes) : Option JsonValue :=
  if body = fileBody then
    some (.object [(ascii "user", .str (ascii "u")), (ascii "token", .str TokenEvent.zeroToken),
      (ascii "md5", .str (ascii "m")), (ascii "filename", .str (ascii "f"))])
  else none

/-- The user has the file; he has logged in under the token. -/
def fileWorld : World :=
  (World.empty.sql
    (.insertUserFile ⟨ascii "u", ascii "m", ascii "now", ascii "f", 0, 0⟩)).cmd
    (.setex TokenEvent.zeroToken 86400 (ascii "u"))

theorem reached_fileWorld : World.Reached .strict fileWorld := by
  have hanswer : Ans.ok ⟨.none, [], 0⟩ := rfl
  have hrow : (Call.dml (.insertUserFile
      ⟨ascii "u", ascii "m", ascii "now", ascii "f", 0, 0⟩)).Known Plain :=
    known_insertUserFile (by decide) (by decide) (by decide) (by decide)
  have hinsert := (SqlServer.strict_tells.agree.same (s := .empty) (a := ⟨.none, [], 0⟩) .empty
    hrow (by decide)).trans (step_dml hanswer _ _)
  exact .call (c := .redis (.setex TokenEvent.zeroToken 86400 (ascii "u")))
    (.call (.init _ _) hinsert) (step_redis hanswer _ _)

theorem known_fileWorld : fileWorld.db.Known Plain := by
  refine ⟨?_, nofun, nofun, nofun, nofun⟩
  decide

set_option maxRecDepth 10000 in
/-- Counting a download of one's own file. -/
theorem own_pv_with_token :
    ∃ token, (ApiRequest.mk .dealfile (ascii "/api/dealfile?cmd=pv") fileBody).Carries fileParse
        token ∧
      (runIn allSucceed (verifyToken (ascii "u") token) fileWorld).res = some 0 :=
  have hknown : (ApiRequest.mk .dealfile (ascii "/api/dealfile?cmd=pv") fileBody).Known fileParse
      Plain := fun req hreq => by
    cases hreq
    exact ⟨by decide, by decide, by decide⟩
  changed_only_with_token _ SqlServer.strict_tells fileParse (ascii "ip") [] reached_fileWorld
    known_fileWorld id hknown (ω := allSucceed) (by decide +kernel) (ascii "u") (by decide +kernel)

set_option maxRecDepth 10000 in
/-- A picture is shared in the name of a user who never logged in. -/
theorem picture_shared_unchecked :
    ¬∀ w : World, World.Reached .strict w → ∀ (r : ApiRequest) (ω : ℕ → Ans) (user : Bytes),
      (∃ m ∈ Prog.moves SqlServer.strict.step ω (r.handle fileParse (ascii "ip") []) w,
        m.2.db.belongings user ≠ m.1.db.belongings user) →
      ∃ token, r.Carries fileParse token ∧
        (runIn ω (verifyToken user token) w).res = some 0 := by
  intro hall
  obtain ⟨token, ⟨root, hroot, htoken⟩, hverified⟩ := hall World.empty (.init _ _)
    ⟨.sharepic, ascii "/api/sharepic?cmd=share", fileBody⟩ allSucceed (ascii "u")
    (by decide +kernel)
  rw [fileParse, if_pos rfl, Option.some.injEq] at hroot
  subst hroot
  have hzero : token = TokenEvent.zeroToken := by
    cases htoken
    rfl
  subst hzero
  exact absurd hverified (by decide +kernel)

end ApiRequest

end FileHub
