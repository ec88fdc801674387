import FileHub.Api.Storage
import FileHub.Proofs.HandlerCalls
import FileHub.Proofs.Known

/-!
# Handlers that bring known strings

If the strings of a request are known, every statement its handler sends is made
of known strings: a handler prints what it is given, the time, the file's id
and url in FastDFS, the suffix of a name and the link it has drawn.
-/

namespace FileHub

open Lib
open Lib.Sql
open Prog (Asks)

/-- Every statement is made of known strings, as long as the answers are. -/
abbrev KnownCalls {α : Type} (K : Bytes → Prop) (p : Handler α) : Prop :=
  Asks (Call.Known K) (Resp.Known K) p

variable {K : Bytes → Prop} {α : Type}

theorem Call.Free.known {c : Call} (h : c.Free) : c.Known K := by
  cases c with
  | select | dml => cases h
  | _ => trivial

theorem known_dml {d : Dml} (hplace : ∀ cmd ∈ d.place, cmd.call = .dml d)
    (hnames : ∀ s ∈ d.names, K s) (hvalues : ∀ s ∈ d.values, Plain s) : (Call.dml d).Known K :=
  ⟨hplace, hnames, hvalues⟩

/-! ## Suffixes -/

theorem plain_drop_scanDot {s : Bytes} (h : Plain s) {k : ℕ} (hdot : s[k]? = some 46) :
    Plain (s.drop (k + 1)) := by
  induction s using escape_induction generalizing k with
  | nil => trivial
  | cons b s hb ih =>
      have hs := ((plain_cons hb).mp h).2.2
      cases k with
      | zero => exact hs
      | succ k => exact ih hs hdot
  | single => exact absurd h not_plain_backslash
  | escape c s ih =>
      obtain ⟨hc, hs⟩ := plain_escape.mp h
      match k with
      | 0 => cases hdot
      | 1 =>
          cases hdot
          rcases hc with hc | hc <;> cases hc
      | k + 2 => exact ih hs hdot

theorem plain_getFileSuffix {s : Bytes} (h : Plain s) : Plain (getFileSuffix s) := by
  have hnull : Plain (ascii "null") := by decide
  rw [getFileSuffix]
  split
  · next hdot =>
      split
      · exact plain_drop_scanDot h hdot
      · exact hnull
  · exact hnull

/-! ## The handlers of a file -/

section

variable {user md5 filename : Bytes}

theorem known_names (huser : K user) (hmd5 : K md5) (hname : K filename) :
    ∀ s ∈ [user, md5, filename], K s := by
  simp only [List.forall_mem_cons, List.not_mem_nil, false_imp_iff, implies_true, and_true]
  exact ⟨huser, hmd5, hname⟩

theorem known_file (hmd5 : K md5) (hname : K filename) : ∀ s ∈ [md5, filename], K s :=
  fun s hs => known_names hmd5 hmd5 hname s (List.mem_cons_of_mem _ hs)

theorem known_one {s : Bytes} (h : K s) : ∀ s' ∈ [s], K s' := by
  rintro s' hs'
  rwa [List.mem_singleton.mp hs']

theorem known_setSharedStatus (huser : K user) (hmd5 : K md5) (hname : K filename) {v : Int}
    (hv : v = 0 ∨ v = 1) : (Call.dml (.setSharedStatus v user md5 filename)).Known K := by
  refine known_dml ?_ (known_names huser hmd5 hname) nofun
  rintro cmd hcmd
  rcases hv with rfl | rfl <;> cases hcmd <;> rfl

theorem known_insertUserFile (huser : K user) (hmd5 : K md5) (hname : K filename) {time : Bytes}
    (htime : Plain time) :
    (Call.dml (.insertUserFile ⟨user, md5, time, filename, 0, 0⟩)).Known K :=
  known_dml (fun cmd hcmd => by cases hcmd; rfl) (known_names huser hmd5 hname)
    (by simpa [Dml.values] using htime)

theorem known_insertShare (huser : K user) (hmd5 : K md5) (hname : K filename) {time : Bytes}
    (htime : Plain time) : (Call.dml (.insertShare ⟨user, md5, time, filename, 0⟩)).Known K :=
  known_dml (fun cmd hcmd => by cases hcmd; rfl) (known_names huser hmd5 hname)
    (by simpa [Dml.values] using htime)

/-- The statements on the row of a file. -/
theorem known_fileInfo (hmd5 : K md5) :
    (Call.select (.fileInfo md5)).Known K ∧ (Call.dml (.incrCount md5)).Known K ∧
      (Call.dml (.decrCount md5)).Known K ∧ (Call.dml (.deleteFileInfo md5)).Known K :=
  ⟨known_one hmd5, known_dml (fun cmd hcmd => by cases hcmd; rfl) (known_one hmd5) nofun,
    known_dml (fun cmd hcmd => by cases hcmd; rfl) (known_one hmd5) nofun,
    known_dml (fun cmd hcmd => by cases hcmd; rfl) (known_one hmd5) nofun⟩

theorem known_deleteShare (huser : K user) (hmd5 : K md5) (hname : K filename) :
    (Call.dml (.deleteShare user md5 filename)).Known K :=
  known_dml (fun cmd hcmd => by cases hcmd; rfl) (known_names huser hmd5 hname) nofun

theorem known_handleShareFile (huser : K user) (hmd5 : K md5) (hname : K filename) :
    KnownCalls K (handleShareFile user md5 filename) :=
  asks_handleShareFile (fun _ hc => hc.known) (known_file hmd5 hname) trivial trivial trivial
    (known_setSharedStatus huser hmd5 hname (.inr rfl))
    (fun _ htime => known_insertShare huser hmd5 hname htime) (fun _ => trivial)
    (fun _ => trivial) trivial

theorem known_handleCancelShareFile (huser : K user) (hmd5 : K md5) (hname : K filename) :
    KnownCalls K (handleCancelShareFile user md5 filename) :=
  asks_handleCancelShareFile (fun _ hc => hc.known)
    (known_setSharedStatus huser hmd5 hname (.inl rfl)) (known_deleteShare huser hmd5 hname)
    trivial trivial

theorem known_handleDeleteFile (huser : K user) (hmd5 : K md5) (hname : K filename) :
    KnownCalls K (handleDeleteFile user md5 filename) := by
  obtain ⟨hinfo, -, hdecr, hdelete⟩ := known_fileInfo hmd5
  exact asks_handleDeleteFile (fun _ hc => hc.known) trivial trivial hinfo hdecr hdelete
    (fun _ => trivial)
    (known_dml (fun cmd hcmd => by cases hcmd; rfl) (known_names huser hmd5 hname) nofun)
    (known_names huser hmd5 hname) (known_deleteShare huser hmd5 hname) trivial trivial

theorem known_handleSaveFile (huser : K user) (hmd5 : K md5) (hname : K filename) :
    KnownCalls K (handleSaveFile user md5 filename) :=
  asks_handleSaveFile (fun _ hc => hc.known) (known_names huser hmd5 hname) trivial trivial
    (known_fileInfo hmd5).2.1 fun _ htime => known_insertUserFile huser hmd5 hname htime

theorem known_handleDealMd5 (huser : K user) (hmd5 : K md5) (hname : K filename) :
    KnownCalls K (handleDealMd5 user md5 filename) :=
  asks_handleDealMd5 (fun _ hc => hc.known) (known_names huser hmd5 hname) trivial trivial
    (known_fileInfo hmd5).2.1

theorem known_ownPv (huser : K user) (hmd5 : K md5) (hname : K filename) :
    KnownCalls K (Dealfile.handlePvFile user md5 filename) :=
  asks_ownPv (fun _ hc => hc.known) (known_names huser hmd5 hname) fun _ =>
    known_dml (fun cmd hcmd => by cases hcmd; rfl) (known_names huser hmd5 hname) nofun

theorem known_sharePv (hmd5 : K md5) (hname : K filename) :
    KnownCalls K (DealSharefile.handlePvFile md5 filename) :=
  asks_sharePv (fun _ hc => hc.known) (known_file hmd5 hname)
    (fun _ => known_dml (fun cmd hcmd => by cases hcmd; rfl) (known_file hmd5 hname) nofun)
    trivial (fun _ => trivial) trivial trivial

end

theorem known_handleGetRankingFilelist (start count : Int) :
    KnownCalls K (handleGetRankingFilelist start count) :=
  asks_handleGetRankingFilelist (fun _ hc => hc.known) nofun nofun (fun _ => trivial) trivial
    (fun _ _ => trivial) (fun _ _ => trivial) (fun _ => trivial) (fun _ => trivial)
    (fun _ _ => trivial) start count

/-! ## Requests with a token -/

section

variable {parse : Bytes → Option JsonValue} {post_data : Bytes}

theorem known_verifyToken (user token : Bytes) : KnownCalls K (verifyToken user token) :=
  (uses_verifyToken trivial trivial trivial trivial).asks

/-- What the handler is given are C strings. -/
def FileRequest.Known (K : Bytes → Prop) (req : FileRequest) : Prop :=
  K (cStr req.user) ∧ K (cStr req.md5) ∧ K (cStr req.filename)

theorem known_apiMd5
    (h : ∀ req, parsed parse post_data decodeMd5Json = .ok req → req.Known K) :
    KnownCalls K (apiMd5 parse post_data) := by
  refine asks_decoded trivial trivial fun req hreq => ?_
  obtain ⟨huser, hmd5, hname⟩ := h req hreq
  refine (known_verifyToken _ _).bind fun ret => ?_
  split
  · exact (known_handleDealMd5 huser hmd5 hname).bind fun _ => trivial
  · trivial

end

/-! ## Uploads -/

section

/-- The strings of the form that the statements compare. -/
structure UploadForm.Known (K : Bytes → Prop) (form : UploadForm) : Prop where
  user : K form.user
  md5 : K form.file_md5
  name : K form.file_name

variable {form : UploadForm} {ip post_data md5 : Bytes}

theorem known_insertFileInfo (hmd5 : K md5) {fileid url suffix : Bytes} {size : Int}
    (hid : Plain fileid) (hurl : Plain url) (hsuffix : Plain suffix) :
    (Call.dml (.insertFileInfo ⟨md5, fileid, url, size, suffix, 1⟩)).Known K := by
  refine known_dml (fun cmd hcmd => by cases hcmd; rfl) (known_one hmd5) ?_
  simp only [Dml.values, List.forall_mem_cons, List.not_mem_nil, false_imp_iff, implies_true,
    and_true]
  exact ⟨hid, hurl, hsuffix⟩

-- The url begins with a literal, which `Plain` would be unfolded on.
attribute [local irreducible] Plain

theorem known_storeFileinfo (conn : CDBConn) {user filename fileid url : Bytes} (huser : K user)
    (hmd5 : K md5) (hname : K filename) (hsuffix : Plain (getFileSuffix filename))
    (hid : Plain fileid) (hurl : Plain url) (size : Int) :
    KnownCalls K (storeFileinfo conn user filename md5 size fileid url) :=
  asks_storeFileinfo (fun _ hc => hc.known) trivial trivial conn
    (known_insertFileInfo hmd5 hid hurl hsuffix) (known_fileInfo hmd5).2.1 fun _ htime =>
      known_insertUserFile huser hmd5 hname htime

theorem known_uploadForm (hK : ∀ s, K s → Plain s) (hip : Plain ip) (hform : form.Known K)
    (conn : CDBConn) : KnownCalls K (uploadForm ip conn form) := by
  refine asks_uploadForm (fun _ hc => hc.known) trivial trivial (known_fileInfo hform.md5).2.1
    (fun _ htime => known_insertUserFile hform.user hform.md5 hform.name htime) conn
    (fun _ => trivial) (fun _ => trivial) fun path fileid hid => ?_
  have hfileid : Plain fileid := hid fileid rfl
  have hhttp : Plain (ascii "http://") := by decide
  have hslash : Plain (ascii "/") := by decide
  exact known_insertFileInfo hform.md5 hfileid
    (plain_append (plain_append (plain_append hhttp hip) hslash) hfileid)
    (plain_getFileSuffix (hK _ hform.name))

theorem UploadForm.Known.of_parsed (hform : form.Known K)
    (hparsed : parseForm post_data = .ok form) :
    ∀ form', parseForm post_data = .ok form' → form'.Known K := by
  intro form' hform'
  cases hparsed.symm.trans hform'
  exact hform

theorem known_apiUpload (hK : ∀ s, K s → Plain s) (hip : Plain ip)
    (hform : ∀ form, parseForm post_data = .ok form → form.Known K) :
    KnownCalls K (apiUpload ip post_data) :=
  asks_apiUpload (fun _ hc => hc.known) fun form hparsed conn =>
    known_uploadForm hK hip (hform form hparsed) conn

end

/-! ## The requests that store, copy and remove files -/

namespace StorageRequest

variable {parse : Bytes → Option JsonValue} {ip : Bytes}

/-- The request brings known strings, once its body is decoded. -/
def Known (parse : Bytes → Option JsonValue) (K : Bytes → Prop) : StorageRequest → Prop
  | .upload post_data => ∀ form, parseForm post_data = .ok form → form.Known K
  | .instantUpload post_data =>
      ∀ req, parsed parse post_data decodeMd5Json = .ok req → req.Known K
  | .save user md5 filename | .delete user md5 filename => K user ∧ K md5 ∧ K filename

theorem known_handle (hK : ∀ s, K s → Plain s) (hip : Plain ip) (request : StorageRequest)
    (h : request.Known parse K) : KnownCalls K (request.handle parse ip) := by
  cases request with
  | upload => exact (known_apiUpload hK hip h).bind fun _ => trivial
  | instantUpload => exact (known_apiMd5 h).bind fun _ => trivial
  | save => exact (known_handleSaveFile h.1 h.2.1 h.2.2).bind fun _ => trivial
  | delete => exact (known_handleDeleteFile h.1 h.2.1 h.2.2).bind fun _ => trivial

end StorageRequest

/-! ## Pictures -/

section

variable {user filemd5 file_name urlmd5 : Bytes}

theorem known_handleSharePicture (hletters : ∀ s, IsLetters 32 s → K s) (huser : K user)
    (hmd5 : K filemd5) (hname : K file_name) :
    KnownCalls K (handleSharePicture user filemd5 file_name) := by
  refine asks_handleSharePicture (fun _ hc => hc.known) trivial fun urlmd5 time hurl htime => ?_
  refine known_dml (fun cmd hcmd => by cases hcmd; rfl) ?_ ?_
  · simp only [Dml.names, List.forall_mem_cons, List.not_mem_nil, false_imp_iff, implies_true,
      and_true]
    exact ⟨huser, hmd5, hname, hletters _ hurl⟩
  · simp only [Dml.values, List.forall_mem_cons, List.not_mem_nil, false_imp_iff, implies_true,
      and_true]
    exact ⟨trivial, htime⟩

theorem known_browsedPicture (hurl : K urlmd5) : KnownCalls K (browsedPicture urlmd5) :=
  asks_browsedPicture (fun _ hc => hc.known) (known_one hurl)
    (fun _ hrows row hrow => known_one (hrows row hrow))
    (known_dml (fun cmd hcmd => by cases hcmd; rfl) (known_one hurl) nofun)

end

end FileHub
