import FileHub.Api.Sql
import FileHub.Proofs.HandlerCalls

/-!
# What MySQL reads of the printed statements

The requests' strings are printed between single quotes as they are. MySQL
reads the statement that was meant exactly when every one of them is plain: no
quote, no NUL, and a backslash only where MySQL keeps it. The statements the
requests send are the printed ones, but for the one that is prepared.
-/

namespace FileHub

open Lib
open Lib.Sql

namespace SqlCmd

theorem template_separated (cmd : SqlCmd) : separated cmd.template = true := by
  cases cmd <;>
    simp only [template, separated, Piece.opens, List.head?_cons, List.head?_nil,
      Option.all_some, Option.all_none, Bool.and_true]
  all_goals
    repeat rw [ascii_ofList]
    decide +kernel

/-- The text is read as the template's, every string with the argument for its value, exactly
when the arguments are plain. -/
theorem tokens_text_iff (cmd : SqlCmd) :
    tokens cmd.text = some (meant cmd.template) ↔ ∀ arg ∈ args cmd.template, Plain arg :=
  tokens_print_iff cmd.template_separated

theorem password_misread {user_name : Bytes} (hname : ¬ Plain user_name) :
    tokens (password user_name).text ≠ some (meant (password user_name).template) := by
  intro h
  have hplain := (tokens_print_iff (template_separated (password user_name))).mp h
  exact hname (hplain user_name List.mem_cons_self)

/-- The name that makes the login query hold for every row. -/
def everyUser : Bytes := ascii "' or '1'='1"

theorem everyUser_not_plain : ¬ Plain everyUser := by
  have hquote : everyUser = quote :: everyUser.tail := by decide
  rw [hquote, plain_cons (by decide)]
  exact fun h => h.1 rfl

/-- A login in that name is decoded, and its statement is not read as meant. -/
theorem everyUser_misread :
    decodeLoginJson (.object [(ascii "user", .str everyUser), (ascii "pwd", .str (ascii "p"))]) =
        .ok (everyUser, ascii "p") ∧
      tokens (password everyUser).text ≠ some (meant (password everyUser).template) :=
  ⟨rfl, password_misread everyUser_not_plain⟩

end SqlCmd

/-! ## The statements that are sent -/

/-- Printed at one of the places listed, unless it is the prepared statement. -/
def Call.Printed : Call → Prop
  | .select q => ∃ cmd : SqlCmd, cmd.call = .select q
  | .dml (.insertUser _) => True
  | .dml d => ∃ cmd : SqlCmd, cmd.call = .dml d
  | _ => True

theorem printed_of_reads (c : Call) (h : c.Reads) : c.Printed := by
  cases c with
  | select q =>
      cases q with
      | userFile user md5 filename => exact ⟨.ownPv user md5 filename, rfl⟩
      | fileInfo md5 => exact ⟨.deleteCount md5, rfl⟩
      | share md5 filename => exact ⟨.shareExists md5 filename, rfl⟩
      | shareByPv => exact ⟨.shareByPv, rfl⟩
      | shareCount => exact ⟨.shareCount, rfl⟩
      | shareList start count => exact ⟨.shareList start count, rfl⟩
      | picture urlmd5 => exact ⟨.browsePicture urlmd5, rfl⟩
      | pictureCount user => exact ⟨.pictureCount user, rfl⟩
      | pictureList user start count => exact ⟨.pictureList user start count, rfl⟩
      | password user_name => exact ⟨.password user_name, rfl⟩
      | userId user_name => exact ⟨.userId user_name, rfl⟩
      | userFilesCount user => exact ⟨.userFilesCount user, rfl⟩
      | userFiles user start count => exact ⟨.userFiles user start count, rfl⟩
  | dml => cases h
  | _ => trivial

section

variable {parse : Bytes → Option JsonValue} {stack url post_data : Bytes}

theorem apiDealfile_printed : (apiDealfile parse stack url post_data).Uses Call.Printed := by
  have hcommand : ∀ handler : Bytes → Bytes → Bytes → Handler Int,
      (∀ user md5 filename, (handler user md5 filename).Uses Call.Printed) →
      (dealfileCommand parse post_data handler).Uses Call.Printed := by
    intro handler hhandler
    refine uses_decoded trivial trivial fun req _ => ?_
    refine .bind (uses_verifyToken trivial trivial trivial trivial) fun verified => ?_
    split
    · exact .bind (hhandler _ _ _) fun _ => trivial
    · trivial
  rw [apiDealfile]
  split
  · refine hcommand _ fun user md5 filename => ?_
    exact uses_handleShareFile printed_of_reads (fun _ => trivial) (fun _ => trivial) trivial
      trivial trivial ⟨.shareStatus user md5 filename, rfl⟩
      fun time => ⟨.shareInsert user md5 time filename, rfl⟩
  · split
    · refine hcommand _ fun user md5 filename => ?_
      exact uses_handleDeleteFile printed_of_reads trivial trivial ⟨.deleteDecr md5, rfl⟩
        ⟨.deleteInfo md5, rfl⟩ (fun _ => trivial) ⟨.deleteUserFile user md5 filename, rfl⟩
        ⟨.deleteShare user md5 filename, rfl⟩ trivial trivial
    · split
      · refine hcommand _ fun user md5 filename => ?_
        exact uses_ownPv printed_of_reads fun pv => ⟨.ownPvUpdate _ user md5 filename, rfl⟩
      · trivial

theorem apiDealsharefile_printed :
    (apiDealsharefile parse stack url post_data).Uses Call.Printed := by
  refine uses_decoded trivial trivial fun req _ => .bind ?_ fun _ => trivial
  rw [dealsharefileCommand]
  split
  · exact uses_handleCancelShareFile printed_of_reads
      ⟨.cancelStatus req.user req.md5 req.filename, rfl⟩
      ⟨.cancelShare req.user req.md5 req.filename, rfl⟩ trivial trivial
  · split
    · exact uses_handleSaveFile printed_of_reads trivial trivial ⟨.saveCount req.md5, rfl⟩
        fun time => ⟨.saveInsert req.user req.md5 time req.filename, rfl⟩
    · split
      · exact uses_sharePv printed_of_reads
          (fun pv => ⟨.sharePvUpdate _ req.md5 req.filename, rfl⟩) (fun _ => trivial) trivial
          trivial
      · trivial

theorem apiSharepicture_printed :
    (apiSharepicture parse stack url post_data).Uses Call.Printed := by
  rw [apiSharepicture]
  split
  · exact uses_decoded trivial trivial fun req _ => .bind (uses_handleSharePicture
      printed_of_reads trivial fun urlmd5 time => ⟨.pictureInsert _ _ _ urlmd5 [] time, rfl⟩)
      fun _ => trivial
  · split
    · exact uses_decoded trivial trivial fun urlmd5 _ => .bind (uses_handleBrowsePicture
        printed_of_reads ⟨.browsePv (cStr urlmd5), rfl⟩) fun _ => trivial
    · split
      · exact uses_decoded trivial trivial fun req _ =>
          .bind (uses_handleGetSharePicturesList printed_of_reads _ _ _) fun _ => trivial
      · split
        · exact uses_decoded trivial trivial fun req _ => .bind (uses_handleCancelSharePicture
            printed_of_reads ⟨.pictureDelete (cStr req.1) (cStr req.2), rfl⟩) fun _ => trivial
        · trivial

end

/-- Every statement a request sends is printed at one of the places listed. -/
theorem ApiRequest.handle_printed (parse : Bytes → Option JsonValue) (ip stack : Bytes)
    (r : ApiRequest) : (r.handle parse ip stack).Uses Call.Printed := by
  obtain ⟨route, url, post_data⟩ := r
  cases route with
  | reg => exact uses_apiRegisterUser printed_of_reads fun _ => trivial
  | login =>
      exact .bind (uses_apiUserLogin printed_of_reads fun _ _ => trivial) fun _ => trivial
  | md5 =>
      refine uses_decoded trivial trivial fun req _ => ?_
      refine .bind (uses_verifyToken trivial trivial trivial trivial) fun verified => ?_
      split
      · exact .bind (uses_handleDealMd5 printed_of_reads trivial trivial ⟨.md5Count _, rfl⟩)
          fun _ => trivial
      · trivial
  | upload =>
      exact uses_apiUpload printed_of_reads trivial trivial (fun _ => trivial) (fun _ => trivial)
        (fun _ _ _ _ => ⟨.storeInfo .., rfl⟩)
        (fun md5 => ⟨.storeCount md5, rfl⟩)
        fun user md5 time filename => ⟨.storeInsert user md5 time filename, rfl⟩
  | myfiles => exact uses_apiMyfiles printed_of_reads parse stack url post_data
  | sharepic => exact apiSharepicture_printed
  | dealfile => exact apiDealfile_printed
  | sharefiles =>
      exact uses_apiSharefiles printed_of_reads (fun _ => trivial) (fun _ _ => trivial)
        (fun _ _ => trivial) parse stack url post_data
  | dealsharefile => exact apiDealsharefile_printed

end FileHub
