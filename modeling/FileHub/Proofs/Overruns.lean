import FileHub.Api.Buffers
import FileHub.Proofs.HandlerCalls

/-!
# Which formatted texts overrun their buffer

No length is checked before a string is formatted. What a handler formats fits
exactly when the strings together leave room for the longest of its texts; for
sharing there are two such bounds, as the lock's key is the smaller array.
-/

namespace FileHub

open Lib
open Lib.Sql

/-! ## What the handlers send is among what is listed -/

/-- The strings of a command that a handler formats: the lock's key, or the
member of the ranking and field of the hash. -/
def RedisCmd.formatted : RedisCmd → List Bytes
  | .get key | .set key _ | .setex key _ _ | .del key => [key]
  | .zlexcount _ member | .zadd _ _ member | .zrem _ member | .zincrby _ member
  | .zscore _ member => [member]
  | .hset _ field _ | .hget _ field | .hdel _ field => [field]
  | .zcard _ | .zrevrange .. => []

/-- A statement or a command carries only what the handler formats, with whatever
comes in between. The count of the pictures is printed into a `std::string`. -/
def Call.Formatted {ι : Type} (f : ι → Formatting) : Call → Prop
  | .select (.pictureCount _) => True
  | .select q => ∃ i, ∃ cmd ∈ (f i).sqlCmds ++ (f i).snprintfs, cmd.call = .select q
  | .dml d => ∃ i, ∃ cmd ∈ (f i).sqlCmds ++ (f i).snprintfs, cmd.call = .dml d
  | .redis c => ∃ i, ∀ text ∈ c.formatted, ∃ s ∈ (f i).keys, s.text = text
  | _ => True

section

variable {ι : Type} {f : ι → Formatting}

theorem formatted_of_free (c : Call) (h : c.Free) : c.Formatted f := by
  cases c with
  | select | dml | redis => cases h
  | _ => trivial

theorem formatted_dml {d : Dml} (i : ι) (cmd : SqlCmd)
    (hmem : cmd ∈ (f i).sqlCmds ++ (f i).snprintfs) (hcall : cmd.call = .dml d) :
    (Call.dml d).Formatted f :=
  ⟨i, cmd, hmem, hcall⟩

theorem formatted_redis {c : RedisCmd} (i : ι) {text : Bytes} (hc : c.formatted = [text])
    (hkey : ∃ s ∈ (f i).keys, s.text = text) : (Call.redis c).Formatted f := by
  refine ⟨i, fun t ht => ?_⟩
  rw [hc, List.mem_singleton] at ht
  rwa [ht]

end

section

variable (user md5 filename : Bytes)

theorem handleShareFile_formats : (handleShareFile user md5 filename).Uses
    (Call.Formatted (.shareFile user md5 filename)) := by
  have hfileid : ∃ s ∈ (Formatting.shareFile user md5 filename []).keys,
      s.text = shareFileid md5 filename := by simp [Formatting.keys]
  have hlock : ∃ s ∈ (Formatting.shareFile user md5 filename []).keys,
      s.text = shareLockKey (shareFileid md5 filename) := by simp [Formatting.keys]
  refine (asks_handleShareFile formatted_of_free ?_ (formatted_redis [] rfl hfileid)
    (formatted_redis [] rfl hfileid) (formatted_redis [] rfl hfileid) ?_ ?_
    (fun _ => formatted_redis [] rfl hlock) (fun _ => formatted_redis [] rfl hlock)
    (formatted_redis [] rfl hlock)).uses
  · exact ⟨[], .shareExists md5 filename, by simp [Formatting.sqlCmds], rfl⟩
  · exact formatted_dml [] (.shareStatus user md5 filename) (by simp [Formatting.sqlCmds]) rfl
  · exact fun time _ => formatted_dml time (.shareInsert user md5 time filename)
      (by simp [Formatting.sqlCmds]) rfl

theorem handleDeleteFile_formats : (handleDeleteFile user md5 filename).Uses
    (Call.Formatted fun _ : Unit => .deleteFile user md5 filename) := by
  have hfileid : ∃ s ∈ (Formatting.deleteFile user md5 filename).keys,
      s.text = shareFileid md5 filename := by simp [Formatting.keys]
  refine (asks_handleDeleteFile formatted_of_free trivial trivial ?_ ?_ ?_ (fun _ => trivial)
    ?_ ?_ ?_ (formatted_redis () rfl hfileid) (formatted_redis () rfl hfileid)).uses
  · exact ⟨(), .deleteCount md5, by simp [Formatting.sqlCmds], rfl⟩
  · exact formatted_dml () (.deleteDecr md5) (by simp [Formatting.snprintfs]) rfl
  · exact formatted_dml () (.deleteInfo md5) (by simp [Formatting.snprintfs]) rfl
  · exact formatted_dml () (.deleteUserFile user md5 filename) (by simp [Formatting.sqlCmds]) rfl
  · exact ⟨(), .deleteStatus user md5 filename, by simp [Formatting.sqlCmds], rfl⟩
  · exact formatted_dml () (.deleteShare user md5 filename) (by simp [Formatting.sqlCmds]) rfl

theorem ownPv_formats : (Dealfile.handlePvFile user md5 filename).Uses
    (Call.Formatted (.ownPv user md5 filename)) :=
  (asks_ownPv formatted_of_free
    ⟨0, .ownPv user md5 filename, by simp [Formatting.sqlCmds], rfl⟩
    fun pv => formatted_dml pv (.ownPvUpdate (asInt (pv + 1)) user md5 filename)
      (by simp [Formatting.sqlCmds]) rfl).uses

theorem handleCancelShareFile_formats : (handleCancelShareFile user md5 filename).Uses
    (Call.Formatted fun _ : Unit => .cancelShareFile user md5 filename) := by
  have hfileid : ∃ s ∈ (Formatting.cancelShareFile user md5 filename).keys,
      s.text = shareFileid md5 filename := by simp [Formatting.keys]
  exact (asks_handleCancelShareFile formatted_of_free
    (formatted_dml () (.cancelStatus user md5 filename) (by simp [Formatting.sqlCmds]) rfl)
    (formatted_dml () (.cancelShare user md5 filename) (by simp [Formatting.sqlCmds]) rfl)
    (formatted_redis () rfl hfileid) (formatted_redis () rfl hfileid)).uses

theorem handleSaveFile_formats : (handleSaveFile user md5 filename).Uses
    (Call.Formatted (.saveFile user md5 filename)) :=
  (asks_handleSaveFile formatted_of_free
    ⟨[], .saveExists user md5 filename, by simp [Formatting.sqlCmds], rfl⟩ trivial trivial
    (formatted_dml [] (.saveCount md5) (by simp [Formatting.sqlCmds]) rfl)
    fun time _ => formatted_dml time (.saveInsert user md5 time filename)
      (by simp [Formatting.sqlCmds]) rfl).uses

theorem sharePv_formats : (DealSharefile.handlePvFile md5 filename).Uses
    (Call.Formatted (.sharePv md5 filename)) := by
  have hfileid : ∃ s ∈ (Formatting.sharePv md5 filename 0).keys,
      s.text = shareFileid md5 filename := by simp [Formatting.keys]
  exact (asks_sharePv formatted_of_free
    ⟨0, .sharePv md5 filename, by simp [Formatting.sqlCmds], rfl⟩
    (fun pv => formatted_dml pv (.sharePvUpdate (asInt (pv + 1)) md5 filename)
      (by simp [Formatting.sqlCmds]) rfl)
    (formatted_redis 0 rfl hfileid) (fun _ => formatted_redis 0 rfl hfileid)
    (formatted_redis 0 rfl hfileid) (formatted_redis 0 rfl hfileid)).uses

theorem handleDealMd5_formats : (handleDealMd5 user md5 filename).Uses
    (Call.Formatted fun _ : Unit => .dealMd5 user md5 filename) :=
  (asks_handleDealMd5 formatted_of_free
    ⟨(), .md5Exists user md5 filename, by simp [Formatting.sqlCmds], rfl⟩ trivial trivial
    (formatted_dml () (.md5Count md5) (by simp [Formatting.sqlCmds]) rfl)).uses

theorem handleGetSharePicturesList_formats (start count : Int) :
    (handleGetSharePicturesList user start count).Uses
      (Call.Formatted fun _ : Unit => .sharePicturesList user start count) :=
  (asks_handleGetSharePicturesList formatted_of_free trivial
    ⟨(), .pictureList user start count, by simp [Formatting.sqlCmds], rfl⟩).uses

end

/-! ## The lengths -/

/-- `strlen`. -/
def strlen (s : Bytes) : ℕ := (cStr s).length

theorem length_print_text (s : String) (ps : List Piece) :
    (print (.text s :: ps)).length = (ascii s).length + (print ps).length := by
  rw [print, List.map_cons, List.flatten_cons, List.length_append]
  rfl

theorem length_print_quoted (arg : Bytes) (ps : List Piece) :
    (print (.quoted arg :: ps)).length = strlen arg + 2 + (print ps).length := by
  rw [print, List.map_cons, List.flatten_cons, List.length_append, Piece.print, List.length_cons,
    List.length_append]
  rfl

theorem length_print_num (n : Int) (ps : List Piece) :
    (print (.num n :: ps)).length = (intText n).length + (print ps).length := by
  rw [print, List.map_cons, List.flatten_cons, List.length_append]
  rfl

theorem length_print_nil : (print []).length = 0 := rfl

theorem length_ascii (l : List Char) : (ascii (String.ofList l)).length = l.length := by
  rw [ascii_ofList, List.length_map]

theorem length_shareFileid (md5 filename : Bytes) :
    (shareFileid md5 filename).length = strlen md5 + strlen filename :=
  List.length_append

theorem length_shareLockKey (fileid : Bytes) :
    (shareLockKey fileid).length = 11 + fileid.length :=
  List.length_append

theorem length_intText_zero : (intText 0).length = 1 := rfl

/-- The strings leave room for the longest text. -/
def Formatting.Short : Formatting → Prop
  | .shareFile user md5 filename create_time =>
      strlen md5 + strlen filename ≤ 244 ∧
        strlen user + strlen md5 + strlen create_time + strlen filename ≤ 385
  | .deleteFile user md5 filename => strlen user + strlen md5 + strlen filename ≤ 423
  | .ownPv user md5 filename pv =>
      strlen user + strlen md5 + strlen filename + (intText (asInt (pv + 1))).length ≤ 432
  | .cancelShareFile user_name md5 filename =>
      strlen user_name + strlen md5 + strlen filename ≤ 420
  | .saveFile user_name md5 filename creat_time =>
      strlen user_name + strlen md5 + strlen creat_time + strlen filename ≤ 401
  | .sharePv md5 filename pv =>
      strlen md5 + strlen filename + (intText (asInt (pv + 1))).length ≤ 445
  | .dealMd5 user md5 filename => strlen user + strlen md5 + strlen filename ≤ 435
  | .sharePicturesList user start count =>
      strlen user + (intText start).length + (intText count).length ≤ 183

/-- No `sprintf` of the handler overruns its buffer exactly when the strings are short. -/
theorem Formatting.fits_iff (f : Formatting) : (∀ s ∈ f.sprintfs, s.Fits) ↔ f.Short := by
  rw [sprintfs, List.forall_mem_append, List.forall_mem_map]
  cases f <;>
    simp only [keys, sqlCmds, List.forall_mem_cons, List.not_mem_nil, false_imp_iff,
      implies_true, and_true, true_and]
  all_goals
    simp only [Sprintf.Fits, SqlCmd.sprintf, SQL_MAX_LEN, SqlCmd.text, SqlCmd.template,
      length_print_text, length_print_quoted, length_print_num, length_print_nil,
      length_shareFileid, length_shareLockKey, length_intText_zero, Short]
    repeat rw [length_ascii]
    simp only [List.length_cons, List.length_nil, Nat.reduceAdd]
    omega

/-- A file name of 245 letters makes the lock's key too long, in a request that decodes. -/
theorem longName_overruns :
    decodeDealfileJson (.object [(ascii "user", .str (ascii "u")),
        (ascii "token", .str (ascii "t")), (ascii "md5", .str []),
        (ascii "filename", .str (List.replicate 245 97))]) =
        .ok ⟨ascii "u", ascii "t", [], List.replicate 245 97⟩ ∧
      ¬∀ s ∈ (Formatting.shareFile (ascii "u") [] (List.replicate 245 97)
        (ascii "2024-01-01 00:00:00")).sprintfs, s.Fits := by
  refine ⟨rfl, fun h => ?_⟩
  have hkey := h ⟨256, shareLockKey (shareFileid [] (List.replicate 245 97))⟩
    (List.mem_append_left _ (List.mem_cons_of_mem _ List.mem_cons_self))
  exact absurd hkey (by decide +kernel)

end FileHub
