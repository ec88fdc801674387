import FileHub.Api.Storage
import FileHub.Proofs.KnownCalls
import FileHub.Proofs.Scripts

/-!
# Uploading a file, whatever fails

An upload that answers 0 should have recorded the file once, one that answers 1
not at all, and no object it stored should be left without a record. Three
statements decide it, the two inserts and the count: the file is recorded in
`file_info` by the one or counted by the other, and the user's row is inserted
or refused on top of that, with nothing taken back. The object is removed on
most of the ways out, where FastDFS lets it.
-/

namespace FileHub

open Lib
open Lib.Sql (Plain)
open Prog (ask after Along along_ask along_bind)

namespace Upload

variable (form : UploadForm)

/-! ## All of it or nothing -/

/-- The user's row was added, and the file has one reference more. -/
structure Recorded (db db' : Db) : Prop where
  fresh : db.own form.user form.file_md5 form.file_name = none
  added : (db'.own form.user form.file_md5 form.file_name).isSome
  others : ∀ k, k ≠ (cStr form.user, cStr form.file_md5, cStr form.file_name) →
    db'.userFileList.find? k = db.userFileList.find? k
  counted : (db'.count? (cStr form.file_md5)).getD 0 = (db.count? (cStr form.file_md5)).getD 0 + 1
  known : (db'.info form.file_md5).isSome

/-- Every object there is more than before has its record. -/
def NothingLeft (w w' : World) : Prop :=
  ∀ id ∈ w'.fdfs.objects, id ∉ w.fdfs.objects → id ∈ w'.db.fileIds

structure AllOrNothing (answer : Int × Option JsonValue) (w w' : World) : Prop where
  all : answer.2 = some (.code 0) → Recorded form w.db w'.db
  nothing : answer.2 = some (.code 1) →
    w'.db.fileInfo = w.db.fileInfo ∧ w'.db.userFileList = w.db.userFileList
  objects : NothingLeft w w'

/-! ## When it holds

The script starts at the lock here. Behind it come the insert into `file_info`
and, where that is refused, the count; then the time, the insert of the user's
row, the unlock and, if it comes to that, the removal of the object. -/

/-- The insert into `file_info` goes through. -/
def Created (db : Db) (ω : ℕ → Ans) : Prop :=
  db.info form.file_md5 = none ∧ (ω 0).ok ∧ (ω 1).ok

instance (db : Db) (ω : ℕ → Ans) : Decidable (Created form db ω) :=
  inferInstanceAs (Decidable (_ ∧ _ ∧ _))

/-- The file is counted up instead, if it is known. -/
def Updated (db : Db) (ω : ℕ → Ans) : Prop := ¬Created form db ω ∧ (ω 0).ok ∧ (ω 2).ok

instance (db : Db) (ω : ℕ → Ans) : Decidable (Updated form db ω) :=
  inferInstanceAs (Decidable (_ ∧ _ ∧ _))

def Counted (db : Db) (ω : ℕ → Ans) : Prop :=
  (db.info form.file_md5).isSome ∧ Updated form db ω

/-- The insert of the user's row goes through. -/
def Inserted (db : Db) (ω : ℕ → Ans) : Prop :=
  db.own form.user form.file_md5 form.file_name = none ∧
    (Created form db ω ∧ (ω 3).ok ∨ Updated form db ω ∧ (ω 4).ok)

/-- How many calls there are from the lock to the unlock. -/
def stored (db : Db) (ω : ℕ → Ans) : ℕ :=
  if Created form db ω then 5
  else if Updated form db ω then 6
  else if (ω 0).ok then 4
  else 1

/-- What must go well once the object has its url: the user's row is inserted
just if the file is created or counted, and the object was needed or is removed,
unless a row of `file_info` named its id all along. -/
structure StoresWell (db : Db) (id : Bytes) (ω : ℕ → Ans) : Prop where
  row : Inserted form db ω ↔ Created form db ω ∨ Counted form db ω
  object : Inserted form db ω ∧ Created form db ω ∨ (ω (stored form db ω)).ok ∨ id ∈ db.fileIds

/-- How the calls of an upload must go. The first is for the connection; the
file is renamed and stored by the next two, and the fifth asks for the object
again, for its url. Without the url its id must have been named already. -/
def Completes (ip : Bytes) (w : World) (ω : ℕ → Ans) : Prop :=
  (ω 1).ok → (ω 2).ok →
    if ip ≠ [] ∧ (ω 4).ok then
      StoresWell form w.db (w.fdfs.freshId (cStr (ω 2).text)) (after 5 ω)
    else w.fdfs.freshId (cStr (ω 2).text) ∈ w.db.fileIds

/-! ## Recording the file -/

/-- How `storeFileinfo` ends: its result, and the tables. -/
inductive StoreOutcome (row : FileInfoRow) (db : Db) (ω : ℕ → Ans) :
    Int × Bool → Db → Prop where
  | created (time : Bytes) (hc : Created form db ω) (hi : Inserted form db ω) :
      StoreOutcome row db ω (0, false) ((db.sql (.insertFileInfo row)).sql
        (.insertUserFile (newUserFile form.user form.file_md5 form.file_name time)))
  | createdOnly (hc : Created form db ω) (hi : ¬Inserted form db ω) :
      StoreOutcome row db ω (-1, false) (db.sql (.insertFileInfo row))
  | counted (time : Bytes) (hu : Updated form db ω) (hi : Inserted form db ω) :
      StoreOutcome row db ω (0, true) ((db.sql (.incrCount form.file_md5)).sql
        (.insertUserFile (newUserFile form.user form.file_md5 form.file_name time)))
  | countedOnly (hu : Updated form db ω) (hi : ¬Inserted form db ω) :
      StoreOutcome row db ω (-1, true) (db.sql (.incrCount form.file_md5))
  | nothing (hc : ¬Created form db ω) (hu : ¬Updated form db ω) (hi : ¬Inserted form db ω) :
      StoreOutcome row db ω (-1, false) db

section

variable {form : UploadForm} {w : World} {ω : ℕ → Ans} {conn : CDBConn} {fileid url : Bytes}

theorem insertUploaded_along (file_exsit : Bool) :
    Along step (fun r w' ω' => r.2 = file_exsit ∧ ω' = after 2 ω ∧ w'.fdfs = w.fdfs ∧
        (w.db.own form.user form.file_md5 form.file_name = none ∧ (ω 1).ok ∧ r.1 = 0 ∧
            (∃ time, w'.db = w.db.sql
              (.insertUserFile (newUserFile form.user form.file_md5 form.file_name time))) ∨
          ¬(w.db.own form.user form.file_md5 form.file_name = none ∧ (ω 1).ok) ∧ r.1 = -1 ∧
            w'.db = w.db))
      (insertUploaded conn form.user form.file_name form.file_md5 file_exsit) ω w := by
  rw [insertUploaded, along_bind]
  refine along_localtime ?_
  rw [along_bind]
  refine along_execute (fun hinsert => ?_) fun hinsert => ?_
  · have hinserted := Db.isSome_insertUserFile w.db
      (newUserFile form.user form.file_md5 form.file_name (ω 0).text)
    rw [hinserted]
    cases hown : w.db.own form.user form.file_md5 form.file_name with
    | none => exact ⟨rfl, rfl, rfl, .inl ⟨rfl, hinsert, rfl, (ω 0).text, rfl⟩⟩
    | some r =>
        refine ⟨rfl, rfl, rfl, .inr ⟨fun h => Option.some_ne_none r h.1, rfl, ?_⟩⟩
        exact Db.sql_insertUserFile_of_own (Option.isSome_of_mem hown)
  · exact ⟨rfl, rfl, rfl, .inr ⟨fun h => hinsert h.2, rfl, rfl⟩⟩

theorem insertFileInfo_along (row : FileInfoRow) :
    Along step (fun created w' ω' => ω' = after 1 ω ∧
        (created = true ↔ (ω 0).ok ∧ w.db.info row.md5 = none) ∧ w'.fdfs = w.fdfs ∧
        w'.db = if created then w.db.sql (.insertFileInfo row) else w.db)
      (conn.executeCreate (.insertFileInfo row)) ω w := by
  refine along_execute (fun hok => ⟨rfl, ?_⟩) fun hok => ⟨rfl, by simp [hok], rfl, rfl⟩
  rw [Db.isSome_insertFileInfo]
  cases hinfo : w.db.info row.md5 with
  | none => exact ⟨by simp [hok], rfl, rfl⟩
  | some i =>
      exact ⟨by simp, rfl, Db.sql_insertFileInfo_of_info (Option.isSome_of_mem hinfo)⟩

theorem storeFileinfo_along :
    Along step (fun r w' ω' => w'.fdfs = w.fdfs ∧ ω' = after (stored form w.db ω) ω ∧
        StoreOutcome form (uploadRow form fileid url) w.db ω r w'.db)
      (storeFileinfo conn form.user form.file_name form.file_md5 (strtol form.file_size)
        fileid url) ω w := by
  refine along_scopedFileInfoLock (fun hlock hfree => ?_) fun hlock => ?_
  · rw [if_pos rfl, along_bind]
    refine (insertFileInfo_along (uploadRow form fileid url)).mono ?_
    rintro created w₁ ω₁ ⟨rfl, hcreated, hfdfs, hdb⟩
    have hiff : Created form w.db ω ↔ created = true :=
      Iff.trans ⟨fun h => ⟨h.2.2, h.1⟩, fun h => ⟨h.2, hlock, h.1⟩⟩ hcreated.symm
    cases created with
    | true =>
        rw [if_pos rfl] at hdb ⊢
        have hc := hiff.mpr rfl
        have hinserted : Inserted form w.db ω ↔
            w.db.own form.user form.file_md5 form.file_name = none ∧ (ω 3).ok :=
          and_congr_right' ⟨fun h => h.elim And.right fun hu => absurd hc hu.1.1,
            fun h => .inl ⟨hc, h⟩⟩
        refine (insertUploaded_along false).mono ?_
        rintro ⟨ret, exsit⟩ w' ω' ⟨hexsit, rfl, hfdfs', hrow⟩
        have hown : w₁.db.own form.user form.file_md5 form.file_name =
            w.db.own form.user form.file_md5 form.file_name := by
          rw [hdb]
          exact Db.own_insertFileInfo ..
        rw [hown, hdb] at hrow
        refine ⟨hfdfs'.trans hfdfs, ?_, ?_⟩
        · rw [stored, if_pos hc]
          rfl
        rw [World.setLocked_db]
        cases hexsit
        rcases hrow with ⟨hnone, hok, rfl, time, hdb'⟩ | ⟨hnot, rfl, hdb'⟩
        · rw [hdb']
          exact .created time hc (hinserted.mpr ⟨hnone, hok⟩)
        · rw [hdb']
          exact .createdOnly hc fun h => hnot (hinserted.mp h)
    | false =>
        rw [if_neg (by simp)] at hdb ⊢
        have hc : ¬Created form w.db ω := hiff.not.mpr Bool.false_ne_true
        rw [along_bind]
        refine along_execute (fun hcount => ?_) fun hcount => ?_
        · have hupdated : ((Dml.incrCount form.file_md5).format.exec w₁.db).isSome = true := rfl
          rw [hupdated, if_pos rfl]
          have hu : Updated form w.db ω := ⟨hc, hlock, hcount⟩
          have hinserted : Inserted form w.db ω ↔
              w.db.own form.user form.file_md5 form.file_name = none ∧ (ω 4).ok :=
            and_congr_right' ⟨fun h => h.elim (fun hand => absurd hand.1 hc) And.right,
              fun h => .inr ⟨hu, h⟩⟩
          refine (insertUploaded_along true).mono ?_
          rintro ⟨ret, exsit⟩ w' ω' ⟨hexsit, rfl, hfdfs', hrow⟩
          have hown : (w₁.sql (.incrCount form.file_md5)).db.own form.user form.file_md5
              form.file_name = w.db.own form.user form.file_md5 form.file_name := by
            rw [World.sql_db, hdb]
            rfl
          rw [hown, World.sql_db, hdb] at hrow
          refine ⟨hfdfs'.trans hfdfs, ?_, ?_⟩
          · rw [stored, if_neg hc, if_pos hu]
            rfl
          rw [World.setLocked_db]
          cases hexsit
          rcases hrow with ⟨hnone, hok, rfl, time, hdb'⟩ | ⟨hnot, rfl, hdb'⟩
          · rw [hdb']
            exact .counted time hu (hinserted.mpr ⟨hnone, hok⟩)
          · rw [hdb']
            exact .countedOnly hu fun h => hnot (hinserted.mp h)
        · have hu : ¬Updated form w.db ω := fun h => hcount h.2.2
          refine ⟨hfdfs, ?_, ?_⟩
          · rw [stored, if_neg hc, if_neg hu, if_pos hlock]
            rfl
          rw [World.setLocked_db, hdb]
          exact .nothing hc hu fun h => h.2.elim (fun hand => hc hand.1) fun hand => hu hand.1
  · have hc : ¬Created form w.db ω := fun h => hlock h.2.1
    have hu : ¬Updated form w.db ω := fun h => hlock h.2.1
    refine ⟨rfl, ?_, .nothing hc hu fun h =>
      h.2.elim (fun hand => hc hand.1) fun hand => hu hand.1⟩
    rw [stored, if_neg hc, if_neg hu, if_neg hlock]

/-! ## What the outcome makes of the tables and the object -/

theorem recorded_created {db : Db} {id time : Bytes} (hid : db.info form.file_md5 = none)
    (hown : db.own form.user form.file_md5 form.file_name = none) :
    Recorded form db ((db.sql (.insertFileInfo (uploadRow form id url))).sql
      (.insertUserFile (newUserFile form.user form.file_md5 form.file_name time))) := by
  have hown' := (Db.own_insertFileInfo db (uploadRow form id url) form.user form.file_md5
    form.file_name).trans hown
  have hcount := Db.count?_insertFileInfo (show db.info (uploadRow form id url).md5 = none from hid)
    (cStr form.file_md5)
  have hsame : cStr form.file_md5 = cStr (uploadRow form id url).md5 := rfl
  rw [if_pos hsame] at hcount
  have hnone : db.count? (cStr form.file_md5) = none := by
    rw [Db.count?, ← Db.info, hid, Option.map_none]
  refine ⟨hown, Db.isSome_own_insertUserFile (r := newUserFile _ _ _ _) hown', fun k hk => ?_,
    ?_, ?_⟩
  · rw [Db.find?_insertUserFile (by exact hk), Db.userFileList_insertFileInfo]
  · rw [Db.count?_insertUserFile, hcount, hnone]
    rfl
  · rw [← Db.isSome_count?, Db.count?_insertUserFile, hcount]
    rfl

theorem recorded_counted {db : Db} {time : Bytes}
    (hown : db.own form.user form.file_md5 form.file_name = none) :
    Recorded form db ((db.sql (.incrCount form.file_md5)).sql
        (.insertUserFile (newUserFile form.user form.file_md5 form.file_name time))) ↔
      (db.info form.file_md5).isSome := by
  have hcount := Db.count?_incrCount db form.file_md5 (cStr form.file_md5)
  simp only [if_true] at hcount
  constructor
  · intro h
    have hknown := h.known
    rw [← Db.isSome_count?, Db.count?_insertUserFile, hcount, Option.isSome_map,
      Db.isSome_count?] at hknown
    exact hknown
  · intro h
    refine ⟨hown, Db.isSome_own_insertUserFile (r := newUserFile _ _ _ _) hown, fun k hk => ?_,
      ?_, ?_⟩
    · rw [Db.find?_insertUserFile (by exact hk)]
      rfl
    · obtain ⟨i, hi⟩ := Option.isSome_iff_exists.mp h
      rw [Db.count?_insertUserFile, hcount, Db.count?_of_info hi]
      rfl
    · rw [← Db.isSome_count?, Db.count?_insertUserFile, hcount, Option.isSome_map,
        Db.isSome_count?]
      exact h

/-- The tables hold what is claimed of them just if the row goes in with the file. -/
theorem StoreOutcome.tables {id : Bytes} {db db' : Db} {r : Int × Bool}
    (h : StoreOutcome form (uploadRow form id url) db ω r db') :
    ((0 ≤ r.1 → Recorded form db db') ∧
      (r.1 < 0 → db'.fileInfo = db.fileInfo ∧ db'.userFileList = db.userFileList)) ↔
    (Inserted form db ω ↔ Created form db ω ∨ Counted form db ω) := by
  cases h with
  | created time hc hi =>
      refine iff_of_true ⟨fun _ => recorded_created hc.1 hi.1, fun h => absurd h (by decide)⟩ ?_
      exact iff_of_true hi (.inl hc)
  | createdOnly hc hi =>
      refine iff_of_false (fun h => ?_) fun h => hi (h.mpr (.inl hc))
      have hcount := Db.count?_insertFileInfo
        (show db.info (uploadRow form id url).md5 = none from hc.1) (cStr form.file_md5)
      have hsame : cStr form.file_md5 = cStr (uploadRow form id url).md5 := rfl
      rw [if_pos hsame, Db.count?, (h.2 (by decide)).1, ← Db.info, hc.1] at hcount
      cases hcount
  | counted time hu hi =>
      have hcounted : Counted form db ω ↔ (db.info form.file_md5).isSome := and_iff_left hu
      rw [or_iff_right hu.1, hcounted, ← recorded_counted hi.1]
      constructor
      · exact fun h => iff_of_true hi (h.1 le_rfl)
      · exact fun h => ⟨fun _ => h.mp hi, fun hneg => absurd hneg (by decide)⟩
  | countedOnly hu hi =>
      have hcounted : Counted form db ω ↔ (db.info form.file_md5).isSome := and_iff_left hu
      rw [or_iff_right hu.1, iff_false_left hi, hcounted]
      cases hinfo : db.info form.file_md5 with
      | none =>
          refine iff_of_true ⟨fun h => absurd h (by decide), fun _ => ?_⟩ (by simp)
          rw [Db.sql_incrCount_of_info hinfo]
          exact ⟨rfl, rfl⟩
      | some i =>
          refine iff_of_false (fun h => ?_) (by simp)
          have hcount := Db.count?_incrCount db form.file_md5 (cStr form.file_md5)
          rw [Db.count?, (h.2 (by decide)).1, ← Db.count?, Db.count?_of_info hinfo] at hcount
          simp at hcount
  | nothing hc hu hi =>
      refine iff_of_true ⟨fun h => absurd h (by decide), fun _ => ⟨rfl, rfl⟩⟩ (iff_of_false hi ?_)
      rintro (h | h)
      · exact hc h
      · exact hu h.2

/-- An object is removed unless it was needed. -/
theorem StoreOutcome.removes {row : FileInfoRow} {db db' : Db} {r : Int × Bool}
    (h : StoreOutcome form row db ω r db') :
    (r.1 < 0 ∨ r.2 = true) ↔ ¬(Inserted form db ω ∧ Created form db ω) := by
  cases h with
  | created time hc hi => simp [hc, hi]
  | createdOnly hc hi => simp [hi]
  | counted time hu hi => simp [hu.1]
  | countedOnly hu hi => simp [hi]
  | nothing hc hu hi => simp [hi]

/-- The objects named are those named before, and the new one with a new file. -/
theorem StoreOutcome.named {id : Bytes} (hid : cStr id = id) {db db' : Db}
    {r : Int × Bool} (h : StoreOutcome form (uploadRow form id url) db ω r db') :
    id ∈ db'.fileIds ↔ Created form db ω ∨ id ∈ db.fileIds := by
  have hnew (hc : Created form db ω) :
      id ∈ (db.sql (.insertFileInfo (uploadRow form id url))).fileIds := by
    rw [Db.fileIds_insertFileInfo (show db.info (uploadRow form id url).md5 = none from hc.1)]
    exact List.mem_append_right _ (List.mem_singleton.mpr hid.symm)
  cases h with
  | created time hc hi =>
      rw [Db.fileIds_insertUserFile]
      exact iff_of_true (hnew hc) (.inl hc)
  | createdOnly hc hi => exact iff_of_true (hnew hc) (.inl hc)
  | counted time hu hi =>
      rw [Db.fileIds_insertUserFile, Db.fileIds_incrCount, or_iff_right hu.1]
  | countedOnly hu hi => rw [Db.fileIds_incrCount, or_iff_right hu.1]
  | nothing hc hu hi => rw [or_iff_right hc]

end

/-! ## What is left in FastDFS -/

section

variable {w w' : World} {id : Bytes}

/-- With the new object still there it is a matter of its record. -/
theorem nothingLeft_kept (hfresh : id ∉ w.fdfs.used) (hfdfs : w'.fdfs = w.fdfs.store id) :
    NothingLeft w w' ↔ id ∈ w'.db.fileIds := by
  have hnew : id ∉ w.fdfs.objects := fun h => hfresh (w.fdfs.objects_used id h)
  rw [NothingLeft, hfdfs]
  constructor
  · intro h
    exact h id List.mem_cons_self hnew
  · intro h o ho hnot
    rcases List.mem_cons.mp ho with rfl | ho
    · exact h
    · exact absurd ho hnot

theorem nothingLeft_removed (hfdfs : w'.fdfs = (w.fdfs.store id).remove id) :
    NothingLeft w w' := by
  intro o ho hnot
  rw [hfdfs] at ho
  obtain ⟨ho, hne⟩ := List.mem_filter.mp ho
  rcases List.mem_cons.mp ho with rfl | ho
  · exact absurd rfl (of_decide_eq_true hne)
  · exact absurd ho hnot

/-- The answers are told apart by the sign of the return code. -/
theorem allOrNothing_iff {ret : Int} :
    AllOrNothing form (uploadAnswer ret) w w' ↔
      ((0 ≤ ret → Recorded form w.db w'.db) ∧
        (ret < 0 → w'.db.fileInfo = w.db.fileInfo ∧
          w'.db.userFileList = w.db.userFileList)) ∧ NothingLeft w w' := by
  have hcodes : JsonValue.code 0 ≠ JsonValue.code 1 := by simp [JsonValue.code]
  rw [uploadAnswer]
  constructor
  · intro h
    refine ⟨⟨fun hret => h.all ?_, fun hret => h.nothing ?_⟩, h.objects⟩
    · rw [if_neg (by omega)]
    · rw [if_pos hret]
  · rintro ⟨⟨hall, hnothing⟩, hobjects⟩
    refine ⟨fun hanswer => hall ?_, fun hanswer => hnothing ?_, hobjects⟩
    · by_contra hret
      rw [if_pos (by omega)] at hanswer
      exact hcodes (Option.some.inj hanswer).symm
    · by_contra hret
      rw [if_neg hret] at hanswer
      exact hcodes (Option.some.inj hanswer)

end

/-! ## The whole upload -/

section

variable {form : UploadForm} {w : World} {ω : ℕ → Ans} {conn : CDBConn} {id url : Bytes}

theorem storeUpload_along (hfresh : id ∉ w.fdfs.used) (hid : cStr id = id) :
    Along step (fun ret w' _ => AllOrNothing form (uploadAnswer ret) w w' ↔
        StoresWell form w.db id ω)
      (storeUpload conn form id url) ω (w.kept id) := by
  rw [storeUpload, along_bind]
  refine storeFileinfo_along.mono ?_
  rintro ⟨ret, exsit⟩ w₁ ω₁ ⟨hfdfs, rfl, hstored⟩
  rw [kept_db] at hstored ⊢
  have hremoves := hstored.removes
  have htables := hstored.tables
  have hwell : StoresWell form w.db id ω ↔
      (Inserted form w.db ω ↔ Created form w.db ω ∨ Counted form w.db ω) ∧
        (Inserted form w.db ω ∧ Created form w.db ω ∨ (ω (stored form w.db ω)).ok ∨
          id ∈ w.db.fileIds) :=
    ⟨fun h => ⟨h.row, h.object⟩, fun h => ⟨h.1, h.2⟩⟩
  rw [hwell]
  dsimp only
  by_cases hback : ret < 0 ∨ exsit = true
  · rw [if_pos hback, along_bind]
    have hneeded := hremoves.mp hback
    refine (along_ask (Call.fdfsDelete id) _).mpr fun r w₂ hs => ?_
    rw [Prog.after_apply, Nat.zero_add] at hs
    refine (allOrNothing_iff form).trans ?_
    by_cases hremoved : (ω (stored form w.db ω)).ok
    · simp only [step, if_pos hremoved] at hs
      cases hs
      refine and_congr htables (iff_of_true ?_ (.inr (.inl hremoved)))
      exact nothingLeft_removed (by rw [hfdfs]; rfl)
    · simp only [step, if_neg hremoved] at hs
      cases hs
      rw [htables, and_congr_right_iff]
      intro hrow
      have hkept : Inserted form w.db ω ∧ Created form w.db ω ↔ Created form w.db ω :=
        and_iff_right_of_imp fun hc => hrow.mpr (.inl hc)
      rw [nothingLeft_kept hfresh hfdfs, hstored.named hid, hkept]
      simp [hremoved]
  · rw [if_neg hback]
    have hneeded := not_not.mp (hremoves.not.mp hback)
    refine (allOrNothing_iff form).trans (and_congr htables (iff_of_true ?_ (.inl hneeded)))
    exact (nothingLeft_kept hfresh hfdfs).mpr ((hstored.named hid).mpr (.inl hneeded.2))

/-- An upload that stores no object leaves everything as it was. -/
theorem allOrNothing_refused : AllOrNothing form (uploadAnswer (-1)) w w :=
  (allOrNothing_iff form).mpr ⟨⟨fun h => absurd h (by decide), fun _ => ⟨rfl, rfl⟩⟩,
    fun _ ho hnot => absurd ho hnot⟩

/-- The object has no record when its url cannot be built. -/
theorem abandoned_iff (hfresh : id ∉ w.fdfs.used) :
    AllOrNothing form (uploadAnswer (-1)) w (w.kept id) ↔ id ∈ w.db.fileIds := by
  rw [allOrNothing_iff, nothingLeft_kept hfresh rfl]
  exact and_iff_right ⟨fun h => absurd h (by decide), fun _ => ⟨rfl, rfl⟩⟩

/-- The rest of `uploadForm`, once FastDFS has the object. -/
theorem storedForm_along (ip : Bytes) (hfresh : id ∉ w.fdfs.used) (hid : cStr id = id) :
    Along step (fun ret w' _ => AllOrNothing form (uploadAnswer ret) w w' ↔
        if ip ≠ [] ∧ (ω 0).ok then StoresWell form w.db id (after 1 ω) else id ∈ w.db.fileIds)
      (getFullUrlByFileid ip id >>= fun
        | none => return -1
        | some url => storeUpload conn form id url) ω (w.kept id) := by
  rw [along_bind, getFullUrlByFileid]
  by_cases hip : ip = []
  · rw [if_pos hip, if_neg fun h => h.1 hip]
    exact abandoned_iff hfresh
  · rw [if_neg hip, along_bind]
    refine (along_ask (Call.fdfsFileInfo id) _).mpr fun known w' hs => ?_
    cases hs
    by_cases hknown : (ω 0).ok
    · rw [decide_eq_true hknown, if_pos rfl, if_pos ⟨hip, hknown⟩]
      exact storeUpload_along hfresh hid
    · rw [decide_eq_false hknown, if_neg Bool.false_ne_true, if_neg fun h => hknown h.2]
      exact abandoned_iff hfresh

theorem uploadForm_along (ip : Bytes) :
    Along step (fun ret w' _ => AllOrNothing form (uploadAnswer ret) w w' ↔
        ((ω 0).ok → (ω 1).ok →
          if ip ≠ [] ∧ (ω 3).ok then
            StoresWell form w.db (w.fdfs.freshId (cStr (ω 1).text)) (after 4 ω)
          else w.fdfs.freshId (cStr (ω 1).text) ∈ w.db.fileIds))
      (uploadForm ip conn form) ω w := by
  rw [uploadForm]
  generalize form.file_path ++ ascii "." ++ getFileSuffix form.file_name = new_file_path
  rw [along_bind]
  refine (along_ask (Call.rename _ _) _).mpr fun renamed w' hs => ?_
  cases hs
  by_cases hrenamed : (ω 0).ok
  · rw [decide_eq_true hrenamed, if_pos rfl, forall_prop_of_true hrenamed, along_bind]
    refine (along_ask (Call.fdfsUpload new_file_path) _).mpr fun uploaded w' hs => ?_
    rw [Prog.after_apply, Nat.zero_add] at hs
    by_cases hstored : (ω 1).ok
    · simp only [step, if_pos hstored] at hs
      cases hs
      rw [forall_prop_of_true hstored, along_bind]
      refine (along_ask (Call.unlink new_file_path) _).mpr fun _ w' hs => ?_
      cases hs
      have hfresh := w.fdfs.freshId_not_used (cStr (ω 1).text)
      exact storedForm_along ip hfresh (w.fdfs.cStr_freshId (ω 1).text)
    · simp only [step, if_neg hstored] at hs
      cases hs
      rw [along_bind]
      refine (along_ask (Call.unlink new_file_path) _).mpr fun _ w' hs => ?_
      cases hs
      exact iff_of_true allOrNothing_refused fun hok => absurd hok hstored
  · rw [decide_eq_false hrenamed, if_neg Bool.false_ne_true]
    exact iff_of_true allOrNothing_refused fun hok => absurd hok hrenamed

theorem apiUpload_along {ip post_data : Bytes} (hform : parseForm post_data = .ok form) :
    Along step (fun answer w' _ => AllOrNothing form answer w w' ↔ Completes form ip w ω)
      (apiUpload ip post_data) ω w := by
  rw [apiUpload, along_bind]
  refine along_getDBConn ?_
  rw [hform, decoded, along_bind]
  exact uploadForm_along ip

end

/-- An upload of known strings is all or nothing exactly when the calls it
depends on go well. -/
theorem upload_completes_iff (server : SqlServer) {K : Bytes → Prop} (hK : server.Tells K)
    {w : World} (hw : w.db.Known K) {ip post_data : Bytes} (hip : Plain ip)
    (hform : parseForm post_data = .ok form) (hknown : form.Known K) {ω : ℕ → Ans}
    {answer : Int × Option JsonValue} (hω : server.Regular ω (apiUpload ip post_data) w)
    (hres : (server.runIn ω (apiUpload ip post_data) w).res = some answer) :
    AllOrNothing form answer w (server.runIn ω (apiUpload ip post_data) w).st ↔
      Completes form ip w ω := by
  have hasks : KnownCalls K (apiUpload ip post_data) :=
    known_apiUpload hK.plain hip (hknown.of_parsed hform)
  rw [hK.runIn_eq hasks hw hω] at hres ⊢
  exact (apiUpload_along hform).returned hres

/-! The first upload of a file. -/

def firstForm : UploadForm := smallForm (ascii "u")

def firstUpload : Handler (Int × Option JsonValue) :=
  apiUpload (ascii "ip") (formBody firstForm)

theorem firstForm_parsed : parseForm (formBody firstForm) = .ok firstForm := by
  decide +kernel

/-- Nothing fails: the file is recorded and its object kept. -/
theorem firstUpload_recorded :
    ∃ answer,
      (SqlServer.strict.runIn (failingAt (ascii "id") []) firstUpload .empty).res = some answer ∧
      answer.1 = 0 ∧
      AllOrNothing firstForm answer .empty
        (SqlServer.strict.runIn (failingAt (ascii "id") []) firstUpload .empty).st := by
  have hcode :
      (SqlServer.strict.runIn (failingAt (ascii "id") []) firstUpload .empty).res.map Prod.fst =
        some 0 := by
    decide +kernel
  obtain ⟨answer, hres, hzero⟩ := Option.map_eq_some_iff.mp hcode
  refine ⟨answer, hres, hzero, ?_⟩
  refine (upload_completes_iff firstForm _ SqlServer.strict_tells .empty (by decide)
    firstForm_parsed ⟨by decide, by decide, by decide⟩ (by decide +kernel) hres).mpr fun _ _ => ?_
  have hcreated : Created firstForm World.empty.db (after 5 (failingAt (ascii "id") [])) := by
    decide +kernel
  have hinserted : Inserted firstForm World.empty.db (after 5 (failingAt (ascii "id") [])) :=
    ⟨by decide +kernel, .inl ⟨hcreated, by decide⟩⟩
  rw [if_pos (by decide)]
  exact ⟨iff_of_true hinserted (.inl hcreated), .inl ⟨hinserted, hcreated⟩⟩

/-- FastDFS does not find the object it has just stored: the upload reports a
failure, and the object stays without a record. -/
theorem firstUpload_abandoned :
    parseForm (formBody firstForm) = .ok firstForm ∧
    ¬∀ ω answer, (SqlServer.strict.runIn ω firstUpload .empty).res = some answer →
      AllOrNothing firstForm answer .empty (SqlServer.strict.runIn ω firstUpload .empty).st := by
  refine ⟨firstForm_parsed, fun hall => ?_⟩
  have hsome :
      (SqlServer.strict.runIn (failingAt (ascii "id") [4]) firstUpload .empty).res.isSome = true := by
    decide +kernel
  obtain ⟨answer, hres⟩ := Option.isSome_iff_exists.mp hsome
  have hobject : ascii "id" ∈
      (SqlServer.strict.runIn (failingAt (ascii "id") [4]) firstUpload .empty).st.fdfs.objects := by
    decide +kernel
  have hrecord : ascii "id" ∉
      (SqlServer.strict.runIn (failingAt (ascii "id") [4]) firstUpload .empty).st.db.fileIds := by
    decide +kernel
  exact hrecord ((hall _ answer hres).objects _ hobject (by decide +kernel))

end Upload

end FileHub
