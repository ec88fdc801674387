import FileHub.Proofs.FilePages

/-!
# The size of a file, from the form to the listings

A size comes as decimal text, is a `long` in the handler and a `bigint` in
`file_info`, and leaves through `GetInt`, an `atoi` whose result has 32 bits.
Up to there nothing is lost: the row keeps the number for as long as there is
one (`size_of_later`), whatever statements run in between. The three listings
all read it through `GetInt`.
-/

namespace FileHub

open Lib

/-! ## What a statement does to a row of `file_info` -/

namespace Db

variable {db : Db}

/-- A row was there before a statement, with the same size, or the statement
has inserted it. -/
theorem mem_fileInfo_sql {d : Dml} {row : FileInfoRow} (h : row ∈ (db.sql d).fileInfo.rows) :
    (∃ old ∈ db.fileInfo.rows, row.md5 = old.md5 ∧ row.size = old.size) ∨
      ∃ new, d = .insertFileInfo new ∧ row.md5 = cStr new.md5 ∧ row.size = new.size ∧
        db.info new.md5 = none := by
  match d with
  | .incrCount m | .decrCount m =>
      obtain ⟨old, hold, rfl⟩ := List.mem_map.mp h
      refine .inl ⟨old, hold, ?_⟩
      split <;> exact ⟨rfl, rfl⟩
  | .deleteFileInfo m => exact .inl ⟨row, (Table.mem_deleteWhere.mp h).1, rfl, rfl⟩
  | .insertFileInfo new =>
      cases hexec : (Dml.insertFileInfo new).format.exec db with
      | none =>
          rw [sql_of_none hexec] at h
          exact .inl ⟨row, h, rfl, rfl⟩
      | some result =>
          rw [sql_of_some hexec] at h
          obtain ⟨t, ht, rfl⟩ := Option.map_eq_some_iff.mp hexec
          have hrow : row ∈ t.rows := h
          rw [Table.insert_rows ht, List.mem_append, List.mem_singleton] at hrow
          rcases hrow with hrow | rfl
          · exact .inl ⟨row, hrow, rfl, rfl⟩
          · exact .inr ⟨new, rfl, rfl, rfl, Table.find?_of_insert ht⟩
  | .insertUserFile r =>
      rw [fileInfo_insertUserFile] at h
      exact .inl ⟨row, h, rfl, rfl⟩
  | .insertUser r =>
      have hrow : (db.sql (.insertUser r)).fileInfo = db.fileInfo := by
        rw [sql, Dml.format, Dml.exec]
        split <;> rfl
      rw [hrow] at h
      exact .inl ⟨row, h, rfl, rfl⟩
  | .deleteUserFile .. | .setSharedStatus .. | .setUserFilePv .. | .insertShare _
  | .deleteShare .. | .setSharePv .. | .insertPicture _ | .incrPicturePv _
  | .deletePicture .. => exact .inl ⟨row, h, rfl, rfl⟩

theorem info_eq_some {md5 : Bytes} {row : FileInfoRow} :
    db.info md5 = some row ↔ row ∈ db.fileInfo.rows ∧ row.md5 = cStr md5 := Table.find?_eq_some

end Db

/-! ## Databases -/

/-- What statements make of empty tables. -/
def Reached (db : Db) : Prop :=
  Relation.ReflTransGen (fun x y => ∃ d, y = Db.sql x d) Db.empty db

/-- Some statements later, with the md5 in `file_info` all the while. -/
def Later (md5 : Bytes) : Db → Db → Prop :=
  Relation.ReflTransGen fun x y => ∃ d, y = x.sql d ∧ (y.info md5).isSome

variable {db db' : Db} {md5 : Bytes}

theorem Later.reached (h : Later md5 db db') (hdb : Reached db) : Reached db' := by
  induction h with
  | refl => exact hdb
  | tail _ hstep ih =>
      obtain ⟨d, rfl, -⟩ := hstep
      exact ih.tail ⟨d, rfl⟩

/-- The md5s of `file_info` are C strings. -/
theorem Reached.cStr_md5 (h : Reached db) : ∀ row ∈ db.fileInfo.rows, cStr row.md5 = row.md5 := by
  induction h with
  | refl => exact nofun
  | tail _ hstep ih =>
      obtain ⟨d, rfl⟩ := hstep
      intro row hrow
      rcases Db.mem_fileInfo_sql hrow with ⟨old, hold, hmd5, -⟩ | ⟨new, -, hmd5, -⟩
      · rw [hmd5, ih old hold]
      · rw [hmd5, cStr_cStr]

/-- A row keeps its size. -/
theorem size_of_later {size : Int} (h : Later md5 db db')
    (hsome : (db.info md5).isSome) (hsize : ∀ row, db.info md5 = some row → row.size = size) :
    ∀ row, db'.info md5 = some row → row.size = size := by
  suffices (db'.info md5).isSome ∧ ∀ row, db'.info md5 = some row → row.size = size from this.2
  induction h with
  | refl => exact ⟨hsome, hsize⟩
  | tail _ hstep ih =>
      obtain ⟨d, rfl, hnext⟩ := hstep
      refine ⟨hnext, fun row hrow => ?_⟩
      obtain ⟨hmem, hkey⟩ := Db.info_eq_some.mp hrow
      rcases Db.mem_fileInfo_sql hmem with ⟨old, hold, hmd5, holdsize⟩ | ⟨new, -, hmd5, -, hnone⟩
      · rw [holdsize]
        exact ih.2 old (Db.info_eq_some.mpr ⟨hold, hmd5.symm.trans hkey⟩)
      · -- a row of the same md5 refuses the insert
        obtain ⟨old, hold⟩ := Option.isSome_iff_exists.mp ih.1
        have hnew : cStr new.md5 = cStr md5 := hmd5.symm.trans hkey
        rw [Db.info, hnew, ← Db.info, hold] at hnone
        cases hnone

/-! ## The upload -/

section

variable {w w' : World} {form : UploadForm} {post_data ip : Bytes} {ω : ℕ → Ans}

/-- A call changes the tables by a statement or not at all. -/
theorem step_db {c : Call} {a : Ans} {r : Resp c} (h : step c a w = some (r, w')) :
    w'.db = w.db ∨ ∃ d, c = .dml d ∧ w'.db = w.db.sql d := by
  by_cases haside : c.Aside
  · exact .inl (step_aside haside h).1
  match c with
  | .dml d =>
      by_cases ha : a.ok
      · rw [step_dml ha, Option.some.injEq, Prod.mk.injEq] at h
        exact .inr ⟨d, rfl, by rw [← h.2]; rfl⟩
      · rw [step_dml_of_not_ok ha, Option.some.injEq, Prod.mk.injEq] at h
        exact .inl (by rw [h.2])
  | .fdfsUpload _ =>
      rw [step] at h
      split at h <;> cases h <;> exact .inl rfl
  | .fdfsDelete _ =>
      rw [step] at h
      split at h <;> cases h <;> exact .inl rfl
  | .getDBConn _ | .select _ | .stmtInit | .getCacheConn _ | .cacheInit | .redis _
  | .tryLockFor _ | .unlock | .rename .. | .unlink _ | .fdfsFileInfo _ | .time | .localtime
  | .uuid | .rand | .crash => exact absurd trivial haside

theorem reached_runIn {α : Type} (p : Handler α) (hw : Reached w.db) :
    Reached (runIn ω p w).st.db := by
  have huses : p.Uses fun _ => True := by
    induction p with
    | ret => trivial
    | call c k ih => exact ⟨trivial, ih⟩
  refine @Prog.Uses.exec _ _ _ _ _ step _ (fun w' => Reached w'.db) ?_ _ huses ω w hw
  intro c a s r s' _ hs hstep
  rcases step_db hstep with hdb | ⟨d, -, hdb⟩
  · rw [hdb]
    exact hs
  · rw [hdb]
    exact hs.tail ⟨d, rfl⟩

/-- What an upload may write into `file_info` besides counts. -/
def Inserts (form : UploadForm) (c : Call) : Prop :=
  ∀ new, c = .dml (.insertFileInfo new) → new.size = strtol form.file_size

theorem inserts_apiUpload (hform : parseForm post_data = .ok form) :
    (apiUpload ip post_data).Uses (Inserts form) := by
  refine uses_apiUpload (fun c hc new h => ?_) nofun nofun nofun nofun ?_ nofun nofun
  · subst h
    exact hc.elim
  · intro form' fileid url hform' new h
    rw [hform] at hform'
    cases h
    rw [Except.ok.inj hform']

/-- A row that an upload inserts has the size of its form. -/
theorem size_of_upload (hform : parseForm post_data = .ok form)
    (hnew : w.db.info md5 = none) :
    ∀ row, (runIn ω (apiUpload ip post_data) w).st.db.info md5 = some row →
      row.size = strtol form.file_size := by
  refine @Prog.Uses.exec _ _ _ _ _ step _ (fun w' => ∀ row, w'.db.info md5 = some row →
    row.size = strtol form.file_size) ?_ _ (inserts_apiUpload hform) ω w ?_
  · intro c a s r s' hc hs hstep row hrow
    rcases step_db hstep with hdb | ⟨d, rfl, hdb⟩
    · rw [hdb] at hrow
      exact hs row hrow
    · rw [hdb] at hrow
      obtain ⟨hmem, hkey⟩ := Db.info_eq_some.mp hrow
      rcases Db.mem_fileInfo_sql hmem with ⟨old, hold, hmd5, hsize⟩ | ⟨new, rfl, -, hsize, -⟩
      · rw [hsize]
        exact hs old (Db.info_eq_some.mpr ⟨hold, hmd5.symm.trans hkey⟩)
      · rw [hsize]
        exact hc new rfl
  · intro row hrow
    rw [hnew] at hrow
    cases hrow

end

/-! ## The listings -/

/-- A page of one of the three listings. -/
inductive Listing where
  | userFiles (user : Bytes) (start count : Int)
  | shareFiles (start count : Int)
  | pictures (user : Bytes) (start count : Int)

namespace Listing

def handle : Listing → Handler JsonValue
  | userFiles user start count => getUserFileList user start count
  | shareFiles start count => handleGetShareFilelist start count
  | pictures user start count => handleGetSharePicturesList user start count

/-- What an entry calls the md5. -/
def md5Key : Listing → Bytes
  | userFiles .. | shareFiles .. => ascii "md5"
  | pictures .. => ascii "filemd5"

/-- An entry stands for a row of `file_info`. -/
def Entry (l : Listing) (db : Db) (file : JsonValue) : Prop :=
  ∃ row ∈ db.fileInfo.rows, file.get? l.md5Key = some (.str (cStr row.md5)) ∧
    file.get? (ascii "size") = some (.int (getInt row.size))

section

variable {α β : Type} {w : World} {Q : α → World → Prop}

/-- However its calls are answered, what the program returns satisfies `Q`. -/
abbrev Always (Q : α → World → Prop) (p : Handler α) (w : World) : Prop :=
  p.Wp step (fun _ => True) (fun _ => True) Q w

theorem always_getDBConn {pool : DbPool} {k : CDBConn → Handler α}
    (h : ∀ conn, Always Q (k conn) w) : Always Q (getDBConn pool >>= k) w :=
  fun _ _ => h _

theorem always_executeQuery {conn : CDBConn} {q : Select} {k : Option (List q.Row) → Handler α}
    (hnone : Always Q (k none) w) (hsome : ∀ rows, q.run w.db = some rows → Always Q (k rows) w) :
    Always Q (conn.executeQuery q >>= k) w := by
  rw [CDBConn.executeQuery]
  split
  · intro a _
    show Always Q (k (if a.ok then q.run w.db else none)) w
    split
    · cases hrun : q.run w.db with
      | none => exact hnone
      | some rows => exact hsome rows hrun
    · exact hnone
  · exact fun _ _ => trivial

end

/-- The entries of a page, whatever the rows joined to `file_info`. -/
theorem entries_of_limit (l : Listing) {α : Type} {db : Db} {md5 : α → Bytes} {rows : List α}
    {start count : Int} {page : List (α × FileInfoRow)} {json : α × FileInfoRow → JsonValue}
    (h : limit (FileInfo.joined db.fileInfo md5 rows) start count = some page)
    (hmd5 : ∀ row, (json row).get? l.md5Key = some (.str (cStr (md5 row.1))))
    (hsize : ∀ row, (json row).get? (ascii "size") = some (.int (getInt row.2.size))) :
    ∀ file ∈ page.map json, l.Entry db file := by
  intro file hfile
  obtain ⟨row, hrow, rfl⟩ := List.mem_map.mp hfile
  rw [limit] at h
  split at h
  · cases h
  rw [← Option.some.inj h] at hrow
  obtain ⟨r, -, hr⟩ := List.mem_flatMap.mp (List.mem_of_mem_drop (List.mem_of_mem_take hrow))
  obtain ⟨info, hinfo, rfl⟩ := List.mem_map.mp hr
  obtain ⟨hmem, hkey⟩ := List.mem_filter.mp hinfo
  exact ⟨info, hmem, (hmd5 _).trans (by rw [of_decide_eq_true hkey]), hsize _⟩

/-- An answer that leaves an empty array of files out. -/
theorem files_optional {before after : List (Bytes × JsonValue)} {entries : List JsonValue}
    (hbefore : before.lookup (ascii "files") = none)
    (hafter : after.lookup (ascii "files") = none) :
    (JsonValue.object (before ++ (if entries = [] then [] else [(ascii "files", .array entries)]) ++
      after)).files = entries := by
  rw [JsonValue.files, JsonValue.get?, List.append_assoc, List.lookup_append, hbefore,
    Option.none_or]
  by_cases hnil : entries = []
  · rw [if_pos hnil, List.nil_append, hafter, hnil]
  · rw [if_neg hnil, List.singleton_append, List.lookup_cons, BEq.rfl]

theorem noFiles {P : JsonValue → Prop} : ∀ file ∈ ([] : List JsonValue), P file := by
  intro file hfile
  cases hfile

/-- Each entry of a listing is a row of `file_info`. -/
theorem entries_always (l : Listing) (w : World) :
    Always (fun root _ => ∀ file ∈ root.files, l.Entry w.db file) l.handle w := by
  cases l with
  | userFiles user start count =>
      refine always_getDBConn fun conn => ?_
      rw [getUserFilesCount, bind_assoc]
      refine always_executeQuery noFiles fun counted _ => ?_
      cases counted with
      | nil => exact noFiles
      | cons total _ =>
          simp only [Prog.pure_eq, Prog.ret_bind]
          rw [if_neg (by decide)]
          split
          · exact noFiles
          · refine always_executeQuery noFiles fun rows hrows => ?_
            show ∀ file ∈ JsonValue.files _, _
            rw [files_page]
            exact entries_of_limit _ hrows (fun _ => rfl) fun _ => rfl
  | shareFiles start count =>
      refine always_getDBConn fun conn => ?_
      rw [handleGetSharefilesCount, bind_assoc]
      refine always_getDBConn fun conn' => ?_
      rw [bind_assoc]
      refine always_executeQuery noFiles fun counted _ => ?_
      cases counted
      all_goals
        refine always_executeQuery noFiles fun rows hrows => ?_
        show ∀ file ∈ JsonValue.files _, _
        rw [files_optional rfl rfl]
        exact entries_of_limit _ hrows (fun _ => rfl) fun _ => rfl
  | pictures user start count =>
      refine always_getDBConn fun conn => ?_
      rw [getSharePicturesCount, bind_assoc]
      refine always_executeQuery noFiles fun counted _ => ?_
      cases counted
      all_goals
        refine always_executeQuery noFiles fun rows hrows => ?_
        have hfiles (total : Int) := @files_optional [] [(ascii "code", .int 0),
          (ascii "count", .int (rows.map pictureJson).length), (ascii "total", .int total)]
          (rows.map pictureJson) rfl rfl
        rw [List.nil_append] at hfiles
        show ∀ file ∈ JsonValue.files _, _
        rw [hfiles]
        exact entries_of_limit _ hrows (fun _ => rfl) fun _ => rfl

/-- A listing shows the size of a row. -/
theorem entry_of_mem (l : Listing) {w : World} {ω : ℕ → Ans} {root file : JsonValue}
    (hroot : (runIn ω l.handle w).res = some root) (hfile : file ∈ root.files) :
    l.Entry w.db file := by
  have hrun := Prog.Wp.exec (l.entries_always w) ω fun _ => trivial
  match hexec : Prog.exec step ω l.handle w with
  | ⟨none, _, _⟩ =>
      rw [runIn, hexec] at hroot
      cases hroot
  | ⟨some root', _, _⟩ =>
      rw [runIn, hexec] at hroot
      rw [hexec] at hrun
      cases hroot
      exact hrun file hfile

end Listing

/-! ## What 32 bits hold -/

/-- 32 bits hold a size below 2^31 and no other. -/
theorem getInt_eq_iff {n : ℕ} (hn : n < 2 ^ 63) : getInt n = n ↔ n < 2 ^ 31 := by
  rw [getInt, atoi, strtol_intText (by omega) (by omega)]
  constructor
  · intro h
    have hlt := Int.bmod_lt (x := (n : Int)) (m := 2 ^ 32) (by decide)
    rw [h] at hlt
    omega
  · intro h
    exact Int.bmod_eq_of_le (by omega) (by omega)

/-- A file that was new when it was uploaded with the size `n`: later, every
entry of a listing that names it shows `n` exactly if 32 bits hold it. -/
theorem size_shown_iff {n : ℕ} (hn : n < 2 ^ 63) {w w' : World} (hw : Reached w.db)
    {post_data ip : Bytes} {form : UploadForm} (hform : parseForm post_data = .ok form)
    (hsize : form.file_size = decimal n) (hnew : w.db.info form.file_md5 = none) {ω : ℕ → Ans}
    (hrecorded : ((runIn ω (apiUpload ip post_data) w).st.db.info form.file_md5).isSome)
    (hlater : Later form.file_md5 (runIn ω (apiUpload ip post_data) w).st.db w'.db)
    (l : Listing) {ω' : ℕ → Ans} {root file : JsonValue}
    (hroot : (runIn ω' l.handle w').res = some root) (hfile : file ∈ root.files)
    (hmd5 : file.get? l.md5Key = some (.str (cStr form.file_md5))) :
    file.get? (ascii "size") = some (.int n) ↔ n < 2 ^ 31 := by
  obtain ⟨row, hrow, hkey, hshown⟩ := l.entry_of_mem hroot hfile
  have hstored := (hlater.reached (reached_runIn _ hw)).cStr_md5 row hrow
  have hrowkey : row.md5 = cStr form.file_md5 := by
    rw [hkey, hstored] at hmd5
    exact JsonValue.str.inj (Option.some.inj hmd5)
  have hvalue : row.size = n := by
    have := size_of_later hlater hrecorded (size_of_upload hform hnew) row
      (Db.info_eq_some.mpr ⟨hrow, hrowkey⟩)
    have hdecimal : decimal n = intText n := rfl
    rw [this, hsize, hdecimal, strtol_intText (by omega) (by omega)]
  rw [hshown, hvalue, ← getInt_eq_iff hn]
  exact ⟨fun h => JsonValue.int.inj (Option.some.inj h), fun h => by rw [h]⟩

/-! A file of 5 bytes, and one of 2^31. -/

namespace SizedFile

def form (n : ℕ) : UploadForm :=
  ⟨ascii "a.txt", ascii "text/plain", ascii "tmp", ascii "m", decimal n, ascii "u"⟩

/-- Every call succeeds, and FastDFS gives the id `id`. -/
def stores : ℕ → Ans := failingAt (ascii "id") []

def uploaded (n : ℕ) : World :=
  (runIn stores (apiUpload (ascii "ip") (formBody (form n))) .empty).st

def firstFile : Listing := .userFiles (ascii "u") 0 1

def listed (n : ℕ) : Option JsonValue := (runIn stores firstFile.handle (uploaded n)).res

/-- The md5 and the size an entry shows. -/
def shows (file : JsonValue) : Option (Bytes × Int) :=
  match file.get? (ascii "md5"), file.get? (ascii "size") with
  | some (.str md5), some (.int size) => some (md5, size)
  | _, _ => none

theorem shows_eq_some {file : JsonValue} {m : Bytes} {size : Int}
    (h : shows file = some (m, size)) :
    file.get? (ascii "md5") = some (.str m) ∧ file.get? (ascii "size") = some (.int size) := by
  rw [shows] at h
  split at h
  · next hmd5 hsize =>
    obtain ⟨rfl, rfl⟩ := Prod.mk.inj (Option.some.inj h)
    exact ⟨hmd5, hsize⟩
  · cases h

/-- The one entry of the listing. -/
theorem listed_entry {n : ℕ} {m : Bytes} {size : Int}
    (h : (listed n).map (fun root => root.files.map shows) = some [some (m, size)]) :
    ∃ root file, listed n = some root ∧ file ∈ root.files ∧
      file.get? (ascii "md5") = some (.str m) ∧ file.get? (ascii "size") = some (.int size) := by
  obtain ⟨root, hroot, hfiles⟩ := Option.map_eq_some_iff.mp h
  obtain ⟨file, hfile, hshows⟩ : ∃ file ∈ root.files, shows file = some (m, size) := by
    rw [← List.mem_map, hfiles]
    exact List.mem_singleton_self _
  exact ⟨root, file, hroot, hfile, shows_eq_some hshows⟩

/-- The small file is shown as it is. -/
theorem small_shown : ∃ root file, listed 5 = some root ∧ file ∈ root.files ∧
    file.get? (ascii "size") = some (.int 5) := by
  have hentries : (listed 5).map (fun root => root.files.map shows) =
      some [some (ascii "m", 5)] := by decide +kernel
  obtain ⟨root, file, hlisted, hfile, hmd5, -⟩ := listed_entry hentries
  have hroot := hlisted
  have hform : parseForm (formBody (form 5)) = .ok (form 5) := by decide +kernel
  have hrecorded : ((runIn stores (apiUpload (ascii "ip") (formBody (form 5))) .empty).st.db.info
      (form 5).file_md5).isSome := by decide +kernel
  have hreached : Reached World.empty.db := .refl
  have hname : cStr (form 5).file_md5 = ascii "m" := by decide +kernel
  rw [← hname] at hmd5
  rw [listed, uploaded] at hroot
  have hshown := size_shown_iff (show 5 < 2 ^ 63 by norm_num) hreached hform rfl rfl hrecorded .refl
    firstFile hroot hfile hmd5
  exact ⟨root, file, hlisted, hfile, hshown.mpr (by norm_num)⟩

/-- The large file is shown with a negative size. -/
theorem large_misshown : ∃ root file, listed (2 ^ 31) = some root ∧ file ∈ root.files ∧
    file.get? (ascii "md5") = some (.str (ascii "m")) ∧
    file.get? (ascii "size") ≠ some (.int (2 ^ 31)) := by
  have hentries : (listed (2 ^ 31)).map (fun root => root.files.map shows) =
      some [some (ascii "m", -2147483648)] := by decide +kernel
  obtain ⟨root, file, hroot, hfile, hmd5, hsize⟩ := listed_entry hentries
  refine ⟨root, file, hroot, hfile, hmd5, fun h => ?_⟩
  rw [hsize] at h
  exact absurd (JsonValue.int.inj (Option.some.inj h)) (by decide)

end SizedFile

end FileHub
