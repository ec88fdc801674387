import FileHub.Api.Myfiles
import FileHub.Proofs.HandlerCalls
import FileHub.Proofs.PartialFailure

/-!
# The pages of a user's files add up

`getUserFileList` reads the total from `user_file_list` and a page from its
join with `file_info`. The two agree because every row has its file: then the
join gives each row of the user once, and the pages cut the join without gap or
overlap. That every row has its file is what `Stored` says of the state between
two requests; sharing and cancelling do not touch what it speaks about.
-/

namespace FileHub

open Lib

/-! ## Requests -/

/-- The requests that change what the pages show. -/
inductive FilesRequest where
  | storage (r : StorageRequest)
  | share (user md5 filename : Bytes)
  | cancel (user md5 filename : Bytes)

def FilesRequest.handle (parse : Bytes → Option JsonValue) (ip : Bytes) :
    FilesRequest → Handler Unit
  | .storage r => r.handle parse ip
  | .share user md5 filename => do let _ ← handleShareFile user md5 filename
  | .cancel user md5 filename => do let _ ← handleCancelShareFile user md5 filename

/-- The calls that share or cancel makes: no statement of theirs moves a row or
a counter. -/
def Call.Shares : Call → Prop
  | .dml (.setSharedStatus ..) | .dml (.insertShare _) | .dml (.deleteShare ..) => True
  | c => c.Aside

theorem Call.Reads.shares {c : Call} (h : c.Reads) : c.Shares := by
  cases c with
  | dml | tryLockFor | unlock | fdfsUpload | fdfsDelete | rand => cases h
  | _ => trivial

theorem Db.refs_setSharedStatus (db : Db) (v : Int) (user md5 filename m : Bytes) :
    (db.sql (.setSharedStatus v user md5 filename)).refs m = db.refs m :=
  Table.countP_updateWhere db.userFileList
    (fun r => r.key = (cStr user, cStr md5, cStr filename))
    (fun r => { r with sharedStatus := v }) (fun _ => rfl) fun _ => rfl

theorem Stored.step_shares {c : Call} (hc : c.Shares) {a : Ans} {w w' : World} {r : Resp c}
    (h : Stored 0 0 w.db w.fdfs) (hs : step c a w = some (r, w')) : Stored 0 0 w'.db w'.fdfs := by
  by_cases haside : c.Aside
  · obtain ⟨hdb, hfdfs⟩ := step_aside haside hs
    rwa [hdb, hfdfs]
  · match c with
    | .dml d =>
        by_cases ha : a.ok
        · rw [step_dml ha, Option.some.injEq, Prod.mk.injEq] at hs
          obtain ⟨-, rfl⟩ := hs
          match d with
          | .setSharedStatus v user md5 filename =>
              refine ⟨fun m => ?_, h.objects, h.nodup⟩
              rw [World.sql_db, Db.refs_setSharedStatus]
              exact h.counted m
          | .insertShare _ | .deleteShare .. => exact ⟨h.counted, h.objects, h.nodup⟩
        · rw [step, if_neg ha] at hs
          cases hs
          exact h
    | .fdfsUpload _ | .fdfsDelete _ => cases hc
    | .getDBConn _ | .select _ | .stmtInit | .getCacheConn _ | .cacheInit | .redis _
    | .tryLockFor _ | .unlock | .rename .. | .unlink _ | .fdfsFileInfo _ | .time | .localtime
    | .uuid | .rand | .crash => exact absurd trivial haside

namespace FilesRequest

variable {parse : Bytes → Option JsonValue} {ip : Bytes} {w : World}

/-- Nothing that fails can damage the files if nothing fails. -/
theorem not_damages (w : World) (x : Undisturbed StorageRequest) :
    ¬StorageRequest.Damages ip w (x.request, x.script) := by
  simp only [StorageRequest.Damages]
  split
  · split
    · exact not_false
    · rintro ⟨-, -, -, -, -, -, -, ⟨-, h3, -⟩ | ⟨h1, -⟩⟩
      · exact h3 (x.noFail _)
      · exact h1 (x.noFail _)
  all_goals exact not_false

theorem stored_serve (h : Stored 0 0 w.db w.fdfs) (x : Undisturbed FilesRequest) :
    Stored 0 0 (serve (handle parse ip) w x).db (serve (handle parse ip) w x).fdfs := by
  obtain ⟨request, script, hscript⟩ := x
  have hshares {p : Handler Unit} (hp : p.Uses Call.Shares) :
      Stored 0 0 (runIn script p w).st.db (runIn script p w).st.fdfs :=
    @Prog.Uses.exec _ _ _ _ _ step _ (fun w' => Stored 0 0 w'.db w'.fdfs)
      (fun _ _ _ _ _ hc hI hs => hI.step_shares hc hs) _ hp script w h
  match request with
  | .storage r => exact StorageRequest.stored_attempt h (r, script) (not_damages w ⟨r, _, hscript⟩)
  | .share user md5 filename =>
      refine hshares (.bind (uses_handleShareFile (fun _ => Call.Reads.shares) ?_ ?_ ?_ ?_ ?_ ?_ ?_)
        fun _ => trivial)
      all_goals intros; trivial
  | .cancel user md5 filename =>
      refine hshares (.bind (uses_handleCancelShareFile (fun _ => Call.Reads.shares) ?_ ?_ ?_ ?_)
        fun _ => trivial)
      all_goals trivial

end FilesRequest

/-! ## Pages -/

/-- The rows of a user. -/
def Db.filesOf (db : Db) (user : Bytes) : List UserFileRow :=
  db.userFileList.rows.filter fun r => r.user = cStr user

/-- What the pages are cut from: each row of the user with its `file_info` rows. -/
def Db.joinedOf (db : Db) (user : Bytes) : List (UserFileRow × FileInfoRow) :=
  FileInfo.joined db.fileInfo UserFileRow.md5 (db.filesOf user)

/-- Where every row has its file, the join has each row once. -/
theorem Live.joinedOf {db : Db} {fdfs : Fdfs} (h : Live db fdfs) (user : Bytes) :
    (db.joinedOf user).map Prod.fst = db.filesOf user := by
  have hrows : ∀ r ∈ db.filesOf user, ∃ i, db.fileInfo.find? r.md5 = some i := fun r hr =>
    (h r (List.mem_filter.mp hr).1).imp fun _ hi => hi.1
  rw [Db.joinedOf, FileInfo.joined]
  generalize db.filesOf user = rows at hrows
  induction rows with
  | nil => rfl
  | cons r rows ih =>
      obtain ⟨i, hi⟩ := hrows r List.mem_cons_self
      rw [List.flatMap_cons, Table.filter_key, hi, List.map_append,
        ih fun r' hr' => hrows r' (List.mem_cons_of_mem _ hr')]
      rfl

def JsonValue.get? (v : JsonValue) (key : Bytes) : Option JsonValue :=
  match v with
  | .object fields => fields.lookup key
  | _ => none

/-- The entries of a page. -/
def JsonValue.files (page : JsonValue) : List JsonValue :=
  match page.get? (ascii "files") with
  | some (.array entries) => entries
  | _ => []

def JsonValue.total (page : JsonValue) : Option JsonValue := page.get? (ascii "total")

theorem files_page (total count : Int) (entries : List JsonValue) :
    (JsonValue.object [(ascii "code", .int 0), (ascii "total", .int total),
      (ascii "files", if entries = [] then .null else .array entries),
      (ascii "count", .int count)]).files = entries := by
  have hcode : (ascii "files" == ascii "code") = false := by decide
  have htotal : (ascii "files" == ascii "total") = false := by decide
  simp only [JsonValue.files, JsonValue.get?, List.lookup_cons, hcode, htotal, BEq.rfl]
  split
  · next h => split at h <;> simp_all
  · next h =>
      split at h
      · next hnil => exact hnil.symm
      · exact absurd rfl (h entries)

theorem total_page (total : Int) (rest : List (Bytes × JsonValue)) :
    (JsonValue.object ((ascii "code", .int 0) :: (ascii "total", .int total) :: rest)).total =
      some (.int total) := by
  have hcode : (ascii "total" == ascii "code") = false := by decide
  simp only [JsonValue.total, JsonValue.get?, List.lookup_cons, hcode, BEq.rfl]

/-- A page is a window of the join, its total the number of rows. -/
theorem getUserFileList_ensures (w : World) (user : Bytes) (start count : ℕ) :
    Ensures (fun _ => False)
      (fun page _ => page.files = (((w.db.joinedOf user).drop start).take count).map userFileJson ∧
        page.total = some (.int (w.db.filesOf user).length))
      (getUserFileList user start count) w := by
  have hcount : Select.run w.db (.userFilesCount user) =
      some [((w.db.filesOf user).length : Int)] := rfl
  have hpage : Select.run w.db (.userFiles user start count) =
      some (((w.db.joinedOf user).drop start).take count) := by
    rw [Select.run, limit, if_neg (by omega)]
    rfl
  rw [getUserFileList]
  simp only [getUserFilesCount, ensures_bind, ensures_getDBConn]
  refine (ensures_executeQuery (.userFilesCount user) _).mpr ?_
  rw [hcount]
  simp only [ensures_pure, Int.lt_irrefl, if_false]
  by_cases hnone : (w.db.filesOf user).length = 0
  · have hjoin : w.db.joinedOf user = [] := by
      rw [Db.joinedOf, List.eq_nil_of_length_eq_zero hnone]
      rfl
    rw [if_pos (by omega), ensures_pure, hjoin, hnone]
    have hempty : (ascii "files" == ascii "code") = false ∧
        (ascii "files" == ascii "count") = false ∧ (ascii "files" == ascii "total") = false ∧
        (ascii "total" == ascii "code") = false ∧ (ascii "total" == ascii "count") = false := by
      decide
    simp only [JsonValue.files, JsonValue.total, JsonValue.get?, List.lookup_cons, hempty,
      BEq.rfl, List.lookup_nil]
    simp
  · rw [if_neg (by omega), ensures_bind]
    refine (ensures_executeQuery (.userFiles user start count) _).mpr ?_
    rw [hpage]
    exact ⟨files_page _ _ _, total_page _ _⟩

/-- Windows one after the other make a prefix. -/
theorem flatMap_windows {α : Type} (l : List α) (count n : ℕ) :
    ((List.range n).flatMap fun k => (l.drop (k * count)).take count) = l.take (n * count) := by
  induction n with
  | zero => rw [Nat.zero_mul, List.take_zero, List.range_zero, List.flatMap_nil]
  | succ n ih =>
      rw [List.range_succ, List.flatMap_append, ih, List.flatMap_singleton, Nat.succ_mul,
        List.take_add]

/-- Asked for page after page while nothing fails, `getUserFileList` lists each
row of the user once, under a total that is their number. -/
def World.PagesAddUp (w : World) (user : Bytes) (count : ℕ) : Prop :=
  ∀ scripts : ℕ → ℕ → Ans, (∀ k, NoFail (scripts k)) →
    ∃ (pages : ℕ → JsonValue) (listed : List (UserFileRow × FileInfoRow)),
      (∀ k, (runIn (scripts k) (getUserFileList user (k * count : ℕ) count) w).res =
        some (pages k)) ∧
      listed.map Prod.fst = w.db.filesOf user ∧
      (∀ k, (pages k).total = some (.int listed.length)) ∧
      ∀ n, listed.length ≤ n * count →
        ((List.range n).flatMap fun k => (pages k).files) = listed.map userFileJson

theorem Live.pagesAddUp {w : World} (h : Live w.db w.fdfs) (user : Bytes) (count : ℕ) :
    w.PagesAddUp user count := by
  intro scripts hscripts
  have hpages k := (getUserFileList_ensures w user (k * count) count).returns (hscripts k)
  choose pages hres hfiles htotal using hpages
  have hlisted := h.joinedOf user
  have hlength : (w.db.joinedOf user).length = (w.db.filesOf user).length := by
    rw [← hlisted, List.length_map]
  refine ⟨pages, w.db.joinedOf user, hres, hlisted, fun k => ?_, fun n hn => ?_⟩
  · rw [htotal, hlength]
  · simp only [hfiles, ← List.map_flatMap]
    rw [flatMap_windows, List.take_of_length_le hn]

/-- From empty tables, after any requests that nothing failed in. -/
theorem FilesRequest.pages_add_up (parse : Bytes → Option JsonValue) (ip : Bytes)
    (lex : ZSet → Bytes → ℕ) (randSeq : ℕ → ℕ) (redis : Redis) (fdfs : Fdfs)
    (history : List (Undisturbed FilesRequest)) :
    Throughout (serve (handle parse ip)) (fun w => ∀ user count, w.PagesAddUp user count)
      history { World.init lex randSeq with redis := redis, fdfs := fdfs } := by
  have hempty : Stored 0 0 Db.empty fdfs :=
    ⟨Stored.empty.counted, by simp [Db.empty, Db.fileIds], Stored.empty.nodup⟩
  have hstored := @Throughout.of_step World _ (serve (handle parse ip))
    (fun w => Stored 0 0 w.db w.fdfs) (fun _ x hw => stored_serve hw x) history
    { World.init lex randSeq with redis := redis, fdfs := fdfs } hempty
  exact hstored.mono fun _ hw user count => hw.live.pagesAddUp user count

end FileHub
