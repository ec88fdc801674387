import FileHub.Api.Storage
import FileHub.Proofs.Effects
import FileHub.Proofs.KnownCalls
import FileHub.Proofs.Ledger

/-!
# Files under concurrency

Any number of uploads, instant uploads, saves and deletes run together, each
of their calls one step. Every call succeeds and the lock is granted to one at
a time. Under the lock a handler sees a consistent row of `file_info`; what it
does to `user_file_list` it does outside.

A delete first looks whether the user has the row, then deletes it, and then
gives its reference up. Two deletes of one row may both find it. The second
`DELETE` then matches nothing, which `ExecuteDrop` does not report, and a
reference is given up that belongs to somebody else. As long as every `DELETE`
of a user's row finds it, no file is lost, whatever the schedule.
-/

namespace FileHub

open Lib
open Lib.Sql (Plain)
open Prog (ask)

/-- The requests that run together. -/
inductive FileTask where
  | upload (post_data : Bytes)
  | dealMd5 (user md5 filename : Bytes)
  | save (user md5 filename : Bytes)
  | delete (user md5 filename : Bytes)

def FileTask.handle (ip : Bytes) : FileTask → Handler Unit
  | .upload post_data => do let _ ← apiUpload ip post_data
  | .dealMd5 user md5 filename => do let _ ← handleDealMd5 user md5 filename
  | .save user md5 filename => do let _ ← handleSaveFile user md5 filename
  | .delete user md5 filename => do let _ ← handleDeleteFile user md5 filename

/-- The requests before their first step. -/
def FileTask.pool (ip : Bytes) (tasks : List FileTask) (w : World) :
    Pool FileTask Call Resp Unit World :=
  ⟨tasks.map fun t => (t, t.handle ip), w⟩

/-- Every file is counted exactly and its object stored, and nothing runs. -/
structure World.Settled (w : World) : Prop where
  counted : ∀ m, (w.db.count? m).getD 0 = w.db.refs m
  objects : ∀ id ∈ w.db.fileIds, id ∈ w.fdfs.objects
  unlocked : w.locked = false

/-! ## Saving and the instant upload -/

section

variable {α β : Type} {flight held : Multiset Bytes}

theorem countSaved_pays (conn : CDBConn) (md5 : Bytes) :
    Pays (fun counted g => g = (if counted then {cStr md5} else 0, 0, 0))
      (countSaved conn md5) 0 := by
  refine .scopedFileInfoLock (.executeUpdate conn true fun w f howed _ => ?_)
  rw [Db.affects_incrCount]
  cases hinfo : w.db.info md5 with
  | none =>
      rw [World.sql_self (Db.sql_incrCount_of_info hinfo)]
      exact ⟨_, howed, _, rfl, rfl⟩
  | some i =>
      refine ⟨({cStr md5}, 0, {.nothing}), ?_, _, rfl, rfl⟩
      have hincr := howed.settle (howed.stored.incr hinfo)
      simpa [Owed] using hincr

/-- The user's row for a reference in flight. -/
theorem insertUserFile_pays (conn : CDBConn) (r : UserFileRow) (lock : Multiset Insight) :
    Pays (fun _ g => g = (0, held, lock)) (conn.executeCreate (.insertUserFile r))
      ({cStr r.md5}, held, lock) := by
  refine .execute conn fun w f howed _ => ⟨(0, held, lock), ?_, rfl⟩
  have hadd := howed.addRow
  simpa [Owed] using hadd

theorem handleSaveFile_pays (user md5 filename : Bytes) :
    Pays (fun _ _ => True) (handleSaveFile user md5 filename) 0 := by
  refine .skip (uses_getDBConn trivial) fun conn => ?_
  refine .skip (uses_checkwhetherHaveRecord trivial trivial) fun found => ?_
  split
  · exact safe_ret trivial
  · refine (countSaved_pays conn md5).bind fun counted g hg => ?_
    subst hg
    cases counted with
    | false => exact safe_ret trivial
    | true =>
        refine Pays.skip (uses_ask trivial) fun time => ?_
        exact (insertUserFile_pays conn _ 0).bind fun _ _ _ => safe_ret trivial

theorem handleDealMd5_pays (user md5 filename : Bytes) :
    Pays (fun _ _ => True) (handleDealMd5 user md5 filename) 0 := by
  refine .skip (uses_getDBConn trivial) fun conn => ?_
  refine .skip (uses_getCacheConn trivial) fun _ => ?_
  refine .skip (uses_checkwhetherHaveRecord trivial trivial) fun found => ?_
  split
  · exact safe_ret trivial
  · refine .scopedFileInfoLock (Safe.bind (Q := fun _ g => g = (0, 0, {.nothing})) ?_ ?_)
    · refine Safe.execute conn fun w f howed _ => ⟨_, ?_, rfl⟩
      -- Counted up for a row that is never added.
      exact howed.settle (howed.stored.incr_any md5)
    · rintro _ _ rfl
      exact safe_ret ⟨_, rfl, trivial⟩

/-! ## Deleting -/

/-- Under the lock, with a reference in flight, the file's row is read. -/
theorem selectFileInfo_pays (conn : CDBConn) (md5 : Bytes) :
    Pays (fun rows g => ∃ i : FileInfoRow, rows = some [i] ∧ i.md5 = cStr md5 ∧ 1 ≤ i.count ∧
        g = ({cStr md5}, 0, {.known i}))
      (conn.executeQuery (Select.fileInfo md5)) ({cStr md5}, 0, {.nothing}) := by
  refine Safe.executeQuery conn (q := Select.fileInfo md5) fun w f howed => ?_
  obtain ⟨i, hinfo⟩ := howed.stored.info_of_flight
  have hmd5 : i.md5 = cStr md5 := (Table.find?_eq_some.mp hinfo).2
  have hcounted := howed.stored.counted (cStr md5)
  rw [Db.count?_of_info hinfo, Option.getD_some, Prod.fst_add, Multiset.count_add,
    Multiset.count_singleton_self] at hcounted
  refine ⟨({cStr md5}, 0, {.known i}), ?_, i, ?_, hmd5, by omega, rfl⟩
  · refine howed.learn ?_
    rw [hmd5]
    exact hinfo
  · rw [Db.run_fileInfo, hinfo]
    rfl

/-- The reference in flight is settled. -/
theorem dropReference_pays (conn : CDBConn) (md5 : Bytes) :
    Pays (fun r g => g = (0, lastObject r, 0)) (dropReference conn md5) ({cStr md5}, 0, 0) := by
  refine .scopedFileInfoLock ((selectFileInfo_pays conn md5).bind ?_)
  rintro _ _ ⟨i, rfl, hmd5, hcount, rfl⟩
  dsimp only
  split
  · next hmore =>
      have hne : i.count ≠ 1 := by omega
      refine Safe.bind (Q := fun _ g => g = (0, 0, {.nothing})) ?_ ?_
      · refine Safe.executeUpdate conn true fun w f howed _ => ⟨_, ?_, rfl⟩
        have hupdate := howed.settle howed.stored.decr
        simpa [Owed] using hupdate
      · rintro updated _ rfl
        refine safe_ret ⟨_, rfl, ?_⟩
        split <;> simp [lastObject, hne]
  · have hone : i.count = 1 := by omega
    rw [if_pos hone]
    refine Safe.bind (Q := fun dropped g => dropped = true ∧ g = (0, {i.fileId}, {.nothing})) ?_ ?_
    · refine Safe.execute conn fun w f howed _ => ⟨(0, {i.fileId}, {.nothing}), ?_, rfl, rfl⟩
      have hknown : w.db.info md5 = some i := by
        rw [Db.info, ← hmd5]
        exact howed.holds
      have hforget := howed.stored.forget hknown hone
      have hupdate := howed.settle hforget
      simpa [Owed] using hupdate
    · rintro _ _ ⟨rfl, rfl⟩
      refine safe_ret ⟨_, rfl, ?_⟩
      simp [lastObject, hone]

theorem deleteOwned_pays (conn : CDBConn) (user md5 filename : Bytes) :
    Pays (fun _ _ => True) (deleteOwned conn user md5 filename) 0 := by
  refine Safe.bind (Q := fun dropped g => dropped = true ∧ g = ({cStr md5}, 0, 0)) ?_ ?_
  · refine Safe.execute conn fun w f howed hthere => ⟨_, ?_, rfl, rfl⟩
    have hdrop := howed.dropRow hthere
    simpa [Owed] using hdrop
  · rintro _ _ ⟨rfl, rfl⟩
    refine (dropReference_pays conn md5).bind fun r g hg => ?_
    subst hg
    rcases r with _ | ⟨count, file_id⟩
    · exact safe_ret trivial
    · dsimp only
      split
      · next hone =>
          rw [lastObject, if_pos hone, ← add_zero ({file_id} : Multiset Bytes)]
          exact Safe.bind (Pays.fdfsDelete (Q := fun _ _ => True) trivial) fun _ _ _ =>
            safe_ret trivial
      · exact safe_ret trivial

/-- The shares are no part of what is owed. -/
theorem deleteShared_pays (conn : CDBConn) (cache : CacheConn) (user md5 filename : Bytes) :
    Pays (fun _ g => g = 0) (deleteShared conn cache user md5 filename) 0 := by
  refine .skip (uses_zsetZrem trivial trivial trivial) fun _ => ?_
  refine .skip (uses_commandOr trivial trivial trivial) fun _ => ?_
  refine .execute conn fun w f howed _ => ⟨0, ⟨?_, howed.single, fun k hk => ?_⟩, rfl⟩
  · exact ⟨howed.stored.counted, howed.stored.objects, howed.stored.nodup⟩
  · have hknows := howed.knows k hk
    cases k <;> exact hknows

theorem handleDeleteFile_pays (user md5 filename : Bytes) :
    Pays (fun _ _ => True) (handleDeleteFile user md5 filename) 0 := by
  refine .skip (uses_getDBConn trivial) fun conn => ?_
  refine .skip (uses_getCacheConn trivial) fun cache => ?_
  refine .skip (uses_getResultOneStatus trivial trivial) fun r => ?_
  obtain ⟨found, status⟩ := r
  dsimp only
  split
  · split
    · refine (deleteShared_pays conn cache user md5 filename).bind fun dropped g hg => ?_
      subst hg
      split
      · exact deleteOwned_pays conn user md5 filename
      · exact safe_ret trivial
    · exact deleteOwned_pays conn user md5 filename
  · exact safe_ret trivial

/-! ## Uploading -/

/-- What a call of `storeFileinfo` leaves held: the object, if it was not needed. -/
def leftOver (fileid : Bytes) (r : Int × Bool) : Multiset Bytes :=
  if r.1 < 0 ∨ r.2 = true then {fileid} else 0

/-- A first row, of a file just created, is always added. -/
theorem insertUploaded_fresh_pays (conn : CDBConn) (user filename md5 fileid : Bytes) :
    Pays (fun r g => ∃ k, g.2.2 = {k} ∧
        ((g.1, g.2.1, 0) : Debts) = (0, leftOver fileid r, 0))
      (insertUploaded conn user filename md5 false) (0, 0, {.fresh (cStr md5)}) := by
  refine Pays.skip (uses_ask trivial) fun time => ?_
  refine Safe.bind (Q := fun inserted g => inserted = true ∧ g = (0, 0, {.nothing})) ?_ ?_
  · refine Safe.execute conn fun w f howed _ => ⟨_, ?_, ?_, rfl⟩
    · exact (howed.addFirst (r := newUserFile user md5 filename time)).2
    · have hown := (howed.addFirst (r := newUserFile user md5 filename time)).1
      have hsome := Db.isSome_insertUserFile w.db (newUserFile user md5 filename time)
      rw [hown] at hsome
      exact hsome
  · rintro _ _ ⟨rfl, rfl⟩
    exact safe_ret ⟨_, rfl, by simp [leftOver]⟩

/-- A row for a file that was known: whether it is added or not, the object is not needed. -/
theorem insertUploaded_known_pays (conn : CDBConn) (user filename md5 fileid : Bytes) :
    Pays (fun r g => ∃ k, g.2.2 = {k} ∧
        ((g.1, g.2.1, 0) : Debts) = (0, leftOver fileid r, 0))
      (insertUploaded conn user filename md5 true) ({cStr md5}, {fileid}, {.nothing}) := by
  refine Pays.skip (uses_ask trivial) fun time => ?_
  refine (insertUserFile_pays conn (newUserFile user md5 filename time) _).bind ?_
  rintro inserted _ rfl
  exact safe_ret ⟨_, rfl, by simp [leftOver]⟩

/-- What is known after the attempt to create the file's row. -/
def Insight.created (md5 fileid : Bytes) (created : Bool) (g : Debts) : Prop :=
  if created then g = (0, 0, {.fresh (cStr md5)})
  else ∃ i : FileInfoRow, i.md5 = cStr md5 ∧ g = (0, {fileid}, {.known i})

theorem insertFileInfo_pays (conn : CDBConn) (row : FileInfoRow) (hcount : row.count = 1)
    (hid : cStr row.fileId = row.fileId) :
    Pays (Insight.created row.md5 row.fileId) (conn.executeCreate (.insertFileInfo row))
      (0, {row.fileId}, {.nothing}) := by
  refine .execute conn fun w f howed _ => ?_
  rw [Db.isSome_insertFileInfo]
  cases hinfo : w.db.info row.md5 with
  | some i =>
      have hmd5 : i.md5 = cStr row.md5 := (Table.find?_eq_some.mp hinfo).2
      rw [World.sql_self (Db.sql_insertFileInfo_of_info (Option.isSome_of_mem hinfo))]
      refine ⟨_, ?_, i, hmd5, rfl⟩
      refine howed.learn ?_
      rw [hmd5]
      exact hinfo
  | none =>
      refine ⟨_, ?_, rfl⟩
      have hstored : Stored f.1 ({cStr row.fileId} + f.2.1) w.db w.fdfs := by
        have hall := howed.stored
        rw [Prod.fst_add, zero_add] at hall
        rw [hid]
        exact hall
      obtain ⟨hrefs, hflight⟩ := hstored.of_info_none hinfo
      have hcreate := (hstored.create hinfo hcount).mono (Multiset.le_add_left _ _) le_rfl
      have hfresh : (Insight.fresh (cStr row.md5)).Holds (w.db.sql (.insertFileInfo row)) f.1 := by
        refine ⟨by rw [Db.refs_insertFileInfo, hrefs], hflight, ?_⟩
        rw [Db.count?_insertFileInfo hinfo, if_pos rfl, Option.getD_some, hcount]
      have hupdate := howed.update hcreate hfresh
      simpa [Owed] using hupdate

theorem storeFileinfo_pays (conn : CDBConn) (user filename md5 : Bytes) (size : Int)
    {fileid : Bytes} (hid : cStr fileid = fileid) (url : Bytes) :
    Pays (fun r g => g = (0, leftOver fileid r, 0))
      (storeFileinfo conn user filename md5 size fileid url) (0, {fileid}, 0) := by
  refine .scopedFileInfoLock ?_
  refine (insertFileInfo_pays conn ⟨md5, fileid, url, size, getFileSuffix filename, 1⟩ rfl
    hid).bind fun created g hg => ?_
  cases created with
  | true =>
      subst hg
      rw [if_pos rfl]
      exact insertUploaded_fresh_pays conn user filename md5 fileid
  | false =>
      obtain ⟨i, hmd5, rfl⟩ := hg
      rw [if_neg Bool.false_ne_true]
      refine Safe.bind
        (Q := fun updated g => updated = true ∧ g = ({cStr md5}, {fileid}, {.nothing})) ?_ ?_
      · refine Safe.execute conn fun w f howed _ => ⟨_, ?_, rfl, rfl⟩
        have hknown : w.db.info md5 = some i := by
          rw [Db.info, ← hmd5]
          exact howed.holds
        have hincr := howed.settle (howed.stored.incr hknown)
        simpa [Owed] using hincr
      · rintro _ _ ⟨rfl, rfl⟩
        rw [if_pos rfl]
        exact insertUploaded_known_pays conn user filename md5 fileid

theorem storeUpload_pays (conn : CDBConn) (form : UploadForm) {fileid : Bytes}
    (hid : cStr fileid = fileid) (url : Bytes) :
    Pays (fun _ _ => True) (storeUpload conn form fileid url) (0, {fileid}, 0) := by
  refine (storeFileinfo_pays conn _ _ _ _ hid url).bind fun r g hg => ?_
  obtain ⟨ret, file_exsit⟩ := r
  subst hg
  dsimp only [leftOver]
  split
  · rw [← add_zero ({fileid} : Multiset Bytes)]
    exact Safe.bind (Pays.fdfsDelete (Q := fun _ _ => True) trivial) fun _ _ _ => safe_ret trivial
  · exact safe_ret trivial

theorem uploadForm_pays (ip : Bytes) (conn : CDBConn) (form : UploadForm) :
    Pays (fun _ _ => True) (uploadForm ip conn form) 0 := by
  refine Pays.skip (uses_ask trivial) fun renamed => ?_
  split
  · refine Safe.bind (Q := fun uploaded g => ∃ id, cStr id = id ∧ uploaded = some id ∧
      g = (0, {id}, 0)) ?_ ?_
    · exact Pays.fdfsUpload fun id hid => ⟨id, hid, rfl, rfl⟩
    · rintro _ _ ⟨id, hid, rfl, rfl⟩
      refine Pays.skip (uses_ask trivial) fun _ => ?_
      refine Pays.skip ?_ fun url => ?_
      · rw [getFullUrlByFileid]
        split
        · trivial
        · exact .bind (uses_ask trivial) fun _ => trivial
      · cases url with
        | none => exact safe_ret trivial
        | some url => exact storeUpload_pays conn form hid url
  · exact safe_ret trivial

theorem apiUpload_pays (ip post_data : Bytes) :
    Pays (fun _ _ => True) (apiUpload ip post_data) 0 := by
  refine Pays.skip (uses_getDBConn trivial) fun conn => ?_
  match parseForm post_data with
  | .error .reject => exact safe_ret trivial
  | .error .thrown => exact Safe.crash
  | .ok form => exact (uploadForm_pays ip conn form).bind fun _ _ _ => safe_ret trivial

theorem FileTask.handle_pays (ip : Bytes) (t : FileTask) :
    Pays (fun _ _ => True) (t.handle ip) 0 := by
  cases t with
  | upload post_data => exact (apiUpload_pays ip post_data).bind fun _ _ _ => safe_ret trivial
  | dealMd5 user md5 filename =>
      exact (handleDealMd5_pays user md5 filename).bind fun _ _ _ => safe_ret trivial
  | save user md5 filename =>
      exact (handleSaveFile_pays user md5 filename).bind fun _ _ _ => safe_ret trivial
  | delete user md5 filename =>
      exact (handleDeleteFile_pays user md5 filename).bind fun _ _ _ => safe_ret trivial

end

/-! ## Every run -/

theorem World.Settled.stored {w : World} (h : w.Settled) (hids : w.db.fileIds.Nodup) :
    Stored 0 0 w.db w.fdfs := by
  refine ⟨fun m => ?_, fun id hid => ?_, ?_⟩
  · rw [h.counted m, Multiset.count_zero]
    omega
  · rw [add_zero] at hid
    exact h.objects id hid
  · rw [add_zero]
    exact hids

namespace FileTask

theorem live_of_reaches (ip : Bytes) (tasks : List FileTask) {w : World}
    (hsettled : w.Settled) (hids : w.db.fileIds.Nodup)
    {p : Pool FileTask Call Resp Unit World}
    (hrun : Pool.Reaches step (Granted rowThere) (fun _ _ => False) (pool ip tasks w) p) :
    Live p.st.db p.st.fdfs := by
  have hstart : Accounted step Owed (Granted rowThere) (fun _ _ _ => True)
      (pool ip tasks w) := by
    refine Accounted.start (fun t ht => ?_) ⟨hsettled.stored hids, ?_, fun k hk => ?_⟩
    · obtain ⟨task, -, rfl⟩ := List.mem_map.mp ht
      exact task.handle_pays ip
    · rw [hsettled.unlocked]
      rfl
    · exact absurd hk (Multiset.notMem_zero k)
  obtain ⟨gs, -, howed⟩ := hstart.reaches (fun _ _ _ _ hE => hE.elim) hrun
  exact howed.stored.live

/-- The request brings known strings. -/
def Known (K : Bytes → Prop) : FileTask → Prop
  | .upload post_data => ∀ form, parseForm post_data = .ok form → form.Known K
  | .dealMd5 user md5 filename | .save user md5 filename | .delete user md5 filename =>
      K user ∧ K md5 ∧ K filename

theorem known_handle {K : Bytes → Prop} (hK : ∀ s, K s → Plain s) {ip : Bytes} (hip : Plain ip)
    {t : FileTask} (ht : t.Known K) : KnownCalls K (t.handle ip) := by
  cases t with
  | upload post_data => exact (known_apiUpload hK hip ht).bind fun _ => trivial
  | dealMd5 => exact (known_handleDealMd5 ht.1 ht.2.1 ht.2.2).bind fun _ => trivial
  | save => exact (known_handleSaveFile ht.1 ht.2.1 ht.2.2).bind fun _ => trivial
  | delete => exact (known_handleDeleteFile ht.1 ht.2.1 ht.2.2).bind fun _ => trivial

/-- While each `DELETE` of a user's row finds it, every row has its file. -/
theorem live_reached (server : SqlServer) {K : Bytes → Prop} (hK : server.Tells K)
    {ip : Bytes} (hip : Plain ip) {tasks : List FileTask} (htasks : ∀ t ∈ tasks, t.Known K)
    {w : World} (hw : w.db.Known K) (hsettled : w.Settled) (hids : w.db.fileIds.Nodup)
    {p : Pool FileTask Call Resp Unit World}
    (hrun : Pool.Reaches server.step (Regularly (Granted rowThere)) (fun _ _ => False)
      (pool ip tasks w) p) :
    Live p.st.db p.st.fdfs := by
  refine live_of_reaches ip tasks hsettled hids
    (hK.reaches (fun _ _ _ h => h.elim) hw (fun t ht => ?_) hrun)
  obtain ⟨task, htask, rfl⟩ := List.mem_map.mp ht
  exact known_handle hK.plain hip (htasks task htask)

end FileTask

/-! A file two users have. -/

def twoOwners : World :=
  { World.empty with
    db :=
      { Db.empty with
        userFileList := ⟨[⟨ascii "u", ascii "m", ascii "now", ascii "f", 0, 0⟩,
          ⟨ascii "v", ascii "m", ascii "now", ascii "g", 0, 0⟩], by decide⟩
        fileInfo := ⟨[⟨ascii "m", ascii "x", ascii "http", 1, ascii "txt", 2⟩], by decide⟩ }
    fdfs := Fdfs.empty.store (ascii "x") }

theorem settled_twoOwners : twoOwners.Settled := by
  refine ⟨fun m => ?_, by decide, rfl⟩
  by_cases h : ascii "m" = m
  · subst h
    decide
  · simp [twoOwners, Db.count?, Db.refs, Table.find?, h]

theorem known_twoOwners : twoOwners.db.Known Plain := by
  refine ⟨?_, ?_, nofun, nofun, nofun⟩ <;> decide

namespace FileTask

def deleteTwice : Pool FileTask Call Resp Unit World :=
  pool [] [.delete (ascii "u") (ascii "m") (ascii "f"),
    .delete (ascii "u") (ascii "m") (ascii "f")] twoOwners

def deleteAndSave : Pool FileTask Call Resp Unit World :=
  pool [] [.delete (ascii "u") (ascii "m") (ascii "f"),
    .save (ascii "w") (ascii "m") (ascii "f")] twoOwners

set_option maxRecDepth 10000 in
/-- A save that counts up between a delete's two steps. -/
theorem live_delete_and_save :
    ((Pool.play SqlServer.strict.step (Regularly (Granted rowThere))
      (schedule [0, 0, 1, 1, 0, 0, 1, 1, 1, 0, 0, 0, 0, 1, 1])
      deleteAndSave).any fun p => decide (Live p.st.db p.st.fdfs)) = true := by
  have hplayed : (Pool.play SqlServer.strict.step (Regularly (Granted rowThere))
      (schedule [0, 0, 1, 1, 0, 0, 1, 1, 1, 0, 0, 0, 0, 1, 1]) deleteAndSave).isSome := by
    decide +kernel
  obtain ⟨p, hp⟩ := Option.isSome_iff_exists.mp hplayed
  rw [hp, Option.any_some, decide_eq_true_eq]
  refine live_reached _ SqlServer.strict_tells (by decide) (fun t ht => ?_) known_twoOwners
    settled_twoOwners (by decide) (Pool.play_reaches hp)
  simp only [List.mem_cons, List.not_mem_nil, or_false] at ht
  rcases ht with rfl | rfl <;> exact ⟨by decide, by decide, by decide⟩

set_option maxRecDepth 10000 in
/-- Both deletes find the row before either removes it. -/
theorem delete_twice_loses :
    twoOwners.Settled ∧ ¬∀ p, Pool.Reaches SqlServer.strict.step (fun _ a _ => a.ok)
      (fun _ _ => False) deleteTwice p → Live p.st.db p.st.fdfs := by
  refine ⟨settled_twoOwners, fun hall => ?_⟩
  have hplayed : ((Pool.play SqlServer.strict.step (fun _ a _ => a.ok)
      (schedule [0, 0, 0, 1, 1, 1, 0, 0, 0, 0, 0, 1, 1, 1, 1, 1, 1]) deleteTwice).any
        fun p => !decide (Live p.st.db p.st.fdfs)) = true := by
    decide +kernel
  obtain ⟨p, hp, hlost⟩ := Option.any_eq_true _ _ |>.mp hplayed
  have hlive := hall p (Pool.play_reaches hp)
  simp [hlive] at hlost

end FileTask

end FileHub
