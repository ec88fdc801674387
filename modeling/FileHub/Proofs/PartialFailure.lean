import FileHub.Api.Storage
import FileHub.Lib.History
import FileHub.Proofs.Calls
import FileHub.Proofs.Effects
import FileHub.Proofs.KnownCalls
import FileHub.Proofs.Stored

/-!
# Files under partial failure

Any statement, any FastDFS command and any attempt at the lock may fail, and a
handler then stops where it is. `Stored 0 0` is what survives. Deleting and
saving keep it wherever they stop, because they count up before they add a row
and count down after they removed one.

An upload does not. It takes the object back whenever it could not add the
user's row, also when `file_info` has just been given a row that names the
object; and it takes any failure to insert into `file_info` to mean that the
file is known, also when it is not. `Damages` says when either happens.
-/

namespace FileHub

open Lib
open Lib.Sql (Plain)
open Prog (ask)

/-! ## Handlers that keep it, whatever fails -/

/-- From these tables and objects, under any choices, the program ends in `Q`
or stops with the files stored. -/
def Keeps {α : Type} (Q : α → Db → Fdfs → Prop) (p : Handler α) (db : Db) (fdfs : Fdfs) :
    Prop :=
  ∀ w : World, w.db = db → w.fdfs = fdfs →
    p.Wp step (fun _ => True) (fun w' => Stored 0 0 w'.db w'.fdfs)
      (fun a w' => Q a w'.db w'.fdfs) w

section

variable {α β : Type} {flight held : Multiset Bytes} {db : Db} {fdfs : Fdfs}

theorem Keeps.ret {Q : α → Db → Fdfs → Prop} {a : α} (h : Q a db fdfs) :
    Keeps Q (.ret a) db fdfs := by
  rintro w rfl rfl
  exact h

theorem Keeps.bind {Q : β → Db → Fdfs → Prop} {p : Handler α} {f : α → Handler β}
    (h : Keeps (fun a => Keeps Q (f a)) p db fdfs) : Keeps Q (p >>= f) db fdfs := by
  intro w hdb hfdfs
  rw [Prog.wp_bind]
  exact (h w hdb hfdfs).mono fun a w' hw' => hw' w' rfl rfl

/-- What the first part ends in is where the second starts. -/
theorem Keeps.seq {R : α → Db → Fdfs → Prop} {Q : β → Db → Fdfs → Prop} {p : Handler α}
    {f : α → Handler β} (hp : Keeps R p db fdfs)
    (hf : ∀ a db' fdfs', R a db' fdfs' → Keeps Q (f a) db' fdfs') :
    Keeps Q (p >>= f) db fdfs :=
  .bind fun w hdb hfdfs => (hp w hdb hfdfs).mono fun a _ hR => hf a _ _ hR

theorem Keeps.aside {Q : α → Db → Fdfs → Prop} {p : Handler α} (hp : p.Uses Call.Aside)
    (h : Stored flight held db fdfs) (hQ : ∀ a, Q a db fdfs) : Keeps Q p db fdfs := by
  induction p generalizing db fdfs with
  | ret a => exact .ret (hQ a)
  | call c k ih =>
      rintro w rfl rfl a -
      cases hs : step c a w with
      | none => exact h.debtless
      | some rs =>
          obtain ⟨hdb, hfdfs⟩ := step_aside hp.1 hs
          exact ih rs.1 (hp.2 rs.1) h hQ rs.2 hdb hfdfs

theorem Keeps.crash {Q : α → Db → Fdfs → Prop} (h : Stored flight held db fdfs) :
    Keeps Q FileHub.crash db fdfs := by
  rintro w rfl rfl a -
  exact h.debtless

theorem Keeps.execute {Q : Bool → Db → Fdfs → Prop} (conn : CDBConn) (d : Dml)
    (h : Stored flight held db fdfs) (hfail : Q false db fdfs)
    (hok : Q (d.format.exec db).isSome (db.sql d) fdfs) :
    Keeps Q (conn.execute d) db fdfs := by
  rintro w rfl rfl
  rw [CDBConn.execute]
  split
  · rw [Prog.wp_bind]
    intro a _
    by_cases ha : a.ok
    · rw [step_dml ha]
      simpa using hok
    · simpa [step, ha] using hfail
  · exact fun _ _ => h.debtless

theorem Keeps.executeUpdate {Q : Bool → Db → Fdfs → Prop} (conn : CDBConn) (d : Dml)
    (care : Bool) (h : Stored flight held db fdfs) (hfail : Q false db fdfs)
    (hok : Q ((d.format.exec db).any fun r => decide (0 < r.1) || !care) (db.sql d) fdfs) :
    Keeps Q (conn.executeUpdate d care) db fdfs := by
  rintro w rfl rfl
  rw [CDBConn.executeUpdate]
  split
  · rw [Prog.wp_bind]
    intro a _
    by_cases ha : a.ok
    · rw [step_dml ha]
      cases hd : d.format.exec w.db <;> simpa [hd] using hok
    · simpa [step, ha] using hfail
  · exact fun _ _ => h.debtless

theorem Keeps.executeQuery (conn : CDBConn) (q : Select)
    {Q : Option (List q.Row) → Db → Fdfs → Prop} (h : Stored flight held db fdfs)
    (hfail : Q none db fdfs) (hok : Q (q.run db) db fdfs) :
    Keeps Q (conn.executeQuery q) db fdfs := by
  rintro w rfl rfl
  rw [CDBConn.executeQuery]
  split
  · intro a _
    by_cases ha : a.ok
    · simpa [step, ha] using hok
    · simpa [step, ha] using hfail
  · exact fun _ _ => h.debtless

theorem Keeps.fdfsDelete {Q : Bool → Db → Fdfs → Prop} {id : Bytes} (hfail : Q false db fdfs)
    (hok : Q true db (fdfs.remove id)) : Keeps Q (ask (Call.fdfsDelete id)) db fdfs := by
  rintro w rfl rfl a -
  by_cases ha : a.ok
  · simpa [step, ha] using hok
  · simpa [step, ha] using hfail

theorem Keeps.scopedFileInfoLock {Q : α → Db → Fdfs → Prop} {ms : ℕ}
    {body : Bool → Handler α} (h : Stored flight held db fdfs)
    (hQ : ∀ a db' fdfs', Q a db' fdfs' → Stored 0 0 db' fdfs')
    (hbody : ∀ is_locked, Keeps Q (body is_locked) db fdfs) :
    Keeps Q (FileHub.scopedFileInfoLock ms body) db fdfs := by
  refine .bind (.aside (uses_ask trivial) h fun is_locked => ?_)
  refine .seq (hbody is_locked) fun r db' fdfs' hr => ?_
  cases is_locked with
  | false => exact .ret hr
  | true => exact .bind (.aside (uses_ask trivial) (hQ r db' fdfs' hr) fun _ => .ret hr)

/-! ### Saving and the instant upload -/

/-- Counted means that a reference is in flight. -/
theorem countSaved_keeps (conn : CDBConn) (md5 : Bytes) (h : Stored 0 0 db fdfs) :
    Keeps (fun counted => Stored (if counted then {cStr md5} else 0) 0)
      (countSaved conn md5) db fdfs := by
  refine .scopedFileInfoLock h (fun _ _ _ hk => hk.debtless) fun is_locked => ?_
  cases is_locked with
  | false => exact .ret h
  | true =>
      refine .executeUpdate conn _ _ h h ?_
      rw [Db.affects_incrCount]
      cases hinfo : db.info md5 with
      | none =>
          rw [Db.sql_incrCount_of_info hinfo]
          exact h
      | some i =>
          have hincr := h.incr hinfo
          rw [add_zero] at hincr
          exact hincr

theorem handleSaveFile_keeps (h : Stored 0 0 db fdfs) (user md5 filename : Bytes) :
    Keeps (fun _ => Stored 0 0) (handleSaveFile user md5 filename) db fdfs := by
  refine .bind (.aside (uses_getDBConn trivial) h fun conn => ?_)
  refine .bind (.aside (uses_checkwhetherHaveRecord trivial trivial) h fun found => ?_)
  split
  · exact .ret h
  · refine .seq (countSaved_keeps conn md5 h) fun counted db' fdfs' hcounted => ?_
    cases counted with
    | false => exact .ret hcounted
    | true =>
        refine .bind (.aside (uses_ask trivial) hcounted fun time => ?_)
        refine .bind (.execute conn _ hcounted (.ret hcounted.debtless) (.ret ?_))
        exact @Stored.add 0 0 _ _ (newUserFile user md5 filename time) (by simpa using hcounted)

theorem handleDealMd5_keeps (h : Stored 0 0 db fdfs) (user md5 filename : Bytes) :
    Keeps (fun _ => Stored 0 0) (handleDealMd5 user md5 filename) db fdfs := by
  refine .bind (.aside (uses_getDBConn trivial) h fun conn => ?_)
  refine .bind (.aside (uses_getCacheConn trivial) h fun _ => ?_)
  refine .bind (.aside (uses_checkwhetherHaveRecord trivial trivial) h fun found => ?_)
  split
  · exact .ret h
  · refine .scopedFileInfoLock h (fun _ _ _ hk => hk) fun is_locked => ?_
    cases is_locked with
    | false => exact .ret h
    | true => exact .bind (.execute conn _ h (.ret h) (.ret (h.incr_any md5)))

theorem decoded_keeps {d : Except DecodeError α} {r : β} {next : α → Handler β}
    (h : Stored 0 0 db fdfs)
    (hnext : ∀ a, d = .ok a → Keeps (fun _ => Stored 0 0) (next a) db fdfs) :
    Keeps (fun _ => Stored 0 0) (decoded d (return r) next) db fdfs := by
  match d with
  | .error .reject => exact .ret h
  | .error .thrown => exact .crash h
  | .ok a => exact hnext a rfl

theorem apiMd5_keeps (h : Stored 0 0 db fdfs) (parse : Bytes → Option JsonValue)
    (post_data : Bytes) : Keeps (fun _ => Stored 0 0) (apiMd5 parse post_data) db fdfs := by
  refine decoded_keeps h fun req _ => ?_
  refine .bind (.aside (uses_verifyToken trivial trivial trivial trivial) h fun verified => ?_)
  split
  · exact .seq (handleDealMd5_keeps h _ _ _) fun _ _ _ hkept => .ret hkept
  · exact .ret h

/-! ### Deleting -/

/-- The reference in flight is settled, or given up with a failure. -/
theorem dropReference_keeps (conn : CDBConn) (md5 : Bytes)
    (h : Stored {cStr md5} 0 db fdfs) :
    Keeps (fun r => Stored 0 (lastObject r)) (dropReference conn md5) db fdfs := by
  have h' : Stored ({cStr md5} + 0) 0 db fdfs := by rwa [add_zero]
  refine .scopedFileInfoLock h (fun _ _ _ hk => hk.debtless) fun is_locked => ?_
  cases is_locked with
  | false => exact .ret h.debtless
  | true =>
      refine .bind (.executeQuery conn _ h (.ret h.debtless) ?_)
      obtain ⟨i, hinfo⟩ := h'.info_of_flight
      rw [Db.run_fileInfo, hinfo]
      dsimp only [Option.toList_some]
      split
      · next hmore =>
          have hne : i.count ≠ 1 := by omega
          refine .bind (.executeUpdate conn _ _ h (.ret h.debtless) (.ret ?_))
          split <;> simpa [lastObject, hne] using h'.decr
      · split
        · next hone =>
            have hforget := h'.forget hinfo hone
            rw [add_zero] at hforget
            refine .bind (.execute conn _ h (.ret h.debtless) (.ret ?_))
            simpa [Dml.format, Dml.exec, lastObject, hone] using hforget
        · next hne => exact .ret (by simpa [lastObject, hne] using h.debtless)

theorem deleteOwned_keeps (conn : CDBConn) {user md5 filename : Bytes}
    (h : Stored 0 0 db fdfs) (hown : (db.own user md5 filename).isSome) :
    Keeps (fun _ => Stored 0 0) (deleteOwned conn user md5 filename) db fdfs := by
  have hdrop := h.drop hown
  rw [add_zero] at hdrop
  refine .bind (.execute conn _ h (.ret h) ?_)
  refine .seq (dropReference_keeps conn md5 hdrop) fun r db' fdfs' hr => ?_
  match r with
  | none => exact .ret hr
  | some (count, file_id) =>
      dsimp only
      split
      · next hone =>
          rw [lastObject, if_pos hone, ← add_zero ({file_id} : Multiset Bytes)] at hr
          exact .bind (.fdfsDelete (.ret hr.debtless) (.ret hr.remove))
      · exact .ret hr.debtless

/-- The status is read from a row that is there. -/
theorem getResultOneStatus_keeps (conn : CDBConn) (user md5 filename : Bytes)
    (h : Stored 0 0 db fdfs) :
    Keeps (fun r db' fdfs' => db' = db ∧ fdfs' = fdfs ∧
      (r.1 = 0 → (db.own user md5 filename).isSome))
      (getResultOneStatus conn user md5 filename) db fdfs := by
  refine .bind (.executeQuery conn _ h (.crash h) ?_)
  rw [Db.run_userFile]
  cases db.own user md5 filename with
  | none => exact .ret ⟨rfl, rfl, by simp⟩
  | some r => exact .ret ⟨rfl, rfl, fun _ => rfl⟩

theorem deleteShared_keeps (conn : CDBConn) (cache : CacheConn) {user md5 filename : Bytes}
    (h : Stored 0 0 db fdfs) (hown : (db.own user md5 filename).isSome) :
    Keeps (fun _ db' fdfs' => Stored 0 0 db' fdfs' ∧ (db'.own user md5 filename).isSome)
      (deleteShared conn cache user md5 filename) db fdfs := by
  refine .bind (.aside (uses_zsetZrem trivial trivial trivial) h fun _ => ?_)
  refine .bind (.aside (uses_commandOr trivial trivial trivial) h fun _ => ?_)
  -- The shares are no part of what is kept.
  exact .execute conn _ h ⟨h, hown⟩ ⟨⟨h.counted, h.objects, h.nodup⟩, hown⟩

theorem handleDeleteFile_keeps (h : Stored 0 0 db fdfs) (user md5 filename : Bytes) :
    Keeps (fun _ => Stored 0 0) (handleDeleteFile user md5 filename) db fdfs := by
  refine .bind (.aside (uses_getDBConn trivial) h fun conn => ?_)
  refine .bind (.aside (uses_getCacheConn trivial) h fun cache => ?_)
  refine .seq (getResultOneStatus_keeps conn user md5 filename h) fun r db' fdfs' hr => ?_
  obtain ⟨rfl, rfl, hown⟩ := hr
  obtain ⟨found, status⟩ := r
  dsimp only at hown ⊢
  split
  · next hfound =>
      split
      · refine .seq (deleteShared_keeps conn cache h (hown hfound)) fun dropped db' fdfs' hd => ?_
        obtain ⟨hkept, hown'⟩ := hd
        split
        · exact deleteOwned_keeps conn hkept hown'
        · exact .ret hkept
      · exact deleteOwned_keeps conn h (hown hfound)
  · exact .ret h

/-! ### Uploading, along a script -/

/-- `Keeps` along one script: `Q` sees the choices that are left. -/
def Follows {α : Type} (Q : α → Db → Fdfs → (ℕ → Ans) → Prop) (ω : ℕ → Ans)
    (p : Handler α) (db : Db) (fdfs : Fdfs) : Prop :=
  ∀ w : World, w.db = db → w.fdfs = fdfs →
    match runIn ω p w with
    | ⟨none, w', _⟩ => Stored 0 0 w'.db w'.fdfs
    | ⟨some a, w', ω'⟩ => Q a w'.db w'.fdfs ω'

section Follows

variable {ω : ℕ → Ans} {Q : α → Db → Fdfs → (ℕ → Ans) → Prop}

theorem Follows.ret {a : α} (h : Q a db fdfs ω) : Follows Q ω (.ret a) db fdfs := by
  rintro w rfl rfl
  exact h

theorem Follows.bind {Q : β → Db → Fdfs → (ℕ → Ans) → Prop} {p : Handler α}
    {f : α → Handler β}
    (h : Follows (fun a db' fdfs' ω' => Follows Q ω' (f a) db' fdfs') ω p db fdfs) :
    Follows Q ω (p >>= f) db fdfs := by
  intro w hdb hfdfs
  have hp := h w hdb hfdfs
  simp only [runIn, Prog.exec_bind]
  simp only [runIn] at hp
  match hrun : Prog.exec step ω p w with
  | ⟨none, w', ω'⟩ =>
      rw [hrun] at hp
      exact hp
  | ⟨some a, w', ω'⟩ =>
      rw [hrun] at hp
      exact hp w' rfl rfl

theorem Follows.seq {R : α → Db → Fdfs → Prop} {Q : β → Db → Fdfs → (ℕ → Ans) → Prop}
    {p : Handler α} {f : α → Handler β}
    (hp : Follows (fun a db' fdfs' _ => R a db' fdfs') ω p db fdfs)
    (hf : ∀ a db' fdfs' ω', R a db' fdfs' → Follows Q ω' (f a) db' fdfs') :
    Follows Q ω (p >>= f) db fdfs := by
  refine .bind fun w hdb hfdfs => ?_
  have hrun := hp w hdb hfdfs
  match hexec : runIn ω p w with
  | ⟨none, w', _⟩ =>
      rw [hexec] at hrun
      exact hrun
  | ⟨some a, w', ω'⟩ =>
      rw [hexec] at hrun
      exact hf a _ _ ω' hrun

theorem Keeps.follows {R : α → Db → Fdfs → Prop} {p : Handler α} (h : Keeps R p db fdfs)
    (hQ : ∀ a db' fdfs' ω', R a db' fdfs' → Q a db' fdfs' ω') (ω : ℕ → Ans) :
    Follows Q ω p db fdfs := by
  intro w hdb hfdfs
  have hrun := (h w hdb hfdfs).exec ω fun _ => trivial
  simp only [runIn]
  match hexec : Prog.exec step ω p w with
  | ⟨none, w', _⟩ =>
      rw [hexec] at hrun
      exact hrun
  | ⟨some a, w', ω'⟩ =>
      rw [hexec] at hrun
      exact hQ a _ _ ω' hrun

theorem Follows.ask {c : Call} {Q : Resp c → Db → Fdfs → (ℕ → Ans) → Prop} (hc : c.Aside)
    (h : Stored flight held db fdfs)
    (hQ : ∀ r w w', step c (ω 0) w = some (r, w') → Q r db fdfs fun n => ω (n + 1)) :
    Follows Q ω (Prog.ask c) db fdfs := by
  rintro w rfl rfl
  simp only [runIn, Prog.ask, Prog.exec_call]
  cases hs : step c (ω 0) w with
  | none => exact h.debtless
  | some rs =>
      obtain ⟨hdb, hfdfs⟩ := step_aside hc hs
      have := hQ rs.1 w rs.2 hs
      simp only [Prog.exec_ret]
      rwa [hdb, hfdfs]

theorem Follows.execute {Q : Bool → Db → Fdfs → (ℕ → Ans) → Prop} (d : Dml)
    (hfail : ¬(ω 0).ok → Q false db fdfs fun n => ω (n + 1))
    (hok : (ω 0).ok → Q (d.format.exec db).isSome (db.sql d) fdfs fun n => ω (n + 1)) :
    Follows Q ω (CDBConn.execute ⟨true⟩ d) db fdfs := by
  rintro w rfl rfl
  simp only [runIn, CDBConn.execute, if_true, Prog.ask_bind, Prog.exec_call]
  by_cases ha : (ω 0).ok
  · rw [step_dml ha]
    simpa using hok ha
  · simpa [step, ha] using hfail ha

theorem Follows.fdfsDelete {Q : Bool → Db → Fdfs → (ℕ → Ans) → Prop} {id : Bytes}
    (hfail : ¬(ω 0).ok → Q false db fdfs fun n => ω (n + 1))
    (hok : (ω 0).ok → Q true db (fdfs.remove id) fun n => ω (n + 1)) :
    Follows Q ω (Prog.ask (Call.fdfsDelete id)) db fdfs := by
  rintro w rfl rfl
  by_cases ha : (ω 0).ok
  · simpa [runIn, Prog.ask, Prog.exec_call, step, ha] using hok ha
  · simpa [runIn, Prog.ask, Prog.exec_call, step, ha] using hfail ha

/-- The end of `storeUpload`: the object taken back unless it is needed. -/
def takeBack (fileid : Bytes) (r : Int × Bool) : Handler Int :=
  if r.1 < 0 ∨ r.2 = true then do
    let _ ← removeFileFromFastDfs fileid
    return r.1
  else return r.1

/-- A file that `file_info` has a row for, under the lock. -/
def recordKnown (conn : CDBConn) (form : UploadForm) : Handler (Int × Bool) := do
  let updated ← conn.executePassQuery (.incrCount form.file_md5)
  if updated then insertUploaded conn form.user form.file_name form.file_md5 true
  else return (-1, false)

/-- `storeUpload` with the lock's block opened up. -/
theorem storeUpload_eq (conn : CDBConn) (form : UploadForm) (fileid url : Bytes) :
    storeUpload conn form fileid url = (do
      let is_locked : Bool ← ask (Call.tryLockFor 1000)
      if is_locked then do
        let created ← conn.executeCreate (.insertFileInfo (uploadRow form fileid url))
        let r ← (if created then
            insertUploaded conn form.user form.file_name form.file_md5 false
          else recordKnown conn form)
        let _ : Unit ← ask Call.unlock
        takeBack fileid r
      else takeBack fileid (-1, false)) := by
  rw [storeUpload, storeFileinfo, scopedFileInfoLock]
  simp only [bind_assoc]
  congr 1
  funext is_locked
  cases is_locked with
  | false => rfl
  | true =>
      simp only [if_true, bind_assoc]
      rfl

theorem takeBack_keeps {fileid : Bytes} (h : Stored 0 {fileid} db fdfs) (r : Int × Bool) :
    Keeps (fun _ => Stored 0 0) (takeBack fileid r) db fdfs := by
  have h' : Stored 0 ({fileid} + 0) db fdfs := by rwa [add_zero]
  rw [takeBack]
  split
  · exact .bind (.fdfsDelete (.ret h.debtless) (.ret h'.remove))
  · exact .ret h.debtless

theorem insertUploaded_keeps (conn : CDBConn) (user filename md5 : Bytes) (file_exsit : Bool)
    (h : Stored {cStr md5} held db fdfs) :
    Keeps (fun _ => Stored 0 held) (insertUploaded conn user filename md5 file_exsit)
      db fdfs := by
  refine .bind (.aside (uses_ask trivial) h fun time => ?_)
  refine .bind (.execute conn _ h (.ret (h.mono (Multiset.zero_le _) le_rfl)) (.ret ?_))
  exact @Stored.add 0 held _ _ (newUserFile user md5 filename time) (by rwa [add_zero])

theorem recordKnown_keeps (conn : CDBConn) {form : UploadForm} {i : FileInfoRow}
    (h : Stored 0 held db fdfs) (hinfo : db.info form.file_md5 = some i) :
    Keeps (fun _ => Stored 0 held) (recordKnown conn form) db fdfs := by
  have hincr := h.incr hinfo
  rw [add_zero] at hincr
  exact .bind (.execute conn _ h (.ret h) (insertUploaded_keeps conn _ _ _ true hincr))

/-- Along `ω`, from the lock on, a file that is not known is recorded badly: its
row of `file_info` stays and its object goes, or the user's row stays alone. -/
def RecordsBadly (ω : ℕ → Ans) (db : Db) (md5 : Bytes) : Prop :=
  (ω 0).ok ∧ db.info md5 = none ∧
    ((ω 1).ok ∧ ¬(ω 3).ok ∧ (ω 5).ok ∨ ¬(ω 1).ok ∧ (ω 2).ok ∧ (ω 4).ok)

/-- The row of `file_info` inserted, the user's row follows or the object stays. -/
theorem recordNew_follows {form : UploadForm} {fileid url : Bytes}
    (h : Stored 0 {fileid} db fdfs) (hinfo : db.info form.file_md5 = none)
    (hnul : cStr fileid = fileid) (hω : (ω 1).ok ∨ ¬(ω 3).ok) :
    Follows (fun _ db' fdfs' _ => Stored 0 0 db' fdfs') ω
      (do
        let r ← insertUploaded ⟨true⟩ form.user form.file_name form.file_md5 false
        let _ : Unit ← ask Call.unlock
        takeBack fileid r)
      (db.sql (.insertFileInfo (uploadRow form fileid url))) fdfs := by
  have hnew : Stored ({cStr form.file_md5} + 0) 0
      (db.sql (.insertFileInfo (uploadRow form fileid url))) fdfs := by
    refine @Stored.create 0 0 _ _ (uploadRow form fileid url) ?_ hinfo rfl
    rwa [add_zero, uploadRow, hnul]
  have hown : (db.sql (.insertFileInfo (uploadRow form fileid url))).own form.user
      form.file_md5 form.file_name = none := by
    rw [Db.own_insertFileInfo, ← Option.not_isSome_iff_eq_none]
    intro hsome
    have hpos := Db.refs_pos_of_own hsome
    have hzero := (h.of_info_none hinfo).1
    omega
  refine .bind (.bind (.ask (show Call.Aside .localtime from trivial) hnew fun time _ _ _ => ?_))
  refine .bind (.execute _ (fun h1 => .ret ?_) fun h1 => .ret ?_)
  · -- No row for the user: the object must not go.
    have h3 : ¬(ω 3).ok := hω.resolve_left h1
    refine .bind (.ask (show Call.Aside .unlock from trivial) hnew fun _ _ _ _ => ?_)
    exact .bind (.fdfsDelete (fun _ => .ret hnew.debtless) fun h3' => absurd h3' h3)
  · have hadded := @Stored.add 0 0 _ _
      (newUserFile form.user form.file_md5 form.file_name time) hnew
    refine .bind (.ask (show Call.Aside .unlock from trivial) hadded fun _ _ _ _ => ?_)
    have hinserted := Db.isSome_insertUserFile
      (db.sql (.insertFileInfo (uploadRow form fileid url)))
      (newUserFile form.user form.file_md5 form.file_name time)
    rw [hown] at hinserted
    dsimp only [newUserFile] at hinserted
    rw [hinserted]
    exact .ret hadded

theorem unlockTakeBack_keeps {fileid : Bytes} (h : Stored 0 {fileid} db fdfs)
    (r : Int × Bool) :
    Keeps (fun _ => Stored 0 0) (do let _ : Unit ← ask Call.unlock; takeBack fileid r)
      db fdfs :=
  .bind (.aside (uses_ask trivial) h fun _ => takeBack_keeps h r)

/-- The row of `file_info` not inserted for a file nobody knows: nothing is
recorded unless both the update that matches nothing and the insert succeed. -/
theorem recordKnown_follows {form : UploadForm} {fileid : Bytes}
    (h : Stored 0 {fileid} db fdfs) (hinfo : db.info form.file_md5 = none)
    (hω : ¬((ω 0).ok ∧ (ω 2).ok)) :
    Follows (fun _ db' fdfs' _ => Stored 0 0 db' fdfs') ω
      (do
        let r ← recordKnown ⟨true⟩ form
        let _ : Unit ← ask Call.unlock
        takeBack fileid r) db fdfs := by
  have hend (r : Int × Bool) (ω' : ℕ → Ans) :
      Follows (fun _ db' fdfs' _ => Stored 0 0 db' fdfs') ω'
        (do let _ : Unit ← ask Call.unlock; takeBack fileid r) db fdfs :=
    (unlockTakeBack_keeps h r).follows (fun _ _ _ _ hkept => hkept) ω'
  refine .bind (.bind (.execute _ (fun _ => .ret (hend _ _)) fun h0 => ?_))
  rw [Db.sql_incrCount_of_info hinfo]
  refine .bind (.ask (show Call.Aside .localtime from trivial) h fun time _ _ _ => ?_)
  exact .bind (.execute _ (fun _ => .ret (hend _ _)) fun h2 => absurd ⟨h0, h2⟩ hω)

theorem storeUpload_follows {form : UploadForm} {fileid url : Bytes}
    (h : Stored 0 {fileid} db fdfs) (hnul : cStr fileid = fileid)
    (hω : ¬RecordsBadly ω db form.file_md5) :
    Follows (fun _ db' fdfs' _ => Stored 0 0 db' fdfs') ω
      (storeUpload ⟨true⟩ form fileid url) db fdfs := by
  rw [storeUpload_eq]
  refine .bind (.ask (show Call.Aside (.tryLockFor 1000) from trivial) h
    fun is_locked w w' hlock => ?_)
  cases is_locked with
  | false =>
      rw [if_neg (by simp)]
      exact (takeBack_keeps h _).follows (fun _ _ _ _ hkept => hkept) _
  | true =>
      have h0 : (ω 0).ok := by
        by_contra h0
        simp [step, h0] at hlock
      rw [if_pos rfl]
      have hcreated := Db.isSome_insertFileInfo db (uploadRow form fileid url)
      rw [show (uploadRow form fileid url).md5 = form.file_md5 from rfl] at hcreated
      cases hinfo : db.info form.file_md5 with
      | none =>
          rw [hinfo] at hcreated
          refine .bind (.execute _ (fun h1 => ?_) fun h1 => ?_)
          · refine recordKnown_follows h hinfo fun h24 => hω ?_
            exact ⟨h0, hinfo, .inr ⟨h1, h24⟩⟩
          · rw [hcreated]
            refine recordNew_follows h hinfo hnul ?_
            by_contra hbad
            rw [not_or, not_not] at hbad
            exact hω ⟨h0, hinfo, .inl ⟨h1, hbad⟩⟩
      | some i =>
          have hsame : db.sql (.insertFileInfo (uploadRow form fileid url)) = db :=
            Db.sql_insertFileInfo_of_info (Option.isSome_of_mem hinfo)
          have hrest (ω' : ℕ → Ans) : Follows (fun _ db' fdfs' _ => Stored 0 0 db' fdfs') ω'
              (do
                let r ← recordKnown ⟨true⟩ form
                let _ : Unit ← ask Call.unlock
                takeBack fileid r) db fdfs := by
            refine Keeps.follows ?_ (fun _ _ _ _ hkept => hkept) ω'
            exact .seq (recordKnown_keeps ⟨true⟩ h hinfo) fun r db' fdfs' hr =>
              unlockTakeBack_keeps hr r
          refine .bind (.execute _ (fun _ => hrest _) fun _ => ?_)
          rw [hcreated, hinfo, hsame]
          exact hrest _

theorem Follows.fdfsUpload {Q : Option Bytes → Db → Fdfs → (ℕ → Ans) → Prop} {path : Bytes}
    (hfail : ¬(ω 0).ok → Q none db fdfs fun n => ω (n + 1))
    (hok : (ω 0).ok → ∀ id, id ∉ fdfs.used → cStr id = id →
      Q (some id) db (fdfs.store id) fun n => ω (n + 1)) :
    Follows Q ω (Prog.ask (Call.fdfsUpload path)) db fdfs := by
  rintro w rfl rfl
  by_cases ha : (ω 0).ok
  · simpa [runIn, Prog.ask, Prog.exec_call, step, ha] using
      hok ha _ (w.fdfs.freshId_not_used _) (w.fdfs.cStr_freshId _)
  · simpa [runIn, Prog.ask, Prog.exec_call, step, ha] using hfail ha

/-- Without a connection the first statement is the end of the process. -/
theorem storeUpload_dead_keeps {form : UploadForm} {fileid url : Bytes}
    (h : Stored 0 {fileid} db fdfs) :
    Keeps (fun _ => Stored 0 0) (storeUpload ⟨false⟩ form fileid url) db fdfs := by
  rw [storeUpload_eq]
  refine .bind (.aside (uses_ask trivial) h fun is_locked => ?_)
  cases is_locked with
  | false =>
      rw [if_neg (by simp)]
      exact takeBack_keeps h _
  | true => exact .bind (.crash h)

/-- From the upload of the object on. -/
theorem uploadForm_follows {ip : Bytes} {conn : CDBConn} {form : UploadForm}
    (h : Stored 0 0 db fdfs)
    (hω : ¬(ip ≠ [] ∧ conn.live ∧ (ω 0).ok ∧ (ω 1).ok ∧ (ω 3).ok ∧
      RecordsBadly (fun n => ω (n + 4)) db form.file_md5)) :
    Follows (fun _ db' fdfs' _ => Stored 0 0 db' fdfs') ω (uploadForm ip conn form)
      db fdfs := by
  refine .bind (.ask (show Call.Aside (.rename _ _) from trivial) h fun renamed w _ h0 => ?_)
  split
  · next hrenamed =>
      subst hrenamed
      refine .bind (.fdfsUpload (fun _ => ?_) fun h1 fileid hused hnul => ?_)
      · exact .bind (.ask (show Call.Aside (.unlink _) from trivial) h fun _ _ _ _ => .ret h)
      · have hkept := h.store hused
        rw [add_zero] at hkept
        refine .bind (.ask (show Call.Aside (.unlink _) from trivial) hkept fun _ _ _ _ => ?_)
        refine .bind ?_
        rw [getFullUrlByFileid]
        split
        · exact .ret (.ret hkept.debtless)
        · next hip =>
            refine .bind (.ask (show Call.Aside (.fdfsFileInfo _) from trivial) hkept
              fun known w' _ h3 => .ret ?_)
            cases known with
            | false => exact .ret hkept.debtless
            | true =>
                obtain ⟨live⟩ := conn
                cases live with
                | false =>
                    exact (storeUpload_dead_keeps hkept).follows (fun _ _ _ _ hk => hk) _
                | true =>
                    refine storeUpload_follows hkept hnul
                      fun hbad => hω ⟨hip, rfl, ?_, h1, ?_, hbad⟩
                    · simpa [step] using congrArg (Option.map Prod.fst) h0
                    · simpa [step] using congrArg (Option.map Prod.fst) h3
  · exact .ret h

theorem apiUpload_follows {ip post_data : Bytes} (h : Stored 0 0 db fdfs)
    (hω : ∀ form, parseForm post_data = .ok form →
      ¬(ip ≠ [] ∧ (ω 0).ok ∧ (ω 1).ok ∧ (ω 2).ok ∧ (ω 4).ok ∧
        RecordsBadly (fun n => ω (n + 5)) db form.file_md5)) :
    Follows (fun _ db' fdfs' _ => Stored 0 0 db' fdfs') ω (apiUpload ip post_data)
      db fdfs := by
  refine .bind (.bind (.ask (show Call.Aside (.getDBConn .filehubMaster) from trivial) h
    fun live w _ h0 => .ret ?_))
  match hform : parseForm post_data with
  | .error .reject => exact .ret h
  | .error .thrown => exact (Keeps.crash h).follows (fun _ _ _ _ hk => hk) _
  | .ok form =>
      refine .seq (uploadForm_follows h fun hbad => hω form hform ?_) fun _ _ _ _ hk => .ret hk
      obtain ⟨hip, hlive, h1, h2, h4, hrecords⟩ := hbad
      obtain rfl : live = true := hlive
      exact ⟨hip, by simpa [step] using congrArg (Option.map Prod.fst) h0, h1, h2, h4, hrecords⟩

end Follows

end

/-! ## Histories -/

namespace StorageRequest

variable (parse : Bytes → Option JsonValue) (ip : Bytes)

/-- Serve one request along a script. The lock is in the process's memory: it
is free again after a crash. -/
def attempt (w : World) (x : StorageRequest × (ℕ → Ans)) : World :=
  (runIn x.2 (handle parse ip x.1) w).st.setLocked false

/-- The request is an upload of a file that is not known, everything goes well
up to the lock and the lock is taken. Then either the user's row cannot be
inserted and the object goes, or `file_info` cannot be given its row and the
user's row is inserted all the same. -/
def Damages (w : World) (x : StorageRequest × (ℕ → Ans)) : Prop :=
  match x.1 with
  | .upload post_data =>
      match parseForm post_data with
      | .error _ => False
      | .ok form =>
          ip ≠ [] ∧ (x.2 0).ok ∧ (x.2 1).ok ∧ (x.2 2).ok ∧ (x.2 4).ok ∧
            RecordsBadly (fun n => x.2 (n + 5)) w.db form.file_md5
  | .instantUpload _ | .save .. | .delete .. => False

variable {parse ip}

theorem stored_attempt {w : World} (h : Stored 0 0 w.db w.fdfs) (x : StorageRequest × (ℕ → Ans))
    (hx : ¬Damages ip w x) :
    Stored 0 0 (attempt parse ip w x).db (attempt parse ip w x).fdfs := by
  obtain ⟨request, ω⟩ := x
  have hend {α : Type} {p : Handler α}
      (hp : Follows (fun _ db' fdfs' _ => Stored 0 0 db' fdfs') ω p w.db w.fdfs) :
      Stored 0 0 (runIn ω (do let _ ← p) w).st.db (runIn ω (do let _ ← p) w).st.fdfs := by
    have hseq : Follows (fun _ db' fdfs' _ => Stored 0 0 db' fdfs') ω (do let _ ← p) w.db w.fdfs :=
      hp.seq fun _ _ _ _ hk => .ret hk
    have hrun := hseq w rfl rfl
    match hexec : runIn ω (do let _ ← p) w with
    | ⟨none, w', _⟩ | ⟨some _, w', _⟩ =>
        rw [hexec] at hrun
        exact hrun
  have hkeep {α : Type} {p : Handler α} (hp : Keeps (fun _ => Stored 0 0) p w.db w.fdfs) :=
    hend (hp.follows (fun _ _ _ _ hk => hk) ω)
  match request with
  | .upload post_data =>
      refine hend (apiUpload_follows h fun form hform hbad => hx ?_)
      simpa only [Damages, hform] using hbad
  | .instantUpload post_data => exact hkeep (apiMd5_keeps h parse post_data)
  | .save user md5 filename => exact hkeep (handleSaveFile_keeps h user md5 filename)
  | .delete user md5 filename => exact hkeep (handleDeleteFile_keeps h user md5 filename)

end StorageRequest

end FileHub
