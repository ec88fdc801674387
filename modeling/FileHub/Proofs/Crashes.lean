import FileHub.Proofs.NullPointers

/-!
# The handlers crash on their fatal outcomes and on no others

Handler by handler: what it does with a null connection up to the first use of
it, and that with live connections the rest is steady. The first query of a
handler is looked at by itself where `Fatal` depends on what it found.
-/

namespace FileHub

open Lib
open Prog (Log ask)

/-! ## The handlers of one connection -/

/-- The handler crashes exactly on the outcomes in `F`. -/
def Exact {α : Type} (F : Log Resp → Prop) (p : Handler α) : Prop :=
  Under F (fun _ l => ¬ F l) p []

/-- The part does not crash, and gets no null connection from the pool. -/
def KeepsDb (pool : DbPool) {α : Type} (p : Handler α) : Prop :=
  ∀ E log, Under E (fun _ l => Has (Entry.nullDb pool) l → Has (Entry.nullDb pool) log) p log

section OneConnection

variable {α β : Type} {pool : DbPool}

theorem settled_not_nullDb (e : Entry) (he : e.Settled) : ¬ e.nullDb pool := by
  obtain ⟨c, r⟩ := e
  cases c with
  | getDBConn p => exact he.1.elim
  | _ => exact id

theorem keepsDb_steady {p : Handler α} (h : ∀ E, Steady E p) : KeepsDb pool p := by
  intro E log
  refine (h E log).mono ?_
  rintro _ _ ⟨added, rfl, hadded⟩
  exact (has_settled settled_not_nullDb hadded).mp

theorem keepsDb_pure (a : α) : KeepsDb pool (pure a) := fun _ _ => under_pure id

theorem keepsDb_bind {p : Handler α} {f : α → Handler β} (hp : KeepsDb pool p)
    (hf : ∀ a, KeepsDb pool (f a)) : KeepsDb pool (p >>= f) := fun E log =>
  under_bind ((hp E log).mono fun a l h => (hf a E l).mono fun _ _ h' hn => h (h' hn))

theorem keepsDb_executeQuery (q : Select) : KeepsDb pool (CDBConn.executeQuery ⟨true⟩ q) :=
  fun _ _ => under_executeQuery nofun fun _ _ h => h.elim fun _ he => by
    rcases List.mem_cons.mp he.1 with rfl | hmem
    · exact he.2.elim
    · exact ⟨_, hmem, he.2⟩

theorem keepsDb_getCacheConn (p : CachePool) : KeepsDb pool (getCacheConn p) := fun _ _ =>
  under_getCacheConn fun _ h => (has_cons _ _ _).mp h |>.elim False.elim id

theorem keepsDb_checkwhetherHaveRecord (q : Select) :
    KeepsDb pool (checkwhetherHaveRecord ⟨true⟩ q) := by
  refine keepsDb_bind (keepsDb_executeQuery q) fun rows => ?_
  rcases rows with _ | (_ | ⟨row, _⟩) <;> exact keepsDb_pure _

/-- A handler that cannot do without the connection it starts with. -/
theorem exact_getDBConn {rest : CDBConn → Handler α}
    (hdead : ∀ Q log, Has (Entry.nullDb pool) log →
      Under (Has (Entry.nullDb pool)) Q (rest ⟨false⟩) log)
    (hlive : KeepsDb pool (rest ⟨true⟩)) :
    Exact (Has (Entry.nullDb pool)) (getDBConn pool >>= rest) := by
  refine under_bind (under_getDBConn fun live => ?_)
  cases live with
  | false => exact hdead _ _ ((has_cons _ _ _).mpr (.inl ⟨rfl, rfl⟩))
  | true =>
      refine (hlive _ _).mono fun _ l h hn => ?_
      rcases (has_cons _ _ _).mp (h hn) with h | h
      · exact Bool.noConfusion h.2
      · exact has_nil _ h

/-! The first use of a null connection. -/

theorem under_query_null {E : Log Resp → Prop} {Q : β → Log Resp → Prop} {log : Log Resp}
    (h : E log) (q : Select) (k : Option (List q.Row) → Handler β) :
    Under E Q (CDBConn.executeQuery ⟨false⟩ q >>= k) log :=
  under_bind (under_executeQuery (fun _ => h) nofun)

theorem under_execute_null {E : Log Resp → Prop} {Q : β → Log Resp → Prop} {log : Log Resp}
    (h : E log) (d : Dml) (k : Bool → Handler β) :
    Under E Q (CDBConn.execute ⟨false⟩ d >>= k) log :=
  under_bind (under_execute (fun _ => h) nofun)

theorem under_record_null {E : Log Resp → Prop} {Q : β → Log Resp → Prop} {log : Log Resp}
    (h : E log) (q : Select) (k : Int → Handler β) :
    Under E Q (checkwhetherHaveRecord ⟨false⟩ q >>= k) log :=
  under_bind (under_query_null h q _)

theorem exact_verifyUserPassword (user_name pwd : Bytes) :
    Exact (Has (Entry.nullDb .filehubSlave)) (verifyUserPassword user_name pwd) := by
  refine exact_getDBConn (fun Q log h => under_query_null h _ _) (keepsDb_steady fun E => ?_)
  refine steady_bind (steady_executeQuery trivial) fun rows => ?_
  rcases rows with _ | (_ | ⟨row, _⟩) <;> exact steady_pure _

theorem exact_handleUserFilesCount (user_name : Bytes) :
    Exact (Has (Entry.nullDb .filehubSlave)) (handleUserFilesCount user_name) :=
  exact_getDBConn (fun _ _ h => under_query_null h _ _)
    (keepsDb_steady fun _ => steady_getUserFilesCount user_name)

theorem exact_getUserFileList (user_name : Bytes) (start count : Int) :
    Exact (Has (Entry.nullDb .filehubSlave)) (getUserFileList user_name start count) := by
  refine exact_getDBConn (fun Q log h => under_bind (under_query_null h _ _))
    (keepsDb_steady fun E => ?_)
  refine steady_bind (steady_getUserFilesCount user_name) ?_
  rintro ⟨ret, total⟩
  dsimp only
  split
  · exact steady_pure _
  · split
    · exact steady_pure _
    · refine steady_bind (steady_executeQuery trivial) fun rows => ?_
      cases rows <;> exact steady_pure _

theorem exact_handleSharePicture (user filemd5 file_name : Bytes) :
    Exact (Has (Entry.nullDb .filehubSlave)) (handleSharePicture user filemd5 file_name) := by
  have hdraw : ∀ E, Steady E (randomString 32) := fun _ => steady_randomString 32
  rw [handleSharePicture]
  generalize randomString 32 = draw at hdraw ⊢
  refine exact_getDBConn (fun Q log h => ?_) (keepsDb_steady fun E => ?_)
  · -- the name and the time are drawn before the connection is used
    refine under_bind ((hdraw _ log).mono ?_)
    rintro urlmd5 _ ⟨added, rfl, hadded⟩
    refine under_bind (under_ask .localtime nofun fun t => under_execute_null ?_ _ _)
    exact (has_cons _ _ _).mpr (.inr ((has_settled settled_not_nullDb hadded).mpr h))
  · refine steady_bind (hdraw E) fun urlmd5 => ?_
    exact steady_bind steady_localtime fun _ => steady_bind (steady_execute _) fun _ =>
      steady_pure _

theorem exact_handleGetSharePicturesList (user : Bytes) (start count : Int) :
    Exact (Has (Entry.nullDb .filehubSlave)) (handleGetSharePicturesList user start count) := by
  refine exact_getDBConn (fun Q log h => under_bind (under_query_null h _ _))
    (keepsDb_steady fun E => ?_)
  refine steady_bind (steady_getSharePicturesCount user) ?_
  rintro ⟨counted, total⟩
  dsimp only
  split
  · exact steady_pure _
  · refine steady_bind (steady_executeQuery trivial) fun rows => ?_
    cases rows <;> exact steady_pure _

theorem exact_handleGetSharefilesCount :
    Exact (Has (Entry.nullDb .filehubSlave)) handleGetSharefilesCount := by
  refine exact_getDBConn (fun Q log h => under_query_null h _ _) ?_
  refine keepsDb_bind (keepsDb_executeQuery _) fun rows => ?_
  rcases rows with _ | (_ | ⟨row, _⟩) <;> exact keepsDb_pure _

theorem exact_handleDealMd5 (user md5 filename : Bytes) :
    Exact (Has (Entry.nullDb .filehubMaster)) (handleDealMd5 user md5 filename) := by
  refine exact_getDBConn (fun Q log h => ?_) ?_
  · refine under_bind (under_getCacheConn fun live => under_record_null ?_ _ _)
    exact (has_cons _ _ _).mpr (.inr h)
  · refine keepsDb_bind (keepsDb_getCacheConn _) fun _ => ?_
    refine keepsDb_bind (keepsDb_checkwhetherHaveRecord _) fun ret => ?_
    split
    · exact keepsDb_pure _
    · exact keepsDb_steady fun E => steady_countMd5 md5

/-- A function that flows off its end does not return. -/
theorem exact_handleBrowsePicture (urlmd5 : Bytes) :
    Exact (fun _ => True) (handleBrowsePicture urlmd5) :=
  under_bind ((under_returns (Prog.returns_any (browsedPicture urlmd5))).mono
    fun _ _ _ => under_crash trivial)

theorem exact_handleCancelSharePicture (user urlmd5 : Bytes) :
    Exact (Has (Entry.nullDb .filehubMaster)) (handleCancelSharePicture user urlmd5) :=
  exact_getDBConn (fun _ _ h => under_execute_null h _ _)
    (keepsDb_steady fun _ => steady_bind (steady_execute _) fun _ => steady_pure _)

theorem exact_dealfilePv (user md5 filename : Bytes) :
    Exact (Has (Entry.nullDb .filehubMaster)) (Dealfile.handlePvFile user md5 filename) := by
  refine exact_getDBConn (fun Q log h => under_query_null h _ _) ?_
  refine keepsDb_bind (keepsDb_executeQuery _) fun rows => ?_
  rcases rows with _ | (_ | ⟨row, _⟩)
  · exact keepsDb_pure _
  · exact keepsDb_pure _
  · exact keepsDb_steady fun E => steady_bind (steady_executeUpdate _ _) fun _ => steady_pure _

theorem exact_handleSaveFile (user_name md5 filename : Bytes) :
    Exact (Has (Entry.nullDb .filehubMaster)) (handleSaveFile user_name md5 filename) := by
  refine exact_getDBConn (fun Q log h => under_record_null h _ _) ?_
  refine keepsDb_bind (keepsDb_checkwhetherHaveRecord _) fun ret => ?_
  split
  · exact keepsDb_pure _
  · refine keepsDb_steady fun E => steady_bind (steady_countSaved md5) fun counted => ?_
    split
    · exact steady_bind steady_localtime fun _ => steady_bind (steady_execute _) fun _ =>
        steady_pure _
    · exact steady_pure _

end OneConnection

/-! ## The handlers that test their connection -/

theorem exact_never {α : Type} {p : Handler α} (h : ∀ E, Under E (fun _ _ => True) p []) :
    Exact (fun _ => False) p :=
  (h _).mono fun _ _ _ => id

theorem steady_true {α : Type} {E : Log Resp → Prop} {p : Handler α} (h : Steady E p)
    (log : Log Resp) : Under E (fun _ _ => True) p log :=
  (h log).mono fun _ _ _ => trivial

theorem exact_verifyToken (user_name token : Bytes) :
    Exact (fun _ => False) (verifyToken user_name token) := by
  refine exact_never fun E => under_bind (under_getCacheConn fun live => ?_)
  cases live with
  | false => exact under_pure trivial
  | true =>
      rw [if_pos rfl]
      apply steady_true
      refine steady_bind (steady_commandOr fun _ => ⟨trivial, id⟩) fun name => ?_
      split <;> exact steady_pure _

theorem exact_setToken (user_name : Bytes) : Exact (fun _ => False) (setToken user_name) := by
  refine exact_never fun E => under_bind (under_getCacheConn fun live => ?_)
  have huuid : Steady E generateUUID :=
    steady_bind (steady_ask nofun fun _ => ⟨trivial, id⟩) fun _ => steady_pure _
  apply steady_true
  refine steady_bind huuid fun token => ?_
  cases live with
  | false => exact steady_pure _
  | true => exact steady_bind (steady_commandOr fun _ => ⟨trivial, id⟩) fun _ => steady_pure _

theorem exact_registerUser (req : RegisterRequest) :
    Exact (fun _ => False) (registerUser req) := by
  refine exact_never fun E => under_bind (under_getDBConn fun live => ?_)
  cases live with
  | false => exact under_pure trivial
  | true =>
      rw [if_pos rfl]
      apply steady_true
      refine steady_bind (steady_executeQuery trivial) fun rows => ?_
      have hregister : Steady E (do
          let create_time : Bytes ← ask Call.localtime
          let prepared ← CDBConn.prepare ⟨true⟩
          if prepared then
            let inserted ← CDBConn.executeStmt (.insertUser ⟨req.user_name, req.nick_name,
              req.pwd, req.phone, req.email, create_time⟩)
            return if inserted then (0 : Int) else 1
          else
            return 0) := by
        refine steady_bind steady_localtime fun create_time => ?_
        have hprepare : Steady E (CDBConn.prepare ⟨true⟩) :=
          steady_ask nofun fun _ => ⟨trivial, id⟩
        refine steady_bind hprepare fun prepared => ?_
        split
        · have hstmt : Steady E (CDBConn.executeStmt (.insertUser ⟨req.user_name,
              req.nick_name, req.pwd, req.phone, req.email, create_time⟩)) :=
            steady_bind (steady_ask nofun fun _ => ⟨trivial, id⟩) fun _ => steady_pure _
          exact steady_bind hstmt fun _ => steady_pure _
        · exact steady_pure _
      rcases rows with _ | (_ | ⟨row, _⟩)
      · exact hregister
      · exact hregister
      · exact steady_pure _

/-! ## The handlers of several connections -/

section Settled

variable {added log : Log Resp} (h : ∀ e ∈ added, Entry.Settled e)

include h

theorem settled_nullDb (pool : DbPool) :
    Has (Entry.nullDb pool) (added ++ log) ↔ Has (Entry.nullDb pool) log :=
  has_settled settled_not_nullDb h

theorem settled_nullCache (pool : CachePool) :
    Has (Entry.nullCache pool) (added ++ log) ↔ Has (Entry.nullCache pool) log := by
  refine has_settled ?_ h
  rintro ⟨c, r⟩ he
  cases c with
  | getCacheConn p => exact he.1.elim
  | _ => exact id

theorem settled_unreadable :
    Has Entry.unreadable (added ++ log) ↔ Has Entry.unreadable log :=
  has_settled (fun _ he => he.2) h

/-- The query of the user's row is not repeated. -/
theorem settled_own {P : Entry → Prop} (hP : ∀ e, P e → ∃ u m f, e.1 = .select (.userFile u m f)) :
    Has P (added ++ log) ↔ Has P log := by
  refine has_settled (fun e he hPe => ?_) h
  obtain ⟨c, r⟩ := e
  obtain ⟨u, m, f, rfl⟩ := hP _ hPe
  exact he.1

end Settled

theorem own_of_ownFailed (e : Entry) (h : e.ownFailed) :
    ∃ u m f, e.1 = .select (.userFile u m f) := by
  unfold Entry.ownFailed at h
  split at h
  · exact ⟨_, _, _, rfl⟩
  · exact h.elim

theorem own_of_ownShared (e : Entry) (h : e.ownShared) :
    ∃ u m f, e.1 = .select (.userFile u m f) := by
  unfold Entry.ownShared at h
  split at h
  · exact ⟨_, _, _, rfl⟩
  · exact h.elim

/-! ### Uploading -/

theorem steady_getFullUrlByFileid {E : Log Resp → Prop} (ip fileid : Bytes) :
    Steady E (getFullUrlByFileid ip fileid) := by
  rw [getFullUrlByFileid]
  split
  · exact steady_pure _
  · have hinfo : Steady E (ask (.fdfsFileInfo fileid)) := steady_ask nofun fun _ => ⟨trivial, id⟩
    exact steady_bind hinfo fun _ => steady_pure _

theorem steady_storeUpload {E : Log Resp → Prop} (form : UploadForm) (fileid url : Bytes) :
    Steady E (storeUpload ⟨true⟩ form fileid url) := by
  refine steady_bind (steady_storeFileinfo _ _ _ _ _ _) ?_
  rintro ⟨ret, file_exsit⟩
  dsimp only
  split
  · exact steady_bind (steady_removeFileFromFastDfs fileid) fun _ => steady_pure _
  · exact steady_pure _

theorem steady_uploadForm {E : Log Resp → Prop} (ip : Bytes) (form : UploadForm) :
    Steady E (uploadForm ip ⟨true⟩ form) := by
  have hask {c : Call} (hc : c ≠ .crash) (h : ∀ r, Entry.Settled ⟨c, r⟩) : Steady E (ask c) :=
    steady_ask hc h
  refine steady_bind (hask (c := .rename _ _) nofun fun _ => ⟨trivial, id⟩) fun renamed => ?_
  split
  · refine steady_bind (hask (c := .fdfsUpload _) nofun fun _ => ⟨trivial, id⟩) fun uploaded => ?_
    refine steady_bind (hask (c := .unlink _) nofun fun _ => ⟨trivial, id⟩) fun _ => ?_
    cases uploaded with
    | none => exact steady_pure _
    | some fileid =>
        refine steady_bind (steady_getFullUrlByFileid ip fileid) fun url => ?_
        cases url with
        | none => exact steady_pure _
        | some url => exact steady_storeUpload form fileid url
  · exact steady_pure _

/-- With the lock not taken a null connection is not used, with it taken at once. -/
theorem under_storeUpload_null {F : Log Resp → Prop} {log : Log Resp} (form : UploadForm)
    (fileid url : Bytes) (hfree : ∀ removed : Bool,
      ¬ F (⟨.fdfsDelete fileid, removed⟩ :: ⟨.tryLockFor 1000, false⟩ :: log))
    (htaken : F (⟨.tryLockFor 1000, true⟩ :: log)) :
    Under F (fun _ l => ¬ F l) (storeUpload ⟨false⟩ form fileid url) log := by
  refine under_bind (under_bind (under_ask (.tryLockFor 1000) nofun fun is_locked => ?_))
  cases is_locked with
  | false =>
      refine under_bind (under_pure (under_pure ?_))
      exact under_bind (under_ask (.fdfsDelete fileid) nofun fun removed =>
        under_pure (hfree removed))
  | true => exact under_bind (under_execute_null htaken _ _)

theorem exact_uploadForm (ip : Bytes) (form : UploadForm) :
    Exact (fun l => Has (Entry.nullDb .filehubMaster) l ∧ Has Entry.infoLocked l) (do
      let db_conn ← getDBConn .filehubMaster
      uploadForm ip db_conn form) := by
  refine under_bind (under_getDBConn fun live => ?_)
  cases live with
  | true =>
      refine (steady_uploadForm ip form _).mono ?_
      rintro _ _ ⟨added, rfl, hadded⟩ ⟨hnull, _⟩
      rw [settled_nullDb hadded] at hnull
      simp [Entry.nullDb] at hnull
  | false =>
      refine under_bind (under_ask (.rename _ _) nofun fun renamed => ?_)
      split
      · refine under_bind (under_ask (.fdfsUpload _) nofun fun uploaded => ?_)
        refine under_bind (under_ask (.unlink _) nofun fun _ => ?_)
        cases uploaded with
        | none => exact under_pure (by simp [Entry.infoLocked])
        | some fileid =>
            refine under_bind ?_
            rw [getFullUrlByFileid]
            split
            · exact under_pure (under_pure (by simp [Entry.infoLocked]))
            · refine under_bind (under_ask (.fdfsFileInfo fileid) nofun fun known => ?_)
              refine under_pure ?_
              cases known with
              | false => exact under_pure (by simp [Entry.infoLocked])
              | true =>
                  apply under_storeUpload_null
                  · simp [Entry.infoLocked]
                  · simp [Entry.infoLocked, Entry.nullDb]
      · exact under_pure (by simp [Entry.infoLocked])

/-! ### Deleting, cancelling, counting -/

/-- A part with live connections ends its handler as exactly as it began it. -/
theorem under_steady {α : Type} {F : Log Resp → Prop} {log : Log Resp} {p : Handler α}
    (hp : Steady (Has Entry.unreadable) p) (hcrash : ∀ l, Has Entry.unreadable l → F l)
    (h : ∀ added : Log Resp, (∀ e ∈ added, Entry.Settled e) → ¬ F (added ++ log)) :
    Under F (fun _ l => ¬ F l) p log := by
  refine ((hp log).mono_crash hcrash).mono ?_
  rintro _ _ ⟨added, rfl, hadded⟩
  exact h added hadded

/-- The sorted set wrappers on a null connection. -/
theorem under_command_null {α β : Type} {E : Log Resp → Prop} {Q : β → Log Resp → Prop}
    {log : Log Resp} (h : E log) {c : RedisCmd} {down : α} {value : Reply → Handler α}
    (k : α → Handler β) :
    Under E Q (CacheConn.commandDeref ⟨false⟩ c down value >>= k) log :=
  under_bind (under_commandDeref (fun _ => h) nofun nofun nofun)

theorem exact_handleDeleteFile (user md5 filename : Bytes) :
    Exact (fun l => Has Entry.unreadable l ∨ Has (Entry.nullDb .filehubMaster) l ∨
        Has Entry.ownFailed l ∨
        Has (Entry.nullCache .rankingList) l ∧ Has Entry.ownShared l)
      (handleDeleteFile user md5 filename) := by
  refine under_bind (under_getDBConn fun live => under_bind (under_getCacheConn fun cache => ?_))
  cases live with
  | false =>
      refine under_bind (under_query_null ?_ _ _)
      simp [Entry.nullDb]
  | true =>
      refine under_bind (under_bind (under_executeQuery nofun fun _ rows => ?_))
      rcases rows with _ | (_ | ⟨row, rest⟩)
      · exact under_crash (by simp [Entry.ownFailed])
      · exact under_pure (under_pure (by
          simp [Entry.unreadable, Entry.nullDb, Entry.ownFailed, Entry.ownShared]))
      · refine under_pure ?_
        have hown := steady_deleteOwned (E := Has Entry.unreadable) user md5 filename
        dsimp only
        rw [if_pos rfl]
        split
        · next hshared =>
            cases cache with
            | false =>
                refine under_bind (under_command_null ?_ _)
                simp [Entry.nullCache, Entry.ownShared, hshared]
            | true =>
                have hrest : Steady (Has Entry.unreadable) (do
                    let dropped ← deleteShared ⟨true⟩ ⟨true⟩ user md5 filename
                    if dropped then deleteOwned ⟨true⟩ user md5 filename else return 1) := by
                  refine steady_bind (steady_deleteShared user md5 filename) fun dropped => ?_
                  split
                  · exact hown
                  · exact steady_pure _
                refine under_steady hrest (fun _ => Or.inl) fun added hadded => ?_
                rw [settled_unreadable hadded, settled_nullDb hadded, settled_nullCache hadded,
                  settled_own hadded own_of_ownFailed]
                simp [Entry.unreadable, Entry.nullDb, Entry.ownFailed, Entry.nullCache]
        · next hshared =>
            refine under_steady hown (fun _ => Or.inl) fun added hadded => ?_
            rw [settled_unreadable hadded, settled_nullDb hadded,
              settled_own hadded own_of_ownFailed,
              settled_own hadded own_of_ownShared]
            simp [Entry.unreadable, Entry.nullDb, Entry.ownFailed, Entry.ownShared, hshared]

theorem exact_handleCancelShareFile (user_name md5 filename : Bytes) :
    Exact (fun l => Has Entry.unreadable l ∨ Has (Entry.nullDb .filehubMaster) l ∨
        Has (Entry.nullCache .rankingList) l ∧ ¬ Has Entry.statementFailed l)
      (handleCancelShareFile user_name md5 filename) := by
  refine under_bind (under_getDBConn fun live => under_bind (under_getCacheConn fun cache => ?_))
  cases live with
  | false =>
      refine under_bind (under_executeUpdate (fun _ => ?_) nofun)
      simp [Entry.nullDb]
  | true =>
      refine under_bind (under_executeUpdate nofun fun _ updated => ?_)
      cases updated with
      | none =>
          exact under_pure (by simp [Entry.unreadable, Entry.nullDb, Entry.statementFailed])
      | some n =>
          rw [if_pos (by simp)]
          refine under_bind (under_execute nofun fun _ dropped => ?_)
          cases dropped with
          | none =>
              exact under_pure (by simp [Entry.unreadable, Entry.nullDb, Entry.statementFailed])
          | some m =>
              rw [if_pos Option.isSome_some]
              cases cache with
              | false =>
                  refine under_command_null ?_ _
                  simp [Entry.nullCache, Entry.statementFailed]
              | true =>
                  refine under_steady (steady_bind (steady_zsetZrem _ _) fun ret => ?_)
                    (fun _ => Or.inl) fun added hadded => ?_
                  · split
                    · exact steady_bind (steady_commandOr fun _ => ⟨trivial, id⟩) fun _ =>
                        steady_pure _
                    · exact steady_pure _
                  · rw [settled_unreadable hadded, settled_nullDb hadded,
                      settled_nullCache hadded]
                    simp [Entry.unreadable, Entry.nullDb, Entry.nullCache]

theorem exact_dealsharefilePv (md5 filename : Bytes) :
    Exact (fun l => Has Entry.unreadable l ∨ Has (Entry.nullDb .filehubMaster) l ∨
        Has (Entry.nullCache .rankingList) l ∧ Has Entry.shareFound l ∧
          ¬ Has Entry.statementFailed l)
      (DealSharefile.handlePvFile md5 filename) := by
  refine under_bind (under_getDBConn fun live => under_bind (under_getCacheConn fun cache => ?_))
  cases live with
  | false =>
      refine under_query_null ?_ _ _
      simp [Entry.nullDb]
  | true =>
      refine under_bind (under_executeQuery nofun fun _ rows => ?_)
      rcases rows with _ | (_ | ⟨row, rest⟩)
      · exact under_pure (by simp [Entry.unreadable, Entry.nullDb, Entry.shareFound])
      · exact under_pure (by simp [Entry.unreadable, Entry.nullDb, Entry.shareFound])
      · refine under_bind (under_executeUpdate nofun fun _ updated => ?_)
        cases updated with
        | none =>
            exact under_pure (by simp [Entry.unreadable, Entry.nullDb, Entry.statementFailed])
        | some n =>
            rw [if_pos (by simp)]
            cases cache with
            | false =>
                refine under_command_null ?_ _
                simp [Entry.nullCache, Entry.shareFound, Entry.statementFailed]
            | true =>
                refine under_steady (steady_countRanking _ _ _) (fun _ => Or.inl)
                  fun added hadded => ?_
                rw [settled_unreadable hadded, settled_nullDb hadded, settled_nullCache hadded]
                simp [Entry.unreadable, Entry.nullDb, Entry.nullCache]

/-! ### Sharing -/

/-- What taking the share lock asks for. -/
def Entry.ofLock : Entry → Prop
  | ⟨.cacheInit, _⟩ | ⟨.redis (.set ..), _⟩ | ⟨.redis (.setex ..), _⟩ => True
  | _ => False

/-- The lock is taken exactly where a `SET` was answered with something. -/
theorem under_acquireShareLock {E : Log Resp → Prop} (lock_key lock_val : Bytes)
    (attempts : ℕ) (log : Log Resp) :
    Under E (fun taken l => ∃ added : Log Resp, l = added ++ log ∧
        (∀ e ∈ added, Entry.ofLock e) ∧ (taken = true ↔ Has Entry.lockSet added))
      (acquireShareLock ⟨true⟩ lock_key lock_val attempts) log := by
  induction attempts generalizing log with
  | zero => exact under_pure ⟨[], rfl, nofun, by simp⟩
  | succ attempts ih =>
      have hagain {l : Log Resp} (before : Log Resp) (hbefore : ∀ e ∈ before, Entry.ofLock e)
          (hset : ¬ Has Entry.lockSet before) (hl : l = before ++ log) :
          Under E (fun taken l' => ∃ added : Log Resp, l' = added ++ log ∧
              (∀ e ∈ added, Entry.ofLock e) ∧ (taken = true ↔ Has Entry.lockSet added))
            (acquireShareLock ⟨true⟩ lock_key lock_val attempts) l := by
        subst hl
        refine (ih _).mono ?_
        rintro taken _ ⟨added, rfl, hadded, hlock⟩
        refine ⟨added ++ before, by rw [List.append_assoc], fun e he => ?_, ?_⟩
        · exact (List.mem_append.mp he).elim (hadded e) (hbefore e)
        · rw [hlock, has_append]
          exact ⟨Or.inl, fun h => h.resolve_right hset⟩
      have htaken (more : Log Resp) {reply : Reply} (hr : reply.str ≠ [])
          (hmore : ∀ e ∈ more, Entry.ofLock e) :
          ∃ added : Log Resp,
            more ++ (⟨.redis (.set lock_key lock_val), some reply⟩ :: ⟨.cacheInit, true⟩ :: log) =
              added ++ log ∧
            (∀ e ∈ added, Entry.ofLock e) ∧ (true = true ↔ Has Entry.lockSet added) := by
        refine ⟨more ++ [⟨.redis (.set lock_key lock_val), some reply⟩, ⟨.cacheInit, true⟩],
          by simp, fun e he => ?_, ?_⟩
        · rcases List.mem_append.mp he with he | he
          · exact hmore e he
          · rcases List.mem_cons.mp he with rfl | he
            · trivial
            · rw [List.mem_singleton.mp he]
              trivial
        · rw [has_append]
          simp [Entry.lockSet, hr]
      refine under_bind (under_commandOr nofun (fun _ => ?_) (fun _ => ?_) fun _ reply => ?_)
      · rw [if_neg (by simp)]
        exact hagain [⟨.cacheInit, false⟩] (by simp [Entry.ofLock]) (by simp [Entry.lockSet]) rfl
      · rw [if_neg (by simp)]
        exact hagain [⟨.redis (.set lock_key lock_val), none⟩, ⟨.cacheInit, true⟩]
          (by simp [Entry.ofLock]) (by simp [Entry.lockSet]) rfl
      · split
        · next hr =>
            refine under_bind (under_commandOr nofun (fun _ => ?_) (fun _ => ?_)
              fun _ answer => ?_)
            · exact under_pure (htaken [⟨.cacheInit, false⟩] hr (by simp [Entry.ofLock]))
            · exact under_pure (htaken [⟨.redis (.setex lock_key 10 lock_val), none⟩,
                ⟨.cacheInit, true⟩] hr (by simp [Entry.ofLock]))
            · exact under_pure (htaken [⟨.redis (.setex lock_key 10 lock_val), some answer⟩,
                ⟨.cacheInit, true⟩] hr (by simp [Entry.ofLock]))
        · next hr =>
            exact hagain [⟨.redis (.set lock_key lock_val), some reply⟩, ⟨.cacheInit, true⟩]
              (by simp [Entry.ofLock]) (by simp_all [Entry.lockSet]) rfl

theorem ofLock_settled {e : Entry} (h : e.ofLock) : e.Settled ∧ ¬ e.ranked := by
  unfold Entry.ofLock at h
  split at h
  · exact ⟨⟨trivial, id⟩, id⟩
  · exact ⟨⟨trivial, id⟩, id⟩
  · exact ⟨⟨trivial, id⟩, id⟩
  · exact h.elim

/-- With no connection to the database the handler can only answer that the
file is ranked already. -/
theorem under_shareLocked_null {F : Log Resp → Prop} {log : Log Resp} (user md5 filename : Bytes)
    (lock_key : Bytes)
    (hunreadable : ∀ l, Has Entry.unreadable l → F l)
    (hneeded : ∀ before : Log Resp, ¬ Has Entry.ranked before → F (before ++ log))
    (hranked : ∀ added : Log Resp, (∀ e ∈ added, Entry.Settled e) → Has Entry.ranked added →
      ¬ F (added ++ log)) :
    Under F (fun _ l => ¬ F l) (do
      let share_state ← shareLocked ⟨false⟩ ⟨true⟩ user md5 filename
      let _ ← CacheConn.del ⟨true⟩ lock_key
      return share_state) log := by
  have hcheck (before : Log Resp) (hbefore : ¬ Has Entry.ranked before)
      {Q : Int → Log Resp → Prop} {k : Int → Handler Int} :
      Under F Q (checkwhetherHaveRecord ⟨false⟩ (.share md5 filename) >>= k) (before ++ log) :=
    under_record_null (hneeded before hbefore) _ _
  refine under_bind (under_bind (under_commandDeref nofun (fun _ => ?_) (fun _ => ?_)
    fun _ reply => ?_))
  · rw [if_neg (by decide)]
    exact hcheck [⟨.cacheInit, false⟩] (by simp [Entry.ranked])
  · exact hunreadable _ (by simp [Entry.unreadable, RedisCmd.Unreadable])
  · by_cases hr : reply = .integer 1
    · subst hr
      refine under_pure ?_
      rw [if_pos rfl]
      refine under_pure (under_bind (under_commandOr nofun (fun _ => ?_) (fun _ => ?_)
        fun _ answer => ?_))
      · exact under_pure (hranked [⟨.cacheInit, false⟩, ⟨.redis (.zlexcount _ _), _⟩,
          ⟨.cacheInit, true⟩] (by simp [Entry.Settled, Call.Later, Entry.unreadable,
            RedisCmd.Unreadable]) (by simp [Entry.ranked]))
      · exact under_pure (hranked [⟨.redis (.del _), _⟩, ⟨.cacheInit, true⟩,
          ⟨.redis (.zlexcount _ _), _⟩, ⟨.cacheInit, true⟩] (by simp [Entry.Settled, Call.Later,
            Entry.unreadable, RedisCmd.Unreadable]) (by simp [Entry.ranked]))
      · exact under_pure (hranked [⟨.redis (.del _), _⟩, ⟨.cacheInit, true⟩,
          ⟨.redis (.zlexcount _ _), _⟩, ⟨.cacheInit, true⟩] (by simp [Entry.Settled, Call.Later,
            Entry.unreadable, RedisCmd.Unreadable]) (by simp [Entry.ranked]))
    · have hne : ¬ Has Entry.ranked [⟨.redis (.zlexcount FILE_PUBLIC_ZSET
          (shareFileid md5 filename)), some reply⟩, ⟨.cacheInit, true⟩] := by
        simp [Entry.ranked, hr]
      cases reply with
      | integer n =>
          refine under_pure ?_
          rw [if_neg fun hn => hr (by rw [hn])]
          exact hcheck _ hne
      | status | error | nil | string | array =>
          refine under_pure ?_
          rw [if_neg (by decide)]
          exact hcheck _ hne

theorem exact_handleShareFile (user md5 filename : Bytes) :
    Exact (fun l => Has Entry.unreadable l ∨ Has (Entry.nullCache .rankingList) l ∨
        Has (Entry.nullDb .filehubMaster) l ∧ Has Entry.lockSet l ∧ ¬ Has Entry.ranked l)
      (handleShareFile user md5 filename) := by
  refine under_bind (under_getDBConn fun live => under_bind (under_getCacheConn fun cache => ?_))
  refine under_bind (under_ask .time nofun fun now => ?_)
  cases cache with
  | false =>
      refine under_bind (under_bind (under_commandOr (fun _ => ?_) nofun nofun nofun))
      simp [Entry.nullCache]
  | true =>
      refine under_bind ((under_acquireShareLock _ _ 10 _).mono ?_)
      rintro taken _ ⟨added, rfl, hadded, htaken⟩
      have hsettled : ∀ e ∈ added, Entry.Settled e := fun e he => (ofLock_settled (hadded e he)).1
      cases taken with
      | false =>
          refine under_pure ?_
          have hset : ¬ Has Entry.lockSet added := fun h => Bool.false_ne_true (htaken.mpr h)
          beta_reduce
          rw [settled_unreadable hsettled, settled_nullCache hsettled]
          simp [Entry.unreadable, Entry.nullCache, Entry.lockSet, has_append, hset]
      | true =>
          have hset : Has Entry.lockSet added := htaken.mp rfl
          rw [if_pos rfl]
          cases live with
          | true =>
              refine under_steady (steady_bind (steady_shareLocked user md5 filename) fun state =>
                steady_bind (steady_commandOr fun _ => ⟨trivial, id⟩) fun _ => steady_pure _)
                (fun _ => Or.inl) fun more hmore => ?_
              rw [settled_unreadable hmore, settled_unreadable hsettled,
                settled_nullCache hmore, settled_nullCache hsettled, settled_nullDb hmore,
                settled_nullDb hsettled]
              simp [Entry.unreadable, Entry.nullCache, Entry.nullDb]
          | false =>
              have hranked : ¬ Has Entry.ranked added := fun ⟨e, he, hr⟩ =>
                (ofLock_settled (hadded e he)).2 hr
              refine under_shareLocked_null user md5 filename _ (fun _ => Or.inl) ?_ ?_
              · intro before hbefore
                refine .inr (.inr ⟨?_, ?_, ?_⟩)
                · simp [has_append, Entry.nullDb]
                · simp [has_append, hset]
                · simp [has_append, hbefore, hranked, Entry.ranked]
              · intro more hmore hmoreRanked
                rw [settled_unreadable hmore, settled_unreadable hsettled,
                  settled_nullCache hmore, settled_nullCache hsettled]
                simp [Entry.unreadable, Entry.nullCache, has_append, hmoreRanked]

/-! ### The public list and the ranking -/

theorem under_handleGetSharefilesCount {E : Log Resp → Prop} {Q : Int × Int → Log Resp → Prop}
    {log : Log Resp} (hnull : E (⟨.getDBConn .filehubSlave, false⟩ :: log))
    (hfailed : Q (1, 0) (⟨.select .shareCount, none⟩ :: ⟨.getDBConn .filehubSlave, true⟩ :: log))
    (hcounted : ∀ counts : List Int, Q (0, counts.headD 0)
      (⟨.select .shareCount, some counts⟩ :: ⟨.getDBConn .filehubSlave, true⟩ :: log)) :
    Under E Q handleGetSharefilesCount log := by
  refine under_bind (under_getDBConn fun live => ?_)
  cases live with
  | false => exact under_query_null hnull _ _
  | true =>
      refine under_bind (under_executeQuery nofun fun _ rows => ?_)
      rcases rows with _ | (_ | ⟨count, rest⟩)
      · exact under_pure hfailed
      · exact under_pure (hcounted [])
      · exact under_pure (hcounted (count :: rest))

@[simp] theorem connections_nil (pool : DbPool) : connections pool [] = [] := rfl

@[simp] theorem connections_getDBConn (pool : DbPool) (live : Bool) (log : Log Resp) :
    connections pool (⟨.getDBConn pool, live⟩ :: log) = live :: connections pool log := by
  simp [connections]

theorem connections_of_later (pool : DbPool) {e : Entry} (he : e.1.Later) (log : Log Resp) :
    connections pool (e :: log) = connections pool log := by
  obtain ⟨c, r⟩ := e
  cases c with
  | getDBConn p => exact he.elim
  | _ => rfl

theorem settled_connections (pool : DbPool) {added log : Log Resp}
    (h : ∀ e ∈ added, Entry.Settled e) :
    connections pool (added ++ log) = connections pool log := by
  induction added with
  | nil => rfl
  | cons e added ih =>
      obtain ⟨he, hadded⟩ := List.forall_mem_cons.mp h
      rw [List.cons_append, connections_of_later pool he.1, ih hadded]

/-- The size of the ranking and the number of shares are asked for once. -/
theorem settled_size (n : Int) {added log : Log Resp} (h : ∀ e ∈ added, Entry.Settled e) :
    Has (Entry.size n) (added ++ log) ↔ Has (Entry.size n) log := by
  refine has_settled (fun e he hP => ?_) h
  unfold Entry.size at hP
  split at hP
  · exact he.1
  · exact hP

theorem settled_shares (n : Int) {added log : Log Resp} (h : ∀ e ∈ added, Entry.Settled e) :
    Has (Entry.shares n) (added ++ log) ↔ Has (Entry.shares n) log := by
  refine has_settled (fun e he hP => ?_) h
  unfold Entry.shares at hP
  split at hP
  · exact he.1
  · exact hP

theorem exact_handleGetShareFilelist (start count : Int) :
    Exact (fun l => (connections .filehubSlave l).head? = some false ∨
        Has (Entry.nullDb .filehubSlave) l ∧ Has Entry.counted l)
      (handleGetShareFilelist start count) := by
  refine under_bind (under_getDBConn fun live => ?_)
  refine under_bind (under_handleGetSharefilesCount ?_ ?_ fun counts => ?_)
  · simp
  · exact under_pure (by simp [connections, Entry.counted])
  · dsimp only
    rw [if_pos rfl]
    cases live with
    | false =>
        refine under_query_null ?_ _ _
        simp [Entry.nullDb, Entry.counted]
    | true =>
        refine under_bind (under_executeQuery nofun fun _ rows => ?_)
        cases rows <;> exact under_pure (by simp [connections, Entry.nullDb])

theorem steady_listRanking (start count : Int) (sql_num : Option Int) :
    Steady (Has Entry.unreadable) (listRanking ⟨true⟩ start count sql_num) := by
  cases sql_num with
  | none => exact steady_pure _
  | some n =>
      refine steady_bind (steady_readRanking start count) fun files => ?_
      cases files <;> exact steady_pure _

theorem settled_storesDiffer {added log : Log Resp} (h : ∀ e ∈ added, Entry.Settled e) :
    StoresDiffer (added ++ log) ↔ StoresDiffer log := by
  simp only [StoresDiffer, settled_size _ h, settled_shares _ h]

/-- The log once both stores have been asked for their number. -/
def rankingLog (outer inner : Bool) (counts : List Int) (size : Option Reply) : Log Resp :=
  [⟨.redis (.zcard FILE_PUBLIC_ZSET), size⟩, ⟨.cacheInit, true⟩,
    ⟨.select .shareCount, some counts⟩, ⟨.getDBConn .filehubSlave, inner⟩,
    ⟨.getCacheConn .rankingList, true⟩, ⟨.getDBConn .filehubSlave, outer⟩]

theorem storesDiffer_rankingLog (outer inner : Bool) (counts : List Int) (n : Int) :
    StoresDiffer (rankingLog outer inner counts (some (.integer n))) ↔
      n ≠ -1 ∧ n ≠ counts.headD 0 := by
  simp [StoresDiffer, rankingLog, Entry.size, Entry.shares]

/-- What `handleGetRankingFilelist` crashes on. -/
def RankingFatal (log : Log Resp) : Prop :=
  Has Entry.unreadable log ∨ (connections .filehubSlave log).head? = some false ∨
    Has (Entry.nullCache .rankingList) log ∧ Has Entry.counted log ∨
    Has (Entry.nullDb .filehubSlave) log ∧ StoresDiffer log

theorem not_rankingFatal {outer : Bool} {counts : List Int} {reply : Reply}
    (hagree : outer = false → ¬ StoresDiffer (rankingLog outer true counts (some reply)))
    {added : Log Resp} (h : ∀ e ∈ added, Entry.Settled e) :
    ¬ RankingFatal (added ++ rankingLog outer true counts (some reply)) := by
  rw [RankingFatal, settled_unreadable h, settled_connections _ h, settled_nullCache h,
    settled_nullDb h, settled_storesDiffer h]
  rintro (hu | hc | hn | ⟨hn, hd⟩)
  · simp [rankingLog, Entry.unreadable, RedisCmd.Unreadable] at hu
  · simp [rankingLog, connections] at hc
  · simp [rankingLog, Entry.nullCache] at hn
  · refine hagree ?_ hd
    simpa [rankingLog, Entry.nullDb] using hn

/-- The two stores compared, with the sizes known. -/
theorem under_syncRanking_sized {outer : Bool} {counts : List Int} {reply : Reply} {n : Int}
    (hn : reply = .integer n ∨ n = -1 ∧ ∀ m, reply ≠ .integer m) (start count : Int) :
    Under RankingFatal (fun sql_num => Under RankingFatal (fun _ l => ¬ RankingFatal l)
        (listRanking ⟨true⟩ start count sql_num))
      (if n = -1 then return none
      else if n = counts.headD 0 then return some (counts.headD 0)
      else do
        let rebuilt ← rebuildRanking ⟨outer⟩ ⟨true⟩
        return if rebuilt then some (counts.headD 0) else none)
      (rankingLog outer true counts (some reply)) := by
  have hlist (sql_num : Option Int) (hagree : n = -1 ∨ n = counts.headD 0) :
      Under RankingFatal (fun _ l => ¬ RankingFatal l) (listRanking ⟨true⟩ start count sql_num)
        (rankingLog outer true counts (some reply)) := by
    refine under_steady (steady_listRanking start count sql_num) (fun _ => Or.inl)
      fun added hadded => not_rankingFatal (fun _ => ?_) hadded
    rcases hn with rfl | ⟨_, hno⟩
    · rw [storesDiffer_rankingLog]
      omega
    · simp [StoresDiffer, rankingLog, Entry.size, hno]
  split
  · next hdown => exact under_pure (hlist none (.inl hdown))
  · next hup =>
      split
      · next hsame => exact under_pure (hlist _ (.inr hsame))
      · next hdiff =>
          cases outer with
          | true =>
              refine under_bind (((steady_rebuildRanking _).mono_crash fun _ => Or.inl).mono ?_)
              rintro rebuilt _ ⟨added, rfl, hadded⟩
              refine under_pure (under_steady (steady_listRanking start count _)
                (fun _ => Or.inl) fun more hmore => ?_)
              rw [← List.append_assoc]
              refine not_rankingFatal (fun h => Bool.noConfusion h) fun e he => ?_
              exact (List.mem_append.mp he).elim (hmore e) (hadded e)
          | false =>
              -- both keys are dropped before the table is asked for
              have hdel (key : Bytes) : Steady RankingFatal (CacheConn.del ⟨true⟩ key) :=
                steady_commandOr fun _ => ⟨trivial, id⟩
              refine under_bind (under_bind ((hdel _ _).mono ?_))
              rintro _ _ ⟨added, rfl, hadded⟩
              refine under_bind ((hdel _ _).mono ?_)
              rintro _ _ ⟨more, rfl, hmore⟩
              refine under_query_null (.inr (.inr (.inr ⟨?_, ?_⟩))) _ _
              · rw [settled_nullDb hmore, settled_nullDb hadded]
                simp [rankingLog, Entry.nullDb]
              · rw [settled_storesDiffer hmore, settled_storesDiffer hadded]
                rcases hn with rfl | ⟨hn, _⟩
                · exact (storesDiffer_rankingLog _ _ _ _).mpr ⟨hup, hdiff⟩
                · exact absurd hn hup

theorem exact_handleGetRankingFilelist (start count : Int) :
    Exact RankingFatal (handleGetRankingFilelist start count) := by
  refine under_bind (under_getDBConn fun outer => under_bind (under_getCacheConn fun cache => ?_))
  refine under_bind (under_bind (under_handleGetSharefilesCount ?_ ?_ fun counts => ?_))
  · simp [RankingFatal]
  · refine under_pure (under_pure ?_)
    simp [RankingFatal, connections, Entry.unreadable, Entry.counted, StoresDiffer, Entry.size]
  · dsimp only
    rw [if_pos rfl]
    cases cache with
    | false =>
        refine under_command_null ?_ _
        simp [RankingFatal, Entry.nullCache, Entry.counted]
    | true =>
        refine under_bind (under_commandDeref nofun (fun _ => ?_) (fun _ => ?_)
          fun _ reply => ?_)
        · rw [if_pos rfl]
          refine under_pure (under_pure ?_)
          simp [RankingFatal, connections, Entry.unreadable, Entry.nullCache, StoresDiffer,
            Entry.size]
        · simp [RankingFatal, Entry.unreadable, RedisCmd.Unreadable]
        · cases reply with
          | integer n => exact under_pure (under_syncRanking_sized (.inl rfl) start count)
          | status | error | nil | string | array =>
              refine under_pure (under_syncRanking_sized (n := -1) (.inr ⟨rfl, ?_⟩) start count)
              intro m h
              cases h

/-! ## All handlers -/

namespace ApiHandler

theorem exact_run {α : Type} {F : Log Resp → Prop} {p : Handler α} (h : Exact F p) :
    Exact F (p >>= fun _ => pure ()) := by
  refine under_bind (Under.mono ?_ h)
  intro a l hl
  exact under_pure hl

theorem run_exact (h : ApiHandler) : Exact (fun l => h.Fatal l) h.run := by
  cases h with
  | verifyToken user_name token => exact exact_run (exact_verifyToken user_name token)
  | setToken user_name => exact exact_run (exact_setToken user_name)
  | verifyUserPassword user_name pwd =>
      exact exact_run (exact_verifyUserPassword user_name pwd)
  | registerUser req => exact exact_run (exact_registerUser req)
  | handleDealMd5 user md5 filename => exact exact_run (exact_handleDealMd5 user md5 filename)
  | uploadForm ip form => exact exact_run (exact_uploadForm ip form)
  | handleUserFilesCount user_name => exact exact_run (exact_handleUserFilesCount user_name)
  | getUserFileList user_name start count =>
      exact exact_run (exact_getUserFileList user_name start count)
  | handleSharePicture user filemd5 file_name =>
      exact exact_run (exact_handleSharePicture user filemd5 file_name)
  | handleBrowsePicture urlmd5 => exact exact_run (exact_handleBrowsePicture urlmd5)
  | handleGetSharePicturesList user start count =>
      exact exact_run (exact_handleGetSharePicturesList user start count)
  | handleCancelSharePicture user urlmd5 =>
      exact exact_run (exact_handleCancelSharePicture user urlmd5)
  | handleShareFile user md5 filename =>
      exact exact_run (exact_handleShareFile user md5 filename)
  | handleDeleteFile user md5 filename =>
      exact exact_run (exact_handleDeleteFile user md5 filename)
  | dealfilePv user md5 filename => exact exact_run (exact_dealfilePv user md5 filename)
  | handleGetSharefilesCount => exact exact_run exact_handleGetSharefilesCount
  | handleGetShareFilelist start count =>
      exact exact_run (exact_handleGetShareFilelist start count)
  | handleGetRankingFilelist start count =>
      exact exact_run (exact_handleGetRankingFilelist start count)
  | handleCancelShareFile user_name md5 filename =>
      exact exact_run (exact_handleCancelShareFile user_name md5 filename)
  | handleSaveFile user_name md5 filename =>
      exact exact_run (exact_handleSaveFile user_name md5 filename)
  | dealsharefilePv md5 filename => exact exact_run (exact_dealsharefilePv md5 filename)

/-- A handler runs to its return exactly where none of its fatal outcomes came up. -/
theorem returns_iff (h : ApiHandler) (ω : ℕ → Outcomes) :
    (runUnder ω h.run).res.isSome ↔ ¬ h.Fatal (runUnder ω h.run).st := by
  cases hres : (runUnder ω h.run).res with
  | none => exact iff_of_false Bool.false_ne_true fun hn => hn (h.run_exact.crashed hres)
  | some a => exact iff_of_true rfl (h.run_exact.returned hres)

/-- A deletion whose first query fails reads the null result set. -/
theorem failedStatus_crashes :
    ¬ ∀ (h : ApiHandler) (ω : ℕ → Outcomes), (runUnder ω h.run).res.isSome := by
  intro hall
  have hdelete := hall (.handleDeleteFile (ascii "u") (ascii "m") (ascii "f"))
    fun _ => Outcomes.failing
  exact Bool.false_ne_true hdelete

end ApiHandler

end FileHub
