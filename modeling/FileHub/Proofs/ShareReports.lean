import FileHub.Proofs.KnownCalls
import FileHub.Proofs.Scripts
import FileHub.Proofs.ShareFlag

/-!
# What the commands on a shared file report

A command of `ApiDealsharefile` reports twice: its handler returns a number,
and the answer carries a code. Both should say whether the command did what it
is for. The code is 0 whatever happened, since only a negative number becomes a
1 and no handler returns one, so a command reports truly just when it has done
its work and its handler says so.
-/

namespace FileHub

open Lib
open Lib.Sql (Plain)
open Prog (ask after Along along_bind)

inductive ShareCommand where
  | cancel
  | save

namespace ShareCommand

def name : ShareCommand → Bytes
  | .cancel => ascii "cancel"
  | .save => ascii "save"

def handle (req : ShareRequest) : ShareCommand → Handler Int
  | .cancel => handleCancelShareFile req.user req.md5 req.filename
  | .save => handleSaveFile req.user req.md5 req.filename

/-- The command has done what it is for: the share is gone from all the stores,
or the row is there and was not. -/
def Done (req : ShareRequest) (w w' : World) : ShareCommand → Prop
  | .cancel =>
      ¬w'.db.IsShared (cStr req.user, cStr req.md5, cStr req.filename) ∧
      ¬w'.db.IsFlagged (cStr req.user, cStr req.md5, cStr req.filename) ∧
      ¬w'.redis.Ranked (shareFileid req.md5 req.filename) ∧
      ¬w'.redis.Named (shareFileid req.md5 req.filename)
  | .save =>
      w.db.own req.user req.md5 req.filename = none ∧
        (w'.db.own req.user req.md5 req.filename).isSome

/-- Answer and returned number tell whether it has. -/
def ReportsTruly (cmd : ShareCommand) (req : ShareRequest) (w : World) (ret : Int)
    (run : Prog.Outcome World Ans (Int × Option JsonValue)) : Prop :=
  (run.res = some (0, some (.code 0)) ↔ cmd.Done req w run.st) ∧
    (ret = 0 ↔ cmd.Done req w run.st)

/-- What has to go well. A cancellation asks for its connections, updates the flag
and deletes the share, and sends the two commands, each with its `Init`; it must
find the name gone from the hash already: `Hdel` returns the number of fields it
removed, and only 0 passes for success. A save asks for its connection and the
user's row, and counts up under the lock; after the time comes the `INSERT`. -/
def Succeeds (req : ShareRequest) (w : World) (ω : ℕ → Ans) : ShareCommand → Prop
  | .cancel =>
      (ω 2).ok ∧ (ω 3).ok ∧ (ω 4).ok ∧ (ω 5).ok ∧
      (w.redis.zset? FILE_PUBLIC_ZSET).isSome ∧
      (ω 6).ok ∧ ((ω 7).ok ∨ (ω 7).refused) ∧
      ¬w.redis.Named (shareFileid req.md5 req.filename)
  | .save =>
      w.db.own req.user req.md5 req.filename = none ∧
      (ω 2).ok ∧ (ω 3).ok ∧ (w.db.info req.md5).isSome ∧ (ω 6).ok

end ShareCommand

/-! ## Cancelling -/

section

variable {req : ShareRequest} {w : World} {ω : ℕ → Ans}

theorem not_isFlagged_cancelled (db : Db) (user md5 filename : Bytes) :
    ¬((db.sql (.setSharedStatus 0 user md5 filename)).sql
      (.deleteShare user md5 filename)).IsFlagged (cStr user, cStr md5, cStr filename) := by
  intro h
  have hflag : _ ∧ (0 : Int) = 1 :=
    if_pos rfl ▸ (Db.isFlagged_setSharedStatus 0 user md5 filename).mp h
  exact absurd hflag.2 (by decide)

theorem not_isShared_deleteShare (db : Db) (user md5 filename : Bytes) :
    ¬(db.sql (.deleteShare user md5 filename)).IsShared (cStr user, cStr md5, cStr filename) :=
  fun h => ((Db.isShared_deleteShare user md5 filename).mp h).1 rfl

theorem reply_hdel (w : World) {id : Bytes} (hid : cStr id = id) :
    (w.reply (.hdel FILE_NAME_HASH id)).toInteger = 0 ↔ ¬w.redis.Named id := by
  simp only [World.reply, RedisCmd.format, cStr_hashKey, hid, Redis.exec, Redis.Named]
  cases hhash : w.redis.hash? FILE_NAME_HASH with
  | none => simp [wrongType, Reply.toInteger]
  | some h => simp [Reply.toInteger]

theorem reply_zrem (w : World) (id : Bytes) :
    (w.reply (.zrem FILE_PUBLIC_ZSET id)).orFail (fun _ => 0) =
      if (w.redis.zset? FILE_PUBLIC_ZSET).isSome then 0 else -1 := by
  simp only [World.reply, RedisCmd.format, cStr_zsetKey, Redis.exec]
  cases w.redis.zset? FILE_PUBLIC_ZSET with
  | none => rfl
  | some z => rfl

/-- With the two statements through and the member gone, only the name is left. -/
theorem done_cancelled {w' : World}
    (hdb : w'.db = (w.db.sql (.setSharedStatus 0 req.user req.md5 req.filename)).sql
      (.deleteShare req.user req.md5 req.filename))
    (hranked : ¬w'.redis.Ranked (shareFileid req.md5 req.filename)) :
    ShareCommand.cancel.Done req w w' ↔ ¬w'.redis.Named (shareFileid req.md5 req.filename) := by
  rw [ShareCommand.Done, hdb]
  exact ⟨fun h => h.2.2.2, fun h => ⟨not_isShared_deleteShare _ _ _ _,
    not_isFlagged_cancelled _ _ _ _, hranked, h⟩⟩

theorem handleCancelShareFile_along :
    Along step (fun ret w' _ => 0 ≤ ret ∧
        (ShareCommand.cancel.Done req w w' ∧ ret = 0 ↔ ShareCommand.cancel.Succeeds req w ω))
      (handleCancelShareFile req.user req.md5 req.filename) ω w := by
  have hid := cStr_shareFileid req.md5 req.filename
  have hfailed {w' : World} (h : ¬ShareCommand.cancel.Succeeds req w ω) : 0 ≤ (1 : Int) ∧
      (ShareCommand.cancel.Done req w w' ∧ (1 : Int) = 0 ↔
        ShareCommand.cancel.Succeeds req w ω) :=
    ⟨by decide, iff_of_false (fun hdone => absurd hdone.2 (by decide)) h⟩
  rw [handleCancelShareFile, along_bind]
  refine along_getDBConn ?_
  rw [along_bind]
  refine along_getCacheConn ?_
  dsimp only
  rw [along_bind]
  refine along_executeUpdate (fun hstatus => ?_) fun hstatus => hfailed fun h => hstatus h.1
  have hupdated : (((Dml.setSharedStatus 0 req.user req.md5 req.filename).format.exec w.db).any
      fun r => decide (0 < r.1) || !false) = true := by
    simp [Dml.format, Dml.exec]
  rw [hupdated, if_pos rfl, along_bind]
  refine along_execute (fun hshare => ?_) fun hshare => hfailed fun h => hshare h.2.1
  have hdropped : ((Dml.deleteShare req.user req.md5 req.filename).format.exec
      (w.sql (.setSharedStatus 0 req.user req.md5 req.filename)).db).isSome = true := rfl
  rw [hdropped, if_pos rfl, along_bind]
  refine along_commandDeref_orFail (fun r => by cases r <;> rfl)
    (fun hdown => hfailed fun h => hdown h.2.2.1) (fun hup hzrem => ?_)
    fun _ hrefused => hfailed fun h => hrefused.not_ok h.2.2.2.1
  rw [reply_zrem, World.sql_redis, World.sql_redis]
  by_cases hzset : (w.redis.zset? FILE_PUBLIC_ZSET).isSome
  · rw [if_pos hzset, if_pos rfl, along_bind]
    have hnamed := named_zrem ((w.sql (.setSharedStatus 0 req.user req.md5 req.filename)).sql
      (.deleteShare req.user req.md5 req.filename)) (shareFileid req.md5 req.filename)
      (shareFileid req.md5 req.filename)
    have hranked := not_ranked_zrem ((w.sql (.setSharedStatus 0 req.user req.md5
      req.filename)).sql (.deleteShare req.user req.md5 req.filename)) hid
    have hsucceeds (hup' : (ω 6).ok) (hhdel : (ω 7).ok ∨ (ω 7).refused)
        (hname : ¬w.redis.Named (shareFileid req.md5 req.filename)) :
        ShareCommand.cancel.Succeeds req w ω :=
      ⟨hstatus, hshare, hup, hzrem, hzset, hup', hhdel, hname⟩
    have hlost (h : (ω 7).fault = .fail ∨ (ω 7).fault = .lost) :
        ¬ShareCommand.cancel.Succeeds req w ω := fun hok => by
      rcases h with h | h <;>
        simpa [Ans.ok, Ans.refused, h] using hok.2.2.2.2.2.2.1
    refine along_commandOr (fun hdown => hfailed fun h => hdown h.2.2.2.2.2.1)
      (fun hup' hhdel => ?_) (fun hup' hrefused => ?_)
      (fun _ hfail => hfailed (hlost (.inl hfail))) fun _ hfail => hfailed (hlost (.inr hfail))
    · by_cases hname : w.redis.Named (shareFileid req.md5 req.filename)
      · rw [if_neg ((reply_hdel _ hid).not.mpr (not_not.mpr (hnamed.mpr hname)))]
        exact hfailed fun h => h.2.2.2.2.2.2.2 hname
      · rw [if_pos ((reply_hdel _ hid).mpr (hnamed.not.mpr hname))]
        exact ⟨le_rfl, iff_of_true ⟨(done_cancelled rfl ((ranked_hdel _ _ _).not.mpr hranked)).mpr
          (not_named_hdel _ hid), rfl⟩ (hsucceeds hup' (.inl hhdel) hname)⟩
    · have hzero : (Reply.error (after 2 (after 2 (after 2 ω)) 1).text).toInteger = 0 := rfl
      refine ⟨if_pos hzero ▸ le_rfl, ⟨fun h => ?_, fun h => ⟨?_, if_pos hzero⟩⟩⟩
      · exact hsucceeds hup' (.inr hrefused) (hnamed.not.mp ((done_cancelled rfl hranked).mp h.1))
      · exact (done_cancelled rfl hranked).mpr (hnamed.not.mpr h.2.2.2.2.2.2.2)
  · rw [if_neg hzset, if_neg (by decide)]
    exact hfailed fun h => hzset h.2.2.2.2.1

/-! ## Saving -/

theorem along_checkwhetherHaveRecord {conn : CDBConn} {q : Select} {rows : List q.Row}
    {Q : Int → World → (ℕ → Ans) → Prop} (hrun : q.run w.db = some rows)
    (h : ∀ found, (found = 1 → rows ≠ []) → Q found w (after 1 ω)) :
    Along step Q (checkwhetherHaveRecord conn q) ω w := by
  rw [checkwhetherHaveRecord, along_bind]
  refine along_executeQuery (fun _ => ?_) fun _ => h (-1) fun hfound => by cases hfound
  rw [hrun]
  cases rows with
  | nil => exact h 0 fun hfound => by cases hfound
  | cons r rows => exact h 1 fun _ => List.cons_ne_nil _ _

/-- The count is made if the lock is granted, the statement runs and the file is known. -/
theorem countSaved_along {conn : CDBConn} {md5 : Bytes} :
    Along step (fun counted w' ω' =>
        (counted = true ↔ (ω 0).ok ∧ (ω 1).ok ∧ (w.db.info md5).isSome) ∧
        w'.db.userFileList = w.db.userFileList ∧ (counted = true → ω' = after 3 ω))
      (countSaved conn md5) ω w := by
  refine along_scopedFileInfoLock (fun hlock _ => ?_) fun hlock => ?_
  · rw [if_pos rfl]
    refine along_executeUpdate (fun hincr => ⟨?_, rfl, fun _ => rfl⟩) fun hincr =>
      ⟨iff_of_false (by decide) fun h => hincr h.2.1, rfl, fun _ => rfl⟩
    rw [World.setLocked_db, Db.affects_incrCount]
    exact ⟨fun hinfo => ⟨hlock, hincr, hinfo⟩, fun h => h.2.2⟩
  · exact ⟨iff_of_false (by decide) fun h => hlock h.1, rfl, fun h => by cases h⟩

theorem handleSaveFile_along :
    Along step (fun ret w' _ => 0 ≤ ret ∧
        (ShareCommand.save.Done req w w' ∧ ret = 0 ↔ ShareCommand.save.Succeeds req w ω))
      (handleSaveFile req.user req.md5 req.filename) ω w := by
  have hfailed {ret : Int} {w' : World} (hret : 0 < ret)
      (h : ¬ShareCommand.save.Succeeds req w ω) : 0 ≤ ret ∧
        (ShareCommand.save.Done req w w' ∧ ret = 0 ↔ ShareCommand.save.Succeeds req w ω) :=
    ⟨hret.le, iff_of_false (fun hdone => absurd hdone.2 hret.ne') h⟩
  rw [handleSaveFile, along_bind]
  refine along_getDBConn ?_
  rw [along_bind]
  refine along_checkwhetherHaveRecord (Db.run_userFile w.db _ _ _) fun found hfound => ?_
  by_cases hone : found = 1
  · rw [if_pos hone]
    refine hfailed (by decide) fun h => hfound hone ?_
    rw [h.1]
    rfl
  · rw [if_neg hone, along_bind]
    refine countSaved_along.mono fun counted w₁ ω₁ h₁ => ?_
    obtain ⟨hcounted, hlist, hscript⟩ := h₁
    cases counted with
    | false =>
        refine hfailed (by decide) fun h => ?_
        have hnot := hcounted.not.mp (by decide)
        exact hnot ⟨h.2.1, h.2.2.1, h.2.2.2.1⟩
    | true =>
        obtain ⟨hlock, hincr, hinfo⟩ := hcounted.mp rfl
        obtain rfl := hscript rfl
        rw [if_pos rfl, along_bind]
        refine along_localtime ?_
        rw [along_bind]
        refine along_execute (fun hinsert => ?_) fun hinsert =>
          hfailed (by decide) fun h => hinsert h.2.2.2.2
        have hown : w₁.db.own req.user req.md5 req.filename =
            w.db.own req.user req.md5 req.filename := by
          rw [Db.own, hlist, ← Db.own]
        have hinserted := Db.isSome_insertUserFile w₁.db
          (newUserFile req.user req.md5 req.filename (ω 5).text)
        rw [hown] at hinserted
        cases hnone : w.db.own req.user req.md5 req.filename with
        | none =>
            rw [hnone] at hinserted
            refine ⟨(if_pos hinserted).symm ▸ le_rfl, iff_of_true ⟨⟨hnone, ?_⟩, if_pos hinserted⟩
              ⟨hnone, hlock, hincr, hinfo, hinsert⟩⟩
            exact Db.isSome_own_insertUserFile (r := newUserFile req.user req.md5 req.filename
              (ω 5).text) (hown.trans hnone)
        | some r =>
            rw [hnone] at hinserted
            have hrefused := (Bool.eq_false_iff (b := _)).mp hinserted
            exact if_neg hrefused ▸ hfailed (by decide) fun h => by
              rw [h.1] at hnone
              cases hnone

end

/-! ## Both reports -/

namespace ShareCommand

theorem handle_along (cmd : ShareCommand) (req : ShareRequest) (w : World) (ω : ℕ → Ans) :
    Along step (fun ret w' _ => 0 ≤ ret ∧
        (cmd.Done req w w' ∧ ret = 0 ↔ cmd.Succeeds req w ω)) (cmd.handle req) ω w := by
  cases cmd with
  | cancel => exact handleCancelShareFile_along
  | save => exact handleSaveFile_along

theorem known_handle {K : Bytes → Prop} (cmd : ShareCommand) {req : ShareRequest}
    (huser : K req.user) (hmd5 : K req.md5) (hname : K req.filename) :
    KnownCalls K (cmd.handle req) := by
  cases cmd with
  | cancel => exact known_handleCancelShareFile huser hmd5 hname
  | save => exact known_handleSaveFile huser hmd5 hname

theorem dealsharefileCommand_name (cmd : ShareCommand) (req : ShareRequest) :
    dealsharefileCommand cmd.name req = cmd.handle req := by
  cases cmd with
  | cancel => exact if_pos rfl
  | save =>
      rw [dealsharefileCommand, if_neg (by decide)]
      exact if_pos rfl

/-- The answer to a command that returned no negative number. -/
theorem answer_eq {step' : (c : Call) → Ans → World → Option (Resp c × World)}
    (cmd : ShareCommand) {parse : Bytes → Option JsonValue} {stack url post_data : Bytes}
    {req : ShareRequest} (hcmd : cmdOf stack url = cmd.name)
    (hreq : parsed parse post_data decodeDealsharefileJson = .ok req) {ω : ℕ → Ans} {w : World}
    {ret : Int} (hret : (Prog.exec step' ω (cmd.handle req) w).res = some ret) (hpos : 0 ≤ ret) :
    Prog.exec step' ω (apiDealsharefile parse stack url post_data) w =
      ⟨some (0, some (.code 0)), (Prog.exec step' ω (cmd.handle req) w).st,
        (Prog.exec step' ω (cmd.handle req) w).rest⟩ := by
  have hrun : Prog.exec step' ω (cmd.handle req) w = ⟨some ret,
      (Prog.exec step' ω (cmd.handle req) w).st,
      (Prog.exec step' ω (cmd.handle req) w).rest⟩ := by
    rw [← hret]
  rw [apiDealsharefile, hreq, hcmd]
  dsimp only [decoded]
  rw [dealsharefileCommand_name, Prog.exec_bind_some hrun, if_neg (by omega)]
  rfl

/-- A command with known strings reports the truth, in its answer and in what
its handler returns, exactly when it succeeds. -/
theorem reports_iff (server : SqlServer) {K : Bytes → Prop} (hK : server.Tells K)
    (cmd : ShareCommand) {parse : Bytes → Option JsonValue} {stack url post_data : Bytes}
    {req : ShareRequest} (hcmd : cmdOf stack url = cmd.name)
    (hreq : parsed parse post_data decodeDealsharefileJson = .ok req) {w : World}
    (hw : w.db.Known K) (huser : K req.user) (hmd5 : K req.md5) (hname : K req.filename)
    {ω : ℕ → Ans} {ret : Int} (hω : server.Regular ω (cmd.handle req) w)
    (hret : (server.runIn ω (cmd.handle req) w).res = some ret) :
    cmd.ReportsTruly req w ret
        (server.runIn ω (apiDealsharefile parse stack url post_data) w) ↔
      cmd.Succeeds req w ω := by
  have hrun := hK.runIn_eq (known_handle cmd huser hmd5 hname) hw hω
  have hret' : (runIn ω (cmd.handle req) w).res = some ret := hrun ▸ hret
  obtain ⟨hpos, hdone⟩ := (handle_along cmd req w ω).returned hret'
  have hanswered : server.runIn ω (apiDealsharefile parse stack url post_data) w =
      ⟨some (0, some (.code 0)), (server.runIn ω (cmd.handle req) w).st,
        (server.runIn ω (cmd.handle req) w).rest⟩ :=
    answer_eq cmd hcmd hreq hret hpos
  rw [hanswered, hrun, ← hdone]
  constructor
  · rintro ⟨hanswer, hreturn⟩
    have hdone' := hanswer.mp rfl
    exact ⟨hdone', hreturn.mpr hdone'⟩
  · rintro ⟨hdone', hzero⟩
    exact ⟨iff_of_true rfl hdone', iff_of_true hzero hdone'⟩

/-! A share in the ranking, whose name the hash has or does not have. -/

def listedShare (names : List (Σ _ : Bytes, Bytes)) : World :=
  { World.empty with
    db :=
      { Db.empty with
        userFileList := ⟨[⟨ascii "u", ascii "m", ascii "now", ascii "f", 1, 0⟩], by decide⟩
        shareFileList := [⟨ascii "u", ascii "m", ascii "now", ascii "f", 0⟩] }
    redis := Function.update (Function.update (fun _ => none) FILE_PUBLIC_ZSET
      (some (.zset (AList.insert (ascii "mf") 0 ∅)))) FILE_NAME_HASH
      (some (.hash names.toAList)) }

def cancelRequest : ShareRequest := ⟨ascii "u", ascii "m", ascii "f"⟩

def cancelBody (_ : Bytes) : Option JsonValue :=
  some (.object [(ascii "user", .str (ascii "u")), (ascii "md5", .str (ascii "m")),
    (ascii "filename", .str (ascii "f"))])

theorem cancelBody_parsed :
    parsed cancelBody [] decodeDealsharefileJson = .ok cancelRequest := by
  rfl

theorem known_listedShare (names : List (Σ _ : Bytes, Bytes)) :
    (listedShare names).db.Known Plain :=
  ⟨fun r hr => by cases List.mem_singleton.mp hr; decide, nofun,
    fun r hr => by cases List.mem_singleton.mp hr; decide, nofun, nofun⟩

/-- Without a name in the hash the cancellation reports its success. -/
theorem listedShare_cancelled :
    cancel.ReportsTruly cancelRequest (listedShare []) 0
      (SqlServer.strict.runIn allSucceed
        (apiDealsharefile cancelBody [] (ascii "/api/dealsharefile?cmd=cancel") [])
        (listedShare [])) := by
  refine (cancel.reports_iff _ SqlServer.strict_tells (by decide +kernel) cancelBody_parsed
    (known_listedShare []) (by decide) (by decide) (by decide) (by decide +kernel)
    (by decide +kernel)).mpr ?_
  refine ⟨rfl, rfl, rfl, rfl, by decide +kernel, rfl, .inl rfl, ?_⟩
  rintro ⟨h, hh, hmem⟩
  cases hh
  cases hmem

/-- With one, as every share has, the handler returns 1 and the answer says 0. -/
theorem listedShare_misreported :
    ¬∀ ω ret, (SqlServer.strict.runIn ω (cancel.handle cancelRequest)
          (listedShare [⟨ascii "mf", ascii "f"⟩])).res = some ret →
      cancel.ReportsTruly cancelRequest (listedShare [⟨ascii "mf", ascii "f"⟩]) ret
        (SqlServer.strict.runIn ω
          (apiDealsharefile cancelBody [] (ascii "/api/dealsharefile?cmd=cancel") [])
          (listedShare [⟨ascii "mf", ascii "f"⟩])) := by
  intro hall
  have hres : (SqlServer.strict.runIn allSucceed (cancel.handle cancelRequest)
      (listedShare [⟨ascii "mf", ascii "f"⟩])).res = some 1 := by decide +kernel
  have hcmd : cmdOf [] (ascii "/api/dealsharefile?cmd=cancel") = cancel.name := by decide +kernel
  have hcode := congrArg Prog.Outcome.res
    (cancel.answer_eq hcmd cancelBody_parsed hres (by decide))
  obtain ⟨hanswer, hreturn⟩ := hall allSucceed 1 hres
  exact absurd (hreturn.mpr (hanswer.mp hcode)) (by decide)

end ShareCommand

end FileHub
