import FileHub.Proofs.Outcomes

/-!
# Which outcomes a handler dereferences

A pool may give a null connection, a query a null result set and a command a
null reply. Most callers test what they get. Three kinds do not: the sorted set
wrappers read `reply->type` of whatever came back, `GetResultOneStatus` logs a
null result set and then reads it, and outside the token check, `setToken` and
`registerUser` no handler tests a connection before its first use.

A null connection that is never used does no harm, so what is fatal differs
from handler to handler: `Fatal` says, for each, on which outcomes it crashes,
and `returns_iff` that these are all.

`Steady` is for the parts that hold live connections. They can only crash on a
reply that cannot be read, and ask nothing `Fatal` looks at.
-/

namespace FileHub

open Lib
open Prog (Log ask)

/-- A call and what it came to. -/
abbrev Entry := Σ c, Resp c

/-- Some call came to this. -/
def Has (P : Entry → Prop) (log : Log Resp) : Prop := ∃ e ∈ log, P e

@[simp] theorem has_nil (P : Entry → Prop) : ¬ Has P [] := by
  rintro ⟨e, he, _⟩
  cases he

@[simp] theorem has_cons (P : Entry → Prop) (e : Entry) (log : Log Resp) :
    Has P (e :: log) ↔ P e ∨ Has P log := by
  simp only [Has, List.mem_cons, or_and_right, exists_or, exists_eq_left]

theorem has_append (P : Entry → Prop) (log log' : Log Resp) :
    Has P (log ++ log') ↔ Has P log ∨ Has P log' := by
  simp only [Has, List.mem_append, or_and_right, exists_or]

/-! ## What a handler looks at -/

def Entry.nullDb (pool : DbPool) : Entry → Prop
  | ⟨.getDBConn p, live⟩ => p = pool ∧ live = false
  | _ => False

def Entry.nullCache (pool : CachePool) : Entry → Prop
  | ⟨.getCacheConn p, live⟩ => p = pool ∧ live = false
  | _ => False

/-- A reply that carries text: what `ZsetIncr` compares with `OK`. -/
def Reply.Text : Reply → Prop
  | .status _ | .error _ | .string _ => True
  | .integer _ | .nil | .array _ => False

/-- What the wrapper of a command cannot read. -/
def RedisCmd.Unreadable : RedisCmd → Option Reply → Prop
  | .zincrby .., some reply => ¬ reply.Text
  | .zincrby .., none => True
  | .zlexcount .., reply | .zadd .., reply | .zrem .., reply | .zcard _, reply
  | .zrevrange .., reply | .zscore .., reply => reply = none
  | .get _, _ | .set .., _ | .setex .., _ | .del _, _ | .hset .., _ | .hdel .., _
  | .hget .., _ => False

def Entry.unreadable : Entry → Prop
  | ⟨.redis c, reply⟩ => c.Unreadable reply
  | _ => False

/-- The query of `GetResultOneStatus`, and of the record checks, failed. -/
def Entry.ownFailed : Entry → Prop
  | ⟨.select (.userFile ..), rows⟩ => rows = none
  | _ => False

/-- The row of the user is there and says it is shared. -/
def Entry.ownShared : Entry → Prop
  | ⟨.select (.userFile ..), rows⟩ => ∃ row, rows.bind List.head? = some row ∧ row.sharedStatus = 1
  | _ => False

def Entry.shareFound : Entry → Prop
  | ⟨.select (.share ..), rows⟩ => ∃ row, rows.bind List.head? = some row
  | _ => False

def Entry.statementFailed : Entry → Prop
  | ⟨.dml _, affected⟩ => affected = none
  | _ => False

def Entry.counted : Entry → Prop
  | ⟨.select .shareCount, rows⟩ => rows ≠ none
  | _ => False

/-- `SET` answered something: the share lock is taken. -/
def Entry.lockSet : Entry → Prop
  | ⟨.redis (.set ..), reply⟩ => ∃ r, reply = some r ∧ r.str ≠ []
  | _ => False

/-- `ZLEXCOUNT` says that the file is ranked. -/
def Entry.ranked : Entry → Prop
  | ⟨.redis (.zlexcount ..), reply⟩ => reply = some (.integer 1)
  | _ => False

/-- The file-info lock was taken. -/
def Entry.infoLocked : Entry → Prop
  | ⟨.tryLockFor _, taken⟩ => taken = true
  | _ => False

/-- The size of the ranking. -/
def Entry.size (n : Int) : Entry → Prop
  | ⟨.redis (.zcard _), reply⟩ => reply = some (.integer n)
  | _ => False

/-- The number of shares. -/
def Entry.shares (n : Int) : Entry → Prop
  | ⟨.select .shareCount, rows⟩ => ∃ counts, rows = some counts ∧ counts.headD 0 = n
  | _ => False

/-- Whether each connection of a pool was given, the latest first. -/
def connections (pool : DbPool) (log : Log Resp) : List Bool :=
  log.filterMap fun
    | ⟨.getDBConn p, live⟩ => if p = pool then some live else none
    | _ => none

/-- The ranking has a size, and another one than the number of shares. -/
def StoresDiffer (log : Log Resp) : Prop :=
  ∃ redis_num sql_num, Has (Entry.size redis_num) log ∧ Has (Entry.shares sql_num) log ∧
    redis_num ≠ -1 ∧ redis_num ≠ sql_num

/-! ## The handlers -/

/-- The functions that make the calls of the API functions: the handlers of the
commands, and the helpers called before them. -/
inductive ApiHandler where
  | verifyToken (user_name token : Bytes)
  | setToken (user_name : Bytes)
  | verifyUserPassword (user_name pwd : Bytes)
  | registerUser (req : RegisterRequest)
  | handleDealMd5 (user md5 filename : Bytes)
  /-- `ApiUpload` with its form scanned. -/
  | uploadForm (storage_web_server_ip : Bytes) (form : UploadForm)
  | handleUserFilesCount (user_name : Bytes)
  | getUserFileList (user_name : Bytes) (start count : Int)
  | handleSharePicture (user filemd5 file_name : Bytes)
  | handleBrowsePicture (urlmd5 : Bytes)
  | handleGetSharePicturesList (user : Bytes) (start count : Int)
  | handleCancelSharePicture (user urlmd5 : Bytes)
  | handleShareFile (user md5 filename : Bytes)
  | handleDeleteFile (user md5 filename : Bytes)
  | dealfilePv (user md5 filename : Bytes)
  | handleGetSharefilesCount
  | handleGetShareFilelist (start count : Int)
  | handleGetRankingFilelist (start count : Int)
  | handleCancelShareFile (user_name md5 filename : Bytes)
  | handleSaveFile (user_name md5 filename : Bytes)
  | dealsharefilePv (md5 filename : Bytes)

namespace ApiHandler

/-- The handler, with what it returns forgotten. -/
def run : ApiHandler → Handler Unit
  | .verifyToken user_name token => do let _ ← FileHub.verifyToken user_name token
  | .setToken user_name => do let _ ← FileHub.setToken user_name
  | .verifyUserPassword user_name pwd => do let _ ← FileHub.verifyUserPassword user_name pwd
  | .registerUser req => do let _ ← FileHub.registerUser req
  | .handleDealMd5 user md5 filename => do let _ ← FileHub.handleDealMd5 user md5 filename
  | .uploadForm storage_web_server_ip form => do
      let db_conn ← getDBConn .filehubMaster
      let _ ← FileHub.uploadForm storage_web_server_ip db_conn form
  | .handleUserFilesCount user_name => do let _ ← FileHub.handleUserFilesCount user_name
  | .getUserFileList user_name start count => do
      let _ ← FileHub.getUserFileList user_name start count
  | .handleSharePicture user filemd5 file_name => do
      let _ ← FileHub.handleSharePicture user filemd5 file_name
  | .handleBrowsePicture urlmd5 => do let _ ← FileHub.handleBrowsePicture urlmd5
  | .handleGetSharePicturesList user start count => do
      let _ ← FileHub.handleGetSharePicturesList user start count
  | .handleCancelSharePicture user urlmd5 => do
      let _ ← FileHub.handleCancelSharePicture user urlmd5
  | .handleShareFile user md5 filename => do let _ ← FileHub.handleShareFile user md5 filename
  | .handleDeleteFile user md5 filename => do let _ ← FileHub.handleDeleteFile user md5 filename
  | .dealfilePv user md5 filename => do let _ ← Dealfile.handlePvFile user md5 filename
  | .handleGetSharefilesCount => do let _ ← FileHub.handleGetSharefilesCount
  | .handleGetShareFilelist start count => do let _ ← FileHub.handleGetShareFilelist start count
  | .handleGetRankingFilelist start count => do
      let _ ← FileHub.handleGetRankingFilelist start count
  | .handleCancelShareFile user_name md5 filename => do
      let _ ← FileHub.handleCancelShareFile user_name md5 filename
  | .handleSaveFile user_name md5 filename => do
      let _ ← FileHub.handleSaveFile user_name md5 filename
  | .dealsharefilePv md5 filename => do let _ ← DealSharefile.handlePvFile md5 filename

/-- The outcomes a handler crashes on. -/
def Fatal (log : Log Resp) : ApiHandler → Prop
  -- they test the only connection they get
  | .verifyToken .. | .setToken _ | .registerUser _ => False
  -- they use it at once
  | .verifyUserPassword .. | .handleUserFilesCount _ | .getUserFileList ..
  | .handleSharePicture .. | .handleGetSharePicturesList .. | .handleGetSharefilesCount =>
      Has (Entry.nullDb .filehubSlave) log
  | .handleDealMd5 .. | .handleCancelSharePicture .. | .dealfilePv .. | .handleSaveFile .. =>
      Has (Entry.nullDb .filehubMaster) log
  -- it has no `return`
  | .handleBrowsePicture _ => True
  -- it uses it under the lock
  | .uploadForm .. => Has (Entry.nullDb .filehubMaster) log ∧ Has Entry.infoLocked log
  -- the count comes first, over a connection of its own
  | .handleGetShareFilelist .. =>
      (connections .filehubSlave log).head? = some false ∨
        Has (Entry.nullDb .filehubSlave) log ∧ Has Entry.counted log
  | .handleShareFile .. =>
      Has Entry.unreadable log ∨ Has (Entry.nullCache .rankingList) log ∨
        Has (Entry.nullDb .filehubMaster) log ∧ Has Entry.lockSet log ∧ ¬ Has Entry.ranked log
  | .handleDeleteFile .. =>
      Has Entry.unreadable log ∨ Has (Entry.nullDb .filehubMaster) log ∨
        Has Entry.ownFailed log ∨
        Has (Entry.nullCache .rankingList) log ∧ Has Entry.ownShared log
  | .handleCancelShareFile .. =>
      Has Entry.unreadable log ∨ Has (Entry.nullDb .filehubMaster) log ∨
        Has (Entry.nullCache .rankingList) log ∧ ¬ Has Entry.statementFailed log
  | .dealsharefilePv .. =>
      Has Entry.unreadable log ∨ Has (Entry.nullDb .filehubMaster) log ∨
        Has (Entry.nullCache .rankingList) log ∧ Has Entry.shareFound log ∧
          ¬ Has Entry.statementFailed log
  -- the outer connection is used only if the two stores differ
  | .handleGetRankingFilelist .. =>
      Has Entry.unreadable log ∨ (connections .filehubSlave log).head? = some false ∨
        Has (Entry.nullCache .rankingList) log ∧ Has Entry.counted log ∨
        Has (Entry.nullDb .filehubSlave) log ∧ StoresDiffer log

end ApiHandler

/-! ## Parts with live connections -/

/-- What a part with live connections may ask. -/
def Call.Later : Call → Prop
  | .getDBConn _ | .getCacheConn _ => False
  | .select (.userFile ..) | .select .shareCount => False
  | .redis (.zcard _) => False
  | _ => True

def Entry.Settled (e : Entry) : Prop := e.1.Later ∧ ¬ e.unreadable

/-- The part crashes only in `E`, and adds settled entries. -/
def Steady (E : Log Resp → Prop) {α : Type} (p : Handler α) : Prop :=
  ∀ log, Under E
    (fun _ l => ∃ added : Log Resp, l = added ++ log ∧ ∀ e ∈ added, Entry.Settled e) p log

section Rules

variable {α β : Type} {E : Log Resp → Prop}

theorem steady_pure (a : α) : Steady E (pure a) := fun _ =>
  under_pure ⟨[], rfl, nofun⟩

theorem steady_bind {p : Handler α} {f : α → Handler β} (hp : Steady E p)
    (hf : ∀ a, Steady E (f a)) : Steady E (p >>= f) := by
  intro log
  refine under_bind ((hp log).mono ?_)
  rintro a _ ⟨added, rfl, hadded⟩
  refine (hf a _).mono ?_
  rintro b _ ⟨more, rfl, hmore⟩
  refine ⟨more ++ added, by rw [List.append_assoc], fun e he => ?_⟩
  exact (List.mem_append.mp he).elim (hmore e) (hadded e)

theorem settled_one {e : Entry} (he : e.Settled) (log : Log Resp) :
    ∃ added : Log Resp, e :: log = added ++ log ∧ ∀ e ∈ added, Entry.Settled e :=
  ⟨[e], rfl, fun _ h => List.mem_singleton.mp h ▸ he⟩

theorem settled_two {e e' : Entry} (he : e.Settled) (he' : e'.Settled) (log : Log Resp) :
    ∃ added : Log Resp, e :: e' :: log = added ++ log ∧ ∀ e ∈ added, Entry.Settled e := by
  refine ⟨[e, e'], rfl, fun x h => ?_⟩
  rcases List.mem_cons.mp h with rfl | h
  · exact he
  · exact List.mem_singleton.mp h ▸ he'

/-- A call that is no command. -/
theorem steady_ask {c : Call} (hc : c ≠ .crash) (h : ∀ r, Entry.Settled ⟨c, r⟩) :
    Steady E (ask c) := fun log =>
  under_ask c hc fun r => settled_one (h r) log

theorem steady_executeQuery {q : Select} (hq : (Call.select q).Later) :
    Steady E (CDBConn.executeQuery ⟨true⟩ q) := fun log =>
  under_executeQuery nofun fun _ _ => settled_one ⟨hq, id⟩ log

theorem settled_dml (d : Dml) (n : Option ℕ) : Entry.Settled ⟨.dml d, n⟩ := ⟨trivial, id⟩

theorem steady_execute (d : Dml) : Steady E (CDBConn.execute ⟨true⟩ d) := fun log =>
  under_execute nofun fun _ n => settled_one (settled_dml d n) log

theorem steady_executeUpdate (d : Dml) (care : Bool) :
    Steady E (CDBConn.executeUpdate ⟨true⟩ d care) := fun log =>
  under_executeUpdate nofun fun _ n => settled_one (settled_dml d n) log

theorem settled_cacheInit (up : Bool) : Entry.Settled ⟨.cacheInit, up⟩ := ⟨trivial, id⟩

theorem steady_commandOr {c : RedisCmd} {down : α} {value : Reply → α}
    (hc : ∀ reply, Entry.Settled ⟨.redis c, reply⟩) :
    Steady E (CacheConn.commandOr ⟨true⟩ c down value) := fun log =>
  under_commandOr nofun (fun _ => settled_one (settled_cacheInit false) log)
    (fun _ => settled_two (hc none) (settled_cacheInit true) log)
    fun _ reply => settled_two (hc (some reply)) (settled_cacheInit true) log

theorem steady_scopedFileInfoLock {ms : ℕ} {body : Bool → Handler α}
    (h : ∀ b, Steady E (body b)) : Steady E (scopedFileInfoLock ms body) := by
  have htry : Steady E (ask (.tryLockFor ms)) := steady_ask nofun fun _ => ⟨trivial, id⟩
  have hunlock : Steady E (ask .unlock) := steady_ask nofun fun _ => ⟨trivial, id⟩
  refine steady_bind htry fun is_locked => steady_bind (h is_locked) fun r => ?_
  split
  · exact steady_bind hunlock fun _ => steady_pure r
  · exact steady_pure r

/-- A wrapper that reads the reply untested, on the replies it can read and on
the others. -/
theorem steady_commandDeref {c : RedisCmd} {down : α} {value : Reply → Handler α}
    (hlater : (Call.redis c).Later) (hnone : c.Unreadable none)
    (hvalue : ∀ reply, ¬ c.Unreadable (some reply) → Steady (Has Entry.unreadable) (value reply))
    (hcrash : ∀ reply, c.Unreadable (some reply) → value reply = crash) :
    Steady (Has Entry.unreadable) (CacheConn.commandDeref ⟨true⟩ c down value) := by
  intro log
  refine under_commandDeref nofun (fun _ => settled_one (settled_cacheInit false) log)
    (fun _ => (has_cons _ _ _).mpr (.inl hnone)) fun _ reply => ?_
  by_cases hr : c.Unreadable (some reply)
  · rw [hcrash reply hr]
    exact under_crash ((has_cons _ _ _).mpr (.inl hr))
  · refine (hvalue reply hr _).mono ?_
    rintro _ _ ⟨added, rfl, hadded⟩
    refine ⟨added ++ [⟨.redis c, some reply⟩, ⟨.cacheInit, true⟩], ?_, fun e he => ?_⟩
    · rw [List.append_assoc]
      rfl
    · rcases List.mem_append.mp he with he | he
      · exact hadded e he
      · rcases List.mem_cons.mp he with rfl | he
        · exact ⟨hlater, hr⟩
        · exact List.mem_singleton.mp he ▸ settled_cacheInit true

/-- The sorted set wrappers but `ZsetIncr` can read any reply that is there. -/
theorem steady_zset {c : RedisCmd} {down : α} {value : Reply → Handler α}
    (hlater : (Call.redis c).Later) (hnull : ∀ reply, c.Unreadable reply ↔ reply = none)
    (hvalue : ∀ reply, Steady (Has Entry.unreadable) (value reply)) :
    Steady (Has Entry.unreadable) (CacheConn.commandDeref ⟨true⟩ c down value) :=
  steady_commandDeref hlater ((hnull none).mpr rfl) (fun reply _ => hvalue reply)
    fun _ h => nomatch (hnull _).mp h

theorem steady_zsetExist (key member : Bytes) :
    Steady (Has Entry.unreadable) (CacheConn.zsetExist ⟨true⟩ key member) :=
  steady_zset trivial (fun _ => Iff.rfl) fun reply => by cases reply <;> exact steady_pure _

theorem steady_zsetAdd (key : Bytes) (score : Int) (member : Bytes) :
    Steady (Has Entry.unreadable) (CacheConn.zsetAdd ⟨true⟩ key score member) :=
  steady_zset trivial (fun _ => Iff.rfl) fun reply => by cases reply <;> exact steady_pure _

theorem steady_zsetZrem (key member : Bytes) :
    Steady (Has Entry.unreadable) (CacheConn.zsetZrem ⟨true⟩ key member) :=
  steady_zset trivial (fun _ => Iff.rfl) fun reply => by cases reply <;> exact steady_pure _

theorem steady_zsetZrevrange (key : Bytes) (from_pos end_pos : Int) :
    Steady (Has Entry.unreadable) (CacheConn.zsetZrevrange ⟨true⟩ key from_pos end_pos) :=
  steady_zset trivial (fun _ => Iff.rfl) fun reply => by cases reply <;> exact steady_pure _

theorem steady_zsetGetScore (key member : Bytes) :
    Steady (Has Entry.unreadable) (CacheConn.zsetGetScore ⟨true⟩ key member) :=
  steady_zset trivial (fun _ => Iff.rfl) fun reply => by cases reply <;> exact steady_pure _

theorem steady_zsetIncr (key member : Bytes) :
    Steady (Has Entry.unreadable) (CacheConn.zsetIncr ⟨true⟩ key member) := by
  refine steady_commandDeref trivial trivial ?_ ?_
  · intro reply hr
    cases reply with
    | status s | error s | string s =>
        show Steady _ (if cStr s = ascii "OK" then pure 0 else pure (-1))
        split <;> exact steady_pure _
    | integer | nil | array => exact absurd id hr
  · intro reply hr
    cases reply with
    | status s | error s | string s => exact absurd trivial hr
    | integer | nil | array => rfl

/-- What settled entries are not, they do not add. -/
theorem has_settled {P : Entry → Prop} (hP : ∀ e : Entry, e.Settled → ¬ P e)
    {added log : Log Resp} (h : ∀ e ∈ added, Entry.Settled e) :
    Has P (added ++ log) ↔ Has P log := by
  rw [has_append]
  constructor
  · rintro (⟨e, he, hPe⟩ | h')
    · exact absurd hPe (hP e (h e he))
    · exact h'
  · exact Or.inr

end Rules

/-! ## The parts -/

section Parts

variable {E : Log Resp → Prop}

theorem steady_checkwhetherHaveRecord {q : Select} (hq : (Call.select q).Later) :
    Steady E (checkwhetherHaveRecord ⟨true⟩ q) := by
  refine steady_bind (steady_executeQuery hq) fun rows => ?_
  rcases rows with _ | (_ | ⟨row, _⟩) <;> exact steady_pure _

theorem settled_localtime (r : Bytes) : Entry.Settled ⟨.localtime, r⟩ := ⟨trivial, id⟩

theorem steady_localtime : Steady E (ask .localtime) := steady_ask nofun settled_localtime

theorem steady_randomString (len : ℕ) : Steady E (randomString len) := by
  induction len with
  | zero => exact steady_pure []
  | succ len ih =>
      have hrand : Steady E (ask .rand) := steady_ask nofun fun _ => ⟨trivial, id⟩
      exact steady_bind hrand fun n => steady_bind ih fun rest => steady_pure _

/-! ### Without the sorted set -/

theorem steady_countMd5 (md5 : Bytes) : Steady E (countMd5 ⟨true⟩ md5) := by
  refine steady_scopedFileInfoLock fun is_locked => ?_
  split
  · exact steady_bind (steady_execute _) fun _ => steady_pure _
  · exact steady_pure _

theorem steady_getUserFilesCount (user_name : Bytes) :
    Steady E (getUserFilesCount ⟨true⟩ user_name) := by
  refine steady_bind (steady_executeQuery trivial) fun rows => ?_
  rcases rows with _ | (_ | ⟨row, _⟩) <;> exact steady_pure _

theorem steady_getSharePicturesCount (user_name : Bytes) :
    Steady E (getSharePicturesCount ⟨true⟩ user_name) := by
  refine steady_bind (steady_executeQuery trivial) fun rows => ?_
  rcases rows with _ | (_ | ⟨row, _⟩) <;> exact steady_pure _

theorem steady_dropReference (md5 : Bytes) : Steady E (dropReference ⟨true⟩ md5) := by
  refine steady_scopedFileInfoLock fun is_locked => ?_
  split
  · refine steady_bind (steady_executeQuery trivial) fun rows => ?_
    rcases rows with _ | (_ | ⟨row, _⟩)
    · exact steady_pure _
    · exact steady_pure _
    · dsimp only
      split
      · exact steady_bind (steady_executeUpdate _ _) fun _ => steady_pure _
      · split
        · exact steady_bind (steady_execute _) fun _ => steady_pure _
        · exact steady_pure _
  · exact steady_pure _

theorem steady_removeFileFromFastDfs (fileid : Bytes) :
    Steady E (removeFileFromFastDfs fileid) :=
  steady_ask nofun fun _ => ⟨trivial, id⟩

theorem steady_deleteOwned (user md5 filename : Bytes) :
    Steady E (deleteOwned ⟨true⟩ user md5 filename) := by
  refine steady_bind (steady_execute _) fun dropped => ?_
  split
  · refine steady_bind (steady_dropReference md5) fun dropped => ?_
    rcases dropped with _ | ⟨count, file_id⟩
    · exact steady_pure _
    · dsimp only
      split
      · exact steady_bind (steady_removeFileFromFastDfs file_id) fun _ => steady_pure _
      · exact steady_pure _
  · exact steady_pure _

theorem steady_countSaved (md5 : Bytes) : Steady E (countSaved ⟨true⟩ md5) := by
  refine steady_scopedFileInfoLock fun is_locked => ?_
  split
  · exact steady_executeUpdate _ _
  · exact steady_pure _

theorem steady_insertUploaded (user filename md5 : Bytes) (file_exsit : Bool) :
    Steady E (insertUploaded ⟨true⟩ user filename md5 file_exsit) :=
  steady_bind steady_localtime fun _ => steady_bind (steady_execute _) fun _ => steady_pure _

theorem steady_storeFileinfo (user filename md5 : Bytes) (size : Int) (fileid url : Bytes) :
    Steady E (storeFileinfo ⟨true⟩ user filename md5 size fileid url) := by
  refine steady_scopedFileInfoLock fun is_locked => ?_
  split
  · refine steady_bind (steady_execute _) fun created => ?_
    split
    · exact steady_insertUploaded _ _ _ _
    · refine steady_bind (steady_execute _) fun updated => ?_
      split
      · exact steady_insertUploaded _ _ _ _
      · exact steady_pure _
  · exact steady_pure _

/-! ### With the sorted set -/

theorem steady_publishShare (fileid filename : Bytes) :
    Steady (Has Entry.unreadable) (publishShare ⟨true⟩ fileid filename) :=
  steady_bind (steady_zsetAdd _ _ _) fun _ =>
    steady_bind (steady_commandOr fun _ => ⟨trivial, id⟩) fun _ => steady_pure ()

theorem steady_shareLocked (user md5 filename : Bytes) :
    Steady (Has Entry.unreadable) (shareLocked ⟨true⟩ ⟨true⟩ user md5 filename) := by
  have hpublish (r : Int) : Steady (Has Entry.unreadable) (do
      publishShare ⟨true⟩ (shareFileid md5 filename) filename
      return r) :=
    steady_bind (steady_publishShare _ _) fun _ => steady_pure r
  refine steady_bind (steady_zsetExist _ _) fun ret => ?_
  split
  · exact steady_pure _
  · refine steady_bind (steady_checkwhetherHaveRecord trivial) fun ret => ?_
    split
    · exact hpublish 3
    · refine steady_bind (steady_executeUpdate _ _) fun updated => ?_
      split
      · refine steady_bind steady_localtime fun create_time => ?_
        refine steady_bind (steady_execute _) fun inserted => ?_
        split
        · exact hpublish 0
        · refine steady_bind (steady_checkwhetherHaveRecord trivial) fun ret => ?_
          split
          · exact hpublish 0
          · exact steady_pure _
      · exact steady_pure _

theorem steady_deleteShared (user md5 filename : Bytes) :
    Steady (Has Entry.unreadable) (deleteShared ⟨true⟩ ⟨true⟩ user md5 filename) :=
  steady_bind (steady_zsetZrem _ _) fun _ =>
    steady_bind (steady_commandOr fun _ => ⟨trivial, id⟩) fun _ => steady_execute _

theorem steady_countRanking (pv : Int) (md5 filename : Bytes) :
    Steady (Has Entry.unreadable) (countRanking ⟨true⟩ pv md5 filename) := by
  refine steady_bind (steady_zsetExist _ _) fun ret => ?_
  split
  · exact steady_pure _
  · split
    · refine steady_bind (steady_zsetAdd _ _ _) fun ret => ?_
      split
      · exact steady_bind (steady_commandOr fun _ => ⟨trivial, id⟩) fun _ => steady_pure _
      · exact steady_pure _
    · exact steady_bind (steady_zsetIncr _ _) fun _ => steady_pure _

theorem steady_importShares (rows : List ShareRow) :
    Steady (Has Entry.unreadable) (importShares ⟨true⟩ rows) := by
  induction rows with
  | nil => exact steady_pure ()
  | cons row rows ih =>
      refine steady_bind (steady_zsetAdd _ _ _) fun _ => ?_
      exact steady_bind (steady_commandOr fun _ => ⟨trivial, id⟩) fun _ => ih

theorem steady_rebuildRanking :
    Steady (Has Entry.unreadable) (rebuildRanking ⟨true⟩ ⟨true⟩) := by
  refine steady_bind (steady_commandOr fun _ => ⟨trivial, id⟩) fun _ => ?_
  refine steady_bind (steady_commandOr fun _ => ⟨trivial, id⟩) fun _ => ?_
  refine steady_bind (steady_executeQuery trivial) fun rows => ?_
  cases rows with
  | none => exact steady_pure _
  | some rows => exact steady_bind (steady_importShares rows) fun _ => steady_pure _

theorem steady_rankedFiles (values : List Bytes) :
    Steady (Has Entry.unreadable) (rankedFiles ⟨true⟩ values) := by
  induction values with
  | nil => exact steady_pure _
  | cons value values ih =>
      refine steady_bind (steady_commandOr fun _ => ⟨trivial, id⟩) ?_
      rintro ⟨found, filename⟩
      dsimp only
      split
      · refine steady_bind (steady_zsetGetScore _ _) fun score => ?_
        split
        · exact steady_pure _
        · exact steady_bind ih fun _ => steady_pure _
      · exact steady_pure _

theorem steady_readRanking (start count : Int) :
    Steady (Has Entry.unreadable) (readRanking ⟨true⟩ start count) := by
  rw [readRanking]
  split
  · exact steady_pure _
  · refine steady_bind (steady_zsetZrevrange _ _ _) ?_
    rintro ⟨found, values⟩
    dsimp only
    split
    · exact steady_rankedFiles values
    · exact steady_pure _

end Parts

end FileHub
