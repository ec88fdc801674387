import FileHub.Api.Requests
import FileHub.Lib.Issues
import FileHub.Proofs.Calls

/-!
# Which calls the handlers make

A bound `P` on calls holds of everything a handler does once it holds of its own
queries, statements and commands, with the arguments the handler gives them, and
of the calls that are always allowed (`Call.Free`). What an answer puts into a
later call need only be bounded where the answer satisfies `R`. The lemmas say
so handler by handler (`asks_..`); where `P` holds of every call that only
reads, less has to be shown (`uses_..`).
-/

namespace FileHub

open Lib
open Prog (ask Asks Issues issues_ask)

/-- The calls that carry nothing to MySQL and Redis, and change nothing. -/
def Call.Free : Call → Prop
  | .getDBConn _ | .stmtInit | .getCacheConn _ | .cacheInit | .rename .. | .unlink _
  | .fdfsFileInfo _ | .time | .localtime | .uuid | .crash => True
  | .select _ | .dml _ | .redis _ | .tryLockFor _ | .unlock | .fdfsUpload _ | .fdfsDelete _
  | .rand => False

theorem Call.Free.reads {c : Call} (h : c.Free) : c.Reads := by
  cases c with
  | select | dml | redis | tryLockFor | unlock | fdfsUpload | fdfsDelete | rand => cases h
  | _ => trivial

section

variable {α β : Type} {P : Call → Prop} {R : (c : Call) → Resp c → Prop}

theorem asks_scopedFileInfoLock {ms : ℕ} {body : Bool → Handler α}
    (htry : P (.tryLockFor ms)) (hunlock : P .unlock) (hbody : ∀ b, Asks P R (body b)) :
    Asks P R (scopedFileInfoLock ms body) := by
  refine (uses_ask htry).asks.bind fun is_locked => (hbody is_locked).bind fun r => ?_
  split
  · exact (uses_ask hunlock).asks.bind fun _ => trivial
  · trivial

theorem asks_decoded {d : Except DecodeError α} {failed : Handler β} {next : α → Handler β}
    (hcrash : P .crash) (hfailed : Asks P R failed) (hnext : ∀ a, d = .ok a → Asks P R (next a)) :
    Asks P R (decoded d failed next) := by
  match d with
  | .error .reject => exact hfailed
  | .error .thrown => exact (uses_crash hcrash).asks
  | .ok a => exact hnext a rfl

theorem uses_scopedFileInfoLock {ms : ℕ} {body : Bool → Handler α}
    (htry : P (.tryLockFor ms)) (hunlock : P .unlock) (hbody : ∀ b, (body b).Uses P) :
    (scopedFileInfoLock ms body).Uses P :=
  (asks_scopedFileInfoLock htry hunlock fun b => (hbody b).asks).uses

theorem uses_decoded {d : Except DecodeError α} {failed : Handler β} {next : α → Handler β}
    (hcrash : P .crash) (hfailed : failed.Uses P) (hnext : ∀ a, d = .ok a → (next a).Uses P) :
    (decoded d failed next).Uses P :=
  (asks_decoded hcrash hfailed.asks fun a ha => (hnext a ha).asks).uses

/-- The link of a picture. -/
def IsLetters (n : ℕ) (s : Bytes) : Prop := s.length = n ∧ ∀ b ∈ s, 97 ≤ b ∧ b ≤ 122

theorem issues_randomString (hrand : P .rand) (n : ℕ) :
    Issues P R (IsLetters n) (randomString n) := by
  induction n with
  | zero => exact ⟨rfl, fun _ hb => nomatch hb⟩
  | succ n ih =>
      refine (uses_ask hrand).asks.bind fun m => ih.bind fun rest hrest => ?_
      refine ⟨congrArg (· + 1) hrest.1, fun b hb => ?_⟩
      rcases List.mem_cons.mp hb with rfl | hb
      · have hmod := Nat.mod_lt m (show 26 > 0 by decide)
        simp only [UInt8.le_iff_toNat_le, Nat.toUInt8, UInt8.toNat_ofNat']
        refine ⟨?_, ?_⟩ <;> simp <;> omega
      · exact hrest.2 b hb

/-! ## The ranking -/

section Ranking

variable {cache_conn : CacheConn} (hinit : P .cacheInit) (hcrash : P .crash)

include hinit hcrash

theorem uses_importShares
    (hzadd : ∀ pv member, P (.redis (.zadd FILE_PUBLIC_ZSET pv member)))
    (hhset : ∀ field value, P (.redis (.hset FILE_NAME_HASH field value)))
    (rows : List ShareRow) : (importShares cache_conn rows).Uses P := by
  induction rows with
  | nil => trivial
  | cons row rows ih =>
      exact .bind (uses_zsetAdd hinit (hzadd _ _) hcrash) fun _ =>
        .bind (uses_commandOr hinit (hhset _ _) hcrash) fun _ => ih

theorem uses_rebuildRanking {db_conn : CDBConn} (hquery : P (.select .shareByPv))
    (hdel : ∀ key, P (.redis (.del key)))
    (hzadd : ∀ pv member, P (.redis (.zadd FILE_PUBLIC_ZSET pv member)))
    (hhset : ∀ field value, P (.redis (.hset FILE_NAME_HASH field value))) :
    (rebuildRanking db_conn cache_conn).Uses P := by
  refine .bind (uses_commandOr hinit (hdel _) hcrash) fun _ => ?_
  refine .bind (uses_commandOr hinit (hdel _) hcrash) fun _ => ?_
  refine .bind (uses_executeQuery hquery hcrash) fun rows => ?_
  cases rows with
  | none => trivial
  | some rows => exact .bind (uses_importShares hinit hcrash hzadd hhset rows) fun _ => trivial

variable (hhget : ∀ field, P (.redis (.hget FILE_NAME_HASH field)))
  (hzscore : ∀ member, P (.redis (.zscore FILE_PUBLIC_ZSET member)))

include hhget hzscore

theorem uses_rankedFiles (values : List Bytes) : (rankedFiles cache_conn values).Uses P := by
  induction values with
  | nil => trivial
  | cons value values ih =>
      refine .bind (uses_commandOr hinit (hhget _) hcrash) fun found => ?_
      obtain ⟨found, filename⟩ := found
      dsimp only
      split
      · refine .bind (uses_zsetGetScore hinit (hzscore _) hcrash) fun score => ?_
        split
        · trivial
        · exact .bind ih fun _ => trivial
      · trivial

theorem uses_readRanking
    (hzrevrange : ∀ from_pos end_pos, P (.redis (.zrevrange FILE_PUBLIC_ZSET from_pos end_pos)))
    (start count : Int) : (readRanking cache_conn start count).Uses P := by
  rw [readRanking]
  split
  · trivial
  · refine .bind (uses_zsetZrevrange hinit (hzrevrange _ _) hcrash) fun found => ?_
    obtain ⟨found, values⟩ := found
    dsimp only
    split
    · exact uses_rankedFiles hinit hcrash hhget hzscore values
    · trivial

end Ranking

variable (hfree : ∀ c : Call, c.Free → P c)

include hfree

/-! ## Accounts -/

theorem asks_apiUserLogin {parse : Bytes → Option JsonValue} {post_data : Bytes}
    (hpassword : ∀ req, parsed parse post_data decodeLoginJson = .ok req →
      P (.select (.password req.1)))
    (hsetex : ∀ token user_name, P (.redis (.setex token 86400 user_name))) :
    Asks P R (apiUserLogin parse post_data) := by
  rw [apiUserLogin]
  split
  · trivial
  · refine asks_decoded (hfree _ trivial) trivial fun req hreq => ?_
    refine Asks.bind ((uses_getDBConn (hfree _ trivial)).asks.bind fun conn => ?_)
      fun verified => ?_
    · refine (uses_executeQuery (hpassword req hreq) (hfree _ trivial)).asks.bind fun rows => ?_
      match rows with
      | none | some [] | some (_ :: _) => trivial
    · split
      · trivial
      · refine Asks.bind ((uses_getCacheConn (hfree _ trivial)).asks.bind fun cache => ?_)
          fun r => ?_
        · refine Asks.bind ((uses_ask (hfree .uuid trivial)).asks.bind fun _ => trivial)
            fun token => ?_
          split
          · exact (uses_commandOr (hfree _ trivial) (hsetex _ _) (hfree _ trivial)).asks.bind
              fun _ => trivial
          · trivial
        · dsimp only
          split <;> trivial

theorem asks_apiRegisterUser {parse : Bytes → Option JsonValue} {post_data : Bytes}
    (hid : ∀ req, parsed parse post_data decodeRegisterJson = .ok req →
      P (.select (.userId req.user_name)))
    (hinsert : ∀ req, parsed parse post_data decodeRegisterJson = .ok req → ∀ time,
      P (.dml (.insertUser ⟨req.user_name, req.nick_name, req.pwd, req.phone, req.email, time⟩))) :
    Asks P R (apiRegisterUser parse post_data) := by
  rw [apiRegisterUser]
  split
  · trivial
  · refine asks_decoded (hfree _ trivial) trivial fun req hreq => Asks.bind ?_ fun _ => trivial
    refine (uses_getDBConn (hfree _ trivial)).asks.bind fun conn => ?_
    split
    · refine (uses_executeQuery (hid req hreq) (hfree _ trivial)).asks.bind fun rows => ?_
      have hregister : Asks P R (do
          let create_time : Bytes ← ask Call.localtime
          let prepared ← conn.prepare
          if prepared then
            let inserted ← CDBConn.executeStmt (.insertUser ⟨req.user_name, req.nick_name,
              req.pwd, req.phone, req.email, create_time⟩)
            return if inserted then 0 else 1
          else
            return 0 : Handler Int) := by
        refine (uses_ask (hfree .localtime trivial)).asks.bind fun time => ?_
        refine (uses_prepare (hfree _ trivial) (hfree _ trivial)).asks.bind fun prepared => ?_
        split
        · exact Asks.bind ((uses_ask (hinsert req hreq time)).asks.bind fun _ => trivial)
            fun _ => trivial
        · trivial
      match rows with
      | none | some [] => exact hregister
      | some (_ :: _) => trivial
    · trivial

/-! ## Listings -/

theorem asks_getUserFilesCount (conn : CDBConn) {name : Bytes}
    (hcount : P (.select (.userFilesCount name))) : Asks P R (getUserFilesCount conn name) := by
  refine (uses_executeQuery hcount (hfree _ trivial)).asks.bind fun rows => ?_
  match rows with
  | none | some [] | some (_ :: _) => trivial

theorem asks_apiMyfiles {parse : Bytes → Option JsonValue} {stack url post_data : Bytes}
    (hget : ∀ token, P (.redis (.get token)))
    (hcount : ∀ req, parsed parse post_data decodeCountJson = .ok req →
      P (.select (.userFilesCount req.1)))
    (hlist : ∀ req, parsed parse post_data decodeFileslistJson = .ok req →
      P (.select (.userFilesCount req.user_name)) ∧
        P (.select (.userFiles req.user_name req.start req.count))) :
    Asks P R (apiMyfiles parse stack url post_data) := by
  have hverify : ∀ user token, Asks P R (verifyToken user token) := fun _ _ =>
    (uses_verifyToken (hfree _ trivial) (hfree _ trivial) (hget _) (hfree _ trivial)).asks
  rw [apiMyfiles]
  split
  · refine asks_decoded (hfree _ trivial) trivial fun req hreq => ?_
    refine (hverify _ _).bind fun verified => ?_
    split
    · trivial
    · exact Asks.bind ((uses_getDBConn (hfree _ trivial)).asks.bind fun conn =>
        asks_getUserFilesCount hfree conn (hcount req hreq)) fun _ => trivial
  · split
    · refine asks_decoded (hfree _ trivial) trivial fun req hreq => ?_
      refine (hverify _ _).bind fun verified => ?_
      split
      · trivial
      · refine Asks.bind ((uses_getDBConn (hfree _ trivial)).asks.bind fun conn => ?_)
          fun _ => trivial
        refine Asks.bind (asks_getUserFilesCount hfree conn (hlist req hreq).1) fun counted => ?_
        obtain ⟨ret, total⟩ := counted
        dsimp only
        split
        · trivial
        · split
          · trivial
          · refine (uses_executeQuery (hlist req hreq).2 (hfree _ trivial)).asks.bind
              fun rows => ?_
            match rows with
            | none | some _ => trivial
    · trivial

theorem asks_handleGetSharefilesCount (hcount : P (.select .shareCount)) :
    Asks P R handleGetSharefilesCount := by
  refine (uses_getDBConn (hfree _ trivial)).asks.bind fun conn => ?_
  refine (uses_executeQuery hcount (hfree _ trivial)).asks.bind fun rows => ?_
  match rows with
  | none | some [] | some (_ :: _) => trivial

theorem asks_handleGetShareFilelist (hcount : P (.select .shareCount)) {start count : Int}
    (hlist : P (.select (.shareList start count))) :
    Asks P R (handleGetShareFilelist start count) := by
  refine (uses_getDBConn (hfree _ trivial)).asks.bind fun conn => ?_
  refine Asks.bind (asks_handleGetSharefilesCount hfree hcount) fun counted => ?_
  obtain ⟨status, total⟩ := counted
  dsimp only
  split
  · refine (uses_executeQuery hlist (hfree _ trivial)).asks.bind fun rows => ?_
    match rows with
    | none | some _ => trivial
  · trivial

theorem asks_handleGetSharePicturesList {name : Bytes} {start count : Int}
    (hcount : P (.select (.pictureCount name)))
    (hlist : P (.select (.pictureList name start count))) :
    Asks P R (handleGetSharePicturesList name start count) := by
  refine (uses_getDBConn (hfree _ trivial)).asks.bind fun conn => ?_
  refine Asks.bind ((uses_executeQuery hcount (hfree _ trivial)).asks.bind fun rows => ?_)
    fun counted => ?_
  · match rows with
    | none | some [] | some (_ :: _) => trivial
  · obtain ⟨counted, total⟩ := counted
    dsimp only
    split
    · trivial
    · refine (uses_executeQuery hlist (hfree _ trivial)).asks.bind fun rows => ?_
      match rows with
      | none | some _ => trivial

section RankingList

variable (hcount : P (.select .shareCount)) (hquery : P (.select .shareByPv))
  (hdel : ∀ key, P (.redis (.del key))) (hzcard : P (.redis (.zcard FILE_PUBLIC_ZSET)))
  (hzadd : ∀ pv member, P (.redis (.zadd FILE_PUBLIC_ZSET pv member)))
  (hhset : ∀ field value, P (.redis (.hset FILE_NAME_HASH field value)))

include hcount hquery hdel hzcard hzadd hhset

theorem asks_syncRanking (conn : CDBConn) (cache : CacheConn) :
    Asks P R (syncRanking conn cache) := by
  have hcrash := hfree .crash trivial
  refine Asks.bind (asks_handleGetSharefilesCount hfree hcount) fun counted => ?_
  obtain ⟨status, sql_num⟩ := counted
  dsimp only
  split
  · refine (uses_commandDeref (hfree _ trivial) hzcard hcrash fun r => by
      cases r <;> trivial).asks.bind fun redis_num => ?_
    split
    · trivial
    · split
      · trivial
      · exact (uses_rebuildRanking (hfree _ trivial) hcrash hquery hdel hzadd
          hhset).asks.bind fun _ => trivial
  · trivial

variable (hhget : ∀ field, P (.redis (.hget FILE_NAME_HASH field)))
  (hzscore : ∀ member, P (.redis (.zscore FILE_PUBLIC_ZSET member)))
  (hzrevrange : ∀ from_pos end_pos, P (.redis (.zrevrange FILE_PUBLIC_ZSET from_pos end_pos)))

include hhget hzscore hzrevrange

theorem asks_handleGetRankingFilelist (start count : Int) :
    Asks P R (handleGetRankingFilelist start count) := by
  refine (uses_getDBConn (hfree _ trivial)).asks.bind fun conn => ?_
  refine (uses_getCacheConn (hfree _ trivial)).asks.bind fun cache => ?_
  refine Asks.bind (asks_syncRanking hfree hcount hquery hdel hzcard hzadd hhset conn cache)
    fun synced => ?_
  cases synced with
  | none => trivial
  | some sql_num =>
      exact (uses_readRanking (hfree _ trivial) (hfree _ trivial) hhget hzscore hzrevrange
        start count).asks.bind fun files => by cases files <;> trivial

theorem asks_apiSharefiles (hlist : ∀ start count, P (.select (.shareList start count)))
    (parse : Bytes → Option JsonValue) (stack url post_data : Bytes) :
    Asks P R (apiSharefiles parse stack url post_data) := by
  rw [apiSharefiles]
  split
  · exact Asks.bind (asks_handleGetSharefilesCount hfree hcount) fun _ => trivial
  · split
    · exact asks_decoded (hfree _ trivial) trivial fun req _ =>
        Asks.bind (asks_handleGetShareFilelist hfree hcount (hlist _ _)) fun _ => trivial
    · split
      · exact asks_decoded (hfree _ trivial) trivial fun req _ =>
          Asks.bind (asks_handleGetRankingFilelist hfree hcount hquery hdel hzcard hzadd hhset
            hhget hzscore hzrevrange req.1 req.2) fun _ => trivial
      · trivial

end RankingList

/-! ## Sharing -/

theorem asks_acquireShareLock (conn : CacheConn) {key value : Bytes} (attempts : ℕ)
    (hset : P (.redis (.set key value))) (hsetex : P (.redis (.setex key 10 value))) :
    Asks P R (acquireShareLock conn key value attempts) := by
  induction attempts with
  | zero => trivial
  | succ attempts ih =>
      refine (uses_commandOr (hfree _ trivial) hset (hfree _ trivial)).asks.bind fun r => ?_
      split
      · exact (uses_commandOr (hfree _ trivial) hsetex (hfree _ trivial)).asks.bind
          fun _ => trivial
      · exact ih

theorem asks_publishShare (conn : CacheConn) {fileid filename : Bytes}
    (hzadd : P (.redis (.zadd FILE_PUBLIC_ZSET 0 fileid)))
    (hhset : P (.redis (.hset FILE_NAME_HASH fileid filename))) :
    Asks P R (publishShare conn fileid filename) :=
  (uses_zsetAdd (hfree _ trivial) hzadd (hfree _ trivial)).asks.bind fun _ =>
    (uses_commandOr (hfree _ trivial) hhset (hfree _ trivial)).asks.bind fun _ => trivial

section Share

variable {user md5 filename : Bytes} (hexists : P (.select (.share md5 filename)))
  (hzlexcount : P (.redis (.zlexcount FILE_PUBLIC_ZSET (shareFileid md5 filename))))
  (hzadd : P (.redis (.zadd FILE_PUBLIC_ZSET 0 (shareFileid md5 filename))))
  (hhset : P (.redis (.hset FILE_NAME_HASH (shareFileid md5 filename) filename)))
  (hstatus : P (.dml (.setSharedStatus 1 user md5 filename)))
  (hinsert : ∀ time, R .localtime time → P (.dml (.insertShare ⟨user, md5, time, filename, 0⟩)))

include hexists hzlexcount hzadd hhset hstatus hinsert

theorem asks_shareLocked (conn : CDBConn) (cache : CacheConn) :
    Asks P R (shareLocked conn cache user md5 filename) := by
  have hpublish : Asks P R (publishShare cache (shareFileid md5 filename) filename) :=
    asks_publishShare hfree cache hzadd hhset
  have hcrash := hfree .crash trivial
  refine (uses_zsetExist (hfree _ trivial) hzlexcount hcrash).asks.bind fun ranked => ?_
  split
  · trivial
  · refine (uses_checkwhetherHaveRecord hexists hcrash).asks.bind fun found => ?_
    split
    · exact hpublish.bind fun _ => trivial
    · refine (uses_executeUpdate hstatus hcrash).asks.bind fun updated => ?_
      split
      · refine (issues_ask (hfree .localtime trivial)).bind fun time htime => ?_
        refine (uses_execute (hinsert time htime) hcrash).asks.bind fun inserted => ?_
        split
        · exact hpublish.bind fun _ => trivial
        · refine (uses_checkwhetherHaveRecord hexists hcrash).asks.bind fun found => ?_
          split
          · exact hpublish.bind fun _ => trivial
          · trivial
      · trivial

theorem asks_handleShareFile
    (hset : ∀ now, P (.redis (.set (shareLockKey (shareFileid md5 filename)) (decimal now))))
    (hsetex : ∀ now,
      P (.redis (.setex (shareLockKey (shareFileid md5 filename)) 10 (decimal now))))
    (hdel : P (.redis (.del (shareLockKey (shareFileid md5 filename))))) :
    Asks P R (handleShareFile user md5 filename) := by
  refine (uses_getDBConn (hfree _ trivial)).asks.bind fun conn => ?_
  refine (uses_getCacheConn (hfree _ trivial)).asks.bind fun cache => ?_
  refine (uses_ask (hfree .time trivial)).asks.bind fun now => ?_
  refine Asks.bind (asks_acquireShareLock hfree cache 10 (hset now) (hsetex now))
    fun lock_ok => ?_
  split
  · exact Asks.bind (asks_shareLocked hfree hexists hzlexcount hzadd hhset hstatus hinsert conn
      cache) fun _ =>
        (uses_commandOr (hfree _ trivial) hdel (hfree _ trivial)).asks.bind fun _ => trivial
  · trivial

end Share

/-! ## A user's own files -/

section Own

variable {user md5 filename : Bytes}

theorem asks_dropReference (conn : CDBConn) (htry : P (.tryLockFor 1000)) (hunlock : P .unlock)
    (hinfo : P (.select (.fileInfo md5))) (hdecr : P (.dml (.decrCount md5)))
    (hdelete : P (.dml (.deleteFileInfo md5))) : Asks P R (dropReference conn md5) := by
  refine asks_scopedFileInfoLock htry hunlock fun is_locked => ?_
  split
  · refine (uses_executeQuery hinfo (hfree _ trivial)).asks.bind fun rows => ?_
    match rows with
    | none | some [] => trivial
    | some (row :: _) =>
        dsimp only
        split
        · exact (uses_executeUpdate hdecr (hfree _ trivial)).asks.bind fun _ => trivial
        · split
          · exact (uses_execute hdelete (hfree _ trivial)).asks.bind fun _ => trivial
          · trivial
  · trivial

section Delete

variable (htry : P (.tryLockFor 1000)) (hunlock : P .unlock)
  (hinfo : P (.select (.fileInfo md5))) (hdecr : P (.dml (.decrCount md5)))
  (hdelete : P (.dml (.deleteFileInfo md5))) (hremove : ∀ id, P (.fdfsDelete id))
  (hrow : P (.dml (.deleteUserFile user md5 filename)))

include htry hunlock hinfo hdecr hdelete hremove hrow

theorem asks_deleteOwned (conn : CDBConn) : Asks P R (deleteOwned conn user md5 filename) := by
  refine (uses_execute hrow (hfree _ trivial)).asks.bind fun dropped => ?_
  split
  · refine Asks.bind (asks_dropReference hfree conn htry hunlock hinfo hdecr hdelete) fun r => ?_
    match r with
    | none => trivial
    | some (count, file_id) =>
        dsimp only
        split
        · exact (uses_ask (hremove file_id)).asks.bind fun _ => trivial
        · trivial
  · trivial

theorem asks_handleDeleteFile (hstatus : P (.select (.userFile user md5 filename)))
    (hshare : P (.dml (.deleteShare user md5 filename)))
    (hzrem : P (.redis (.zrem FILE_PUBLIC_ZSET (shareFileid md5 filename))))
    (hhdel : P (.redis (.hdel FILE_NAME_HASH (shareFileid md5 filename)))) :
    Asks P R (handleDeleteFile user md5 filename) := by
  have hcrash := hfree .crash trivial
  have howned : ∀ conn, Asks P R (deleteOwned conn user md5 filename) :=
    asks_deleteOwned hfree htry hunlock hinfo hdecr hdelete hremove hrow
  refine (uses_getDBConn (hfree _ trivial)).asks.bind fun conn => ?_
  refine (uses_getCacheConn (hfree _ trivial)).asks.bind fun cache => ?_
  refine (uses_getResultOneStatus hstatus hcrash).asks.bind fun r => ?_
  obtain ⟨found, status⟩ := r
  dsimp only
  split
  · split
    · refine Asks.bind ?_ fun dropped => ?_
      · refine (uses_zsetZrem (hfree _ trivial) hzrem hcrash).asks.bind fun _ => ?_
        refine (uses_commandOr (hfree _ trivial) hhdel hcrash).asks.bind fun _ => ?_
        exact (uses_execute hshare hcrash).asks
      · split
        · exact howned conn
        · trivial
    · exact howned conn
  · trivial

end Delete

theorem asks_ownPv (hquery : P (.select (.userFile user md5 filename)))
    (hpv : ∀ pv : Int, P (.dml (.setUserFilePv (asInt (pv + 1)) user md5 filename))) :
    Asks P R (Dealfile.handlePvFile user md5 filename) := by
  refine (uses_getDBConn (hfree _ trivial)).asks.bind fun conn => ?_
  refine (uses_executeQuery hquery (hfree _ trivial)).asks.bind fun rows => ?_
  match rows with
  | none | some [] => trivial
  | some (row :: _) =>
      exact (uses_executeUpdate (hpv _) (hfree _ trivial)).asks.bind fun _ => trivial

theorem asks_handleDealMd5 (hexists : P (.select (.userFile user md5 filename)))
    (htry : P (.tryLockFor 1000)) (hunlock : P .unlock) (hincr : P (.dml (.incrCount md5))) :
    Asks P R (handleDealMd5 user md5 filename) := by
  refine (uses_getDBConn (hfree _ trivial)).asks.bind fun conn => ?_
  refine (uses_getCacheConn (hfree _ trivial)).asks.bind fun _ => ?_
  refine (uses_checkwhetherHaveRecord hexists (hfree _ trivial)).asks.bind fun found => ?_
  split
  · trivial
  · refine asks_scopedFileInfoLock htry hunlock fun is_locked => ?_
    split
    · exact (uses_execute hincr (hfree _ trivial)).asks.bind fun _ => trivial
    · trivial

end Own

/-! ## A shared file -/

section Shared

variable {user_name md5 filename : Bytes}

theorem asks_sharePv (hquery : P (.select (.share md5 filename)))
    (hpv : ∀ pv : Int, P (.dml (.setSharePv (asInt (pv + 1)) md5 filename)))
    (hzlexcount : P (.redis (.zlexcount FILE_PUBLIC_ZSET (shareFileid md5 filename))))
    (hzadd : ∀ pv : Int,
      P (.redis (.zadd FILE_PUBLIC_ZSET (asInt (pv + 1)) (shareFileid md5 filename))))
    (hzincrby : P (.redis (.zincrby FILE_PUBLIC_ZSET (shareFileid md5 filename))))
    (hhset : P (.redis (.hset FILE_NAME_HASH (shareFileid md5 filename) filename))) :
    Asks P R (DealSharefile.handlePvFile md5 filename) := by
  have hcrash := hfree .crash trivial
  refine (uses_getDBConn (hfree _ trivial)).asks.bind fun conn => ?_
  refine (uses_getCacheConn (hfree _ trivial)).asks.bind fun cache => ?_
  refine (uses_executeQuery hquery hcrash).asks.bind fun rows => ?_
  match rows with
  | none | some [] => trivial
  | some (row :: _) =>
      refine (uses_executeUpdate (hpv _) hcrash).asks.bind fun updated => ?_
      split
      · refine (uses_zsetExist (hfree _ trivial) hzlexcount hcrash).asks.bind fun ranked => ?_
        split
        · trivial
        · split
          · refine (uses_zsetAdd (hfree _ trivial) (hzadd _) hcrash).asks.bind fun added => ?_
            split
            · exact (uses_commandOr (hfree _ trivial) hhset hcrash).asks.bind fun _ => trivial
            · trivial
          · refine (uses_commandDeref (hfree _ trivial) hzincrby hcrash
              fun reply => ?_).asks.bind fun _ => trivial
            match reply with
            | .status s | .error s | .string s =>
                dsimp only
                split <;> trivial
            | .integer _ | .nil | .array _ => exact uses_crash hcrash
      · trivial

theorem asks_handleCancelShareFile
    (hstatus : P (.dml (.setSharedStatus 0 user_name md5 filename)))
    (hshare : P (.dml (.deleteShare user_name md5 filename)))
    (hzrem : P (.redis (.zrem FILE_PUBLIC_ZSET (shareFileid md5 filename))))
    (hhdel : P (.redis (.hdel FILE_NAME_HASH (shareFileid md5 filename)))) :
    Asks P R (handleCancelShareFile user_name md5 filename) := by
  have hcrash := hfree .crash trivial
  refine (uses_getDBConn (hfree _ trivial)).asks.bind fun conn => ?_
  refine (uses_getCacheConn (hfree _ trivial)).asks.bind fun cache => ?_
  refine (uses_executeUpdate hstatus hcrash).asks.bind fun updated => ?_
  split
  · refine (uses_execute hshare hcrash).asks.bind fun dropped => ?_
    split
    · refine (uses_zsetZrem (hfree _ trivial) hzrem hcrash).asks.bind fun ret => ?_
      split
      · exact (uses_commandOr (hfree _ trivial) hhdel hcrash).asks.bind fun _ => trivial
      · trivial
    · trivial
  · trivial

theorem asks_handleSaveFile (hexists : P (.select (.userFile user_name md5 filename)))
    (htry : P (.tryLockFor 1000)) (hunlock : P .unlock) (hincr : P (.dml (.incrCount md5)))
    (hinsert : ∀ time, R .localtime time →
      P (.dml (.insertUserFile ⟨user_name, md5, time, filename, 0, 0⟩))) :
    Asks P R (handleSaveFile user_name md5 filename) := by
  have hcrash := hfree .crash trivial
  refine (uses_getDBConn (hfree _ trivial)).asks.bind fun conn => ?_
  refine (uses_checkwhetherHaveRecord hexists hcrash).asks.bind fun found => ?_
  split
  · trivial
  · refine Asks.bind (asks_scopedFileInfoLock htry hunlock fun is_locked => ?_) fun counted => ?_
    · split
      · exact (uses_executeUpdate hincr hcrash).asks
      · trivial
    · split
      · refine (issues_ask (hfree .localtime trivial)).bind fun time htime => ?_
        exact (uses_execute (hinsert time htime) hcrash).asks.bind fun _ => trivial
      · trivial

end Shared

/-! ## Uploading -/

section Store

variable (htry : P (.tryLockFor 1000)) (hunlock : P .unlock)

include htry hunlock

theorem asks_storeFileinfo (conn : CDBConn) {user filename md5 fileid url : Bytes} {size : Int}
    (hinfo : P (.dml (.insertFileInfo ⟨md5, fileid, url, size, getFileSuffix filename, 1⟩)))
    (hincr : P (.dml (.incrCount md5)))
    (hinsert : ∀ time, R .localtime time →
      P (.dml (.insertUserFile ⟨user, md5, time, filename, 0, 0⟩))) :
    Asks P R (storeFileinfo conn user filename md5 size fileid url) := by
  have hcrash := hfree .crash trivial
  have hrow : ∀ file_exsit, Asks P R (insertUploaded conn user filename md5 file_exsit) :=
    fun file_exsit => (issues_ask (hfree .localtime trivial)).bind fun time htime =>
      (uses_execute (hinsert time htime) hcrash).asks.bind fun _ => trivial
  refine asks_scopedFileInfoLock htry hunlock fun is_locked => ?_
  split
  · refine (uses_execute hinfo hcrash).asks.bind fun created => ?_
    split
    · exact hrow false
    · refine (uses_execute hincr hcrash).asks.bind fun updated => ?_
      split
      · exact hrow true
      · trivial
  · trivial

variable {form : UploadForm} {ip : Bytes} (hincr : P (.dml (.incrCount form.file_md5)))
  (hinsert : ∀ time, R .localtime time →
    P (.dml (.insertUserFile ⟨form.user, form.file_md5, time, form.file_name, 0, 0⟩)))

include hincr hinsert

/-- What `uploadForm` does once it has an object. -/
theorem asks_storedForm (conn : CDBConn) {fileid : Bytes} (hremove : P (.fdfsDelete fileid))
    (hinfo : P (.dml (.insertFileInfo ⟨form.file_md5, fileid,
      ascii "http://" ++ ip ++ ascii "/" ++ fileid, strtol form.file_size,
      getFileSuffix form.file_name, 1⟩))) :
    Asks P R (getFullUrlByFileid ip fileid >>= fun
      | none => return -1
      | some url => storeUpload conn form fileid url) := by
  have hurl : Issues P R (fun url : Option Bytes => ∀ u ∈ url,
      u = ascii "http://" ++ ip ++ ascii "/" ++ fileid) (getFullUrlByFileid ip fileid) := by
    rw [getFullUrlByFileid]
    split
    · exact fun u hu => nomatch hu
    · refine (uses_ask (hfree (.fdfsFileInfo _) trivial)).asks.bind fun known => ?_
      intro u hu
      split at hu <;> cases hu
      rfl
  refine hurl.bind fun url hurl => ?_
  match url with
  | none => trivial
  | some url =>
      rw [← hurl url rfl] at hinfo
      refine Asks.bind (asks_storeFileinfo hfree htry hunlock conn hinfo hincr hinsert)
        fun stored => ?_
      obtain ⟨ret, file_exsit⟩ := stored
      dsimp only
      split
      · exact (uses_ask hremove).asks.bind fun _ => trivial
      · trivial

theorem asks_uploadForm (conn : CDBConn) (hupload : ∀ path, P (.fdfsUpload path))
    (hremove : ∀ id, P (.fdfsDelete id))
    (hinfo : ∀ path fileid, R (.fdfsUpload path) (some fileid) →
      P (.dml (.insertFileInfo ⟨form.file_md5, fileid,
        ascii "http://" ++ ip ++ ascii "/" ++ fileid, strtol form.file_size,
        getFileSuffix form.file_name, 1⟩))) :
    Asks P R (uploadForm ip conn form) := by
  refine (uses_ask (hfree (.rename _ _) trivial)).asks.bind fun renamed => ?_
  split
  · refine (issues_ask (hupload _)).bind fun uploaded huploaded => ?_
    refine (uses_ask (hfree (.unlink _) trivial)).asks.bind fun _ => ?_
    match uploaded with
    | none => trivial
    | some fileid =>
        exact asks_storedForm hfree htry hunlock hincr hinsert conn (hremove fileid)
          (hinfo _ _ huploaded)
  · trivial

end Store

theorem asks_apiUpload {ip post_data : Bytes}
    (hform : ∀ form, parseForm post_data = .ok form → ∀ conn, Asks P R (uploadForm ip conn form)) :
    Asks P R (apiUpload ip post_data) :=
  (uses_getDBConn (hfree _ trivial)).asks.bind fun conn =>
    asks_decoded (hfree _ trivial) trivial fun form hparsed =>
      Asks.bind (hform form hparsed conn) fun _ => trivial

/-! ## Pictures -/

theorem asks_handleSharePicture {user filemd5 file_name : Bytes} (hrand : P .rand)
    (hinsert : ∀ urlmd5 time, IsLetters 32 urlmd5 → R .localtime time →
      P (.dml (.insertPicture ⟨user, filemd5, file_name, urlmd5, [], 0, time⟩))) :
    Asks P R (handleSharePicture user filemd5 file_name) := by
  refine (uses_getDBConn (hfree _ trivial)).asks.bind fun conn => ?_
  refine (issues_randomString hrand 32).bind fun urlmd5 hurlmd5 => ?_
  refine (issues_ask (hfree .localtime trivial)).bind fun time htime => ?_
  exact (uses_execute (hinsert urlmd5 time hurlmd5 htime) (hfree _ trivial)).asks.bind
    fun _ => trivial

theorem asks_browsedPicture {urlmd5 : Bytes} (hpicture : P (.select (.picture urlmd5)))
    (hfile : ∀ rows : Option (List PictureRow), R (.select (.picture urlmd5)) rows →
      ∀ row ∈ rows.getD [], P (.select (.fileInfo row.filemd5)))
    (hpv : P (.dml (.incrPicturePv urlmd5))) : Asks P R (browsedPicture urlmd5) := by
  have hcrash := hfree .crash trivial
  refine (uses_getDBConn (hfree _ trivial)).asks.bind fun conn => ?_
  have hrows : Issues P R (fun rows => R (.select (.picture urlmd5)) rows)
      (conn.executeQuery (.picture urlmd5)) := by
    rw [CDBConn.executeQuery]
    split
    · exact issues_ask hpicture
    · exact ⟨hcrash, fun e => e.elim⟩
  refine hrows.bind fun rows hrows => ?_
  rcases rows with - | - | ⟨picture, rows⟩
  · trivial
  · trivial
  · have hquery := hfile _ hrows picture List.mem_cons_self
    refine (uses_executeQuery hquery hcrash).asks.bind fun files => ?_
    rcases files with - | - | ⟨file, files⟩
    · trivial
    · trivial
    · exact (uses_executeUpdate hpv hcrash).asks.bind fun _ => trivial

theorem asks_handleBrowsePicture {urlmd5 : Bytes} (hbrowsed : Asks P R (browsedPicture urlmd5)) :
    Asks P R (handleBrowsePicture urlmd5) :=
  hbrowsed.bind fun _ => (uses_crash (hfree _ trivial)).asks

theorem asks_handleCancelSharePicture {user urlmd5 : Bytes}
    (hdelete : P (.dml (.deletePicture user urlmd5))) :
    Asks P R (handleCancelSharePicture user urlmd5) := by
  refine (uses_getDBConn (hfree _ trivial)).asks.bind fun conn => ?_
  exact (uses_execute hdelete (hfree _ trivial)).asks.bind fun _ => trivial

end

/-! ## Where every call that only reads is allowed -/

section

variable {P : Call → Prop} (hreads : ∀ c : Call, c.Reads → P c)

include hreads

theorem free_of_reads (c : Call) (hc : c.Free) : P c := hreads c hc.reads

theorem uses_apiUserLogin {parse : Bytes → Option JsonValue} {post_data : Bytes}
    (hsetex : ∀ token user_name, P (.redis (.setex token 86400 user_name))) :
    (apiUserLogin parse post_data).Uses P :=
  (asks_apiUserLogin (free_of_reads hreads) (fun _ _ => hreads _ trivial) hsetex).uses

theorem uses_apiRegisterUser {parse : Bytes → Option JsonValue} {post_data : Bytes}
    (hinsertUser : ∀ row, P (.dml (.insertUser row))) :
    (apiRegisterUser parse post_data).Uses P :=
  (asks_apiRegisterUser (free_of_reads hreads) (fun _ _ => hreads _ trivial)
    fun _ _ _ => hinsertUser _).uses

theorem uses_apiMyfiles (parse : Bytes → Option JsonValue) (stack url post_data : Bytes) :
    (apiMyfiles parse stack url post_data).Uses P :=
  (asks_apiMyfiles (free_of_reads hreads) (fun _ => hreads _ trivial)
    (fun _ _ => hreads _ trivial) fun _ _ => ⟨hreads _ trivial, hreads _ trivial⟩).uses

theorem uses_handleGetSharefilesCount : handleGetSharefilesCount.Uses P :=
  (asks_handleGetSharefilesCount (free_of_reads hreads) (hreads _ trivial)).uses

theorem uses_handleGetShareFilelist (start count : Int) :
    (handleGetShareFilelist start count).Uses P :=
  (asks_handleGetShareFilelist (free_of_reads hreads) (hreads _ trivial) (hreads _ trivial)).uses

theorem uses_handleGetSharePicturesList (name : Bytes) (start count : Int) :
    (handleGetSharePicturesList name start count).Uses P :=
  (asks_handleGetSharePicturesList (free_of_reads hreads) (hreads _ trivial)
    (hreads _ trivial)).uses

theorem uses_apiSharefiles (hdel : ∀ key, P (.redis (.del key)))
    (hzadd : ∀ pv member, P (.redis (.zadd FILE_PUBLIC_ZSET pv member)))
    (hhset : ∀ field value, P (.redis (.hset FILE_NAME_HASH field value)))
    (parse : Bytes → Option JsonValue) (stack url post_data : Bytes) :
    (apiSharefiles parse stack url post_data).Uses P :=
  (asks_apiSharefiles (free_of_reads hreads) (hreads _ trivial) (hreads _ trivial) hdel
    (hreads _ trivial) hzadd hhset (fun _ => hreads _ trivial) (fun _ => hreads _ trivial)
    (fun _ _ => hreads _ trivial) (fun _ _ => hreads _ trivial) parse stack url post_data).uses

theorem uses_handleShareFile {user md5 filename : Bytes}
    (hset : ∀ now, P (.redis (.set (shareLockKey (shareFileid md5 filename)) (decimal now))))
    (hsetex : ∀ now,
      P (.redis (.setex (shareLockKey (shareFileid md5 filename)) 10 (decimal now))))
    (hdel : P (.redis (.del (shareLockKey (shareFileid md5 filename)))))
    (hzadd : P (.redis (.zadd FILE_PUBLIC_ZSET 0 (shareFileid md5 filename))))
    (hhset : P (.redis (.hset FILE_NAME_HASH (shareFileid md5 filename) filename)))
    (hstatus : P (.dml (.setSharedStatus 1 user md5 filename)))
    (hinsert : ∀ time, P (.dml (.insertShare ⟨user, md5, time, filename, 0⟩))) :
    (handleShareFile user md5 filename).Uses P :=
  (asks_handleShareFile (free_of_reads hreads) (hreads _ trivial) (hreads _ trivial) hzadd hhset
    hstatus (fun time _ => hinsert time) hset hsetex hdel).uses

theorem uses_handleDeleteFile {user md5 filename : Bytes} (htry : P (.tryLockFor 1000))
    (hunlock : P .unlock) (hdecr : P (.dml (.decrCount md5)))
    (hdelete : P (.dml (.deleteFileInfo md5))) (hremove : ∀ id, P (.fdfsDelete id))
    (hrow : P (.dml (.deleteUserFile user md5 filename)))
    (hshare : P (.dml (.deleteShare user md5 filename)))
    (hzrem : P (.redis (.zrem FILE_PUBLIC_ZSET (shareFileid md5 filename))))
    (hhdel : P (.redis (.hdel FILE_NAME_HASH (shareFileid md5 filename)))) :
    (handleDeleteFile user md5 filename).Uses P :=
  (asks_handleDeleteFile (free_of_reads hreads) htry hunlock (hreads _ trivial) hdecr hdelete
    hremove hrow (hreads _ trivial) hshare hzrem hhdel).uses

theorem uses_ownPv {user md5 filename : Bytes}
    (hpv : ∀ pv : Int, P (.dml (.setUserFilePv (asInt (pv + 1)) user md5 filename))) :
    (Dealfile.handlePvFile user md5 filename).Uses P :=
  (asks_ownPv (free_of_reads hreads) (hreads _ trivial) hpv).uses

theorem uses_handleDealMd5 {user md5 filename : Bytes} (htry : P (.tryLockFor 1000))
    (hunlock : P .unlock) (hincr : P (.dml (.incrCount md5))) :
    (handleDealMd5 user md5 filename).Uses P :=
  (asks_handleDealMd5 (free_of_reads hreads) (hreads _ trivial) htry hunlock hincr).uses

theorem uses_sharePv {md5 filename : Bytes}
    (hpv : ∀ pv : Int, P (.dml (.setSharePv (asInt (pv + 1)) md5 filename)))
    (hzadd : ∀ pv : Int,
      P (.redis (.zadd FILE_PUBLIC_ZSET (asInt (pv + 1)) (shareFileid md5 filename))))
    (hzincrby : P (.redis (.zincrby FILE_PUBLIC_ZSET (shareFileid md5 filename))))
    (hhset : P (.redis (.hset FILE_NAME_HASH (shareFileid md5 filename) filename))) :
    (DealSharefile.handlePvFile md5 filename).Uses P :=
  (asks_sharePv (free_of_reads hreads) (hreads _ trivial) hpv (hreads _ trivial) hzadd hzincrby
    hhset).uses

theorem uses_handleCancelShareFile {user_name md5 filename : Bytes}
    (hstatus : P (.dml (.setSharedStatus 0 user_name md5 filename)))
    (hshare : P (.dml (.deleteShare user_name md5 filename)))
    (hzrem : P (.redis (.zrem FILE_PUBLIC_ZSET (shareFileid md5 filename))))
    (hhdel : P (.redis (.hdel FILE_NAME_HASH (shareFileid md5 filename)))) :
    (handleCancelShareFile user_name md5 filename).Uses P :=
  (asks_handleCancelShareFile (free_of_reads hreads) hstatus hshare hzrem hhdel).uses

theorem uses_handleSaveFile {user_name md5 filename : Bytes} (htry : P (.tryLockFor 1000))
    (hunlock : P .unlock) (hincr : P (.dml (.incrCount md5)))
    (hinsert : ∀ time, P (.dml (.insertUserFile ⟨user_name, md5, time, filename, 0, 0⟩))) :
    (handleSaveFile user_name md5 filename).Uses P :=
  (asks_handleSaveFile (free_of_reads hreads) (hreads _ trivial) htry hunlock hincr
    fun time _ => hinsert time).uses

theorem uses_apiUpload {ip post_data : Bytes} (htry : P (.tryLockFor 1000)) (hunlock : P .unlock)
    (hupload : ∀ path, P (.fdfsUpload path)) (hremove : ∀ id, P (.fdfsDelete id))
    (hinfo : ∀ form fileid url, parseForm post_data = .ok form →
      P (.dml (.insertFileInfo ⟨form.file_md5, fileid, url, strtol form.file_size,
        getFileSuffix form.file_name, 1⟩)))
    (hincr : ∀ md5, P (.dml (.incrCount md5)))
    (hinsert : ∀ user md5 time filename,
      P (.dml (.insertUserFile ⟨user, md5, time, filename, 0, 0⟩))) :
    (apiUpload ip post_data).Uses P :=
  (asks_apiUpload (free_of_reads hreads) fun form hform conn =>
    asks_uploadForm (free_of_reads hreads) htry hunlock (hincr _) (fun _ _ => hinsert _ _ _ _)
      conn hupload hremove fun _ fileid _ => hinfo form fileid _ hform).uses

theorem uses_handleSharePicture {user filemd5 file_name : Bytes} (hrand : P .rand)
    (hinsert : ∀ urlmd5 time,
      P (.dml (.insertPicture ⟨user, filemd5, file_name, urlmd5, [], 0, time⟩))) :
    (handleSharePicture user filemd5 file_name).Uses P :=
  (asks_handleSharePicture (free_of_reads hreads) hrand fun urlmd5 time _ _ =>
    hinsert urlmd5 time).uses

theorem uses_handleBrowsePicture {urlmd5 : Bytes} (hpv : P (.dml (.incrPicturePv urlmd5))) :
    (handleBrowsePicture urlmd5).Uses P :=
  (asks_handleBrowsePicture (free_of_reads hreads) (asks_browsedPicture (free_of_reads hreads)
    (hreads _ trivial) (fun _ _ _ _ => hreads _ trivial) hpv)).uses

theorem uses_handleCancelSharePicture {user urlmd5 : Bytes}
    (hdelete : P (.dml (.deletePicture user urlmd5))) :
    (handleCancelSharePicture user urlmd5).Uses P :=
  (asks_handleCancelSharePicture (free_of_reads hreads) hdelete).uses

end

end FileHub
