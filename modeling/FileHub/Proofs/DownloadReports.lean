import FileHub.Proofs.Downloads
import FileHub.Proofs.KnownCalls
import FileHub.Proofs.Scripts

/-!
# What a download of a share reports

`handlePvFile` counts a download in the table and then in the ranking, and
returns 0 for success. Its three wrappers disagree on what success looks like:
`ZsetExist` gives a number, `ZsetAdd` tests for an integer reply, `ZsetIncr`
compares the text of the reply with `OK`, which `ZINCRBY` never sends, and
returns 0 when it cannot reconnect. So the report is true when the count is
refused early, when the share is put into the ranking afresh, and hardly ever
when the ranking has it. Besides, the count is an `int`, and starts over after
the largest.
-/

namespace FileHub

open Lib
open Lib.Sql (Plain)
open Prog (ask after Along along_bind)

/-- The score of a member of the ranking. -/
def Redis.score? (r : Redis) (id : Bytes) : Option Int :=
  (r.zset? FILE_PUBLIC_ZSET).bind fun z => z.lookup id

namespace ShareDownload

variable (md5 filename : Bytes)

/-- The row was there, it counts one more, and so does the ranking. -/
def CountedUp (w w' : World) : Prop :=
  ∃ row, (w.db.shares md5 filename).head? = some row ∧
    ((w'.db.shares md5 filename).head?.map (·.pv)) = some (row.pv + 1) ∧
    w'.redis.score? (shareFileid md5 filename) =
      some ((w.redis.score? (shareFileid md5 filename)).elim (row.pv + 1) (· + 1))

/-- How the calls after the `ZLEXCOUNT` must go, `z` being the set and `pv` the
count before: an `Init` with the `ZADD` of a share the set is said not to have,
or with the `ZINCRBY` of another. -/
def RankingSettles (lex : ZSet → Bytes → ℕ) (z : ZSet) (pv : Int) (ω : ℕ → Ans) : Prop :=
  if z.zlexcount lex (shareFileid md5 filename) = 0 then
    (ω 0).ok → (ω 1).ok → asInt (pv + 1) = pv + 1 ∧
      ∀ s, z.lookup (shareFileid md5 filename) = some s → s = pv
  else
    (ω 0).ok ∧
      ((ω 1).ok → asInt (pv + 1) = pv + 1 →
        z.lookup (shareFileid md5 filename) = none ∧ pv ≠ 0) ∧
      ¬((ω 1).refused ∧ cStr (ω 1).text = ascii "OK")

/-- When the report is true: the connections apart, the calls are the `SELECT`,
the `UPDATE`, the `ZLEXCOUNT` with its `Init`, and those of the ranking. -/
def Settles (w : World) (ω : ℕ → Ans) : Prop :=
  ∀ row z, (w.db.shares md5 filename).head? = some row →
    w.redis.zset? FILE_PUBLIC_ZSET = some z →
    (ω 2).ok → (ω 3).ok → (ω 4).ok → (ω 5).ok →
      RankingSettles md5 filename w.lex z row.pv (after 6 ω)

section

variable {md5 filename : Bytes} {w : World} {ω : ℕ → Ans}

/-! ## The scores -/

theorem score?_congr {r r' : Redis} (h : r'.zset? FILE_PUBLIC_ZSET = r.zset? FILE_PUBLIC_ZSET)
    (id : Bytes) : r'.score? id = r.score? id := by
  rw [Redis.score?, h, Redis.score?]

theorem score?_zadd {z : ZSet} {id : Bytes} (hid : cStr id = id)
    (hz : w.redis.zset? FILE_PUBLIC_ZSET = some z) (s : Int) :
    (w.cmd (.zadd FILE_PUBLIC_ZSET s id)).redis.score? id = some s := by
  simp only [Redis.score?, World.cmd, RedisCmd.format, cStr_zsetKey, hid, Redis.exec, hz,
    Redis.zset?_putZset, Option.bind_some, AList.lookup_insert]

theorem score?_zincrby {z : ZSet} {id : Bytes} (hid : cStr id = id)
    (hz : w.redis.zset? FILE_PUBLIC_ZSET = some z) :
    (w.cmd (.zincrby FILE_PUBLIC_ZSET id)).redis.score? id = some ((z.lookup id).getD 0 + 1) := by
  simp only [Redis.score?, World.cmd, RedisCmd.format, cStr_zsetKey, hid, Redis.exec, hz,
    Redis.zset?_putZset, Option.bind_some, AList.lookup_insert]

theorem zset?_hset {w' : World} {ω' : ℕ → Ans} {id name : Bytes}
    (h : Commanded (.hset FILE_NAME_HASH id name) w ω w' ω') :
    w'.redis.zset? FILE_PUBLIC_ZSET = w.redis.zset? FILE_PUBLIC_ZSET := by
  rcases h.eq_or with rfl | rfl
  · rfl
  · exact Redis.zset?_congr (Redis.exec_of_ne w.lex w.redis
      (show FILE_PUBLIC_ZSET ≠ cStr FILE_NAME_HASH by decide))

/-- An unchanged score is no score raised. -/
theorem not_raised (s : Option Int) (pv : Int) : s ≠ some (s.elim (pv + 1) (· + 1)) := by
  cases s with
  | none => simp
  | some s => simp

/-! ## The ranking -/

/-- The score is one more, or the new count where there was none. -/
def Raised (md5 filename : Bytes) (pv : Int) (w w' : World) : Prop :=
  w'.redis.score? (shareFileid md5 filename) =
    some ((w.redis.score? (shareFileid md5 filename)).elim (pv + 1) (· + 1))

theorem countRanking_along (cache : CacheConn) (pv : Int) :
    Along step (fun ret w' _ => w'.db = w.db ∧
        ((ret = 0 ↔ asInt (pv + 1) = pv + 1 ∧ Raised md5 filename pv w w') ↔
          ∀ z, w.redis.zset? FILE_PUBLIC_ZSET = some z → (ω 0).ok → (ω 1).ok →
            RankingSettles md5 filename w.lex z pv (after 2 ω)))
      (countRanking cache pv md5 filename) ω w := by
  have hid := cStr_shareFileid md5 filename
  have hsame (w' : World) (h : w'.redis.zset? FILE_PUBLIC_ZSET = w.redis.zset? FILE_PUBLIC_ZSET) :
      ¬(asInt (pv + 1) = pv + 1 ∧ Raised md5 filename pv w w') := by
    rw [Raised, score?_congr h]
    exact fun hand => not_raised _ pv hand.2
  -- Where the ranking gives no count, nothing has happened and 1 is returned.
  have hnothing (h : ∀ z, w.redis.zset? FILE_PUBLIC_ZSET = some z → (ω 0).ok → (ω 1).ok → False) :
      w.db = w.db ∧ (((1 : Int) = 0 ↔ asInt (pv + 1) = pv + 1 ∧ Raised md5 filename pv w w) ↔
        ∀ z, w.redis.zset? FILE_PUBLIC_ZSET = some z → (ω 0).ok → (ω 1).ok →
          RankingSettles md5 filename w.lex z pv (after 2 ω)) :=
    ⟨rfl, iff_of_true (iff_of_false (by decide) (hsame w rfl))
      fun z hz hinit hcount => (h z hz hinit hcount).elim⟩
  rw [countRanking, along_bind]
  refine along_commandDeref_orFail (fun r => by cases r <;> rfl) (fun hdown => ?_)
    (fun hinit hcount => ?_) fun _ hrefused => ?_
  · rw [if_pos (by decide)]
    exact hnothing fun z _ hinit _ => hdown hinit
  · rw [cmd_zlexcount]
    have hrank := ranking_eq w (shareFileid md5 filename)
    rw [hid] at hrank
    change Along step _ (if w.ranking _ < 0 then _ else if w.ranking _ = 0 then _ else _) _ w
    rcases Option.eq_none_or_eq_some (w.redis.zset? FILE_PUBLIC_ZSET) with hz | ⟨z, hz⟩
    · have hnone : w.ranking (shareFileid md5 filename) = -1 := by rw [hrank, hz]; rfl
      rw [hnone, if_pos (by decide)]
      exact hnothing fun z hsome => by rw [hz] at hsome; cases hsome
    · have hanswer : w.ranking (shareFileid md5 filename) =
          z.zlexcount w.lex (shareFileid md5 filename) := by rw [hrank, hz]; rfl
      rw [hanswer, if_neg (by omega)]
      have hscore : w.redis.score? (shareFileid md5 filename) =
          z.lookup (shareFileid md5 filename) := by rw [Redis.score?, hz, Option.bind_some]
      have hset : (∀ z', w.redis.zset? FILE_PUBLIC_ZSET = some z' → (ω 0).ok → (ω 1).ok →
          RankingSettles md5 filename w.lex z' pv (after 2 ω)) ↔
          RankingSettles md5 filename w.lex z pv (after 2 ω) := by
        rw [hz]
        exact ⟨fun h => h z rfl hinit hcount, fun h z' hz' _ _ => by cases hz'; exact h⟩
      rw [hset]
      by_cases hzero : z.zlexcount w.lex (shareFileid md5 filename) = 0
      · rw [if_pos (by omega), along_bind, RankingSettles, if_pos hzero]
        refine along_commandDeref_orFail (fun r => by cases r <;> rfl) (fun hdown => ?_)
          (fun hup hadd => ?_) fun _ hrefused => ?_
        · exact ⟨rfl, iff_of_true (iff_of_false (by decide) (hsame w rfl))
            fun hup => absurd hup hdown⟩
        · rw [Download.reply_zadd (Option.isSome_of_mem hz), if_pos rfl, along_bind]
          refine along_commandOr_effect.mono fun _ w' _ h => ⟨h.db, ?_⟩
          have hadded (hfits : asInt (pv + 1) = pv + 1) : Raised md5 filename pv w w' ↔
              ∀ s, z.lookup (shareFileid md5 filename) = some s → s = pv := by
            rw [Raised, score?_congr (zset?_hset h), score?_zadd hid hz, hscore, hfits]
            cases z.lookup (shareFileid md5 filename) with
            | none => simp
            | some s => simp [eq_comm]
          rw [forall_prop_of_true hup, forall_prop_of_true hadd, and_congr_right hadded]
          exact ⟨fun h => h.mp rfl, fun h => iff_of_true rfl h⟩
        · exact ⟨rfl, iff_of_true (iff_of_false (by decide) (hsame w rfl))
            fun _ hadd => absurd hadd hrefused.not_ok⟩
      · rw [if_neg (by omega), along_bind, RankingSettles, if_neg hzero, CacheConn.zsetIncr,
          CacheConn.commandDeref, along_bind]
        refine along_command (fun hdown => ?_) (fun hup hincr => ?_) (fun hup hrefused => ?_)
          (fun _ _ => along_crash _) fun _ _ => along_crash _
        · -- `Init` fails, and that passes for success.
          exact ⟨rfl, iff_of_false (fun h => hsame w rfl (h.mp rfl)) fun h => hdown h.1⟩
        · have hreply : w.reply (.zincrby FILE_PUBLIC_ZSET (shareFileid md5 filename)) =
              .string (intText ((z.lookup (shareFileid md5 filename)).getD 0 + 1)) := by
            simp only [World.reply, RedisCmd.format, cStr_zsetKey, hid, Redis.exec, hz]
          rw [hreply]
          dsimp only
          rw [if_neg (Download.intText_ne_ok _)]
          have hraised : Raised md5 filename pv w
              (w.cmd (.zincrby FILE_PUBLIC_ZSET (shareFileid md5 filename))) ↔
                ¬(z.lookup (shareFileid md5 filename) = none ∧ pv ≠ 0) := by
            rw [Raised, score?_zincrby hid hz, hscore]
            cases z.lookup (shareFileid md5 filename) with
            | none => simp
            | some s => simp
          have hanswered : ¬(after 2 ω 1).refused := fun h => h.not_ok hincr
          refine ⟨rfl, ?_⟩
          rw [hraised, forall_prop_of_true hincr]
          constructor
          · intro h
            refine ⟨hup, fun hfits => ?_, fun hand => hanswered hand.1⟩
            exact not_not.mp fun hnot => absurd (h.mpr ⟨hfits, hnot⟩) (by decide)
          · rintro ⟨-, h, -⟩
            exact iff_of_false (by decide) fun hand => hand.2 (h hand.1)
        · have hnot : ¬(after 2 ω 1).ok := hrefused.not_ok
          dsimp only
          by_cases htext : cStr (after 2 ω 1).text = ascii "OK"
          · rw [if_pos htext]
            exact ⟨rfl, iff_of_false (fun h => hsame w rfl (h.mp rfl))
              fun h => h.2.2 ⟨hrefused, htext⟩⟩
          · rw [if_neg htext]
            exact ⟨rfl, iff_of_true (iff_of_false (by decide) (hsame w rfl))
              ⟨hup, fun hok => absurd hok hnot, fun hand => htext hand.2⟩⟩
  · rw [if_pos (by decide)]
    exact hnothing fun z _ _ hcount => hrefused.not_ok hcount

/-! ## The whole run -/

theorem handlePvFile_along :
    Along step (fun ret w' _ =>
        (ret = 0 ↔ CountedUp md5 filename w w') ↔ Settles md5 filename w ω)
      (DealSharefile.handlePvFile md5 filename) ω w := by
  rw [DealSharefile.handlePvFile, along_bind]
  refine along_getDBConn ?_
  rw [along_bind]
  refine along_getCacheConn ?_
  rw [along_bind]
  have hstill : ¬CountedUp md5 filename w w := by
    rintro ⟨row, hrow, hcount, -⟩
    rw [hrow, Option.map_some, Option.some.injEq] at hcount
    omega
  -- Without the `UPDATE` nothing is counted, and 1 is returned.
  have hnothing (h : ∀ row, (w.db.shares md5 filename).head? = some row → (ω 2).ok → (ω 3).ok →
      False) : ((1 : Int) = 0 ↔ CountedUp md5 filename w w) ↔ Settles md5 filename w ω :=
    iff_of_true (iff_of_false (by decide) hstill)
      fun row z hrow _ hselect hupdate => (h row hrow hselect hupdate).elim
  refine along_executeQuery (fun hselect => ?_) fun hselect =>
    hnothing fun _ _ hok _ => hselect hok
  rw [Db.run_share]
  cases hshares : w.db.shares md5 filename with
  | nil => exact hnothing fun row hrow => by rw [hshares] at hrow; cases hrow
  | cons row rows =>
      have hrow : (w.db.shares md5 filename).head? = some row := by rw [hshares, List.head?_cons]
      dsimp only
      rw [along_bind]
      refine along_executeUpdate (fun hupdate => ?_) fun hupdate =>
        hnothing fun _ _ _ hok => hupdate hok
      have hupdated : (((Dml.setSharePv (asInt (row.pv + 1)) md5 filename).format.exec w.db).any
          fun r => decide (0 < r.1) || !false) = true := by
        simp [Dml.format, Dml.exec]
      rw [hupdated, if_pos rfl]
      refine (countRanking_along _ row.pv).mono fun ret w' _ h => ?_
      have hcounted : CountedUp md5 filename w w' ↔ asInt (row.pv + 1) = row.pv + 1 ∧
          Raised md5 filename row.pv (w.sql (.setSharePv (asInt (row.pv + 1)) md5 filename))
            w' := by
        have hpv : ((w'.db.shares md5 filename).head?.map (·.pv)) = some (asInt (row.pv + 1)) := by
          rw [h.1, World.sql_db, Db.shares_setSharePv, hshares]
          rfl
        constructor
        · rintro ⟨row', hrow', hcount, hscore⟩
          cases hrow.symm.trans hrow'
          exact ⟨Option.some.inj (hpv.symm.trans hcount), hscore⟩
        · rintro ⟨hfits, hscore⟩
          exact ⟨row, hrow, hpv.trans (congrArg some hfits), hscore⟩
      rw [hcounted]
      refine h.2.trans ⟨fun hz row' z hrow' hset _ _ => ?_, fun hz z hset => ?_⟩
      · cases hrow.symm.trans hrow'
        exact hz z hset
      · exact hz row z hrow hset hselect hupdate

end

/-- For known strings the report is true exactly when the calls settle. -/
theorem reports_truly_iff (server : SqlServer) {K : Bytes → Prop} (hK : server.Tells K)
    {md5 filename : Bytes} {w : World} (hw : w.db.Known K) (hmd5 : K md5) (hname : K filename)
    {ω : ℕ → Ans} {ret : Int}
    (hω : server.Regular ω (DealSharefile.handlePvFile md5 filename) w)
    (hres : (server.runIn ω (DealSharefile.handlePvFile md5 filename) w).res = some ret) :
    (ret = 0 ↔ CountedUp md5 filename w
        (server.runIn ω (DealSharefile.handlePvFile md5 filename) w).st) ↔
      Settles md5 filename w ω := by
  rw [hK.runIn_eq (known_sharePv hmd5 hname) hw hω] at hres ⊢
  exact handlePvFile_along.returned hres

/-! A share, with the ranking empty or with the share in it. -/

def oneShare (ranking : Option RedisVal) : World :=
  { World.empty with
    db := { Db.empty with shareFileList := [⟨ascii "u", ascii "m", ascii "now", ascii "f", 0⟩] }
    redis := Function.update (fun _ => none) FILE_PUBLIC_ZSET ranking }

theorem known_oneShare (ranking : Option RedisVal) : (oneShare ranking).db.Known Plain :=
  ⟨nofun, nofun, fun r hr => by cases List.mem_singleton.mp hr; decide, nofun, nofun⟩

/-- The first download puts the share into the ranking and says so. -/
theorem oneShare_counted :
    CountedUp (ascii "m") (ascii "f") (oneShare none)
      (SqlServer.strict.runIn allSucceed (DealSharefile.handlePvFile (ascii "m") (ascii "f"))
        (oneShare none)).st := by
  have hres : (SqlServer.strict.runIn allSucceed
      (DealSharefile.handlePvFile (ascii "m") (ascii "f")) (oneShare none)).res = some 0 := by
    decide +kernel
  refine ((reports_truly_iff _ SqlServer.strict_tells (known_oneShare none) (by decide)
    (by decide) (by decide +kernel) hres).mpr ?_).mp rfl
  intro row z hrow hz _ _ _ _
  cases hrow
  have hnone : (oneShare none).redis FILE_PUBLIC_ZSET = none := by simp [oneShare]
  rw [Redis.zset?, hnone] at hz
  cases hz
  rw [RankingSettles, if_pos (by rfl)]
  exact fun _ _ => ⟨by decide, fun s hs => by cases hs⟩

/-- The next one counts it up, in the table and in the ranking, and returns 1. -/
theorem oneShare_misreported :
    ¬∀ ω ret,
      let w := oneShare (some (.zset (AList.insert (ascii "mf") 0 ∅)))
      (SqlServer.strict.runIn ω (DealSharefile.handlePvFile (ascii "m") (ascii "f")) w).res =
          some ret →
        (ret = 0 ↔ CountedUp (ascii "m") (ascii "f") w
          (SqlServer.strict.runIn ω (DealSharefile.handlePvFile (ascii "m") (ascii "f"))
            w).st) := by
  intro hall
  have hres : (SqlServer.strict.runIn allSucceed
      (DealSharefile.handlePvFile (ascii "m") (ascii "f"))
      (oneShare (some (.zset (AList.insert (ascii "mf") 0 ∅))))).res = some 1 := by decide +kernel
  have hcounted : CountedUp (ascii "m") (ascii "f")
      (oneShare (some (.zset (AList.insert (ascii "mf") 0 ∅))))
      (SqlServer.strict.runIn allSucceed (DealSharefile.handlePvFile (ascii "m") (ascii "f"))
        (oneShare (some (.zset (AList.insert (ascii "mf") 0 ∅))))).st :=
    ⟨⟨ascii "u", ascii "m", ascii "now", ascii "f", 0⟩, by decide +kernel, by decide +kernel,
      by decide +kernel⟩
  exact absurd ((hall allSucceed 1 hres).mpr hcounted) (by decide)

end ShareDownload

end FileHub
