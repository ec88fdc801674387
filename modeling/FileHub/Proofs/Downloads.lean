import FileHub.Proofs.KnownCalls
import FileHub.Proofs.ShareEffects
import FileHub.Proofs.Threads

/-!
# Downloads counted at the same time

Both handlers that count a download read `pv`, add one and write the sum back
by a second statement. A download counted in between is overwritten. Where
every `UPDATE` finds the count its handler has read, the downloads add up,
whatever else is interleaved, and each handler returns what it would return
alone.

For a share there is a second way to disturb another call. The first download
of a share that is not ranked puts it into the ranking; a later one finds it
there and counts it up, and the handler takes the reply to that for a failure.
-/

namespace FileHub

open Lib
open Lib.Sql (Plain)
open Prog (ask)

/-- What is downloaded: a user's own file, or a share. -/
inductive Download where
  | own (user md5 filename : Bytes)
  | share (md5 filename : Bytes)

namespace Download

def handle : Download → Handler Int
  | .own user md5 filename => Dealfile.handlePvFile user md5 filename
  | .share md5 filename => DealSharefile.handlePvFile md5 filename

/-- The count of the one row there is. -/
def pv? (db : Db) : Download → Option Int
  | .own user md5 filename => (db.own user md5 filename).map (·.pv)
  | .share md5 filename =>
      match db.shares md5 filename with
      | [row] => some row.pv
      | _ => none

def pool (d : Download) (n : ℕ) (w : World) : Pool Unit Call Resp Int World :=
  ⟨List.replicate n ((), d.handle), w⟩

/-- What the handler returns where nobody disturbs it. -/
def alone (w : World) : Download → Int
  | .own .. => 0
  | .share md5 filename => if w.ranking (shareFileid md5 filename) = 0 then 0 else 1

end Download

/-! ## The statements -/

namespace Db

variable {db : Db}

theorem shares_setSharePv (db : Db) (v : Int) (md5 filename : Bytes) :
    (db.sql (.setSharePv v md5 filename)).shares md5 filename =
      (db.shares md5 filename).map fun r => { r with pv := v } := by
  have hrows : (db.sql (.setSharePv v md5 filename)).shareFileList =
      db.shareFileList.map fun r =>
        if r.md5 = cStr md5 ∧ r.fileName = cStr filename then { r with pv := v } else r := rfl
  rw [shares, shares, hrows]
  induction db.shareFileList with
  | nil => rfl
  | cons r rows ih =>
      by_cases hr : r.md5 = cStr md5 ∧ r.fileName = cStr filename
      · simpa [hr] using ih
      · simpa [hr] using ih

end Db

namespace Download

/-- The count is as many above `pv` as there are tokens; the ranking is a sorted set, or not. -/
structure Counted (d : Download) (pv : Int) (ranked : Bool) (w : World) (g : ℕ) : Prop where
  count : d.pv? w.db = some (pv + g)
  ranked : (w.redis.zset? FILE_PUBLIC_ZSET).isSome = ranked

variable {d : Download} {pv : Int} {ranked : Bool} {α β : Type}

theorem Counted.congr {w w' : World} {g : ℕ} (h : Counted d pv ranked w g)
    (hdb : w'.db = w.db) (hredis : w'.redis = w.redis) : Counted d pv ranked w' g :=
  ⟨by rw [hdb]; exact h.count, by rw [hredis]; exact h.ranked⟩

/-- A handler in a run where some disturbance is excluded. -/
abbrev Counts {α : Type} (d : Download) (pv : Int) (ranked : Bool)
    (allowed : World → Call → Bool) (Q : α → ℕ → Prop) (p : Handler α) (g : ℕ) : Prop :=
  Safe step (Counted d pv ranked) (Granted allowed) Q p g

variable {allowed : World → Call → Bool} {Q : β → ℕ → Prop} {g : ℕ}

theorem Counts.skip {p : Handler α} {f : α → Handler β} (hp : p.Uses Call.Reads)
    (hf : ∀ a, Counts d pv ranked allowed Q (f a) g) :
    Counts d pv ranked allowed Q (p >>= f) g := by
  have hkeep : Counts d pv ranked allowed (fun _ g' => g' = g) p g := by
    refine Safe.of_uses (fun c s h a r s' hc hI _ hs => ?_) hp g
    rwa [step_reads hc hs]
  refine hkeep.bind ?_
  rintro a _ rfl
  exact hf a

/-! ## The own file -/

theorem Counted.cmd {c : RedisCmd} {w : World} (h : Counted d pv ranked w g)
    (hc : ((w.cmd c).redis.zset? FILE_PUBLIC_ZSET).isSome =
      (w.redis.zset? FILE_PUBLIC_ZSET).isSome) : Counted d pv ranked (w.cmd c) g :=
  ⟨h.count, hc.trans h.ranked⟩

theorem reply_zadd {w : World} (h : (w.redis.zset? FILE_PUBLIC_ZSET).isSome) (score : Int)
    (id : Bytes) : (w.reply (.zadd FILE_PUBLIC_ZSET score id)).orFail (fun _ => 0) = 0 := by
  obtain ⟨z, hz⟩ := Option.isSome_iff_exists.mp h
  simp only [World.reply, RedisCmd.format, cStr_zsetKey, Redis.exec, hz]
  rfl

/-- A score is no status. -/
theorem intText_ne_ok (n : Int) : cStr (intText n) ≠ ascii "OK" := by
  intro h
  have hmem : 79 ∈ intText n := by
    refine List.takeWhile_subset _ (?_ : 79 ∈ cStr (intText n))
    rw [h]
    decide
  have hdigit : isDigit 79 = false := by decide
  rw [intText] at hmem
  split at hmem
  · rcases List.mem_cons.mp hmem with h | h
    · exact absurd h (by decide)
    · simp [isDigit_decimal _ _ h] at hdigit
  · simp [isDigit_decimal _ _ hmem] at hdigit

/-- What is downloaded is named by known strings. -/
def Known (K : Bytes → Prop) : Download → Prop
  | .own user md5 filename => K user ∧ K md5 ∧ K filename
  | .share md5 filename => K md5 ∧ K filename

theorem known_handle {K : Bytes → Prop} {d : Download} (hd : d.Known K) :
    KnownCalls K d.handle := by
  cases d with
  | own => exact known_ownPv hd.1 hd.2.1 hd.2.2
  | share => exact known_sharePv hd.1 hd.2

end Download

end FileHub
