import FileHub.Proofs.Effects
import FileHub.Proofs.KnownCalls

/-!
# What an instant upload should do

A user who has the file is told so. For a file that is known, one reference is
counted and the user gets his row; for one that is not, nothing happens. The
code never gets to the row: it counts, and fails.
-/

namespace FileHub

open Lib
open Lib.Sql (Plain)

/-- The answer to an instant upload and the world it leaves, as specified. -/
def InstantUploaded (w : World) (user md5 filename : Bytes) (state : Md5State) (w' : World) :
    Prop :=
  match w.db.own user md5 filename, w.db.info md5 with
  | some _, _ => state = .md5FileExist ∧ w'.db = w.db
  | none, some _ => state = .md5Ok ∧ ∃ time,
      w'.db = (w.db.sql (.incrCount md5)).sql (.insertUserFile ⟨user, md5, time, filename, 0, 0⟩)
  | none, none => state = .md5Failed ∧ w'.db = w.db

variable {w : World} {ω : ℕ → Ans}

/-- What the run answers and leaves. -/
theorem handleDealMd5_run (hw : w.locked = false) (hω : NoFail ω) (user md5 filename : Bytes) :
    (runIn ω (handleDealMd5 user md5 filename) w).res = some
        (if (w.db.own user md5 filename).isSome then .md5FileExist else .md5Failed) ∧
      (runIn ω (handleDealMd5 user md5 filename) w).st = w.counted user md5 filename := by
  have hensures : Ensures (fun _ => False)
      (fun state w' => state =
          (if (w.db.own user md5 filename).isSome then .md5FileExist else .md5Failed) ∧
        w' = w.counted user md5 filename) (handleDealMd5 user md5 filename) w :=
    handleDealMd5_ensures hw user md5 filename ⟨rfl, rfl⟩
  obtain ⟨state, hres, hstate, hst⟩ := Prog.Wp.returns hensures hω
  exact ⟨hres.trans (congrArg some hstate), hst⟩

theorem instantUploaded_run_iff (hw : w.locked = false) (hω : NoFail ω)
    (user md5 filename : Bytes) :
    (∃ state, (runIn ω (handleDealMd5 user md5 filename) w).res = some state ∧
        InstantUploaded w user md5 filename state
          (runIn ω (handleDealMd5 user md5 filename) w).st) ↔
      (w.db.own user md5 filename).isSome ∨ w.db.info md5 = none := by
  obtain ⟨hres, hst⟩ := handleDealMd5_run hw hω user md5 filename
  rw [hres, hst]
  simp only [Option.some.injEq, exists_eq_left', InstantUploaded, World.counted]
  cases hown : w.db.own user md5 filename with
  | some r => simp
  | none =>
      cases hinfo : w.db.info md5 with
      | some i => simp
      | none =>
          rw [World.sql_self (Db.sql_incrCount_of_info hinfo)]
          simp

/-- The handler does what it should of known strings exactly where the user has
the file already or the file is not known. -/
theorem instantUploaded_iff (server : SqlServer) {K : Bytes → Prop} (hK : server.Tells K)
    {user md5 filename : Bytes} (huser : K user) (hmd5 : K md5) (hname : K filename)
    (hdb : w.db.Known K) (hw : w.locked = false) (hω : NoFail ω)
    (hregular : server.Regular ω (handleDealMd5 user md5 filename) w) :
    (∃ state, (server.runIn ω (handleDealMd5 user md5 filename) w).res = some state ∧
        InstantUploaded w user md5 filename state
          (server.runIn ω (handleDealMd5 user md5 filename) w).st) ↔
      (w.db.own user md5 filename).isSome ∨ w.db.info md5 = none := by
  rw [hK.runIn_eq (known_handleDealMd5 huser hmd5 hname) hdb hregular]
  exact instantUploaded_run_iff hw hω user md5 filename

/-! A file that somebody stored. -/

def storedFile : World :=
  World.empty.sql
    (.insertFileInfo ⟨ascii "m", ascii "x", ascii "http", 1, ascii "txt", 1⟩)

theorem known_storedFile : storedFile.db.Known Plain := by
  refine ⟨?_, ?_, nofun, nofun, nofun⟩ <;> decide

/-- An unknown file is answered as it should be. -/
theorem unknown_instantUploaded :
    ∃ state, (SqlServer.strict.runIn allSucceed
        (handleDealMd5 (ascii "u") (ascii "n") (ascii "f")) storedFile).res = some state ∧
      InstantUploaded storedFile (ascii "u") (ascii "n") (ascii "f") state
        (SqlServer.strict.runIn allSucceed
          (handleDealMd5 (ascii "u") (ascii "n") (ascii "f")) storedFile).st :=
  (instantUploaded_iff _ SqlServer.strict_tells (by decide) (by decide) (by decide)
    known_storedFile rfl noFail_allSucceed (by decide +kernel)).mpr (.inr (by decide))

/-- A file that is known is counted and refused. -/
theorem known_not_instantUploaded :
    ¬∃ state, (SqlServer.strict.runIn allSucceed
        (handleDealMd5 (ascii "u") (ascii "m") (ascii "f")) storedFile).res = some state ∧
      InstantUploaded storedFile (ascii "u") (ascii "m") (ascii "f") state
        (SqlServer.strict.runIn allSucceed
          (handleDealMd5 (ascii "u") (ascii "m") (ascii "f")) storedFile).st := by
  rintro ⟨state, hres, hspec⟩
  have hfailed : (SqlServer.strict.runIn allSucceed
      (handleDealMd5 (ascii "u") (ascii "m") (ascii "f")) storedFile).res = some .md5Failed := by
    decide +kernel
  rw [hfailed, Option.some.injEq] at hres
  subst hres
  obtain ⟨i, hinfo⟩ := Option.isSome_iff_exists.mp
    (by decide : (storedFile.db.info (ascii "m")).isSome = true)
  have hown : storedFile.db.own (ascii "u") (ascii "m") (ascii "f") = none := by decide
  rw [InstantUploaded, hown, hinfo] at hspec
  cases hspec.1

end FileHub
