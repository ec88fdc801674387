import FileHub.Api.Storage
import FileHub.Lib.History
import FileHub.Proofs.Effects
import FileHub.Proofs.KnownCalls

/-!
# The reference counter is exact, as long as nobody repeats himself

`CountExact` is what the counter is for: `file_info` knows exactly the md5s
that users have rows for, and how many rows those are. Saving and deleting keep
it. An upload keeps it unless the user already has that very row: the counter
goes up before the insert that the unique index then refuses. An instant upload
breaks it whenever it does anything, because it counts a reference and leaves
without inserting the row.
-/

namespace FileHub

open Lib
open Lib.Sql (Plain)

def CountExact (db : Db) : Prop :=
  ∀ m, ((db.fileInfo.find? m).isSome ↔ 0 < db.refs m) ∧
    ∀ r, db.fileInfo.find? m = some r → r.count = db.refs m

theorem countExact_iff {db : Db} :
    CountExact db ↔
      ∀ m, db.count? m = if db.refs m = 0 then none else some (db.refs m : Int) := by
  refine forall_congr' fun m => ?_
  rw [Db.count?]
  cases db.fileInfo.find? m with
  | none => simp [Nat.pos_iff_ne_zero, eq_comm]
  | some r =>
      by_cases h : db.refs m = 0
      · simp [h]
      · simp [h, Nat.pos_iff_ne_zero]

theorem CountExact.empty : CountExact Db.empty := by
  intro m
  simp [Db.empty, Db.refs]

/-! ## The tables -/

section

variable {db : Db}

/-- A reference counted together with its row. -/
theorem CountExact.added (h : CountExact db) {r : UserFileRow}
    (hown : db.own r.user r.md5 r.fileName = none) (hinfo : (db.info r.md5).isSome) :
    CountExact ((db.sql (.incrCount r.md5)).sql (.insertUserFile r)) := by
  rw [← Db.isSome_count?] at hinfo
  rw [countExact_iff] at h ⊢
  intro m
  have hown' : (db.sql (.incrCount r.md5)).own r.user r.md5 r.fileName = none := hown
  have hsame : (db.sql (.incrCount r.md5)).refs m = db.refs m := rfl
  rw [Db.count?_insertUserFile, Db.count?_incrCount, Db.refs_insertUserFile hown', hsame, h m]
  by_cases hm : m = cStr r.md5
  · subst hm
    rw [h] at hinfo
    by_cases hz : db.refs (cStr r.md5) = 0
    · simp [hz] at hinfo
    · simp [hz]
  · simp [hm]

/-- A new file, with its first reference. -/
theorem CountExact.created (h : CountExact db) {row : FileInfoRow} {r : UserFileRow}
    (hmd5 : r.md5 = row.md5) (hinfo : db.info row.md5 = none) (hcount : row.count = 1)
    (hown : db.own r.user r.md5 r.fileName = none) :
    CountExact ((db.sql (.insertFileInfo row)).sql (.insertUserFile r)) := by
  rw [countExact_iff] at h ⊢
  intro m
  have hown' := (Db.own_insertFileInfo db row r.user r.md5 r.fileName).trans hown
  rw [Db.count?_insertUserFile, Db.count?_insertFileInfo hinfo, Db.refs_insertUserFile hown',
    Db.refs_insertFileInfo, h m, hcount, hmd5]
  by_cases hm : m = cStr row.md5
  · have hzero := Db.isSome_count? db row.md5
    rw [h, hinfo] at hzero
    by_cases hz : db.refs (cStr row.md5) = 0
    · simp [hm, hz]
    · simp [hz] at hzero
  · simp [hm]

end

/-! ## The four requests -/

section

variable {w : World}

theorem CountExact.saved (h : CountExact w.db) (user md5 filename time : Bytes) :
    CountExact (w.saved user md5 filename time).db := by
  rw [World.saved]
  split
  · exact h
  · next hnew =>
      rw [not_or, Option.not_isSome_iff_eq_none] at hnew
      exact @CountExact.added _ h (newUserFile user md5 filename time) hnew.1
        (Option.isSome_iff_ne_none.mpr hnew.2)

/-- The row deleted, the counter is one too high; giving up a reference puts that
right. -/
theorem CountExact.released {md5 : Bytes}
    (h : ∀ m, w.db.count? m = if w.db.refs m + (if m = cStr md5 then 1 else 0) = 0 then none
      else some ((w.db.refs m + if m = cStr md5 then 1 else 0 : ℕ) : Int)) :
    CountExact (w.released md5).db := by
  have hcount : w.db.count? (cStr md5) = some (w.db.refs (cStr md5) + 1 : Int) := by
    simpa using h (cStr md5)
  rw [countExact_iff]
  intro m
  cases hinfo : w.db.info md5 with
  | none =>
      have := Db.isSome_count? w.db md5
      simp [hinfo, hcount] at this
  | some i =>
      have hi : i.count = w.db.refs (cStr md5) + 1 := by
        rw [Db.count?_of_info hinfo, Option.some.injEq] at hcount
        exact hcount
      simp only [World.released, World.uncounted, hinfo]
      by_cases hz : w.db.refs (cStr md5) = 0
      · -- The last reference: the row of `file_info` goes.
        have hone : i.count = 1 := by omega
        have hrefs : (w.db.sql (.deleteFileInfo md5)).refs m = w.db.refs m := rfl
        simp only [hone, lt_irrefl, if_false, if_true, World.sql_db,
          Db.count?_deleteFileInfo, hrefs, h m]
        by_cases hm : m = cStr md5
        · simp [hm, hz]
        · simp [hm]
      · have hmore : 1 < i.count := by omega
        have hrefs : (w.db.sql (.decrCount md5)).refs m = w.db.refs m := rfl
        simp only [hmore, ne_of_gt hmore, if_false, if_true, World.sql_db,
          Db.count?_decrCount, hrefs, h m]
        by_cases hm : m = cStr md5
        · simp [hm, hz]
        · simp [hm]

theorem CountExact.deleted (h : CountExact w.db) (user md5 filename : Bytes) :
    CountExact (w.deleted user md5 filename).db := by
  rw [World.deleted]
  cases hown : w.db.own user md5 filename with
  | none => exact h
  | some r =>
      have hown' : (w.db.own user md5 filename).isSome := Option.isSome_of_mem hown
      refine CountExact.released fun m => ?_
      -- Taking the file out of the shares moves neither rows nor counters.
      have hrefs : ((if r.sharedStatus = 1 then w.unshared user md5 filename
          else w).sql (.deleteUserFile user md5 filename)).db.refs m =
          (w.db.sql (.deleteUserFile user md5 filename)).refs m := by split <;> rfl
      have hcount : ((if r.sharedStatus = 1 then w.unshared user md5 filename
          else w).sql (.deleteUserFile user md5 filename)).db.count? m =
          w.db.count? m := by split <;> rfl
      rw [hrefs, hcount, Db.refs_deleteUserFile hown' m]
      exact countExact_iff.mp h m

end

/-! ## Histories -/

namespace StorageRequest

variable (parse : Bytes → Option JsonValue) (ip : Bytes)

variable {parse ip} {w : World}

/-- No request leaves the lock taken. -/
theorem serve_locked (hw : w.locked = false) (x : Undisturbed StorageRequest) :
    (serve (handle parse ip) w x).locked = false := by
  refine @Ensures.serve _ (fun w' => w'.locked = false) _ _ _ ?_
  match x.request with
  | .upload post_data =>
      rw [handle, ensures_bind]
      exact apiUpload_ensures hw ip post_data (fun _ _ => hw) (fun _ _ _ _ _ => hw)
        fun _ form _ fileid url time _ => (uploaded_locked _ form fileid url time).trans hw
  | .instantUpload post_data =>
      rw [handle, ensures_bind]
      exact apiMd5_ensures hw parse post_data ((instant_locked _ _ _).trans hw)
  | .save user md5 filename =>
      rw [handle, ensures_bind]
      exact handleSaveFile_ensures hw _ _ _ fun _ _ => (saved_locked _ _ _ _ _).trans hw
  | .delete user md5 filename =>
      rw [handle, ensures_bind]
      exact handleDeleteFile_ensures hw _ _ _ fun _ => (deleted_locked _ _ _ _).trans hw

end StorageRequest

end FileHub
