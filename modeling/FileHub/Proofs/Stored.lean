import Mathlib.Data.Multiset.AddSub
import Mathlib.Data.Multiset.Count
import FileHub.Proofs.Statements
import FileHub.Model.World

/-!
# What keeps files from being lost

`Stored flight held` is the invariant behind every statement that no file is
lost. Between its first and its last statement a handler owes something: it has
counted a reference up and not added the row yet, or removed a row and not
counted it down; it has an object that no row of `file_info` names. `flight`
are the md5s of such references, `held` the ids of such objects. The rows
together with the references in flight are no more than `file_info` counts;
the objects named together with those held are stored, and no two are the same.

Every statement that touches the files moves something between the tables and
the debts. A debt may also be forgotten (`Stored.mono`): then a count is too
high or an object is left over, and no file is lost by that.
-/

namespace FileHub

open Lib

/-- Every row of a user has its file. -/
def Live (db : Db) (fdfs : Fdfs) : Prop :=
  ∀ r ∈ db.userFileList.rows, ∃ i, db.fileInfo.find? r.md5 = some i ∧ i.fileId ∈ fdfs.objects

theorem live_iff {db : Db} {fdfs : Fdfs} :
    Live db fdfs ↔ ∀ r ∈ db.userFileList.rows,
      (db.fileInfo.find? r.md5).any (fun i => fdfs.objects.contains i.fileId) = true := by
  simp only [Live, Option.any_eq_true, List.contains_iff_mem]

instance (db : Db) (fdfs : Fdfs) : Decidable (Live db fdfs) :=
  decidable_of_iff _ live_iff.symm

/-- Rows and references in flight are counted, objects named and held are stored
and distinct. -/
structure Stored (flight held : Multiset Bytes) (db : Db) (fdfs : Fdfs) : Prop where
  counted : ∀ m, (db.refs m : Int) + flight.count m ≤ (db.count? m).getD 0
  objects : ∀ id ∈ (db.fileIds : Multiset Bytes) + held, id ∈ fdfs.objects
  nodup : ((db.fileIds : Multiset Bytes) + held).Nodup

/-- What `dropReference` leaves held: the object of the last reference. -/
def lastObject : Option (Int × Bytes) → Multiset Bytes
  | none => 0
  | some (count, file_id) => if count = 1 then {file_id} else 0

namespace Stored

variable {flight held : Multiset Bytes} {db : Db} {fdfs : Fdfs}

theorem empty : Stored 0 0 Db.empty Fdfs.empty :=
  ⟨fun m => by simp [Db.empty, Db.refs, Db.count?], by simp [Db.empty, Db.fileIds],
    by simp [Db.empty, Db.fileIds]⟩

theorem live (h : Stored flight held db fdfs) : Live db fdfs := by
  intro r hr
  have hpos : 0 < db.refs r.md5 := List.countP_pos_iff.mpr ⟨r, hr, by simp⟩
  have hcounted := h.counted r.md5
  rw [Db.count?] at hcounted
  cases hi : db.fileInfo.find? r.md5 with
  | none =>
      simp only [hi, Option.map_none, Option.getD_none] at hcounted
      omega
  | some i =>
      have hmem : i.fileId ∈ db.fileIds :=
        List.mem_map_of_mem (Table.find?_eq_some.mp hi).1
      exact ⟨i, rfl, h.objects _ (Multiset.mem_add.mpr (.inl hmem))⟩

/-- Debts forgotten. -/
theorem mono {flight' held' : Multiset Bytes} (h : Stored flight held db fdfs)
    (hflight : flight' ≤ flight) (hheld : held' ≤ held) : Stored flight' held' db fdfs := by
  have hle : (db.fileIds : Multiset Bytes) + held' ≤ (db.fileIds : Multiset Bytes) + held :=
    add_le_add le_rfl hheld
  refine ⟨fun m => ?_, fun id hid => h.objects id (Multiset.mem_of_le hle hid), ?_⟩
  · have hcount := Multiset.count_le_of_le m hflight
    have hm := h.counted m
    omega
  · exact Multiset.nodup_of_le hle h.nodup

theorem debtless (h : Stored flight held db fdfs) : Stored 0 0 db fdfs :=
  h.mono (Multiset.zero_le _) (Multiset.zero_le _)

/-- Nobody has a row for a file that is not known, nor is about to. -/
theorem of_info_none (h : Stored flight held db fdfs) {md5 : Bytes}
    (hinfo : db.info md5 = none) : db.refs (cStr md5) = 0 ∧ flight.count (cStr md5) = 0 := by
  have hcounted := h.counted (cStr md5)
  have hnone : db.count? (cStr md5) = none := by
    rw [← Option.not_isSome_iff_eq_none, Db.isSome_count?, hinfo]
    simp
  rw [hnone, Option.getD_none] at hcounted
  omega

/-- A file with a reference in flight is known. -/
theorem info_of_flight {md5 : Bytes} (h : Stored ({cStr md5} + flight) held db fdfs) :
    ∃ i, db.info md5 = some i := by
  rw [← Option.isSome_iff_exists]
  by_contra hnone
  rw [Option.not_isSome_iff_eq_none] at hnone
  have hcount := (h.of_info_none hnone).2
  rw [Multiset.count_add, Multiset.count_singleton_self] at hcount
  omega

/-! ## The counter -/

/-- Counting up a file that is known. -/
theorem incr (h : Stored flight held db fdfs) {md5 : Bytes} {i : FileInfoRow}
    (hinfo : db.info md5 = some i) :
    Stored ({cStr md5} + flight) held (db.sql (.incrCount md5)) fdfs := by
  refine ⟨fun m => ?_, ?_, ?_⟩
  · have hm := h.counted m
    have hrefs : (db.sql (.incrCount md5)).refs m = db.refs m := rfl
    rw [Db.count?_incrCount, hrefs, Multiset.count_add, Multiset.count_singleton]
    by_cases heq : m = cStr md5
    · subst heq
      rw [Db.count?_of_info hinfo] at hm ⊢
      simp only [Option.getD_some, Option.map_some, if_true] at hm ⊢
      omega
    · simp only [heq, if_false, Option.map_id'] at hm ⊢
      omega
  · rw [Db.fileIds_incrCount]
    exact h.objects
  · rw [Db.fileIds_incrCount]
    exact h.nodup

/-- Counting up, known or not. -/
theorem incr_any (h : Stored flight held db fdfs) (md5 : Bytes) :
    Stored flight held (db.sql (.incrCount md5)) fdfs := by
  cases hinfo : db.info md5 with
  | none => rwa [Db.sql_incrCount_of_info hinfo]
  | some i => exact (h.incr hinfo).mono (Multiset.le_add_left _ _) le_rfl

/-- Counting down settles a reference in flight. -/
theorem decr {md5 : Bytes} (h : Stored ({cStr md5} + flight) held db fdfs) :
    Stored flight held (db.sql (.decrCount md5)) fdfs := by
  obtain ⟨i, hinfo⟩ := h.info_of_flight
  refine ⟨fun m => ?_, ?_, ?_⟩
  · have hm := h.counted m
    have hrefs : (db.sql (.decrCount md5)).refs m = db.refs m := rfl
    rw [Multiset.count_add, Multiset.count_singleton] at hm
    rw [Db.count?_decrCount, hrefs]
    by_cases heq : m = cStr md5
    · subst heq
      rw [Db.count?_of_info hinfo] at hm ⊢
      simp only [Option.getD_some, Option.map_some, if_true] at hm ⊢
      omega
    · simp only [heq, if_false, Option.map_id'] at hm ⊢
      omega
  · rw [Db.fileIds_decrCount]
    exact h.objects
  · rw [Db.fileIds_decrCount]
    exact h.nodup

/-! ## The rows of the users -/

/-- A row added for a reference in flight, or refused. -/
theorem add {r : UserFileRow} (h : Stored ({cStr r.md5} + flight) held db fdfs) :
    Stored flight held (db.sql (.insertUserFile r)) fdfs := by
  cases hown : db.own r.user r.md5 r.fileName with
  | some _ =>
      rw [Db.sql_insertUserFile_of_own (Option.isSome_of_mem hown)]
      exact h.mono (Multiset.le_add_left _ _) le_rfl
  | none =>
      refine ⟨fun m => ?_, ?_, ?_⟩
      · have hm := h.counted m
        rw [Multiset.count_add, Multiset.count_singleton] at hm
        rw [Db.count?_insertUserFile, Db.refs_insertUserFile hown]
        by_cases heq : m = cStr r.md5
        · rw [if_pos heq] at hm ⊢
          omega
        · rw [if_neg heq] at hm ⊢
          omega
      · rw [Db.fileIds_insertUserFile]
        exact h.objects
      · rw [Db.fileIds_insertUserFile]
        exact h.nodup

/-- A row removed leaves its reference in flight. -/
theorem drop (h : Stored flight held db fdfs) {user md5 filename : Bytes}
    (hown : (db.own user md5 filename).isSome) :
    Stored ({cStr md5} + flight) held (db.sql (.deleteUserFile user md5 filename)) fdfs := by
  refine ⟨fun m => ?_, h.objects, h.nodup⟩
  have hm := h.counted m
  have hrefs := Db.refs_deleteUserFile hown m
  have hcount : (db.sql (.deleteUserFile user md5 filename)).count? m = db.count? m := rfl
  rw [hcount, Multiset.count_add, Multiset.count_singleton]
  omega

/-! ## The rows of `file_info` and the objects -/

/-- A new file for an object held, with its first reference in flight. -/
theorem create {row : FileInfoRow} (h : Stored flight ({cStr row.fileId} + held) db fdfs)
    (hinfo : db.info row.md5 = none) (hcount : row.count = 1) :
    Stored ({cStr row.md5} + flight) held (db.sql (.insertFileInfo row)) fdfs := by
  have hids : ((db.sql (.insertFileInfo row)).fileIds : Multiset Bytes) + held =
      (db.fileIds : Multiset Bytes) + ({cStr row.fileId} + held) := by
    rw [Db.fileIds_insertFileInfo hinfo, ← Multiset.coe_add, add_assoc]
    rfl
  refine ⟨fun m => ?_, by rw [hids]; exact h.objects, by rw [hids]; exact h.nodup⟩
  have hm := h.counted m
  rw [Db.count?_insertFileInfo hinfo, Db.refs_insertFileInfo, Multiset.count_add,
    Multiset.count_singleton]
  by_cases heq : m = cStr row.md5
  · subst heq
    obtain ⟨hrefs, hflight⟩ := h.of_info_none hinfo
    rw [if_pos rfl, if_pos rfl, hrefs, hflight, hcount]
    simp
  · rw [if_neg heq, if_neg heq]
    simpa using hm

/-- A file forgotten with its last reference, its object now held. -/
theorem forget {md5 : Bytes} {i : FileInfoRow} (h : Stored ({cStr md5} + flight) held db fdfs)
    (hinfo : db.info md5 = some i) (hlast : i.count = 1) :
    Stored flight ({i.fileId} + held) (db.sql (.deleteFileInfo md5)) fdfs := by
  have hids : ((db.sql (.deleteFileInfo md5)).fileIds : Multiset Bytes) + ({i.fileId} + held) =
      (db.fileIds : Multiset Bytes) + held := by
    rw [Multiset.coe_eq_coe.mpr (Db.fileIds_deleteFileInfo hinfo), ← Multiset.cons_coe,
      add_left_comm, Multiset.singleton_add, Multiset.cons_add]
  refine ⟨fun m => ?_, by rw [hids]; exact h.objects, by rw [hids]; exact h.nodup⟩
  have hm := h.counted m
  have hrefs : (db.sql (.deleteFileInfo md5)).refs m = db.refs m := rfl
  rw [Multiset.count_add, Multiset.count_singleton] at hm
  rw [Db.count?_deleteFileInfo, hrefs]
  by_cases heq : m = cStr md5
  · subst heq
    rw [Db.count?_of_info hinfo, Option.getD_some, if_pos rfl] at hm
    rw [if_pos rfl, Option.getD_none]
    omega
  · rw [if_neg heq] at hm ⊢
    simpa using hm

/-- An object held is removed. -/
theorem remove {id : Bytes} (h : Stored flight ({id} + held) db fdfs) :
    Stored flight held db (fdfs.remove id) := by
  have hmono := h.mono le_rfl (Multiset.le_add_left _ _)
  refine ⟨hmono.counted, fun o ho => ?_, hmono.nodup⟩
  refine List.mem_filter.mpr ⟨hmono.objects o ho, ?_⟩
  simp only [decide_not, Bool.not_eq_true', decide_eq_false_iff_not]
  rintro rfl
  have hnodup := h.nodup
  rw [add_left_comm, Multiset.singleton_add, Multiset.nodup_cons] at hnodup
  exact hnodup.1 ho

/-- An object stored under a fresh id is held. -/
theorem store (h : Stored flight held db fdfs) {id : Bytes} (hid : id ∉ fdfs.used) :
    Stored flight ({id} + held) db (fdfs.store id) := by
  refine ⟨h.counted, fun o ho => ?_, ?_⟩
  · rw [add_left_comm, Multiset.singleton_add, Multiset.mem_cons] at ho
    rcases ho with rfl | ho
    · exact List.mem_cons_self
    · exact List.mem_cons_of_mem _ (h.objects o ho)
  · rw [add_left_comm, Multiset.singleton_add, Multiset.nodup_cons]
    exact ⟨fun hmem => hid (fdfs.objects_used id (h.objects id hmem)), h.nodup⟩

end Stored

end FileHub
