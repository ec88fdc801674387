import Mathlib.Algebra.Group.Prod
import FileHub.Proofs.Calls
import FileHub.Proofs.Stored
import FileHub.Proofs.Threads

/-!
# What handlers that run together owe

`Stored` is about one handler's debts; here every handler that runs has its own
and the tables are held against their sum. The lock adds a third kind of token.
Whoever holds `FileInfoLock` is the only one to change `file_info`, so what it
has read or written there stays true until it lets go: an `Insight`. There is
at most one, because there is one lock.

Not everything is done under the lock. Rows of users come and go beside it, and
an insight must survive that: `fresh` says that nobody can add a row for the
file just created, since nobody else has a reference to it.
-/

namespace FileHub

open Lib
open Prog (ask)

/-- What the holder of the lock knows about the file it works on. -/
inductive Insight where
  /-- Nothing yet, or nothing that is still needed. -/
  | nothing
  /-- The row `file_info` has for it. -/
  | known (i : FileInfoRow)
  /-- Its row was just created, and nobody has a row or a reference for it. -/
  | fresh (m : Bytes)

def Insight.Holds (db : Db) (flight : Multiset Bytes) : Insight → Prop
  | .nothing => True
  | .known i => db.fileInfo.find? i.md5 = some i
  | .fresh m => db.refs m = 0 ∧ flight.count m = 0 ∧ 1 ≤ (db.count? m).getD 0

/-- The debts of all handlers together, and the insights of the lock's holder. -/
structure Ledger (w : World) (flight held : Multiset Bytes) (lock : Multiset Insight) :
    Prop where
  stored : Stored flight held w.db w.fdfs
  single : Multiset.card lock = if w.locked then 1 else 0
  knows : ∀ k ∈ lock, k.Holds w.db flight

namespace Ledger

variable {w : World} {flight held : Multiset Bytes} {lock : Multiset Insight}

/-- There is no second insight beside the holder's. -/
theorem alone {k : Insight} (h : Ledger w flight held ({k} + lock)) :
    lock = 0 ∧ w.locked = true := by
  have hcard := h.single
  rw [Multiset.card_add, Multiset.card_singleton] at hcard
  by_cases hlocked : w.locked = true
  · rw [if_pos hlocked] at hcard
    exact ⟨Multiset.card_eq_zero.mp (by omega), hlocked⟩
  · rw [if_neg hlocked] at hcard
    omega

theorem holds {k : Insight} (h : Ledger w flight held ({k} + lock)) : k.Holds w.db flight :=
  h.knows k (Multiset.mem_add.mpr (.inl (Multiset.mem_singleton_self k)))

/-- Under the lock the tables and the insight may change together. -/
theorem update {k k' : Insight} {d : Dml} {flight' held' : Multiset Bytes}
    (h : Ledger w flight held ({k} + lock)) (hstored : Stored flight' held' (w.db.sql d) w.fdfs)
    (hk : k'.Holds (w.db.sql d) flight') : Ledger (w.sql d) flight' held' ({k'} + lock) := by
  obtain ⟨rfl, hlocked⟩ := h.alone
  refine ⟨hstored, by simp [hlocked], fun k₁ hk₁ => ?_⟩
  rw [add_zero, Multiset.mem_singleton] at hk₁
  exact hk₁ ▸ hk

/-- The tables changed, and nothing about the file is needed any more. -/
theorem settle {k : Insight} {d : Dml} {flight' held' : Multiset Bytes}
    (h : Ledger w flight held ({k} + lock))
    (hstored : Stored flight' held' (w.db.sql d) w.fdfs) :
    Ledger (w.sql d) flight' held' ({.nothing} + lock) :=
  h.update hstored trivial

/-- The row of the file is read. -/
theorem learn {k : Insight} {i : FileInfoRow} (h : Ledger w flight held ({k} + lock))
    (hi : w.db.fileInfo.find? i.md5 = some i) :
    Ledger w flight held ({.known i} + lock) := by
  obtain ⟨rfl, hlocked⟩ := h.alone
  refine ⟨h.stored, by simp [hlocked], fun k₁ hk₁ => ?_⟩
  rw [add_zero, Multiset.mem_singleton] at hk₁
  exact hk₁ ▸ hi

/-- The objects may change at any time. -/
theorem fdfs {held' : Multiset Bytes} {d : Fdfs} (h : Ledger w flight held lock)
    (hstored : Stored flight held' w.db d) :
    Ledger { w with fdfs := d } flight held' lock :=
  ⟨hstored, h.single, h.knows⟩

theorem acquire (h : Ledger w flight held lock) (hfree : w.locked = false) :
    Ledger (w.setLocked true) flight held ({.nothing} + lock) := by
  have hcard := h.single
  rw [hfree] at hcard
  have hlock : lock = 0 := Multiset.card_eq_zero.mp hcard
  subst hlock
  refine ⟨h.stored, rfl, fun k hk => ?_⟩
  rw [add_zero, Multiset.mem_singleton] at hk
  exact hk ▸ trivial

theorem release {k : Insight} (h : Ledger w flight held ({k} + lock)) :
    Ledger (w.setLocked false) flight held lock := by
  obtain ⟨rfl, -⟩ := h.alone
  exact ⟨h.stored, rfl, by simp⟩

/-! ## Rows of users, beside the lock -/

/-- A row added for a reference in flight. -/
theorem addRow {r : UserFileRow} (h : Ledger w ({cStr r.md5} + flight) held lock) :
    Ledger (w.sql (.insertUserFile r)) flight held lock := by
  refine ⟨h.stored.add, h.single, fun k hk => ?_⟩
  have hknows := h.knows k hk
  cases k with
  | nothing => trivial
  | known i =>
      rw [Insight.Holds] at hknows ⊢
      rwa [World.sql_db, Db.fileInfo_insertUserFile]
  | fresh m =>
      obtain ⟨hrefs, hflight, hcount⟩ := hknows
      rw [Multiset.count_add, Multiset.count_singleton] at hflight
      -- The row's reference was in flight, so it is for another file.
      have hne : m ≠ cStr r.md5 := by
        rintro rfl
        simp at hflight
      rw [World.sql_db]
      refine ⟨?_, by omega, by rwa [Db.count?_insertUserFile]⟩
      cases hown : w.db.own r.user r.md5 r.fileName with
      | none => rw [Db.refs_insertUserFile hown, hrefs, if_neg hne]
      | some _ => rw [Db.sql_insertUserFile_of_own (Option.isSome_of_mem hown), hrefs]

/-- A row removed leaves its reference in flight. -/
theorem dropRow {user md5 filename : Bytes} (h : Ledger w flight held lock)
    (hown : (w.db.own user md5 filename).isSome) :
    Ledger (w.sql (.deleteUserFile user md5 filename)) ({cStr md5} + flight) held lock := by
  refine ⟨h.stored.drop hown, h.single, fun k hk => ?_⟩
  have hknows := h.knows k hk
  cases k with
  | nothing => trivial
  | known i => exact hknows
  | fresh m =>
      obtain ⟨hrefs, hflight, hcount⟩ := hknows
      have hpos := Db.refs_pos_of_own hown
      have hne : m ≠ cStr md5 := by
        rintro rfl
        omega
      have hdropped := Db.refs_deleteUserFile hown m
      rw [if_neg hne] at hdropped
      refine ⟨hdropped.trans hrefs, ?_, hcount⟩
      rw [Multiset.count_add, Multiset.count_singleton, if_neg hne, hflight]

/-- The first row of a file just created. -/
theorem addFirst {r : UserFileRow}
    (h : Ledger w flight held ({.fresh (cStr r.md5)} + lock)) :
    w.db.own r.user r.md5 r.fileName = none ∧
      Ledger (w.sql (.insertUserFile r)) flight held
        ({.nothing} + lock) := by
  obtain ⟨hrefs, hflight, hcount⟩ := h.holds
  constructor
  · cases hown : w.db.own r.user r.md5 r.fileName with
    | none => rfl
    | some _ =>
        have hpos := Db.refs_pos_of_own (Option.isSome_of_mem hown)
        omega
  · -- The reference the fresh row was created with is put in flight for a moment.
    have hstored : Stored ({cStr r.md5} + flight) held w.db w.fdfs := by
      refine ⟨fun m => ?_, h.stored.objects, h.stored.nodup⟩
      have hm := h.stored.counted m
      rw [Multiset.count_add, Multiset.count_singleton]
      by_cases heq : m = cStr r.md5
      · subst heq
        rw [if_pos rfl]
        omega
      · rw [if_neg heq]
        omega
    exact h.update hstored.add trivial

end Ledger

/-! ## Handlers in a pool -/

/-- What one handler owes: references in flight, objects held, the lock. -/
abbrev Debts := Multiset Bytes × Multiset Bytes × Multiset Insight

def Owed (w : World) (g : Debts) : Prop := Ledger w g.1 g.2.1 g.2.2

/-- Does the row that a `DELETE FROM user_file_list` names exist? -/
def rowThere (w : World) : Call → Bool
  | .dml (.deleteUserFile user md5 filename) => (w.db.own user md5 filename).isSome
  | _ => true

/-- The handler, owing `g`, pays its debts as it runs and ends in `Q`. -/
abbrev Pays {α : Type} (Q : α → Debts → Prop) (p : Handler α) (g : Debts) : Prop :=
  Safe step Owed (Granted rowThere) Q p g

/-- The calls that touch neither the files nor the lock. -/
def Call.Outside : Call → Prop
  | .tryLockFor _ | .unlock => False
  | c => c.Aside

theorem Call.Outside.aside {c : Call} (hc : c.Outside) : c.Aside := by
  cases c with
  | tryLockFor | unlock => cases hc
  | _ => exact hc

theorem step_outside {c : Call} (hc : c.Outside) {a : Ans} {w w' : World} {r : Resp c}
    (h : step c a w = some (r, w')) : w'.locked = w.locked := by
  cases c with
  | dml | fdfsUpload | fdfsDelete | tryLockFor | unlock => cases hc
  | redis c =>
      simp only [step, redisStep, Option.some.injEq] at h
      split at h <;> cases h <;> rfl
  | crash => cases h
  | _ =>
      cases h
      rfl

section

variable {α β : Type} {g : Debts}

theorem Pays.outside {p : Handler α} (hp : p.Uses Call.Outside) (g : Debts) :
    Pays (fun _ g' => g' = g) p g := by
  refine Safe.of_uses (fun c w h a r w' hc howed _ hs => ?_) hp g
  obtain ⟨hdb, hfdfs⟩ := step_aside hc.aside hs
  have hlocked := step_outside hc hs
  exact ⟨by rw [hdb, hfdfs]; exact howed.stored, by rw [hlocked]; exact howed.single,
    by rw [hdb]; exact howed.knows⟩

/-- A part of the handler that owes nothing new. -/
theorem Pays.skip {Q : β → Debts → Prop} {p : Handler α} {f : α → Handler β}
    (hp : p.Uses Call.Outside) (hf : ∀ a, Pays Q (f a) g) : Pays Q (p >>= f) g :=
  (Pays.outside hp g).bind fun a _ hg => hg ▸ hf a

/-- The lock is granted, so the body runs under it; it ends with some insight
that is given up with the lock. -/
theorem Pays.scopedFileInfoLock {Q : α → Debts → Prop} {ms : ℕ} {body : Bool → Handler α}
    {flight held : Multiset Bytes}
    (hbody : Pays (fun r g => ∃ k, g.2.2 = {k} ∧ Q r (g.1, g.2.1, 0)) (body true)
      (flight, held, {.nothing})) :
    Pays Q (FileHub.scopedFileInfoLock ms body) (flight, held, 0) := by
  intro w f a r w' howed hG hs
  simp only [step, if_pos hG.1] at hs
  split at hs
  · cases hs
  · next hfree =>
      cases hs
      refine ⟨(flight, held, {.nothing}), ?_, hbody.bind fun r g hg => ?_⟩
      · have hacquire := howed.acquire (by simpa using hfree)
        simpa [Owed, World.setLocked] using hacquire
      · obtain ⟨k, hk, hQ⟩ := hg
        intro w f a u w' howed hG hs
        cases hs
        refine ⟨(g.1, g.2.1, 0), ?_, hQ⟩
        have hlock : (g + f).2.2 = {k} + f.2.2 := congrArg (· + f.2.2) hk
        rw [Owed, hlock] at howed
        simpa [Owed, World.setLocked] using howed.release

theorem Pays.fdfsUpload {Q : Option Bytes → Debts → Prop} {path : Bytes}
    (hQ : ∀ id, cStr id = id → Q (some id) (g.1, {id} + g.2.1, g.2.2)) :
    Pays Q (ask (Call.fdfsUpload path)) g := by
  intro w f a r w' howed hG hs
  simp only [step, if_pos hG.1, Option.some.injEq, Prod.mk.injEq] at hs
  obtain ⟨rfl, rfl⟩ := hs
  refine ⟨_, ?_, hQ _ (w.fdfs.cStr_freshId _)⟩
  have hstore := howed.stored.store (w.fdfs.freshId_not_used (cStr a.text))
  simpa [Owed, add_assoc] using howed.fdfs hstore

theorem Pays.fdfsDelete {Q : Bool → Debts → Prop} {id : Bytes} {flight held : Multiset Bytes}
    {lock : Multiset Insight} (hQ : Q true (flight, held, lock)) :
    Pays Q (ask (Call.fdfsDelete id)) (flight, {id} + held, lock) := by
  intro w f a r w' howed hG hs
  simp only [step, if_pos hG.1, Option.some.injEq, Prod.mk.injEq] at hs
  obtain ⟨rfl, rfl⟩ := hs
  refine ⟨_, ?_, hQ⟩
  have hstored : Stored (flight + f.1) ({id} + (held + f.2.1)) w.db w.fdfs := by
    rw [← add_assoc]
    exact howed.stored
  exact howed.fdfs hstored.remove

end

end FileHub
