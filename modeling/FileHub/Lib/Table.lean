import Mathlib.Data.List.Nodup
import Mathlib.Data.List.Basic

/-!
# Tables with a unique key

A table is a list of rows no two of which share a key; the uniqueness is a
field, so a table that breaks its own unique index cannot be built. Insertion
is the one operation that can fail, and it fails exactly on a key that is
taken. Deletion and update are by an arbitrary condition on rows; an update
comes with the proof that it leaves keys alone.

Reading by key is `find?`, and the lemmas say what each operation does to it.
Counting rows is `List.countP` on `rows`, and the lemmas say by how much each
operation moves a count. The pair is what reference-counting arguments need:
which rows there are and how many.
-/

namespace FileHub.Lib

/-- Rows of type `ρ` under the unique index `key`. -/
structure Table (ρ : Type) {κ : Type} (key : ρ → κ) where
  rows : List ρ
  unique : (rows.map key).Nodup

namespace Table

variable {ρ κ : Type} {key : ρ → κ} [DecidableEq κ]

def empty : Table ρ key := ⟨[], List.nodup_nil⟩

def single (r : ρ) : Table ρ key := ⟨[r], List.nodup_singleton _⟩

def find? (t : Table ρ key) (k : κ) : Option ρ := t.rows.find? fun r => key r = k

/-- Add a row, unless its key is taken. -/
def insert (t : Table ρ key) (r : ρ) : Option (Table ρ key) :=
  if h : key r ∈ t.rows.map key then none
  else some ⟨t.rows ++ [r], by
    rw [List.map_append]
    exact List.Nodup.append t.unique (List.nodup_singleton _) (by simpa using h)⟩

def deleteWhere (t : Table ρ key) (p : ρ → Bool) : Table ρ key :=
  ⟨t.rows.filter fun r => !p r, t.unique.sublist (List.filter_sublist.map key)⟩

def updateWhere (t : Table ρ key) (p : ρ → Bool) (f : ρ → ρ)
    (hf : ∀ r, key (f r) = key r) : Table ρ key :=
  ⟨t.rows.map fun r => if p r then f r else r, by
    have hkey : key ∘ (fun r => if p r then f r else r) = key := by
      funext r
      simp only [Function.comp]
      split
      · exact hf r
      · rfl
    rw [List.map_map, hkey]
    exact t.unique⟩

omit [DecidableEq κ] in
@[simp] theorem empty_rows : (empty : Table ρ key).rows = [] := rfl

@[simp] theorem find?_empty (k : κ) : (empty : Table ρ key).find? k = none := rfl

omit [DecidableEq κ] in
theorem eq_of_key {t : Table ρ key} {r r' : ρ} (hr : r ∈ t.rows)
    (hr' : r' ∈ t.rows) (h : key r = key r') : r = r' :=
  List.inj_on_of_nodup_map t.unique hr hr' h

theorem find?_eq_some {t : Table ρ key} {k : κ} {r : ρ} :
    t.find? k = some r ↔ r ∈ t.rows ∧ key r = k := by
  constructor
  · intro h
    exact ⟨List.mem_of_find?_eq_some h, by simpa using List.find?_some h⟩
  · rintro ⟨hr, hk⟩
    cases h : t.find? k with
    | none => exact absurd hk (by simpa using List.find?_eq_none.mp h r hr)
    | some r' =>
        have hk' : key r' = k := by simpa using List.find?_some h
        rw [eq_of_key (List.mem_of_find?_eq_some h) hr (hk'.trans hk.symm)]

theorem find?_eq_none {t : Table ρ key} {k : κ} :
    t.find? k = none ↔ ∀ r ∈ t.rows, key r ≠ k := by
  simp [find?, List.find?_eq_none]

theorem mem_map_key {t : Table ρ key} {k : κ} :
    k ∈ t.rows.map key ↔ (t.find? k).isSome := by
  cases h : t.find? k with
  | none => simpa using find?_eq_none.mp h
  | some r =>
      have := find?_eq_some.mp h
      simpa using ⟨r, this⟩

theorem countP_key_pos {t : Table ρ key} {k : κ} :
    (0 < t.rows.countP fun r => key r = k) ↔ (t.find? k).isSome := by
  rw [List.countP_pos_iff, ← mem_map_key, List.mem_map]
  simp only [decide_eq_true_eq]

/-- The rows a condition on the key selects are the one row with that key. -/
theorem filter_key (t : Table ρ key) (k : κ) :
    (t.rows.filter fun r => key r = k) = (t.find? k).toList := by
  obtain ⟨rows, hrows⟩ := t
  simp only [find?]
  induction rows with
  | nil => rfl
  | cons x xs ih =>
      have hx := List.nodup_cons.mp hrows
      by_cases h : key x = k
      · have hnone : (xs.filter fun r => decide (key r = k)) = [] := by
          rw [List.filter_eq_nil_iff]
          intro r hr hk
          exact hx.1 (List.mem_map.mpr ⟨r, hr, (by simpa using hk : key r = k).trans h.symm⟩)
        simp [h, hnone]
      · simpa [h] using ih hx.2

/-! ## Insertion -/

theorem insert_eq_none {t : Table ρ key} {r : ρ} :
    t.insert r = none ↔ (t.find? (key r)).isSome := by
  rw [insert, ← mem_map_key]
  split <;> simp_all

theorem isSome_insert {t : Table ρ key} {r : ρ} :
    (t.insert r).isSome = !(t.find? (key r)).isSome := by
  cases h : t.insert r with
  | none => simp [insert_eq_none.mp h]
  | some t' =>
      cases hf : t.find? (key r) with
      | none => rfl
      | some x =>
          rw [insert_eq_none.mpr (Option.isSome_of_mem hf)] at h
          cases h

theorem insert_rows {t t' : Table ρ key} {r : ρ} (h : t.insert r = some t') :
    t'.rows = t.rows ++ [r] := by
  rw [insert] at h
  split at h
  · cases h
  · rw [Option.some.injEq] at h
    rw [← h]

theorem find?_of_insert {t t' : Table ρ key} {r : ρ} (h : t.insert r = some t') :
    t.find? (key r) = none := by
  have hsome : (t.insert r).isSome = true := Option.isSome_of_mem h
  simpa [isSome_insert] using hsome

theorem find?_insert {t t' : Table ρ key} {r : ρ} (h : t.insert r = some t')
    (k : κ) : t'.find? k = if k = key r then some r else t.find? k := by
  have hfree := find?_of_insert h
  rw [find?, insert_rows h, List.find?_append]
  split
  · next hk =>
      subst hk
      rw [← find?, hfree]
      simp
  · next hk =>
      rw [← find?]
      cases t.find? k <;> simp [Ne.symm hk]

theorem countP_insert {t t' : Table ρ key} {r : ρ} (h : t.insert r = some t')
    (p : ρ → Bool) :
    t'.rows.countP p = t.rows.countP p + if p r then 1 else 0 := by
  rw [insert_rows h, List.countP_append]
  cases hp : p r <;> simp [hp]

/-! ## Deletion and update -/

omit [DecidableEq κ] in
theorem mem_deleteWhere {t : Table ρ key} {p : ρ → Bool} {r : ρ} :
    r ∈ (t.deleteWhere p).rows ↔ r ∈ t.rows ∧ p r = false := by
  simp [deleteWhere]

theorem find?_deleteKey (t : Table ρ key) (k k' : κ) :
    (t.deleteWhere fun r => key r = k).find? k' =
      if k' = k then none else t.find? k' := by
  split
  · next h =>
      subst h
      rw [find?_eq_none]
      intro r hr hk
      simpa [hk] using (mem_deleteWhere.mp hr).2
  · next h =>
      cases hf : t.find? k' with
      | none =>
          rw [find?_eq_none] at hf ⊢
          exact fun r hr => hf r (mem_deleteWhere.mp hr).1
      | some r =>
          obtain ⟨hr, hk⟩ := find?_eq_some.mp hf
          refine find?_eq_some.mpr ⟨mem_deleteWhere.mpr ⟨hr, ?_⟩, hk⟩
          simpa [hk] using h

/-- A table is the row with a key and what is left when that is deleted. -/
theorem perm_deleteKey {t : Table ρ key} {k : κ} {r : ρ} (h : t.find? k = some r) :
    t.rows.Perm (r :: (t.deleteWhere fun r => key r = k).rows) := by
  have hperm := List.filter_append_perm (fun r => decide (key r = k)) t.rows
  rw [filter_key, h] at hperm
  exact hperm.symm

/-- Deleting by key takes its one row out of every count. -/
theorem countP_deleteKey {t : Table ρ key} {k : κ} {r : ρ} (h : t.find? k = some r)
    (q : ρ → Bool) :
    (t.deleteWhere fun r => key r = k).rows.countP q + (if q r then 1 else 0) =
      t.rows.countP q := by
  rw [(perm_deleteKey h).countP_eq, List.countP_cons]

omit [DecidableEq κ] in
theorem updateWhere_of_forall {t : Table ρ key} {p : ρ → Bool} {f : ρ → ρ}
    {hf : ∀ r, key (f r) = key r} (h : ∀ r ∈ t.rows, p r = false) :
    t.updateWhere p f hf = t := by
  obtain ⟨rows, hrows⟩ := t
  simp only [updateWhere, mk.injEq]
  calc (rows.map fun r => if p r then f r else r)
      = rows.map id := List.map_congr_left fun r hr => by simp [h r hr]
    _ = rows := List.map_id rows

theorem find?_updateWhere (t : Table ρ key) (p : ρ → Bool) (f : ρ → ρ)
    (hf : ∀ r, key (f r) = key r) (k : κ) :
    (t.updateWhere p f hf).find? k =
      (t.find? k).map fun r => if p r then f r else r := by
  have hkey : ∀ r, key (if p r then f r else r) = key r := by
    intro r
    split
    · exact hf r
    · rfl
  cases h : t.find? k with
  | none =>
      rw [find?_eq_none] at h
      rw [Option.map_none, find?_eq_none]
      intro r hr
      obtain ⟨x, hx, rfl⟩ := List.mem_map.mp hr
      rw [hkey]
      exact h x hx
  | some r =>
      obtain ⟨hr, hk⟩ := find?_eq_some.mp h
      rw [Option.map_some, find?_eq_some]
      exact ⟨List.mem_map.mpr ⟨r, hr, rfl⟩, (hkey r).trans hk⟩

omit [DecidableEq κ] in
/-- An update that a condition cannot see moves no count of it. -/
theorem countP_updateWhere (t : Table ρ key) (p : ρ → Bool) (f : ρ → ρ)
    (hf : ∀ r, key (f r) = key r) {q : ρ → Bool} (hq : ∀ r, q (f r) = q r) :
    (t.updateWhere p f hf).rows.countP q = t.rows.countP q := by
  have hfun : (q ∘ fun r => if p r then f r else r) = q := by
    funext r
    simp only [Function.comp]
    split
    · exact hq r
    · rfl
  rw [updateWhere, List.countP_map, hfun]

end Table

end FileHub.Lib
