import Mathlib.Data.List.AList
import Mathlib.Data.List.Nodup

/-!
# A map kept in step with a list of records

A list of records is the original; a finite map holds, under a key computed
from each record, a value computed from it. `Mirrors` says that the map is
exactly the relation the list denotes, no key more and none less. The lemmas
are the moves that keep it: the map is changed at one key, and the records with
that key are added, dropped or changed accordingly.

A key need not identify a record. Dropping records, while the map forgets
their key, keeps the mirror only if all records with that key go
(`Mirrors.filter_erase_iff`), and the sizes agree only if the keys are distinct
(`Mirrors.length_eq`).
-/

namespace FileHub.Lib

variable {ρ κ β : Type} [DecidableEq κ]

/-- The map holds exactly the values of the records under their keys. -/
def Mirrors (key : ρ → κ) (val : ρ → β) (records : List ρ) (m : AList fun _ : κ => β) :
    Prop :=
  ∀ k v, m.lookup k = some v ↔ ∃ r ∈ records, key r = k ∧ val r = v

namespace Mirrors

variable {key : ρ → κ} {val : ρ → β} {records : List ρ} {m : AList fun _ : κ => β}

theorem empty : Mirrors key val [] (∅ : AList fun _ : κ => β) := by
  intro k v
  simp

theorem lookup (h : Mirrors key val records m) {r : ρ} (hr : r ∈ records) :
    m.lookup (key r) = some (val r) :=
  (h (key r) (val r)).mpr ⟨r, hr, rfl, rfl⟩

theorem mem_iff (h : Mirrors key val records m) {k : κ} : k ∈ m ↔ k ∈ records.map key := by
  rw [← AList.lookup_isSome, Option.isSome_iff_exists, List.mem_map]
  constructor
  · rintro ⟨v, hv⟩
    obtain ⟨r, hr, hk, -⟩ := (h k v).mp hv
    exact ⟨r, hr, hk⟩
  · rintro ⟨r, hr, rfl⟩
    exact ⟨val r, h.lookup hr⟩

/-- A record with a new key added, with its value. -/
theorem concat (h : Mirrors key val records m) {r : ρ} (hfresh : key r ∉ records.map key) :
    Mirrors key val (records ++ [r]) (m.insert (key r) (val r)) := by
  intro k v
  by_cases hk : k = key r
  · subst hk
    rw [AList.lookup_insert, Option.some.injEq]
    constructor
    · rintro rfl
      exact ⟨r, by simp, rfl, rfl⟩
    · rintro ⟨x, hx, hkey, rfl⟩
      rcases List.mem_append.mp hx with hx | hx
      · exact absurd (List.mem_map.mpr ⟨x, hx, hkey⟩) hfresh
      · rw [List.mem_singleton.mp hx]
  · rw [AList.lookup_insert_ne hk, h k v]
    constructor
    · rintro ⟨x, hx, hboth⟩
      exact ⟨x, List.mem_append_left _ hx, hboth⟩
    · rintro ⟨x, hx, hkey, hv⟩
      rcases List.mem_append.mp hx with hx | hx
      · exact ⟨x, hx, hkey, hv⟩
      · rw [List.mem_singleton.mp hx] at hkey
        exact absurd hkey.symm hk

/-- The records changed in place, their keys kept, and with them the value of one
key that occurs. -/
theorem map_insert (h : Mirrors key val records m) {g : ρ → ρ} {k : κ} {v : β}
    (hoccurs : k ∈ records.map key) (hkey : ∀ r, key (g r) = key r)
    (hat : ∀ r ∈ records, key r = k → val (g r) = v)
    (hoff : ∀ r ∈ records, key r ≠ k → val (g r) = val r) :
    Mirrors key val (records.map g) (m.insert k v) := by
  intro k' v'
  simp only [List.mem_map, exists_exists_and_eq_and, hkey]
  by_cases hk : k' = k
  · subst hk
    rw [AList.lookup_insert, Option.some.injEq]
    constructor
    · rintro rfl
      obtain ⟨r, hr, hrk⟩ := List.mem_map.mp hoccurs
      exact ⟨r, hr, hrk, hat r hr hrk⟩
    · rintro ⟨r, hr, hrk, rfl⟩
      exact (hat r hr hrk).symm
  · rw [AList.lookup_insert_ne hk, h k' v']
    refine exists_congr fun r => and_congr_right fun hr => and_congr_right fun hrk => ?_
    rw [hoff r hr (by rwa [hrk])]

/-- The records changed in what the map does not hold. -/
theorem map (h : Mirrors key val records m) {g : ρ → ρ} (hkey : ∀ r, key (g r) = key r)
    (hval : ∀ r, val (g r) = val r) : Mirrors key val (records.map g) m := by
  intro k v
  simp only [List.mem_map, exists_exists_and_eq_and, hkey, hval]
  exact h k v

/-- Writing the value of one key again keeps the mirror if it is the right one. -/
theorem insert_iff (h : Mirrors key val records m) {k : κ} (hoccurs : k ∈ records.map key)
    (v : β) :
    Mirrors key val records (m.insert k v) ↔ ∀ r ∈ records, key r = k → val r = v := by
  constructor
  · intro hins r hr hrk
    have hlookup := hins.lookup hr
    rw [hrk, AList.lookup_insert, Option.some.injEq] at hlookup
    exact hlookup.symm
  · intro hat
    have hmap := @map_insert _ _ _ _ _ _ _ _ h id k v hoccurs (fun _ => rfl) hat
      fun _ _ _ => rfl
    rwa [List.map_id] at hmap

/-- When records of one key are dropped and the map forgets the key, none of them
may be left. -/
theorem filter_erase_iff (h : Mirrors key val records m) {k : κ} {p : ρ → Bool}
    (hp : ∀ r ∈ records, p r = false → key r = k) :
    Mirrors key val (records.filter p) (m.erase k) ↔
      ∀ r ∈ records, key r = k → p r = false := by
  constructor
  · intro hmirrors r hr hk
    by_contra hkept
    rw [Bool.not_eq_false] at hkept
    have hlookup := hmirrors.lookup (List.mem_filter.mpr ⟨hr, hkept⟩)
    rw [hk, AList.lookup_erase] at hlookup
    cases hlookup
  · intro hall k' v
    by_cases hk : k' = k
    · subst hk
      rw [AList.lookup_erase]
      refine iff_of_false (by simp) ?_
      rintro ⟨r, hr, hkey, -⟩
      obtain ⟨hr, hkept⟩ := List.mem_filter.mp hr
      rw [hall r hr hkey] at hkept
      cases hkept
    · rw [AList.lookup_erase_ne hk, h k' v]
      refine exists_congr fun r => ?_
      rw [List.mem_filter, and_assoc]
      refine and_congr_right fun hr => ?_
      constructor
      · rintro ⟨hkey, hv⟩
        refine ⟨?_, hkey, hv⟩
        -- A record with another key is not dropped.
        by_contra hdropped
        rw [Bool.not_eq_true] at hdropped
        exact hk (hkey.symm.trans (hp r hr hdropped))
      · exact fun hr => hr.2

theorem length_eq (h : Mirrors key val records m) (hnodup : (records.map key).Nodup) :
    m.entries.length = records.length := by
  have hperm : m.keys.Perm (records.map key) := by
    rw [List.perm_ext_iff_of_nodup m.keys_nodup hnodup]
    intro k
    rw [← AList.mem_keys, h.mem_iff]
  have hlen := hperm.length_eq
  rw [AList.keys, List.keys, List.length_map, List.length_map] at hlen
  exact hlen

end Mirrors

end FileHub.Lib
