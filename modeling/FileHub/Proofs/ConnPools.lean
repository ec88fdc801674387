import FileHub.Model.ConnPool
import Mathlib.Data.List.Nodup
import Mathlib.Data.List.Perm.Basic
import Mathlib.Order.Lattice
import Mathlib.Tactic.Common

/-!
# The accounts of a connection pool

Every connection is either in the free list or handed out to one client, and
there are as many as `cur_conn_cnt_` says. Whatever happens during a wait, an
acquisition looks at the free list again before it takes from it, so what it
does to the accounts is one of four things (`Acquired`).
-/

namespace FileHub.ConnPool

open Function (update)

variable {Client Conn : Type} [DecidableEq Client] {s s' : ConnPool Client Conn}
  {client : Client}

/-! ## What an acquisition does -/

/-- The client is not in the wait, or no longer. -/
def awake (s : ConnPool Client Conn) (client : Client) : ConnPool Client Conn :=
  { s with waiting := update s.waiting client none }

theorem awake_eq (h : s.waiting client = none) : s.awake client = s := by
  rw [awake, ← h, Function.update_eq_self]

/-- It ends in `NULL`, waits (on), takes a free connection, or a new one. -/
inductive Acquired (s : ConnPool Client Conn) (client : Client) :
    Got Conn → ConnPool Client Conn → Prop where
  | null : Acquired s client .null (s.awake client)
  | waits {t} (h : s.waiting client = some t ∨ s.max_conn_cnt_ ≤ s.cur_conn_cnt_) :
      Acquired s client .waits { s with waiting := update s.waiting client (some t) }
  | free {c rest} (h : s.free_list_ = c :: rest) :
      Acquired s client (.conn c)
        { s.awake client with free_list_ := rest, handed_out := (client, c) :: s.handed_out }
  | created {c} (hfree : s.free_list_ = []) (hmax : s.cur_conn_cnt_ < s.max_conn_cnt_)
      (hc : c ∉ s.handed_out.map Prod.snd) :
      Acquired s client (.conn c)
        { s.awake client with
          cur_conn_cnt_ := s.cur_conn_cnt_ + 1, handed_out := (client, c) :: s.handed_out }

theorem takeFront_acquired (h : s.free_list_ ≠ []) :
    Acquired s client ((s.awake client).takeFront client).1
      ((s.awake client).takeFront client).2 := by
  obtain ⟨c, rest, hcons⟩ := List.exists_cons_of_ne_nil h
  have hawake : (s.awake client).free_list_ = c :: rest := hcons
  rw [takeFront, hawake]
  exact .free hcons

theorem getConn_acquired {timeout_ms : Int} {created : Option Conn}
    (hw : s.waiting client = none) (hnew : s.Unused created) :
    Acquired s client (s.getConn client timeout_ms created).1
      (s.getConn client timeout_ms created).2 := by
  have hawake := awake_eq hw
  have hnull : Acquired s client .null s := by
    have hacquired : Acquired s client .null (s.awake client) := .null
    rwa [hawake] at hacquired
  unfold getConn
  split
  · exact hnull
  · split
    · next hempty =>
        have hfree := List.isEmpty_iff.mp hempty
        split
        · next hmax => exact .waits (.inr hmax)
        · next hmax =>
            cases created with
            | none => exact hnull
            | some c =>
                have hacquired : Acquired s client (.conn c) _ :=
                  .created hfree (Int.not_le.mp hmax) (hnew c rfl).2
                dsimp only
                rw [takeFront, hfree]
                rw [hawake] at hacquired
                simpa only [hfree, List.nil_append] using hacquired
    · next hempty =>
        have htake := @takeFront_acquired _ _ _ s client (mt List.isEmpty_iff.mpr hempty)
        rwa [hawake] at htake

theorem wake_acquired {timeout_ms : Int} {expired : Bool}
    (hw : s.waiting client = some timeout_ms) :
    Acquired s client (s.wake client timeout_ms expired).1
      (s.wake client timeout_ms expired).2 := by
  have hwaits : Acquired s client .waits s := by
    have hacquired : Acquired s client .waits _ := .waits (.inl hw)
    rwa [← hw, Function.update_eq_self] at hacquired
  have htake (h : ¬ s.free_list_.isEmpty = true) :=
    @takeFront_acquired _ _ _ s client (mt List.isEmpty_iff.mpr h)
  rw [wake]
  split
  · split
    · next hready =>
        split
        · exact .null
        · next habort => exact htake (by simpa [habort] using hready)
    · exact hwaits
  · split
    · split
      · exact .null
      · next hempty =>
          split
          · exact .null
          · exact htake hempty
    · exact hwaits

/-! ## The accounts -/

structure Sound (limit : Int) (s : ConnPool Client Conn) : Prop where
  nodup : (s.free_list_ ++ s.handed_out.map Prod.snd).Nodup
  count : (s.free_list_.length + s.handed_out.length : Int) = s.cur_conn_cnt_
  bound : s.cur_conn_cnt_ ≤ limit
  limited : s.max_conn_cnt_ ≤ limit
  read : s.misread = false

variable {limit : Int}

omit [DecidableEq Client] in
theorem sound_start {max_conn_cnt : Int} {conns : List Conn} (hconns : conns.Nodup) :
    Sound (max max_conn_cnt conns.length) (start max_conn_cnt conns : ConnPool Client Conn) where
  nodup := by simpa [start] using hconns
  count := by simp [start]
  bound := le_max_right _ _
  limited := le_max_left _ _
  read := rfl

theorem Sound.acquired {g : Got Conn} (hs : Sound limit s) (h : Acquired s client g s') :
    Sound limit s' := by
  obtain ⟨hnodup, hcount, hbound, hlimited, hread⟩ := hs
  cases h with
  | null => exact ⟨hnodup, hcount, hbound, hlimited, hread⟩
  | waits => exact ⟨hnodup, hcount, hbound, hlimited, hread⟩
  | @free c rest hfree =>
      rw [hfree] at hnodup hcount
      refine ⟨?_, ?_, hbound, hlimited, hread⟩
      · rw [List.map_cons]
        exact (List.perm_middle (a := c)).nodup_iff.mpr hnodup
      · show (rest.length + _ : Int) = s.cur_conn_cnt_
        simp only [List.length_cons] at hcount ⊢
        omega
  | created hfree hmax hc =>
      rw [hfree] at hnodup hcount
      refine ⟨?_, ?_, ?_, hlimited, hread⟩
      · show (s.free_list_ ++ _).Nodup
        rw [hfree]
        exact List.nodup_cons.mpr ⟨hc, hnodup⟩
      · show (s.free_list_.length + _ : Int) = s.cur_conn_cnt_ + 1
        rw [hfree]
        simp only [List.length_cons, List.length_nil] at hcount ⊢
        omega
      · exact (Int.add_one_le_iff.mpr hmax).trans hlimited

variable [DecidableEq Conn]

theorem Sound.relConn {conn : Conn} (hs : Sound limit s) (h : (client, conn) ∈ s.handed_out) :
    Sound limit (s.relConn client conn) := by
  obtain ⟨hnodup, hcount, hbound, hlimited, hread⟩ := hs
  have hperm := List.perm_cons_erase h
  have hmap : (s.handed_out.map Prod.snd).Perm
      (conn :: (s.handed_out.erase (client, conn)).map Prod.snd) := hperm.map Prod.snd
  -- what is handed out is not free, so it goes back
  have hfree : conn ∉ s.free_list_ := by
    intro hmem
    exact List.disjoint_of_nodup_append hnodup hmem (hmap.mem_iff.mpr List.mem_cons_self)
  rw [ConnPool.relConn, if_neg hfree]
  refine ⟨?_, ?_, hbound, hlimited, hread⟩
  · rw [List.append_assoc]
    exact (hmap.append_left s.free_list_).nodup_iff.mp hnodup
  · have hlen := hperm.length_eq
    simp only [List.length_append, List.length_cons, List.length_nil] at hlen ⊢
    omega

theorem Sound.step {e : PoolEvent Client Conn} (hs : Sound limit s) (h : s.step e = some s') :
    Sound limit s' := by
  cases e with
  | get client timeout_ms created =>
      rw [ConnPool.step] at h
      split at h
      · next hget =>
          cases h
          exact hs.acquired (getConn_acquired hget.1 hget.2)
      · cases h
  | wake client expired =>
      rw [ConnPool.step] at h
      split at h
      · cases h
      · next hw =>
          cases h
          exact hs.acquired (wake_acquired hw)
  | rel client conn =>
      rw [ConnPool.step] at h
      split at h
      · next hrel =>
          cases h
          exact hs.relConn hrel.2
      · cases h
  | abort =>
      cases h
      exact ⟨hs.nodup, hs.count, hs.bound, hs.limited, hs.read⟩

theorem Sound.reaches (hs : Sound limit s) (h : Reaches s s') : Sound limit s' := by
  induction h with
  | refl => exact hs
  | tail _ hstep ih =>
      obtain ⟨e, he⟩ := hstep
      exact ih.step he

/-- In every state a pool reaches, no connection is twice in the free list, both free and handed
out, or handed out twice; all of them together are as many as the counter says, the counter is
within the limit, and `front()` was never called on the empty list. -/
theorem reaches_sound {kind : PoolKind} {max_conn_cnt : Int} {conns : List Conn}
    (hconns : conns.Nodup)
    (hlen : conns.length = kind.minConnCnt)
    (h : Reaches (start max_conn_cnt conns : ConnPool Client Conn) s) :
    s.free_list_.Nodup ∧ (s.handed_out.map Prod.snd).Nodup ∧
      (∀ conn ∈ s.free_list_, ∀ client, (client, conn) ∉ s.handed_out) ∧
      (∀ conn client₁ client₂, (client₁, conn) ∈ s.handed_out → (client₂, conn) ∈ s.handed_out →
        client₁ = client₂) ∧
      (s.free_list_.length + s.handed_out.length : Int) = s.cur_conn_cnt_ ∧
      s.cur_conn_cnt_ ≤ max max_conn_cnt kind.minConnCnt ∧
      s.misread = false := by
  have hsound := (sound_start hconns).reaches h
  rw [hlen] at hsound
  obtain ⟨hfree, hhanded, hdisjoint⟩ := List.nodup_append.mp hsound.nodup
  refine ⟨hfree, hhanded, ?_, ?_, hsound.count, hsound.bound, hsound.read⟩
  · intro conn hconn client hmem
    exact hdisjoint conn hconn conn (List.mem_map_of_mem hmem) rfl
  · intro conn client₁ client₂ h₁ h₂
    exact congrArg Prod.fst (List.inj_on_of_nodup_map hhanded h₁ h₂ rfl)

/-- A client takes the one connection of a pool, a second waits for it, and is woken
when the first gives it up. -/
theorem onlyConn_sound : (∃ s : ConnPool ℕ ℕ, s.handed_out = [(1, 7)] ∧ s.free_list_.Nodup ∧
    (s.handed_out.map Prod.snd).Nodup ∧
    (∀ conn ∈ s.free_list_, ∀ client, (client, conn) ∉ s.handed_out) ∧
    (∀ conn client₁ client₂, (client₁, conn) ∈ s.handed_out → (client₂, conn) ∈ s.handed_out →
      client₁ = client₂) ∧
    (s.free_list_.length + s.handed_out.length : Int) = s.cur_conn_cnt_ ∧
    s.cur_conn_cnt_ ≤ max 1 PoolKind.db.minConnCnt ∧ s.misread = false) := by
  have hlen : [7].length = PoolKind.db.minConnCnt := rfl
  let taken : ConnPool ℕ ℕ := ((start 1 [7]).getConn 0 0 none).2
  let waited := (taken.getConn 1 500 none).2
  let given := waited.relConn 0 7
  have htaken : Reaches (start 1 [7]) taken := .single ⟨.get 0 0 none, rfl⟩
  have hwaited : Reaches (start 1 [7]) waited := htaken.tail ⟨.get 1 500 none, rfl⟩
  have hgiven : Reaches (start 1 [7]) given := hwaited.tail ⟨.rel 0 7, rfl⟩
  have hwoken : Reaches (start 1 [7]) (given.wake 1 500 false).2 := hgiven.tail ⟨.wake 1 false, rfl⟩
  exact ⟨_, rfl, reaches_sound (by decide) hlen hwoken⟩

end FileHub.ConnPool
