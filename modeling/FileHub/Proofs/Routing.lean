import FileHub.Http.Server
import Mathlib.Algebra.Group.Nat.Defs
import Mathlib.Tactic.Common

/-!
# Messages reach the right object until the counter meets itself

An entry of the map always belongs to an open connection. As long as no
connection is inserted under the uuid of another open one, every open
connection has an entry, its own. Two open connections of one uuid share an
entry, and one of them is misrouted from then on.
-/

namespace FileHub.Http.Server

open Function (update_self update_of_ne)

variable {Conn : Type} {s s' : Server Conn}

/-- Messages of every open connection go to its own object. -/
def Routed (s : Server Conn) : Prop :=
  ∀ conn uuid, s.phase conn = .opened uuid → s.onMessage conn = some conn

/-- An entry belongs to an open connection of its uuid. -/
def Owned (s : Server Conn) : Prop :=
  ∀ uuid conn, s.s_http_map uuid = some conn → s.phase conn = .opened uuid

theorem onMessage_of_opened {conn : Conn} {uuid : UInt32} (h : s.phase conn = .opened uuid) :
    s.onMessage conn = s.s_http_map uuid := by
  rw [onMessage, h]

theorem owned_start : (start : Server Conn).Owned := nofun

theorem routed_start : (start : Server Conn).Routed := nofun

variable [DecidableEq Conn]

/-- A connection about to be inserted has a uuid that no open one holds. -/
def Fresh (s : Server Conn) : Event Conn → Prop
  | .insert conn =>
      ∀ uuid, s.phase conn = .drawn uuid → ∀ other, s.phase other ≠ .opened uuid
  | .draw _ | .disconnect _ | .message _ => True

/-- Every callback of the run finds the condition. -/
def FreshAlong (s : Server Conn) : List (Event Conn) → Prop
  | [] => True
  | e :: es => ∀ s', s.step e = some s' → s.Fresh e ∧ s'.FreshAlong es

/-! ## One callback -/

theorem step_draw {conn : Conn} (h : s.step (.draw conn) = some s') :
    s.phase conn = .unseen ∧
      s' = ⟨s.conn_uuid_generator_ + 1, s.s_http_map,
        Function.update s.phase conn (.drawn s.conn_uuid_generator_)⟩ := by
  rw [step] at h
  split at h
  · next hp => exact ⟨hp, (Option.some.inj h).symm⟩
  all_goals cases h

theorem step_insert {conn : Conn} (h : s.step (.insert conn) = some s') :
    ∃ uuid, s.phase conn = .drawn uuid ∧
      s' = ⟨s.conn_uuid_generator_,
        if (s.s_http_map uuid).isSome then s.s_http_map
        else Function.update s.s_http_map uuid (some conn),
        Function.update s.phase conn (.opened uuid)⟩ := by
  rw [step] at h
  split at h
  · next uuid hp => exact ⟨uuid, hp, (Option.some.inj h).symm⟩
  all_goals cases h

theorem step_disconnect {conn : Conn} (h : s.step (.disconnect conn) = some s') :
    ∃ uuid, s.phase conn = .opened uuid ∧
      s' = ⟨s.conn_uuid_generator_, Function.update s.s_http_map uuid none,
        Function.update s.phase conn .closed⟩ := by
  rw [step] at h
  split at h
  · next uuid hp => exact ⟨uuid, hp, (Option.some.inj h).symm⟩
  all_goals cases h

theorem step_message {conn : Conn} (h : s.step (.message conn) = some s') : s' = s := by
  rw [step] at h
  split at h
  · exact (Option.some.inj h).symm
  all_goals cases h

theorem owned_step {e : Event Conn} (ho : s.Owned) (h : s.step e = some s') : s'.Owned := by
  cases e with
  | draw conn =>
      obtain ⟨hp, rfl⟩ := step_draw h
      intro uuid other hmap
      have hother := ho uuid other hmap
      have hne : other ≠ conn := by
        rintro rfl
        rw [hp] at hother
        cases hother
      exact (update_of_ne hne _ _).trans hother
  | insert conn =>
      obtain ⟨uuid, hp, rfl⟩ := step_insert h
      intro uuid' other hmap
      by_cases hne : other = conn
      · subst hne
        dsimp only at hmap ⊢
        rw [update_self]
        split at hmap
        · -- it cannot be in the map before it is opened
          have hother := ho uuid' other hmap
          rw [hp] at hother
          cases hother
        · by_cases hu : uuid' = uuid
          · rw [hu]
          · rw [update_of_ne hu] at hmap
            have hother := ho uuid' other hmap
            rw [hp] at hother
            cases hother
      · dsimp only at hmap ⊢
        rw [update_of_ne hne]
        split at hmap
        · exact ho uuid' other hmap
        · by_cases hu : uuid' = uuid
          · rw [hu, update_self] at hmap
            exact absurd (Option.some.inj hmap).symm hne
          · rw [update_of_ne hu] at hmap
            exact ho uuid' other hmap
  | disconnect conn =>
      obtain ⟨uuid, hp, rfl⟩ := step_disconnect h
      intro uuid' other hmap
      dsimp only at hmap ⊢
      have hu : uuid' ≠ uuid := by
        rintro rfl
        rw [update_self] at hmap
        cases hmap
      rw [update_of_ne hu] at hmap
      have hother := ho uuid' other hmap
      have hne : other ≠ conn := by
        rintro rfl
        rw [hp] at hother
        exact hu (Phase.opened.inj hother).symm
      rw [update_of_ne hne]
      exact hother
  | message conn =>
      rw [step_message h]
      exact ho

omit [DecidableEq Conn] in
theorem routed_iff_map :
    s.Routed ↔ ∀ conn uuid, s.phase conn = .opened uuid → s.s_http_map uuid = some conn := by
  constructor
  · intro h conn uuid hp
    rw [← onMessage_of_opened hp]
    exact h conn uuid hp
  · intro h conn uuid hp
    rw [onMessage_of_opened hp]
    exact h conn uuid hp

theorem routed_insert {conn : Conn} (ho : s.Owned) (hr : s.Routed)
    (h : s.step (.insert conn) = some s') : s'.Routed ↔ s.Fresh (.insert conn) := by
  obtain ⟨uuid, hp, rfl⟩ := step_insert h
  rw [routed_iff_map] at hr ⊢
  constructor
  · intro hr' uuid' hp' other hopened
    rw [hp] at hp'
    cases hp'
    have hne : other ≠ conn := by
      rintro rfl
      rw [hp] at hopened
      cases hopened
    -- both would own the entry of the uuid
    have hconn := hr' conn uuid (update_self _ _ _)
    have hother := hr' other uuid ((update_of_ne hne _ _).trans hopened)
    rw [hconn] at hother
    exact hne (Option.some.inj hother).symm
  · intro hfresh
    have hnone : s.s_http_map uuid = none := by
      cases hmap : s.s_http_map uuid with
      | none => rfl
      | some other => exact absurd (ho uuid other hmap) (hfresh uuid hp other)
    intro other uuid' hopened
    dsimp only at hopened ⊢
    rw [hnone, if_neg (by simp)]
    by_cases hne : other = conn
    · subst hne
      rw [update_self] at hopened
      cases hopened
      exact update_self _ _ _
    · rw [update_of_ne hne] at hopened
      have hu : uuid' ≠ uuid := by
        rintro rfl
        exact hfresh uuid' hp other hopened
      rw [update_of_ne hu]
      exact hr other uuid' hopened

/-- After a callback everything is routed exactly where it was fresh. -/
theorem routed_step {e : Event Conn} (ho : s.Owned) (hr : s.Routed)
    (h : s.step e = some s') : s'.Routed ↔ s.Fresh e := by
  cases e with
  | insert conn => exact routed_insert ho hr h
  | draw conn =>
      obtain ⟨hp, rfl⟩ := step_draw h
      refine iff_of_true ?_ trivial
      rw [routed_iff_map] at hr ⊢
      intro other uuid hopened
      dsimp only at hopened
      by_cases hne : other = conn
      · rw [hne, update_self] at hopened
        cases hopened
      · rw [update_of_ne hne] at hopened
        exact hr other uuid hopened
  | disconnect conn =>
      obtain ⟨uuid, hp, rfl⟩ := step_disconnect h
      refine iff_of_true ?_ trivial
      rw [routed_iff_map] at hr ⊢
      intro other uuid' hopened
      dsimp only at hopened ⊢
      by_cases hne : other = conn
      · rw [hne, update_self] at hopened
        cases hopened
      · rw [update_of_ne hne] at hopened
        have hu : uuid' ≠ uuid := by
          rintro rfl
          have hother := hr other uuid' hopened
          rw [hr conn uuid' hp] at hother
          exact hne (Option.some.inj hother).symm
        rw [update_of_ne hu]
        exact hr other uuid' hopened
  | message conn =>
      rw [step_message h]
      exact iff_of_true hr trivial

/-! ## Runs -/

theorem states_head (s : Server Conn) (es : List (Event Conn)) : s ∈ s.states es := by
  cases es with
  | nil => exact List.mem_singleton_self s
  | cons e es =>
      rw [states]
      split
      · exact List.mem_singleton_self s
      · exact List.mem_cons_self

theorem states_cons {e : Event Conn} {es : List (Event Conn)} (h : s.step e = some s') :
    s.states (e :: es) = s :: s'.states es := by
  rw [states, h]

theorem routed_states (ho : s.Owned) (hr : s.Routed) (es : List (Event Conn)) :
    (∀ s' ∈ s.states es, s'.Routed) ↔ s.FreshAlong es := by
  induction es generalizing s with
  | nil => exact iff_of_true (fun s' h => List.mem_singleton.mp h ▸ hr) trivial
  | cons e es ih =>
      rw [FreshAlong]
      cases hstep : s.step e with
      | none =>
          refine iff_of_true (fun s' h => ?_) nofun
          rw [states, hstep] at h
          rw [List.mem_singleton.mp h]
          exact hr
      | some s' =>
          have hrouted := routed_step ho hr hstep
          rw [states_cons hstep]
          constructor
          · intro h t ht
            cases ht
            have hr' : s'.Routed := h s' (List.mem_cons_of_mem _ (states_head s' es))
            refine ⟨hrouted.mp hr', (ih (owned_step ho hstep) hr').mp fun t ht => ?_⟩
            exact h t (List.mem_cons_of_mem _ ht)
          · intro h t ht
            obtain ⟨hfresh, halong⟩ := h s' rfl
            have hr' := hrouted.mpr hfresh
            rcases List.mem_cons.mp ht with rfl | ht
            · exact hr
            · exact (ih (owned_step ho hstep) hr').mpr halong t ht

/-- Every message of a run reaches the object constructed for its connection, exactly where no
connection is inserted under the uuid of another open one. -/
theorem routed_iff (es : List (Event Conn)) :
    (∀ s ∈ (start : Server Conn).states es, ∀ conn uuid, s.phase conn = .opened uuid →
        s.onMessage conn = some conn) ↔
      (start : Server Conn).FreshAlong es :=
  routed_states owned_start routed_start es

/-! ## Until the counter comes round

The uuid of a connection is the number of draws before its own. -/

def isDraw : Event Conn → Bool
  | .draw _ => true
  | .insert _ | .disconnect _ | .message _ => false

def draws (es : List (Event Conn)) : ℕ := es.countP isDraw

omit [DecidableEq Conn] in
theorem draws_append (es es' : List (Event Conn)) : draws (es ++ es') = draws es + draws es' :=
  List.countP_append

omit [DecidableEq Conn] in
theorem draws_draw (conn : Conn) (es : List (Event Conn)) :
    draws (.draw conn :: es) = draws es + 1 :=
  List.countP_cons_of_pos rfl

/-- No connection stays while `2 ^ 32` others draw. -/
def RoundsApart (es : List (Event Conn)) : Prop :=
  ∀ before conn stay, before ++ .draw conn :: stay <+: es → .disconnect conn ∉ stay →
    draws stay < 2 ^ 32

/-- A connection that drew a uuid and did not disconnect since. -/
def Drew (past : List (Event Conn)) (conn : Conn) (uuid : UInt32) : Prop :=
  ∃ before stay, past = before ++ .draw conn :: stay ∧ .disconnect conn ∉ stay ∧
    uuid = UInt32.ofNat (draws before)

omit [DecidableEq Conn] in
theorem Drew.snoc {past : List (Event Conn)} {conn : Conn} {uuid : UInt32} {e : Event Conn}
    (h : Drew past conn uuid) (he : e ≠ .disconnect conn) : Drew (past ++ [e]) conn uuid := by
  obtain ⟨before, stay, rfl, hstay, huuid⟩ := h
  refine ⟨before, stay ++ [e], by simp, fun hmem => ?_, huuid⟩
  rcases List.mem_append.mp hmem with hmem | hmem
  · exact hstay hmem
  · exact he (List.mem_singleton.mp hmem).symm

/-- The counter and the uuids after some callbacks. -/
structure Numbered (past : List (Event Conn)) (s : Server Conn) : Prop where
  counter : s.conn_uuid_generator_ = UInt32.ofNat (draws past)
  drew : ∀ conn uuid, s.phase conn = .drawn uuid ∨ s.phase conn = .opened uuid →
    Drew past conn uuid

omit [DecidableEq Conn] in
theorem numbered_start : Numbered [] (start : Server Conn) :=
  ⟨rfl, fun _ _ h => h.elim nofun nofun⟩

/-- The phase of one connection changes, and no other disconnects. -/
theorem Numbered.drew_update {past : List (Event Conn)} (hn : Numbered past s) {e : Event Conn}
    {conn : Conn} (he : ∀ other, other ≠ conn → e ≠ .disconnect other) {p : Phase}
    (hp : ∀ uuid, p = .drawn uuid ∨ p = .opened uuid → Drew (past ++ [e]) conn uuid) (other : Conn)
    (uuid : UInt32) (h : Function.update s.phase conn p other = .drawn uuid ∨
      Function.update s.phase conn p other = .opened uuid) :
    Drew (past ++ [e]) other uuid := by
  by_cases hne : other = conn
  · subst hne
    rw [update_self] at h
    exact hp uuid h
  · rw [update_of_ne hne] at h
    exact (hn.drew other uuid h).snoc (he other hne)

theorem Numbered.step {past : List (Event Conn)} {e : Event Conn} (hn : Numbered past s)
    (h : s.step e = some s') : Numbered (past ++ [e]) s' := by
  have hcounter : draws (past ++ [e]) = draws past + draws [e] := draws_append past [e]
  cases e with
  | draw conn =>
      obtain ⟨hp, rfl⟩ := step_draw h
      refine ⟨?_, hn.drew_update (fun _ _ h => by cases h) fun uuid hdrawn => ?_⟩
      · rw [hcounter, draws_draw, UInt32.ofNat_add, hn.counter]
        rfl
      · rcases hdrawn with hdrawn | hopened
        · cases hdrawn
          exact ⟨past, [], rfl, List.not_mem_nil, hn.counter⟩
        · cases hopened
  | insert conn =>
      obtain ⟨uuid, hp, rfl⟩ := step_insert h
      refine ⟨hcounter ▸ hn.counter,
        hn.drew_update (fun _ _ h => by cases h) fun uuid' hopened => ?_⟩
      rcases hopened with hdrawn | hopened
      · cases hdrawn
      · cases hopened
        exact (hn.drew conn uuid (.inl hp)).snoc nofun
  | disconnect conn =>
      obtain ⟨uuid, hp, rfl⟩ := step_disconnect h
      refine ⟨hcounter ▸ hn.counter,
        hn.drew_update (fun other hne heq => ?_) fun uuid' hclosed => ?_⟩
      · exact hne (Event.disconnect.inj heq).symm
      · rcases hclosed with hdrawn | hopened
        · cases hdrawn
        · cases hopened
  | message conn =>
      rw [step_message h]
      exact ⟨hcounter ▸ hn.counter, fun other uuid hother => (hn.drew other uuid hother).snoc nofun⟩

omit [DecidableEq Conn] in
/-- Two draws of one uuid have `2 ^ 32` draws from the one to the other. -/
theorem draws_of_ofNat_eq {before between : List (Event Conn)} {conn : Conn}
    (h : UInt32.ofNat (draws before) =
      UInt32.ofNat (draws (before ++ .draw conn :: between))) : 2 ^ 32 ≤ draws between + 1 := by
  have hmod := congrArg UInt32.toNat h
  rw [UInt32.toNat_ofNat', UInt32.toNat_ofNat', draws_append, draws_draw] at hmod
  omega

omit [DecidableEq Conn] in
theorem Drew.eq_of_roundsApart {past : List (Event Conn)} {conn other : Conn} {uuid : UInt32}
    (hroom : RoundsApart past) (h : Drew past conn uuid) (h' : Drew past other uuid) :
    conn = other := by
  -- the earlier of the two stays while the later one draws
  have hearlier {before between stay : List (Event Conn)} {c c' : Conn}
      (hpast : past = before ++ .draw c :: (between ++ .draw c' :: stay))
      (hstay : .disconnect c ∉ between ++ .draw c' :: stay)
      (hsame : UInt32.ofNat (draws before) =
        UInt32.ofNat (draws (before ++ .draw c :: between))) : False := by
    have hround := draws_of_ofNat_eq hsame
    have hlt := hroom before c _ (hpast ▸ List.prefix_rfl) hstay
    rw [draws_append, draws_draw] at hlt
    omega
  obtain ⟨before, stay, hpast, hstay, rfl⟩ := h
  obtain ⟨before', stay', hpast', hstay', huuid⟩ := h'
  have heq := hpast.symm.trans hpast'
  rcases List.append_eq_append_iff.mp heq with ⟨between, rfl, hrest⟩ | ⟨between, rfl, hrest⟩
  · cases between with
    | nil => exact Event.draw.inj (List.cons.inj hrest).1
    | cons e between =>
        obtain ⟨rfl, rfl⟩ := List.cons.inj hrest
        exact (hearlier hpast hstay huuid).elim
  · cases between with
    | nil => exact (Event.draw.inj (List.cons.inj hrest).1).symm
    | cons e between =>
        obtain ⟨rfl, rfl⟩ := List.cons.inj hrest
        exact (hearlier hpast' hstay' huuid.symm).elim

theorem Numbered.freshAlong {past es : List (Event Conn)} (hn : Numbered past s)
    (hroom : RoundsApart (past ++ es)) : s.FreshAlong es := by
  induction es generalizing past s with
  | nil => trivial
  | cons e es ih =>
      intro s' hstep
      have hpast : RoundsApart past := fun before conn stay hpre =>
        hroom before conn stay (hpre.trans (List.prefix_append _ _))
      refine ⟨?_, ih (hn.step hstep) (by rwa [List.append_assoc, List.singleton_append])⟩
      cases e with
      | insert conn =>
          intro uuid hp other hopened
          have heq := (hn.drew conn uuid (.inl hp)).eq_of_roundsApart hpast
            (hn.drew other uuid (.inr hopened))
          rw [heq, hopened] at hp
          cases hp
      | draw | disconnect | message => trivial

/-- As long as no connection stays while `2 ^ 32` others draw, every message reaches the object
of its connection. -/
theorem routed_of_roundsApart {es : List (Event Conn)} (h : RoundsApart es) :
    ∀ s ∈ (start : Server Conn).states es, s.Routed :=
  (routed_states owned_start routed_start es).mpr (numbered_start.freshAlong h)

/-! ## The counter meets an open connection

The first connection stays, and every other disconnects at once. -/

def visit (conn : ℕ) : List (Event ℕ) := [.draw conn, .insert conn, .disconnect conn]

/-- The next connections after `k`, one after the other. -/
def visits (k : ℕ) : ℕ → List (Event ℕ)
  | 0 => []
  | n + 1 => visit (k + 1) ++ visits (k + 1) n

/-- The first connection is open, those up to `k` have come and gone. -/
def Visited (k : ℕ) (s : Server ℕ) : Prop :=
  s.conn_uuid_generator_ = UInt32.ofNat (k + 1) ∧ s.phase 0 = .opened 0 ∧
    ∀ conn, k < conn → s.phase conn = .unseen

/-- A run from `s` goes on as one from `t`. -/
def Leads (s : Server ℕ) (es : List (Event ℕ)) (t : Server ℕ) : Prop :=
  ∀ more, ∀ u ∈ t.states more, u ∈ s.states (es ++ more)

theorem leads_nil (s : Server ℕ) : s.Leads [] s := fun _ _ h => h

theorem Leads.cons {e : Event ℕ} {es : List (Event ℕ)} {s t u : Server ℕ}
    (hstep : s.step e = some t) (h : t.Leads es u) : s.Leads (e :: es) u := by
  intro more v hv
  rw [List.cons_append, states_cons hstep]
  exact List.mem_cons_of_mem _ (h more v hv)

theorem Leads.append {es es' : List (Event ℕ)} {s t u : Server ℕ} (h : s.Leads es t)
    (h' : t.Leads es' u) : s.Leads (es ++ es') u := by
  intro more v hv
  rw [List.append_assoc]
  exact h _ v (h' more v hv)

/-- Draw a uuid and insert the object. -/
theorem leads_connect {s : Server ℕ} {conn : ℕ} (h : s.phase conn = .unseen) :
    ∃ t, s.Leads [.draw conn, .insert conn] t ∧
      t.conn_uuid_generator_ = s.conn_uuid_generator_ + 1 ∧
      t.phase = Function.update s.phase conn (.opened s.conn_uuid_generator_) := by
  obtain ⟨drawn, hdrawn⟩ : ∃ t, s.step (.draw conn) = some t := by
    rw [step, h]
    exact ⟨_, rfl⟩
  obtain ⟨-, rfl⟩ := step_draw hdrawn
  obtain ⟨t, hinsert⟩ := Option.isSome_iff_exists.mp (show
      (step ⟨s.conn_uuid_generator_ + 1, s.s_http_map,
        Function.update s.phase conn (.drawn s.conn_uuid_generator_)⟩ (.insert conn)).isSome by
    simp only [step, update_self, Option.isSome_some])
  refine ⟨t, .cons hdrawn (.cons hinsert (leads_nil t)), ?_⟩
  obtain ⟨uuid, hp, rfl⟩ := step_insert hinsert
  dsimp only at hp ⊢
  rw [update_self] at hp
  cases hp
  exact ⟨rfl, Function.update_idem _ _ _⟩

theorem leads_visit {k : ℕ} {s : Server ℕ} (h : Visited k s) :
    ∃ t, s.Leads (visit (k + 1)) t ∧ Visited (k + 1) t := by
  obtain ⟨hgen, hfirst, hunseen⟩ := h
  obtain ⟨t, hleads, htgen, htphase⟩ := leads_connect (hunseen (k + 1) k.lt_succ_self)
  have hopened : t.phase (k + 1) = .opened s.conn_uuid_generator_ := by
    rw [htphase, update_self]
  obtain ⟨u, hstep⟩ : ∃ u, t.step (.disconnect (k + 1)) = some u := by
    rw [step, hopened]
    exact ⟨_, rfl⟩
  refine ⟨u, hleads.append (.cons hstep (leads_nil u)), ?_⟩
  obtain ⟨uuid, -, rfl⟩ := step_disconnect hstep
  refine ⟨?_, ?_, fun conn hconn => ?_⟩
  · show t.conn_uuid_generator_ = _
    rw [htgen, hgen]
    exact (UInt32.ofNat_add (k + 1) 1).symm
  · dsimp only
    rw [update_of_ne (by omega), htphase, update_of_ne (by omega)]
    exact hfirst
  · dsimp only
    rw [update_of_ne (by omega), htphase, update_of_ne (by omega)]
    exact hunseen conn (by omega)

theorem leads_visits {k : ℕ} {s : Server ℕ} (h : Visited k s) (n : ℕ) :
    ∃ t, s.Leads (visits k n) t ∧ Visited (k + n) t := by
  induction n generalizing k s with
  | zero => exact ⟨s, leads_nil s, h⟩
  | succ n ih =>
      obtain ⟨t, hvisit, ht⟩ := leads_visit h
      obtain ⟨u, hvisits, hu⟩ := ih ht
      refine ⟨u, hvisit.append hvisits, ?_⟩
      rwa [Nat.add_right_comm] at hu

/-- After 2 ^ 32 connections two open ones have the uuid 0, and one entry. -/
theorem wrapped_misroutes :
    ¬ ∀ (es : List (Event ℕ)), ∀ s ∈ (start : Server ℕ).states es, ∀ conn uuid,
      s.phase conn = .opened uuid → s.onMessage conn = some conn := by
  intro h
  obtain ⟨first, hfirst, hgen, hphase⟩ := @leads_connect start 0 rfl
  have hvisited : Visited 0 first := by
    refine ⟨hgen, by rw [hphase, update_self]; rfl, fun conn hconn => ?_⟩
    rw [hphase, update_of_ne (by omega)]
    rfl
  obtain ⟨t, ht, htgen, htfirst, htunseen⟩ := leads_visits hvisited 4294967295
  obtain ⟨u, hu, -, huphase⟩ := leads_connect (htunseen 4294967296 (by omega))
  have hmem := ((hfirst.append ht).append hu) [] u (states_head u [])
  have hzero : u.phase 0 = .opened 0 := by
    rw [huphase, update_of_ne (by omega)]
    exact htfirst
  have hlast : u.phase 4294967296 = .opened 0 := by
    rw [huphase, update_self, htgen]
    rfl
  have hmap := h _ u hmem 0 0 hzero
  rw [onMessage_of_opened hzero, ← onMessage_of_opened hlast,
    h _ u hmem 4294967296 0 hlast] at hmap
  exact absurd (Option.some.inj hmap) (by omega)

end FileHub.Http.Server
