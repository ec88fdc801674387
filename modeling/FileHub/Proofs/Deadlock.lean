import FileHub.Model.Workers
import FileHub.Proofs.ConnPools
import Mathlib.Data.Fintype.Card
import Mathlib.Data.List.FinRange
import Mathlib.Data.Fintype.EquivFin

/-!
# When the workers can lock each other out

A thread that waits holds at most one slave connection, and no ranking
connection if it is a ranking connection it waits for. So a deadlocked set
includes threads that wait for the slave pool, the connections of that pool
are spread over as many threads, and there must be that many threads. They can
in fact do it: as many share lists as there are connections take one each, and
then each asks for its second.
-/

namespace FileHub

open Function (update update_self update_of_ne)

/-! ## What a pool keeps while it serves -/

namespace ConnPool

variable {Client Conn : Type} [DecidableEq Client] {s s' : ConnPool Client Conn}
  {client : Client} {max_conn_cnt n : Int}

/-- The limit stays, the connections are never fewer than at the start, a wait
begins only at the limit, and the pool is not being shut down. -/
structure Serving (max_conn_cnt n : Int) (s : ConnPool Client Conn) : Prop where
  max_eq : s.max_conn_cnt_ = max_conn_cnt
  started : n ≤ s.cur_conn_cnt_
  full : ∀ client, s.waiting client ≠ none → max_conn_cnt ≤ s.cur_conn_cnt_
  running : s.abort_request_ = false

omit [DecidableEq Client] in
theorem serving_start {conns : List Conn} : Serving max_conn_cnt conns.length
    (start max_conn_cnt conns : ConnPool Client Conn) :=
  ⟨rfl, le_refl _, fun _ h => absurd rfl h, rfl⟩

theorem awake_waiting {other : Client} (h : (s.awake client).waiting other ≠ none) :
    s.waiting other ≠ none := by
  by_cases heq : other = client
  · subst heq
    exact absurd (update_self _ _ _) h
  · exact fun hnone => h ((update_of_ne heq _ _).trans hnone)

theorem Serving.acquired {g : Got Conn} (hs : Serving max_conn_cnt n s)
    (h : Acquired s client g s') : Serving max_conn_cnt n s' := by
  obtain ⟨hmax, hstarted, hfull, hrunning⟩ := hs
  cases h with
  | null => exact ⟨hmax, hstarted, fun c hc => hfull c (awake_waiting hc), hrunning⟩
  | waits hwaits =>
      refine ⟨hmax, hstarted, fun _ _ => ?_, hrunning⟩
      rcases hwaits with hwaiting | hlimit
      · exact hfull client (by rw [hwaiting]; exact Option.some_ne_none _)
      · rwa [← hmax]
  | free => exact ⟨hmax, hstarted, fun c hc => hfull c (awake_waiting hc), hrunning⟩
  | created _ _ _ =>
      refine ⟨hmax, ?_, fun c hc => ?_, hrunning⟩
      · show n ≤ s.cur_conn_cnt_ + 1
        omega
      · have hlimit := hfull c (awake_waiting hc)
        show max_conn_cnt ≤ s.cur_conn_cnt_ + 1
        omega

theorem Serving.relConn [DecidableEq Conn] {conn : Conn} (hs : Serving max_conn_cnt n s) :
    Serving max_conn_cnt n (s.relConn client conn) := by
  rw [ConnPool.relConn]
  split
  · exact ⟨hs.max_eq, hs.started, hs.full, hs.running⟩
  · exact ⟨hs.max_eq, hs.started, hs.full, hs.running⟩

/-- An acquisition that does not have to wait. -/
theorem getConn_conn {c : Conn} (hrunning : s.abort_request_ = false)
    (hroom : s.free_list_ ≠ [] ∨ s.cur_conn_cnt_ < s.max_conn_cnt_) :
    ∃ d s', s.getConn client 0 (some c) = (.conn d, s') ∧ s'.waiting = s.waiting ∧
      s'.handed_out = (client, d) :: s.handed_out := by
  have htake : ∀ u : ConnPool Client Conn, u.free_list_ ≠ [] →
      ∃ d s', u.takeFront client = (.conn d, s') ∧ s'.waiting = u.waiting ∧
        s'.handed_out = (client, d) :: u.handed_out := by
    intro u hu
    obtain ⟨d, rest, hcons⟩ := List.exists_cons_of_ne_nil hu
    rw [takeFront, hcons]
    exact ⟨d, _, rfl, rfl, rfl⟩
  unfold getConn
  rw [hrunning, if_neg Bool.false_ne_true]
  split
  · next hempty =>
      have hlt := hroom.resolve_left fun h => h (List.isEmpty_iff.mp hempty)
      rw [if_neg (Int.not_le.mpr hlt)]
      exact htake _ (List.append_ne_nil_of_right_ne_nil _ (List.cons_ne_nil c []))
  · next hempty => exact htake s (mt List.isEmpty_iff.mpr hempty)

theorem getConn_waits {created : Option Conn} (hrunning : s.abort_request_ = false)
    (hfree : s.free_list_ = []) (hfull : s.max_conn_cnt_ ≤ s.cur_conn_cnt_) :
    s.getConn client 0 created =
      (.waits, { s with waiting := update s.waiting client (some 0) }) := by
  unfold getConn
  rw [hrunning, if_neg Bool.false_ne_true, hfree, if_pos List.isEmpty_nil, if_pos hfull]

theorem wake_waits {timeout_ms : Int} (hrunning : s.abort_request_ = false)
    (hfree : s.free_list_ = []) : s.wake client timeout_ms false = (.waits, s) := by
  have hready : (!s.free_list_.isEmpty || s.abort_request_) = false := by
    rw [hfree, hrunning]
    rfl
  rw [wake, hready]
  split <;> rfl

section Release

variable [DecidableEq Conn] {conn : Conn}

theorem relConn_waiting : (s.relConn client conn).waiting = s.waiting := by
  rw [ConnPool.relConn]
  split <;> rfl

theorem relConn_handed_out :
    (s.relConn client conn).handed_out = s.handed_out.erase (client, conn) := by
  rw [ConnPool.relConn]
  split <;> rfl

end Release

end ConnPool

namespace Workers

variable {T : ℕ} {w w' : Workers T} {t : Fin T} {p : PoolName}
  {limit max_conn_cnt n : PoolName → Int}

/-! ## Where a thread is -/

/-- The pools of a thread's scopes after one more operation. -/
def scopesAfter (scopes : List PoolName) : ScopeOp → List PoolName
  | .get p => p :: scopes
  | .rel => scopes.tail

def scopesOf (done : List ScopeOp) : List PoolName := done.foldl scopesAfter []

theorem scopesOf_snoc (done : List ScopeOp) (op : ScopeOp) :
    scopesOf (done ++ [op]) = scopesAfter (scopesOf done) op := by
  rw [scopesOf, List.foldl_append, scopesOf, List.foldl_cons, List.foldl_nil]

theorem scopesOf_ops (job : Job) : scopesOf job.ops = [] := by
  cases job <;> rfl

/-- Who asks for a connection has at most one slave connection, and none from
the ranking pool if it is one of these it asks for. -/
theorem scopes_asking {job : Job} {done todo : List ScopeOp}
    (h : job.ops = done ++ .get p :: todo) :
    (scopesOf done).count .filehub_slave ≤ 1 ∧
      (p = .ranking_list → (scopesOf done).count .ranking_list = 0) := by
  have hdone : done = job.ops.take done.length := by
    rw [h, List.take_left]
  have hget : job.ops[done.length]? = some (.get p) := by
    rw [h, List.getElem?_append_right le_rfl, Nat.sub_self]
    rfl
  have hlen : done.length < job.ops.length := (List.getElem?_eq_some_iff.mp hget).1
  rw [hdone]
  generalize done.length = k at hget hlen
  clear h hdone
  revert hget
  revert k
  cases job <;> cases p <;> decide

/-- What every run keeps: the accounts of the pools, and that a thread's scopes
are those of the place it has come to in its handler. -/
structure Ordered (limit max_conn_cnt n : PoolName → Int) (w : Workers T) : Prop where
  sound : ∀ p, (w.pool p).Sound (limit p)
  serving : ∀ p, (w.pool p).Serving (max_conn_cnt p) (n p)
  asking : ∀ p t, (w.pool p).waiting t ≠ none → ∃ todo, w.todo t = .get p :: todo
  placed : ∀ t, ∃ (job : Job) (done : List ScopeOp),
    job.ops = done ++ w.todo t ∧ (w.scopes t).map Prod.fst = scopesOf done
  held : ∀ p t c, (w.pool p).handed_out.count (t, c) = (w.scopes t).count (p, some c)

/-- A thread with `x` as its new innermost scope, after an acquisition that
gave it what `x` holds. -/
theorem Ordered.entered (hw : w.Ordered limit max_conn_cnt n) {todo : List ScopeOp}
    {s : ConnPool (Fin T) ℕ} {x : Option ℕ} (htodo : w.todo t = .get p :: todo)
    (hsound : s.Sound (limit p)) (hserving : s.Serving (max_conn_cnt p) (n p))
    (hwaiting : s.waiting = update (w.pool p).waiting t none)
    (hhanded : s.handed_out = (x.map fun c => (t, c)).toList ++ (w.pool p).handed_out) :
    Ordered limit max_conn_cnt n
      ⟨update w.pool p s, update w.todo t todo, update w.scopes t ((p, x) :: w.scopes t)⟩ := by
  refine ⟨fun q => ?_, fun q => ?_, fun q u hu => ?_, fun u => ?_, fun q u c => ?_⟩
  · by_cases hq : q = p
    · subst hq
      simpa only [update_self] using hsound
    · simpa only [update_of_ne hq] using hw.sound q
  · by_cases hq : q = p
    · subst hq
      simpa only [update_self] using hserving
    · simpa only [update_of_ne hq] using hw.serving q
  · have hold : u ≠ t ∧ (w.pool q).waiting u ≠ none := by
      dsimp only at hu
      by_cases hq : q = p
      · subst hq
        rw [update_self, hwaiting] at hu
        by_cases hut : u = t
        · subst hut
          exact absurd (update_self _ _ _) hu
        · rw [update_of_ne hut] at hu
          exact ⟨hut, hu⟩
      · rw [update_of_ne hq] at hu
        refine ⟨?_, hu⟩
        rintro rfl
        obtain ⟨todo', hask⟩ := hw.asking q u hu
        rw [htodo] at hask
        cases hask
        exact hq rfl
    obtain ⟨todo', hask⟩ := hw.asking q u hold.2
    exact ⟨todo', (update_of_ne hold.1 _ _).trans hask⟩
  · by_cases hut : u = t
    · subst hut
      obtain ⟨job, done, hops, hscopes⟩ := hw.placed u
      refine ⟨job, done ++ [.get p], ?_, ?_⟩
      · rw [hops, htodo]
        simp only [update_self, List.append_assoc, List.singleton_append]
      · simp only [update_self, List.map_cons, hscopes, scopesOf_snoc, scopesAfter]
    · simpa only [update_of_ne hut] using hw.placed u
  · have hheld := hw.held q u c
    have hgiven : s.handed_out.count (u, c) =
        (w.pool p).handed_out.count (u, c) + if u = t ∧ x = some c then 1 else 0 := by
      rw [hhanded, List.count_append, Nat.add_comm]
      cases x with
      | none => simp
      | some d => simp [List.count_cons, @eq_comm _ t u]
    by_cases hq : q = p
    · subst hq
      simp only [update_self, hgiven, hheld]
      by_cases hut : u = t
      · subst hut
        simp [List.count_cons]
      · simp [hut]
    · simp only [update_of_ne hq, hheld]
      by_cases hut : u = t
      · subst hut
        simp [Ne.symm hq]
      · simp [hut]

/-- A thread that waits, or goes on waiting. -/
theorem Ordered.waited (hw : w.Ordered limit max_conn_cnt n) {todo : List ScopeOp}
    {s : ConnPool (Fin T) ℕ} (htodo : w.todo t = .get p :: todo)
    (hsound : s.Sound (limit p)) (hserving : s.Serving (max_conn_cnt p) (n p))
    (hwaiting : ∀ u, u ≠ t → s.waiting u = (w.pool p).waiting u)
    (hhanded : s.handed_out = (w.pool p).handed_out) :
    Ordered limit max_conn_cnt n { w with pool := update w.pool p s } := by
  refine ⟨fun q => ?_, fun q => ?_, fun q u hu => ?_, hw.placed, fun q u c => ?_⟩
  · by_cases hq : q = p
    · subst hq
      simpa only [update_self] using hsound
    · simpa only [update_of_ne hq] using hw.sound q
  · by_cases hq : q = p
    · subst hq
      simpa only [update_self] using hserving
    · simpa only [update_of_ne hq] using hw.serving q
  · dsimp only at hu ⊢
    by_cases hq : q = p
    · subst hq
      by_cases hut : u = t
      · rw [hut]
        exact ⟨todo, htodo⟩
      · rw [update_self, hwaiting u hut] at hu
        exact hw.asking q u hu
    · rw [update_of_ne hq] at hu
      exact hw.asking q u hu
  · by_cases hq : q = p
    · subst hq
      simpa only [update_self, hhanded] using hw.held q u c
    · simpa only [update_of_ne hq] using hw.held q u c

theorem Ordered.resume (hw : w.Ordered limit max_conn_cnt n) {todo : List ScopeOp}
    {got : Got ℕ × ConnPool (Fin T) ℕ} (htodo : w.todo t = .get p :: todo)
    (hgot : ConnPool.Acquired (w.pool p) t got.1 got.2) :
    Ordered limit max_conn_cnt n (w.resume t p todo got) := by
  have hsound := (hw.sound p).acquired hgot
  have hserving := (hw.serving p).acquired hgot
  obtain ⟨g, s⟩ := got
  cases hgot with
  | null => exact hw.entered htodo hsound hserving rfl rfl
  | waits => exact hw.waited htodo hsound hserving (fun u hu => update_of_ne hu _ _) rfl
  | free => exact hw.entered htodo hsound hserving rfl rfl
  | created => exact hw.entered htodo hsound hserving rfl rfl

/-- A thread that leaves its innermost scope, its connection going back. -/
theorem Ordered.left (hw : w.Ordered limit max_conn_cnt n) {todo : List ScopeOp}
    {x : Option ℕ} {scopes : List (PoolName × Option ℕ)} (htodo : w.todo t = .rel :: todo)
    (hscopes : w.scopes t = (p, x) :: scopes) :
    Ordered limit max_conn_cnt n
      ⟨update w.pool p (x.elim (w.pool p) ((w.pool p).relConn t)), update w.todo t todo,
        update w.scopes t scopes⟩ := by
  -- the connection is among those handed out, since the scope has it
  have hmem : ∀ c, x = some c → (t, c) ∈ (w.pool p).handed_out := by
    rintro c rfl
    rw [← List.count_pos_iff, hw.held p t c, hscopes, List.count_cons_self]
    exact Nat.succ_pos _
  obtain ⟨hsound, hserving, hwaiting, hhanded⟩ :
      let s := x.elim (w.pool p) ((w.pool p).relConn t)
      s.Sound (limit p) ∧ s.Serving (max_conn_cnt p) (n p) ∧
        s.waiting = (w.pool p).waiting ∧
        ∀ u c, (w.pool p).handed_out.count (u, c) =
          s.handed_out.count (u, c) + if u = t ∧ x = some c then 1 else 0 := by
    cases x with
    | none => exact ⟨hw.sound p, hw.serving p, rfl, by simp⟩
    | some d =>
        refine ⟨(hw.sound p).relConn (hmem d rfl), (hw.serving p).relConn,
          ConnPool.relConn_waiting, fun u c => ?_⟩
        have hperm := (List.perm_cons_erase (hmem d rfl)).count_eq (u, c)
        rw [hperm, Option.elim, ConnPool.relConn_handed_out, List.count_cons]
        simp [@eq_comm _ t u]
  refine ⟨fun q => ?_, fun q => ?_, fun q u hu => ?_, fun u => ?_, fun q u c => ?_⟩
  · by_cases hq : q = p
    · subst hq
      simpa only [update_self] using hsound
    · simpa only [update_of_ne hq] using hw.sound q
  · by_cases hq : q = p
    · subst hq
      simpa only [update_self] using hserving
    · simpa only [update_of_ne hq] using hw.serving q
  · have hold : (w.pool q).waiting u ≠ none := by
      dsimp only at hu
      by_cases hq : q = p
      · subst hq
        rwa [update_self, hwaiting] at hu
      · rwa [update_of_ne hq] at hu
    obtain ⟨todo', hask⟩ := hw.asking q u hold
    have hut : u ≠ t := by
      rintro rfl
      rw [htodo] at hask
      cases hask
    exact ⟨todo', (update_of_ne hut _ _).trans hask⟩
  · by_cases hut : u = t
    · subst hut
      obtain ⟨job, done, hops, hplaced⟩ := hw.placed u
      refine ⟨job, done ++ [.rel], ?_, ?_⟩
      · rw [hops, htodo]
        simp only [update_self, List.append_assoc, List.singleton_append]
      · rw [scopesOf_snoc, ← hplaced, hscopes]
        simp only [update_self, List.map_cons, scopesAfter, List.tail_cons]
    · simpa only [update_of_ne hut] using hw.placed u
  · have hheld := hw.held q u c
    by_cases hq : q = p
    · subst hq
      rw [hhanded] at hheld
      simp only [update_self]
      by_cases hut : u = t
      · subst hut
        rw [hscopes, List.count_cons] at hheld
        simpa using hheld
      · simpa [hut] using hheld
    · simp only [update_of_ne hq]
      by_cases hut : u = t
      · subst hut
        rw [hscopes, List.count_cons] at hheld
        simpa [Ne.symm hq] using hheld
      · simpa [hut] using hheld

theorem Ordered.step {turn : Turn T} (hw : w.Ordered limit max_conn_cnt n)
    (h : w.step turn = some w') : w'.Ordered limit max_conn_cnt n := by
  cases turn with
  | start t job =>
      rw [Workers.step] at h
      split at h
      · next htodo =>
          cases h
          refine ⟨hw.sound, hw.serving, fun q u hu => ?_, fun u => ?_, hw.held⟩
          · obtain ⟨todo, hask⟩ := hw.asking q u hu
            have hut : u ≠ t := by
              rintro rfl
              rw [htodo] at hask
              cases hask
            exact ⟨todo, (update_of_ne hut _ _).trans hask⟩
          · by_cases hut : u = t
            · subst hut
              obtain ⟨old, done, hops, hplaced⟩ := hw.placed u
              rw [htodo, List.append_nil] at hops
              rw [← hops, scopesOf_ops] at hplaced
              exact ⟨job, [], by simp only [update_self, List.nil_append], hplaced⟩
            · simpa only [update_of_ne hut] using hw.placed u
      · cases h
  | get t created =>
      rw [Workers.step] at h
      split at h
      · next p todo htodo =>
          split at h
          · next hget =>
              cases h
              exact hw.resume htodo (ConnPool.getConn_acquired hget.1 hget.2)
          · cases h
      all_goals cases h
  | wake t =>
      rw [Workers.step] at h
      split at h
      · next p todo htodo =>
          split at h
          · cases h
          · next hwaiting =>
              cases h
              exact hw.resume htodo (ConnPool.wake_acquired hwaiting)
      all_goals cases h
  | rel t =>
      rw [Workers.step] at h
      split at h
      · next todo p scopes htodo hscopes =>
          cases h
          have hleft := hw.left htodo hscopes
          rwa [Option.elim, Function.update_eq_self] at hleft
      · next todo p c scopes htodo hscopes =>
          cases h
          exact hw.left htodo hscopes
      · cases h

theorem ordered_start {conns : PoolName → List ℕ} (hconns : ∀ p, (conns p).Nodup) :
    Ordered (fun p => max (max_conn_cnt p) (conns p).length) max_conn_cnt
      (fun p => (conns p).length) (start max_conn_cnt conns : Workers T) :=
  ⟨fun p => ConnPool.sound_start (hconns p), fun _ => ConnPool.serving_start,
    fun _ _ h => absurd rfl h, fun _ => ⟨.slaveOnly, Job.slaveOnly.ops, rfl, rfl⟩,
    fun _ _ _ => rfl⟩

theorem Ordered.reaches (hw : w.Ordered limit max_conn_cnt n) (h : w.Reaches w') :
    w'.Ordered limit max_conn_cnt n := by
  induction h with
  | refl => exact hw
  | tail _ hstep ih =>
      obtain ⟨turn, hturn⟩ := hstep
      exact ih.step hturn

/-! ## Too few threads -/

theorem count_fst_eq {α β : Type} [DecidableEq α] (l : List (α × β)) (a : α) :
    (l.map Prod.fst).count a = (l.filter (·.1 == a)).length := by
  rw [List.count, List.countP_map, List.countP_eq_length_filter]
  rfl

/-- A thread holds no more connections of a pool than it has scopes of it. -/
theorem Ordered.count_held_le (hw : w.Ordered limit max_conn_cnt n) (p : PoolName) (t : Fin T) :
    ((w.pool p).handed_out.map Prod.fst).count t ≤ ((w.scopes t).map Prod.fst).count p := by
  have hnodup : (w.pool p).handed_out.Nodup :=
    ((List.nodup_append.mp (hw.sound p).nodup).2.1).of_map Prod.snd
  have hmine : (((w.pool p).handed_out.filter (·.1 == t)).map fun e => (p, some e.2)).Nodup := by
    refine (hnodup.filter _).map_on fun e he e' he' heq => ?_
    have howner := beq_iff_eq.mp (List.mem_filter.mp he).2
    have howner' := beq_iff_eq.mp (List.mem_filter.mp he').2
    exact Prod.ext (howner.trans howner'.symm) (Option.some.inj (Prod.mk.inj heq).2)
  have hscopes : ((w.pool p).handed_out.filter (·.1 == t)).map (fun e => (p, some e.2)) ⊆
      (w.scopes t).filter (·.1 == p) := by
    intro x hx
    obtain ⟨⟨u, c⟩, he, rfl⟩ := List.mem_map.mp hx
    obtain ⟨hmem, howner⟩ := List.mem_filter.mp he
    obtain rfl : u = t := beq_iff_eq.mp howner
    refine List.mem_filter.mpr ⟨?_, beq_self_eq_true p⟩
    rw [← List.count_pos_iff, ← hw.held p u c]
    exact List.count_pos_iff.mpr hmem
  rw [count_fst_eq, count_fst_eq, ← List.length_map (fun e : Fin T × ℕ => (p, some e.2))]
  exact (hmine.subperm hscopes).length_le

theorem Ordered.waiting_holds (hw : w.Ordered limit max_conn_cnt n) {p : PoolName} {t : Fin T}
    (h : (w.pool p).waiting t ≠ none) :
    ((w.pool .filehub_slave).handed_out.map Prod.fst).count t ≤ 1 ∧
      (p = .ranking_list → ((w.pool .ranking_list).handed_out.map Prod.fst).count t = 0) := by
  obtain ⟨todo, hask⟩ := hw.asking p t h
  obtain ⟨job, done, hops, hplaced⟩ := hw.placed t
  rw [hask] at hops
  obtain ⟨hslave, hranking⟩ := scopes_asking hops
  have hle := hw.count_held_le .filehub_slave t
  have hle' := hw.count_held_le .ranking_list t
  rw [hplaced] at hle hle'
  exact ⟨hle.trans hslave, fun hp => Nat.le_zero.mp (hle'.trans_eq (hranking hp))⟩

/-- A deadlock takes a thread for every connection of the slave pool. -/
theorem Ordered.limit_le_of_deadlocked (hw : w.Ordered limit max_conn_cnt n) {D : Fin T → Prop}
    (hD : w.Deadlocked D) (hranking : 1 ≤ max (max_conn_cnt .ranking_list) (n .ranking_list)) :
    max (max_conn_cnt .filehub_slave) (n .filehub_slave) ≤ T := by
  obtain ⟨⟨t, ht⟩, hall⟩ := hD
  -- of a pool that is waited for with nothing free, the connections are as many as the limit
  have hcount : ∀ p u, (w.pool p).waiting u ≠ none → (w.pool p).free_list_ = [] →
      max (max_conn_cnt p) (n p) ≤ (w.pool p).handed_out.length := by
    intro p u hwaits hfree
    have hcur := (hw.sound p).count
    rw [hfree, List.length_nil] at hcur
    have hfull := (hw.serving p).full u hwaits
    have hstarted := (hw.serving p).started
    omega
  by_cases hslave : ∃ u, D u ∧ (w.pool .filehub_slave).waiting u ≠ none ∧
      (w.pool .filehub_slave).free_list_ = [] ∧ ∀ e ∈ (w.pool .filehub_slave).handed_out, D e.1
  · obtain ⟨u, -, hwaits, hfree, howners⟩ := hslave
    have hnodup : ((w.pool .filehub_slave).handed_out.map Prod.fst).Nodup := by
      refine List.nodup_iff_count_le_one.mpr fun v => ?_
      by_cases hv : v ∈ (w.pool .filehub_slave).handed_out.map Prod.fst
      · obtain ⟨e, he, rfl⟩ := List.mem_map.mp hv
        obtain ⟨p, hp, -⟩ := hall e.1 (howners e he)
        exact (hw.waiting_holds hp).1
      · rw [List.count_eq_zero_of_not_mem hv]
        exact Nat.zero_le 1
    have hcard := hnodup.length_le_card
    rw [List.length_map, Fintype.card_fin] at hcard
    have hlimit := hcount _ u hwaits hfree
    omega
  · -- they all wait for the ranking pool, and hold nothing of it
    have hpool : ∀ u, D u → (w.pool .ranking_list).waiting u ≠ none ∧
        (w.pool .ranking_list).free_list_ = [] ∧
        ∀ e ∈ (w.pool .ranking_list).handed_out, D e.1 := by
      intro u hu
      obtain ⟨p, hp⟩ := hall u hu
      cases p with
      | filehub_slave => exact absurd ⟨u, hu, hp⟩ hslave
      | ranking_list => exact hp
    obtain ⟨hwaits, hfree, howners⟩ := hpool t ht
    have hnone : (w.pool .ranking_list).handed_out = [] := by
      refine List.eq_nil_iff_forall_not_mem.mpr fun e he => ?_
      have hzero := (hw.waiting_holds (hpool e.1 (howners e he)).1).2 rfl
      exact List.count_eq_zero.mp hzero (List.mem_map_of_mem he)
    have hlimit := hcount _ t hwaits hfree
    rw [hnone, List.length_nil] at hlimit
    omega

/-! ## For ever -/

theorem resume_pool {todo : List ScopeOp} {got : Got ℕ × ConnPool (Fin T) ℕ} :
    (w.resume t p todo got).pool = update w.pool p got.2 := by
  obtain ⟨g, s⟩ := got
  cases g <;> rfl

/-- What keeps a thread of `D` waiting, in the pool it waits for. -/
def Blocked (s : ConnPool (Fin T) ℕ) (D : Fin T → Prop) (t : Fin T) : Prop :=
  s.waiting t ≠ none ∧ s.free_list_ = [] ∧ ∀ e ∈ s.handed_out, D e.1

theorem blocked_update {D : Fin T → Prop} {q : PoolName} {s : ConnPool (Fin T) ℕ}
    (h : Blocked (w.pool q) D t) (hs : q = p → Blocked s D t) :
    Blocked (update w.pool p s q) D t := by
  by_cases hq : q = p
  · subst hq
    rw [update_self]
    exact hs rfl
  · rwa [update_of_ne hq]

/-- A deadlocked set stays so, whatever the other threads do. -/
theorem Deadlocked.step {D : Fin T → Prop} {turn : Turn T} (hD : w.Deadlocked D)
    (hw : w.Ordered limit max_conn_cnt n) (h : w.step turn = some w') : w'.Deadlocked D := by
  refine ⟨hD.1, fun t ht => ?_⟩
  obtain ⟨q, hblocked⟩ := hD.2 t ht
  refine ⟨q, ?_⟩
  show Blocked (w'.pool q) D t
  cases turn with
  | start u job =>
      rw [Workers.step] at h
      split at h
      · cases h
        exact hblocked
      · cases h
  | get u created =>
      rw [Workers.step] at h
      split at h
      · next p todo htodo =>
          split at h
          · next hget =>
              cases h
              rw [resume_pool]
              refine blocked_update hblocked ?_
              rintro rfl
              have hserving := hw.serving q
              have hfull := hserving.full t hblocked.1
              rw [ConnPool.getConn_waits hserving.running hblocked.2.1 (by rwa [hserving.max_eq])]
              have htu : t ≠ u := by
                rintro rfl
                exact hblocked.1 hget.1
              refine ⟨?_, hblocked.2⟩
              show update (w.pool q).waiting u _ t ≠ none
              rw [update_of_ne htu]
              exact hblocked.1
          · cases h
      all_goals cases h
  | wake u =>
      rw [Workers.step] at h
      split at h
      · next p todo htodo =>
          split at h
          · cases h
          · cases h
            rw [resume_pool]
            refine blocked_update hblocked ?_
            rintro rfl
            rw [ConnPool.wake_waits (hw.serving q).running hblocked.2.1]
            exact hblocked
      all_goals cases h
  | rel u =>
      rw [Workers.step] at h
      split at h
      · cases h
        exact hblocked
      · next todo p c scopes htodo hscopes =>
          cases h
          refine blocked_update hblocked ?_
          rintro rfl
          -- only a member could give back a connection of this pool, and it waits
          have hmem : (u, c) ∈ (w.pool q).handed_out := by
            rw [← List.count_pos_iff, hw.held q u c, hscopes, List.count_cons_self]
            exact Nat.succ_pos _
          obtain ⟨r, hwaits, -⟩ := hD.2 u (hblocked.2.2 _ hmem)
          obtain ⟨todo', hask⟩ := hw.asking r u hwaits
          rw [htodo] at hask
          cases hask
      · cases h

theorem Deadlocked.reaches {D : Fin T → Prop} (hD : w.Deadlocked D)
    (hw : w.Ordered limit max_conn_cnt n) (h : w.Reaches w') : w'.Deadlocked D := by
  induction h with
  | refl => exact hD
  | tail hreach hstep ih =>
      obtain ⟨turn, hturn⟩ := hstep
      exact ih.step (hw.reaches hreach) hturn

/-! ## Enough threads -/

/-- What a thread has left of a share list that holds its first connection. -/
def halfway : List ScopeOp := [.get .filehub_slave, .rel, .rel]

/-- The first `k` threads are halfway through a share list, the others have not
started. -/
structure Spread (k : ℕ) (w : Workers T) : Prop where
  todo : ∀ t : Fin T, w.todo t = if t < k then halfway else []
  awake : ∀ t, (w.pool .filehub_slave).waiting t = none
  owners : ∀ e ∈ (w.pool .filehub_slave).handed_out, e.1 < k
  taken : (w.pool .filehub_slave).handed_out.length = k

theorem Spread.next (hw : w.Ordered limit max_conn_cnt n) {k : ℕ} (hk : w.Spread k)
    (hlt : k < T) (hroom : (k : Int) < max (max_conn_cnt .filehub_slave) (n .filehub_slave)) :
    ∃ w', w.Reaches w' ∧ w'.Spread (k + 1) := by
  obtain ⟨htodo, hawake, howners, htaken⟩ := hk
  obtain ⟨c, hc⟩ := Infinite.exists_notMem_finset
    ((w.pool .filehub_slave).free_list_ ++
      (w.pool .filehub_slave).handed_out.map Prod.snd).toFinset
  rw [List.mem_toFinset, List.mem_append, not_or] at hc
  have hunused : (w.pool .filehub_slave).Unused (some c) := by
    intro d hd
    cases hd
    exact hc
  have hserving := hw.serving .filehub_slave
  obtain ⟨d, s, hget, hwaiting, hhanded⟩ : ∃ d s,
      (w.pool .filehub_slave).getConn (⟨k, hlt⟩ : Fin T) 0 (some c) = (.conn d, s) ∧
        s.waiting = (w.pool .filehub_slave).waiting ∧
        s.handed_out = (⟨k, hlt⟩, d) :: (w.pool .filehub_slave).handed_out := by
    refine ConnPool.getConn_conn hserving.running ?_
    by_cases hfree : (w.pool .filehub_slave).free_list_ = []
    · right
      have hcur := (hw.sound .filehub_slave).count
      rw [hfree, htaken, List.length_nil] at hcur
      have hstarted := hserving.started
      rw [hserving.max_eq]
      omega
    · exact .inl hfree
  have hidle : w.todo ⟨k, hlt⟩ = [] := (htodo _).trans (if_neg (lt_irrefl k))
  let w₁ : Workers T := { w with todo := update w.todo ⟨k, hlt⟩ Job.getShareFilelist.ops }
  have hstart : w.step (.start ⟨k, hlt⟩ .getShareFilelist) = some w₁ := by
    rw [Workers.step, hidle]
  have hask : w₁.step (.get ⟨k, hlt⟩ (some c)) =
      some (w₁.resume ⟨k, hlt⟩ .filehub_slave halfway (.conn d, s)) := by
    have hops : w₁.todo ⟨k, hlt⟩ = .get .filehub_slave :: halfway := update_self _ _ _
    rw [Workers.step, hops]
    dsimp only
    rw [if_pos ⟨hawake _, hunused⟩, hget]
  refine ⟨_, .tail (.single ⟨_, hstart⟩) ⟨_, hask⟩, fun t => ?_, fun t => ?_, ?_, ?_⟩
  · show update w₁.todo ⟨k, hlt⟩ halfway t = _
    by_cases ht : t = ⟨k, hlt⟩
    · subst ht
      rw [update_self, if_pos (Nat.lt_succ_self k)]
    · have hval : t.val ≠ k := fun h => ht (Fin.ext h)
      rw [update_of_ne ht]
      show update w.todo ⟨k, hlt⟩ _ t = _
      rw [update_of_ne ht, htodo t]
      by_cases hlt' : t.val < k
      · rw [if_pos hlt', if_pos (by omega)]
      · rw [if_neg hlt', if_neg (by omega)]
  · show (update w₁.pool _ s _).waiting t = none
    rw [update_self, hwaiting]
    exact hawake t
  · intro e he
    have hmem : e ∈ s.handed_out := he
    rw [hhanded, List.mem_cons] at hmem
    rcases hmem with rfl | hmem
    · exact Nat.lt_succ_self k
    · exact (howners e hmem).trans (Nat.lt_succ_self k)
  · show s.handed_out.length = k + 1
    rw [hhanded, List.length_cons, htaken]

/-- The connections of the slave pool are all out, to the first `m` threads,
and of these the first `j` already wait for their second one. -/
structure Asking (m j : ℕ) (w : Workers T) : Prop where
  todo : ∀ t : Fin T, t < m → w.todo t = halfway
  waiting : ∀ t : Fin T, (w.pool .filehub_slave).waiting t ≠ none ↔ t < j
  owners : ∀ e ∈ (w.pool .filehub_slave).handed_out, e.1 < m
  none_free : (w.pool .filehub_slave).free_list_ = []
  full : (w.pool .filehub_slave).max_conn_cnt_ ≤ (w.pool .filehub_slave).cur_conn_cnt_

theorem Asking.next (hw : w.Ordered limit max_conn_cnt n) {m j : ℕ} (hj : w.Asking m j)
    (hjm : j < m) (hlt : j < T) : ∃ w', w.Reaches w' ∧ w'.Asking m (j + 1) := by
  obtain ⟨htodo, hwaiting, howners, hfree, hfull⟩ := hj
  have hrunning := (hw.serving .filehub_slave).running
  have hawake : (w.pool .filehub_slave).waiting ⟨j, hlt⟩ = none :=
    not_not.mp fun h => absurd ((hwaiting _).mp h) (lt_irrefl j)
  have hask : w.step (.get ⟨j, hlt⟩ none) = some (w.resume ⟨j, hlt⟩ .filehub_slave [.rel, .rel]
      (.waits, { w.pool .filehub_slave with
        waiting := update (w.pool .filehub_slave).waiting ⟨j, hlt⟩ (some 0) })) := by
    have hnone : (w.pool .filehub_slave).Unused none := nofun
    rw [Workers.step, htodo _ hjm, halfway]
    dsimp only
    rw [if_pos ⟨hawake, hnone⟩, ConnPool.getConn_waits hrunning hfree hfull]
  refine ⟨_, .single ⟨_, hask⟩, htodo, fun t => ?_, howners, hfree, hfull⟩
  show update (w.pool .filehub_slave).waiting ⟨j, hlt⟩ (some 0) t ≠ none ↔ _
  by_cases ht : t = ⟨j, hlt⟩
  · subst ht
    rw [update_self]
    exact iff_of_true (Option.some_ne_none 0) (Nat.lt_succ_self j)
  · have hval : t.val ≠ j := fun h => ht (Fin.ext h)
    rw [update_of_ne ht, hwaiting t]
    omega

section Start

variable {conns : PoolName → List ℕ}

theorem reaches_spread (hconns : ∀ p, (conns p).Nodup) {k : ℕ} (hT : k ≤ T)
    (hlimit : (k : Int) ≤ max (max_conn_cnt .filehub_slave) (conns .filehub_slave).length) :
    ∃ w : Workers T, (start max_conn_cnt conns).Reaches w ∧ w.Spread k := by
  induction k with
  | zero =>
      refine ⟨_, .refl, fun t => (if_neg (Nat.not_lt_zero _)).symm, fun _ => rfl, nofun, rfl⟩
  | succ k ih =>
      obtain ⟨w, hreach, hk⟩ := ih (by omega) (by omega)
      obtain ⟨w', hnext, hk'⟩ := hk.next ((ordered_start hconns).reaches hreach) hT (by omega)
      exact ⟨w', hreach.trans hnext, hk'⟩

theorem reaches_asking (hconns : ∀ p, (conns p).Nodup) {m : ℕ} (hT : m ≤ T)
    (hm : (m : Int) = max (max_conn_cnt .filehub_slave) (conns .filehub_slave).length)
    {j : ℕ} (hj : j ≤ m) :
    ∃ w : Workers T, (start max_conn_cnt conns).Reaches w ∧ w.Asking m j := by
  induction j with
  | zero =>
      obtain ⟨w, hreach, htodo, hawake, howners, htaken⟩ :=
        reaches_spread (T := T) hconns hT hm.le
      have hw := (ordered_start hconns).reaches hreach
      have hcount := (hw.sound .filehub_slave).count
      have hbound := (hw.sound .filehub_slave).bound
      have hmax := (hw.serving .filehub_slave).max_eq
      have hstarted := (hw.serving .filehub_slave).started
      rw [htaken] at hcount
      refine ⟨w, hreach, fun t ht => (htodo t).trans (if_pos ht), fun t => ?_, howners, ?_, ?_⟩
      · exact iff_of_false (not_not.mpr (hawake t)) (Nat.not_lt_zero _)
      · refine List.length_eq_zero_iff.mp ?_
        omega
      · omega
  | succ j ih =>
      obtain ⟨w, hreach, hasking⟩ := ih (by omega)
      obtain ⟨w', hnext, hasking'⟩ :=
        hasking.next ((ordered_start hconns).reaches hreach) hj (by omega)
      exact ⟨w', hreach.trans hnext, hasking'⟩

/-- A state from which some threads wait for ever can be reached exactly when there are as many
threads as the slave pool may have connections. -/
theorem deadlocked_iff (hconns : ∀ p, (conns p).Nodup)
    (hslave : 1 ≤ max (max_conn_cnt .filehub_slave) (conns .filehub_slave).length)
    (hranking : 1 ≤ max (max_conn_cnt .ranking_list) (conns .ranking_list).length) :
    (∃ (w : Workers T) (D : Fin T → Prop), (start max_conn_cnt conns).Reaches w ∧
        w.Deadlocked D ∧ ∀ w', w.Reaches w' → ∀ t, D t → ∃ p, (w'.pool p).waiting t ≠ none) ↔
      max (max_conn_cnt .filehub_slave) (conns .filehub_slave).length ≤ (T : Int) := by
  constructor
  · rintro ⟨w, D, hreach, hD, -⟩
    exact ((ordered_start hconns).reaches hreach).limit_le_of_deadlocked hD hranking
  · intro hT
    obtain ⟨m, hm⟩ := Int.eq_ofNat_of_zero_le (le_trans Int.one_nonneg hslave)
    have hmT : m ≤ T := by omega
    obtain ⟨w, hreach, -, hwaiting, howners, hfree, -⟩ :=
      reaches_asking (T := T) hconns hmT hm.symm le_rfl
    have hD : w.Deadlocked fun t => t < m :=
      ⟨⟨⟨0, by omega⟩, show 0 < m by omega⟩, fun t ht =>
        ⟨.filehub_slave, (hwaiting t).mpr ht, hfree, howners⟩⟩
    refine ⟨w, _, hreach, hD, fun w' hw' t ht => ?_⟩
    obtain ⟨p, hwaits, -⟩ := (hD.reaches ((ordered_start hconns).reaches hreach) hw').2 t ht
    exact ⟨p, hwaits⟩

end Start

def firstConns : PoolName → List ℕ
  | .filehub_slave => [0]
  | .ranking_list => [0, 1]

theorem firstConns_nodup : ∀ p, (firstConns p).Nodup
  | .filehub_slave => by decide
  | .ranking_list => by decide

/-- One thread and one slave connection. -/
theorem oneThread_deadlocks : ∃ (w : Workers 1) (D : Fin 1 → Prop),
    (start (fun _ => 1) firstConns).Reaches w ∧ w.Deadlocked D ∧
      ∀ w', w.Reaches w' → ∀ t, D t → ∃ p, (w'.pool p).waiting t ≠ none :=
  (deadlocked_iff firstConns_nodup (by decide) (by decide)).mpr (by decide)

end Workers

end FileHub
