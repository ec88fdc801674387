import FileHub.Model.Session

/-!
# What a command finds on its connection

A handshake that fails halfway leaves the context in place, and the next `Init`
takes it for a connection that is ready. A connection whose `AUTH` was refused
is so used unauthenticated. And whatever `db_index_` says, the handshake
selects database 0.
-/

namespace FileHub.Session

open Lib

/-- Authenticated if there is a password, and on the pool's database. -/
def Ready (cfg : Config) (context : Option Server) : Prop :=
  ∃ server, context = some server ∧ (cfg.password_ ≠ [] → server.authed = true) ∧
    server.db = cfg.db_index_

/-- An `Init` that opens a connection gets its `AUTH` accepted, if it sends one,
and wants database 0. -/
def InitEnv.Sound (cfg : Config) (env : InitEnv) : Prop :=
  env.cur_time = 0 ∨ env.connects = false ∨
    (cfg.password_ ≠ [] → env.auth.executed = true) ∧ cfg.db_index_ = 0

/-- The `Init` of a call meets only what `A` allows. -/
def Op.Within (A : InitEnv → Prop) : Op → Prop
  | .init env | .command env _ _ => A env
  | .deInit => True

variable {cfg : Config}

/-- A context that is there is ready. -/
def Kept (cfg : Config) (conn : CacheConn) : Prop :=
  ∀ server, conn.context_ = some server → Ready cfg (some server)

theorem kept_new : Kept cfg CacheConn.new := nofun

theorem kept_deInit (conn : CacheConn) : Kept cfg conn.deInit := nofun

/-! ## One `Init` -/

theorem select_context (env : InitEnv) (authed : Bool) (conn : CacheConn) :
    (conn.select env ⟨authed, 0⟩).2.context_ = some ⟨authed, 0⟩ := by
  have hdb : (if env.select.executed = true then (⟨authed, 0⟩ : Server) else ⟨authed, 0⟩) =
      ⟨authed, 0⟩ := ite_self _
  simp only [CacheConn.select, hdb]
  cases env.select with
  | status str =>
      dsimp only
      split <;> rfl
  | null | error | other => rfl

theorem init_of_context {env : InitEnv} {conn : CacheConn} {server : Server}
    (h : conn.context_ = some server) : conn.init cfg env = (0, conn) := by
  rw [CacheConn.init, h]
  rfl

/-- Whether an `Init` without a context gets as far as a connection. -/
def Opens (env : InitEnv) (conn : CacheConn) : Prop :=
  conn.last_connect_time_ + 1 ≤ env.cur_time ∧ env.connects = true

theorem init_of_not_opens {env : InitEnv} {conn : CacheConn} (h : conn.context_ = none)
    (ho : ¬ Opens env conn) :
    (conn.init cfg env).1 = 1 ∧ (conn.init cfg env).2.context_ = none := by
  rw [CacheConn.init, if_neg (by simp [h])]
  by_cases ht : env.cur_time < conn.last_connect_time_ + 1
  · rw [if_pos ht]
    exact ⟨rfl, h⟩
  · have hc : ¬ env.connects = true := fun hc => ho ⟨not_lt.mp ht, hc⟩
    rw [if_neg ht]
    dsimp only
    rw [if_neg hc]
    exact ⟨rfl, h⟩

/-- What a new connection ends as: on database 0, and authenticated as far as
`AUTH` was accepted. -/
theorem init_of_opens {env : InitEnv} {conn : CacheConn} (h : conn.context_ = none)
    (ho : Opens env conn) :
    (conn.init cfg env).2.context_ =
      some ⟨decide (cfg.password_ ≠ []) && env.auth.executed, 0⟩ := by
  rw [CacheConn.init, if_neg (by simp [h]), if_neg (not_lt.mpr ho.1)]
  dsimp only
  rw [if_pos ho.2]
  by_cases hp : cfg.password_ = []
  · rw [if_pos hp, Server.connected, select_context]
    simp [hp]
  · rw [if_neg hp]
    cases hauth : env.auth with
    | null executed => simp [hp, RedisReply.executed, Server.connected]
    | error => simp [hp, RedisReply.executed, Server.connected]
    | status str =>
        dsimp only [Server.connected]
        rw [select_context]
        simp [hp, RedisReply.executed]
    | other =>
        dsimp only [Server.connected]
        rw [select_context]
        simp [hp, RedisReply.executed]

/-- An `Init` that returns 0 has a context. -/
theorem context_of_init {env : InitEnv} {conn : CacheConn} (h : (conn.init cfg env).1 = 0) :
    ∃ server, (conn.init cfg env).2.context_ = some server := by
  cases hcontext : conn.context_ with
  | some server =>
      rw [init_of_context hcontext]
      exact ⟨server, hcontext⟩
  | none =>
      by_cases ho : Opens env conn
      · exact ⟨_, init_of_opens hcontext ho⟩
      · rw [(init_of_not_opens hcontext ho).1] at h
        exact absurd h (by decide)

theorem kept_init {env : InitEnv} {conn : CacheConn} (henv : env.Sound cfg)
    (h : Kept cfg conn) : Kept cfg (conn.init cfg env).2 := by
  cases hcontext : conn.context_ with
  | some server =>
      rw [init_of_context hcontext]
      exact h
  | none =>
      intro server hserver
      by_cases ho : Opens env conn
      · rw [init_of_opens hcontext ho] at hserver
        cases hserver
        obtain ⟨ht, hc⟩ := ho
        rcases henv with h0 | hn | ⟨hauth, hdb⟩
        · omega
        · rw [hc] at hn
          cases hn
        · refine ⟨_, rfl, fun hp => ?_, hdb.symm⟩
          rw [hauth hp, decide_eq_true hp]
          rfl
      · rw [(init_of_not_opens hcontext ho).2] at hserver
        cases hserver

/-! ## Runs -/

theorem ready_of_init {env : InitEnv} {conn : CacheConn} (henv : env.Sound cfg)
    (h : Kept cfg conn) (hret : (conn.init cfg env).1 = 0) :
    Ready cfg (conn.init cfg env).2.context_ := by
  obtain ⟨server, hserver⟩ := context_of_init hret
  rw [hserver]
  exact kept_init henv h server hserver

theorem kept_afterCommand {onNull : OnNull} {replied : Bool} {conn conn' : CacheConn}
    (h : Kept cfg conn) (hafter : afterCommand onNull replied conn = some conn') :
    Kept cfg conn' := by
  cases replied with
  | true =>
      cases hafter
      exact h
  | false =>
    cases onNull with
    | frees =>
        cases hafter
        exact kept_deInit conn
    | keeps =>
        cases hafter
        exact h
    | crashes => cases hafter

/-- One call keeps the context ready, and what its `Init` found is. -/
theorem kept_step {op : Op} {conn : CacheConn} (hop : op.Within (InitEnv.Sound cfg))
    (h : Kept cfg conn) :
    (∀ context ∈ (step cfg conn op).1, Ready cfg context) ∧
      ∀ conn' ∈ (step cfg conn op).2, Kept cfg conn' := by
  cases op with
  | deInit => exact ⟨nofun, fun _ h => Option.some.inj h ▸ kept_deInit conn⟩
  | init env =>
      refine ⟨fun context hc => ?_, fun _ h' => Option.some.inj h' ▸ kept_init hop h⟩
      simp only [step] at hc
      split at hc
      · next hret =>
          cases hc
          exact ready_of_init hop h hret
      · cases hc
  | command env onNull replied =>
      simp only [step]
      split
      · next hret =>
          refine ⟨fun context hc => ?_, fun _ h' => kept_afterCommand (kept_init hop h) h'⟩
          cases hc
          exact ready_of_init hop h hret
      · exact ⟨nofun, fun _ h' => Option.some.inj h' ▸ kept_init hop h⟩

theorem entered_cons (conn : CacheConn) (op : Op) (ops : List Op) :
    entered cfg conn (op :: ops) = (step cfg conn op).1.toList ++
      (step cfg conn op).2.elim [] fun conn => entered cfg conn ops := by
  rw [entered]
  obtain ⟨found, next⟩ := step cfg conn op
  cases next <;> rfl

theorem ready_of_entered {ops : List Op} {conn : CacheConn}
    (hops : ∀ op ∈ ops, op.Within (InitEnv.Sound cfg)) (h : Kept cfg conn) :
    ∀ context ∈ entered cfg conn ops, Ready cfg context := by
  induction ops generalizing conn with
  | nil => nofun
  | cons op ops ih =>
      obtain ⟨hop, hops⟩ := List.forall_mem_cons.mp hops
      obtain ⟨hfound, hnext⟩ := kept_step hop h
      intro context hc
      rw [entered_cons] at hc
      rcases List.mem_append.mp hc with hc | hc
      · exact hfound context (Option.mem_toList.mp hc)
      · cases hstep : (step cfg conn op).2 with
        | none =>
            rw [hstep] at hc
            cases hc
        | some conn' =>
            rw [hstep] at hc
            exact ih hops (hnext conn' hstep) context hc

/-- What an unsound `Init` leaves, the next one returns 0 on. -/
theorem sound_of_entered {env : InitEnv}
    (h : ∀ context ∈ entered cfg CacheConn.new [.init env, .init env], Ready cfg context) :
    env.Sound cfg := by
  by_cases ho : Opens env CacheConn.new
  · have hcontext := @init_of_opens cfg env CacheConn.new rfl ho
    have hfound : some ⟨decide (cfg.password_ ≠ []) && env.auth.executed, 0⟩ ∈
        entered cfg CacheConn.new [.init env, .init env] := by
      rw [entered_cons]
      refine List.mem_append_right _ ?_
      show _ ∈ entered cfg (CacheConn.new.init cfg env).2 [.init env]
      rw [entered_cons, step, init_of_context hcontext, ← hcontext]
      exact List.mem_append_left _ List.mem_cons_self
    obtain ⟨server, hserver, hauth, hdb⟩ := h _ hfound
    cases hserver
    refine .inr (.inr ⟨fun hp => ?_, hdb.symm⟩)
    exact ((Bool.and_eq_true _ _).mp (hauth hp)).2
  · by_cases ht : env.cur_time = 0
    · exact .inl ht
    · refine .inr (.inl (Bool.eq_false_of_not_eq_true fun hc => ho ⟨?_, hc⟩))
      exact Nat.one_le_iff_ne_zero.mpr ht

/-- The connections handed to commands are ready in every run whose environment keeps to `A`,
exactly where all that `A` allows is sound. -/
theorem ready_iff (cfg : Config) (A : InitEnv → Prop) :
    (∀ ops : List Op, (∀ op ∈ ops, op.Within A) →
        ∀ context ∈ entered cfg CacheConn.new ops, Ready cfg context) ↔
      ∀ env, A env → env.Sound cfg := by
  constructor
  · intro h env henv
    apply sound_of_entered
    refine h _ fun op hop => ?_
    rcases List.mem_cons.mp hop with rfl | hop
    · exact henv
    · rw [List.mem_singleton.mp hop]
      exact henv
  · intro h ops hops
    refine ready_of_entered (fun op hop => ?_) kept_new
    have hA := hops op hop
    cases op with
    | deInit => trivial
    | init env => exact h env hA
    | command env onNull replied => exact h env hA

/-- The ranking's connections want database 1 and get 0. -/
theorem ranking_not_ready :
    ¬ ∀ (cfg : Config) (ops : List Op),
      ∀ context ∈ entered cfg CacheConn.new ops, Ready cfg context := by
  intro h
  obtain ⟨server, hserver, _, hdb⟩ := h ⟨[], 1⟩
    [.init ⟨1, true, .other, .status (ascii "OK")⟩] (some ⟨false, 0⟩) (by decide)
  cases hserver
  exact absurd hdb (by decide)

end FileHub.Session
