import FileHub.Model.ConnPool

/-!
# Worker threads that hold one connection and ask for another

Of a handler only its acquisitions matter here, and the scopes that release
them: `AutoRelDBCon` and `AutoRelCacheConn` give a connection back when the
block that took it is left, the innermost first. Acquisitions are without a
timeout. A thread runs one handler after another.
-/

namespace FileHub

/-- The pools the listing handlers use. -/
inductive PoolName where
  | filehub_slave
  | ranking_list
deriving DecidableEq

/-- Take a connection into a new scope, or leave the innermost scope. -/
inductive ScopeOp where
  | get (pool : PoolName)
  | rel
deriving DecidableEq

inductive Job where
  | getShareFilelist
  | getRankingFilelist
  | slaveOnly
deriving DecidableEq

/-- `handleGetSharefilesCount` takes a connection of its own, in both lists. -/
def Job.ops : Job → List ScopeOp
  | .getShareFilelist => [.get .filehub_slave, .get .filehub_slave, .rel, .rel]
  | .getRankingFilelist =>
      [.get .filehub_slave, .get .ranking_list, .get .filehub_slave, .rel, .rel, .rel]
  | .slaveOnly => [.get .filehub_slave, .rel]

/-- The pools, what each thread still has to do, and its scopes with the
connection or null of each. Connections are named by their address. -/
structure Workers (T : ℕ) where
  pool : PoolName → ConnPool (Fin T) ℕ
  todo : Fin T → List ScopeOp
  scopes : Fin T → List (PoolName × Option ℕ)

/-- A step of a thread: start a handler, enter an acquisition, get the mutex
back inside its wait, leave a scope. -/
inductive Turn (T : ℕ) where
  | start (t : Fin T) (job : Job)
  | get (t : Fin T) (created : Option ℕ)
  | wake (t : Fin T)
  | rel (t : Fin T)

namespace Workers

open Function (update)

variable {T : ℕ}

/-- No thread has started, and the pools have their first connections. -/
def start (max_conn_cnt : PoolName → Int) (conns : PoolName → List ℕ) : Workers T :=
  ⟨fun p => .start (max_conn_cnt p) (conns p), fun _ => [], fun _ => []⟩

/-- An acquisition from `p` came to `got`. -/
def resume (w : Workers T) (t : Fin T) (p : PoolName) (todo : List ScopeOp)
    (got : Got ℕ × ConnPool (Fin T) ℕ) : Workers T :=
  let pool := update w.pool p got.2
  match got.1 with
  | .waits => { w with pool }
  | .null => ⟨pool, update w.todo t todo, update w.scopes t ((p, none) :: w.scopes t)⟩
  | .conn c => ⟨pool, update w.todo t todo, update w.scopes t ((p, some c) :: w.scopes t)⟩

/-- One step; `none` where the thread is not at it. -/
def step (w : Workers T) : Turn T → Option (Workers T)
  | .start t job =>
      match w.todo t with
      | [] => some { w with todo := update w.todo t job.ops }
      | _ :: _ => none
  | .get t created =>
      match w.todo t with
      | .get p :: todo =>
          if (w.pool p).waiting t = none ∧ (w.pool p).Unused created then
            some (w.resume t p todo ((w.pool p).getConn t 0 created))
          else none
      | [] | .rel :: _ => none
  | .wake t =>
      match w.todo t with
      | .get p :: todo =>
          match (w.pool p).waiting t with
          | none => none
          | some timeout_ms => some (w.resume t p todo ((w.pool p).wake t timeout_ms false))
      | [] | .rel :: _ => none
  | .rel t =>
      match w.todo t, w.scopes t with
      | .rel :: todo, (_, none) :: scopes =>
          some ⟨w.pool, update w.todo t todo, update w.scopes t scopes⟩
      | .rel :: todo, (p, some c) :: scopes =>
          some ⟨update w.pool p ((w.pool p).relConn t c), update w.todo t todo,
            update w.scopes t scopes⟩
      | _, _ => none

/-- Runs of any length. -/
def Reaches : Workers T → Workers T → Prop :=
  Relation.ReflTransGen fun w w' => ∃ turn, w.step turn = some w'

/-- The threads of `D` wait, each for a pool that has nothing free and whose
connections are all held within `D`. -/
def Deadlocked (w : Workers T) (D : Fin T → Prop) : Prop :=
  (∃ t, D t) ∧ ∀ t, D t → ∃ p, (w.pool p).waiting t ≠ none ∧ (w.pool p).free_list_ = [] ∧
    ∀ e ∈ (w.pool p).handed_out, D e.1

end Workers

end FileHub
