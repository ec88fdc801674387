import FileHub.Model.Workers
import FileHub.Proofs.HandlerCalls

/-!
# The connections a listing asks for

The scopes of `Job.ops` are those of the handlers: on every way through it,
whatever it is answered, a listing asks for these connections in this order,
the ranking for one of its own pool between two of the slave pool.
-/

namespace FileHub

open Lib Prog

/-- The pool a call asks for a connection of. -/
def Call.asksFor : Call → Option (DbPool ⊕ CachePool)
  | .getDBConn pool => some (.inl pool)
  | .getCacheConn pool => some (.inr pool)
  | .select _ | .dml _ | .stmtInit | .cacheInit | .redis _ | .tryLockFor _ | .unlock
  | .rename .. | .unlink _ | .fdfsUpload _ | .fdfsFileInfo _ | .fdfsDelete _ | .time
  | .localtime | .uuid | .rand | .crash => none

/-- On every way through the program it asks for connections of these pools,
one after the other. A way that crashes is none. -/
inductive Gets {α : Type} : List (DbPool ⊕ CachePool) → Handler α → Prop where
  | ret {a} : Gets [] (.ret a)
  | ask {pools pool c k} (hc : c.asksFor = some pool) (h : ∀ r, Gets pools (k r)) :
      Gets (pool :: pools) (.call c k)
  | other {pools c k} (hc : c.asksFor = none) (h : ∀ r, Gets pools (k r)) :
      Gets pools (.call c k)

variable {α β : Type}

theorem Gets.bind {pools pools' : List (DbPool ⊕ CachePool)} {p : Handler α}
    {f : α → Handler β} (hp : Gets pools p) (hf : ∀ a, Gets pools' (f a)) :
    Gets (pools ++ pools') (p >>= f) := by
  induction hp with
  | ret => exact hf _
  | ask hc _ ih => exact .ask hc ih
  | other hc _ ih => exact .other hc ih

/-- The calls that ask for no connection. -/
def Call.Inside (c : Call) : Prop := c.asksFor = none

theorem inside_cacheInit : Call.cacheInit.Inside := rfl

theorem inside_crash : Call.crash.Inside := rfl

theorem inside_redis (c : RedisCmd) : (Call.redis c).Inside := rfl

theorem gets_nil {p : Handler α} (h : p.Uses Call.Inside) : Gets [] p := by
  induction p with
  | ret a => exact .ret
  | call c k ih => exact .other h.1 fun r => ih r (h.2 r)

theorem gets_getDBConn (pool : DbPool) : Gets [.inl pool] (getDBConn pool) :=
  .ask rfl fun _ => .ret

theorem gets_getCacheConn (pool : CachePool) : Gets [.inr pool] (getCacheConn pool) :=
  .ask rfl fun _ => .ret

/-! ## The listings -/

theorem handleGetSharefilesCount_gets : Gets [.inl .filehubSlave] handleGetSharefilesCount := by
  refine (gets_getDBConn .filehubSlave).bind fun conn => gets_nil ?_
  refine .bind (uses_executeQuery rfl rfl) fun rows => ?_
  match rows with
  | none | some [] | some (_ :: _) => trivial

theorem handleGetShareFilelist_gets (start count : Int) :
    Gets [.inl .filehubSlave, .inl .filehubSlave] (handleGetShareFilelist start count) := by
  refine (gets_getDBConn .filehubSlave).bind fun conn => ?_
  refine handleGetSharefilesCount_gets.bind fun counted => gets_nil ?_
  obtain ⟨status, total⟩ := counted
  dsimp only
  split
  · exact .bind (uses_executeQuery rfl rfl) fun rows => by cases rows <;> trivial
  · trivial

theorem syncRanking_gets (db_conn : CDBConn) (cache_conn : CacheConn) :
    Gets [.inl .filehubSlave] (syncRanking db_conn cache_conn) := by
  refine handleGetSharefilesCount_gets.bind fun counted => gets_nil ?_
  obtain ⟨status, sql_num⟩ := counted
  dsimp only
  split
  · refine .bind (uses_commandDeref rfl rfl rfl fun r => by cases r <;> trivial)
      fun redis_num => ?_
    split
    · trivial
    · split
      · trivial
      · exact .bind (uses_rebuildRanking inside_cacheInit inside_crash rfl
          (fun _ => inside_redis _) (fun _ _ => inside_redis _) fun _ _ => inside_redis _)
          fun _ => trivial
  · trivial

theorem handleGetRankingFilelist_gets (start count : Int) :
    Gets [.inl .filehubSlave, .inr .rankingList, .inl .filehubSlave]
      (handleGetRankingFilelist start count) := by
  refine (gets_getDBConn .filehubSlave).bind fun conn => ?_
  refine (gets_getCacheConn .rankingList).bind fun cache => ?_
  refine (syncRanking_gets conn cache).bind fun synced => gets_nil ?_
  cases synced with
  | none => trivial
  | some sql_num =>
      exact .bind (uses_readRanking inside_cacheInit inside_crash (fun _ => inside_redis _)
        (fun _ => inside_redis _) (fun _ _ => inside_redis _) start count)
        fun files => by cases files <;> trivial

/-! ## They are those of the workers' model -/

def PoolName.toSum : PoolName → DbPool ⊕ CachePool
  | .filehub_slave => .inl .filehubSlave
  | .ranking_list => .inr .rankingList

/-- The pools a handler takes connections of, in order. -/
def Job.pools (job : Job) : List (DbPool ⊕ CachePool) :=
  job.ops.filterMap fun
    | .get pool => some pool.toSum
    | .rel => none

theorem getShareFilelist_pools (start count : Int) :
    Gets Job.getShareFilelist.pools (handleGetShareFilelist start count) :=
  handleGetShareFilelist_gets start count

theorem getRankingFilelist_pools (start count : Int) :
    Gets Job.getRankingFilelist.pools (handleGetRankingFilelist start count) :=
  handleGetRankingFilelist_gets start count

end FileHub
