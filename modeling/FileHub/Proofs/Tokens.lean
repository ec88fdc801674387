import FileHub.Proofs.Effects
import FileHub.Proofs.HandlerCalls
import FileHub.Proofs.RankingKeys

/-!
# What a token proves

A login puts its token into Redis, under a key that is the token's text, with
the user as the value; `VerifyToken` compares the user it is told with what is
there. The key space is shared, and the only other strings in it are the locks
of the shares. So a match is the work of a login, with four exceptions: the
empty user matches whatever `Get` could not read; a lock matches a user whose
name is its time; a token is read up to a NUL; and a user's name is stored up
to one.
-/

namespace FileHub

open Lib
open Prog (ask)

/-- What happens to the tokens: somebody logs in, somebody shares a file, a key
expires. Each request meets its own failures. -/
inductive TokenEvent where
  | login (user : Bytes) (ω : ℕ → Ans)
  | share (user md5 filename : Bytes) (ω : ℕ → Ans)
  | expire (key : Bytes)

namespace TokenEvent

def next (w : World) : TokenEvent → World
  | .login user ω => (runIn ω (setToken user) w).st
  | .share user md5 filename ω => (runIn ω (handleShareFile user md5 filename) w).st
  | .expire key => { w with redis := Function.update w.redis key none }

def after (events : List TokenEvent) (w : World) : World := events.foldl next w

/-- A login of the user answered with the token, which has not expired since. -/
def Issued (w : World) (events : List TokenEvent) (user token : Bytes) : Prop :=
  ∃ before ω later, events = before ++ .login user ω :: later ∧
    (runIn ω (setToken user) (after before w)).res = some (0, token) ∧
    .expire token ∉ later

/-- The user's name holds no NUL. -/
def Named : TokenEvent → Prop
  | .login user _ => ∀ b ∈ user, b ≠ 0
  | .share .. | .expire _ => True

/-! ## Strings in Redis -/

/-- A command that leaves a string at a key found it there or put it there. -/
theorem exec_str {lex : ZSet → Bytes → ℕ} {r : Redis} {c : RedisCmd} {key v : Bytes}
    (h : (r.exec lex c).2 key = some (.str v)) :
    r key = some (.str v) ∨ c = .set key v ∨ ∃ timeout, c = .setex key timeout v := by
  by_cases hkey : key = c.key
  · subst hkey
    cases c with
    | set k v' =>
        have hv : some (RedisVal.str v') = some (.str v) := by
          rw [← h]
          exact (Function.update_self k _ r).symm
        cases hv
        exact .inr (.inl rfl)
    | setex k timeout v' =>
        have hv : some (RedisVal.str v') = some (.str v) := by
          rw [← h]
          exact (Function.update_self k _ r).symm
        cases hv
        exact .inr (.inr ⟨timeout, rfl⟩)
    | del k =>
        have hv : none = some (RedisVal.str v) := by
          rw [← h]
          exact (Function.update_self k _ r).symm
        cases hv
    | get | zlexcount | zcard | zrevrange =>
        simp only [Redis.exec] at h
        split at h <;> exact .inl h
    | zscore | hget =>
        simp only [Redis.exec] at h
        split at h
        · exact .inl h
        · split at h <;> exact .inl h
    | zadd | zrem | zincrby | hset | hdel =>
        simp only [Redis.exec] at h
        split at h
        · exact .inl h
        · simp only [Redis.putZset, Redis.putHash, RedisCmd.key, Function.update_self] at h
          split at h <;> cases h
  · rw [Redis.exec_of_ne lex r hkey] at h
    exact .inl h

/-- A string that a share request puts into Redis is a lock. -/
def IsLock (key v : Bytes) : Prop := ascii "share_lock:" <+: key ∧ ∀ b ∈ v, isDigit b = true

/-- The calls that put no string into Redis but locks. -/
def LocksOnly : Call → Prop
  | .redis (.set key v) | .redis (.setex key _ v) => IsLock (cStr key) (cStr v)
  | _ => True

/-- A string after a call was there before, or the call put it there. -/
theorem step_str {c : Call} {a : Ans} {w w' : World} {r : Resp c}
    (hs : step c a w = some (r, w')) {key v : Bytes} (h : w'.redis key = some (.str v)) :
    w.redis key = some (.str v) ∨ ∃ k u, key = cStr k ∧ v = cStr u ∧
      (c = .redis (.set k u) ∨ ∃ timeout, c = .redis (.setex k timeout u)) := by
  cases c with
  | redis c =>
      have hexec : (w.redis.exec w.lex c.format).2 key = some (.str v) →
          w.redis key = some (.str v) ∨ ∃ k u, key = cStr k ∧ v = cStr u ∧
            (Call.redis c = .redis (.set k u) ∨
              ∃ timeout, Call.redis c = .redis (.setex k timeout u)) := by
        intro h
        rcases exec_str h with h | h | ⟨timeout, h⟩
        · exact .inl h
        · cases c <;> cases h
          exact .inr ⟨_, _, rfl, rfl, .inl rfl⟩
        · cases c <;> cases h
          exact .inr ⟨_, _, rfl, rfl, .inr ⟨timeout, rfl⟩⟩
      simp only [step, redisStep, Option.some.injEq] at hs
      split at hs <;> cases hs <;> first | exact .inl h | exact hexec h
  | dml d =>
      simp only [step] at hs
      split at hs
      · split at hs <;> cases hs <;> exact .inl h
      · cases hs
        exact .inl h
  | tryLockFor =>
      simp only [step] at hs
      split at hs
      · split at hs
        · cases hs
        · cases hs
          exact .inl h
      · cases hs
        exact .inl h
  | fdfsUpload | fdfsDelete =>
      simp only [step] at hs
      split at hs <;> cases hs <;> exact .inl h
  | crash => cases hs
  | _ =>
      cases hs
      exact .inl h

theorem step_locksOnly {c : Call} (hc : LocksOnly c) {a : Ans} {w w' : World} {r : Resp c}
    (hs : step c a w = some (r, w')) {key v : Bytes} (h : w'.redis key = some (.str v)) :
    w.redis key = some (.str v) ∨ IsLock key v := by
  rcases step_str hs h with h | ⟨k, u, rfl, rfl, rfl | ⟨timeout, rfl⟩⟩
  · exact .inl h
  · exact .inr hc
  · exact .inr hc

theorem isLock_shareLock (md5 filename : Bytes) (now : ℕ) :
    IsLock (cStr (shareLockKey (shareFileid md5 filename))) (cStr (decimal now)) := by
  rw [cStr_shareLockKey]
  refine ⟨List.prefix_append _ _, fun b hb => isDigit_decimal now b ?_⟩
  exact (List.takeWhile_sublist _).subset hb

theorem uses_share (user md5 filename : Bytes) :
    (handleShareFile user md5 filename).Uses LocksOnly := by
  refine uses_handleShareFile (fun c hc => ?_) (isLock_shareLock md5 filename)
    (isLock_shareLock md5 filename) trivial trivial trivial trivial fun _ => trivial
  cases c with
  | redis c => cases c <;> trivial
  | _ => trivial

/-! ## What a login leaves -/

theorem hexDigit_ne_zero {n : ℕ} (h : n < 16) : hexDigit n ≠ 0 := by
  interval_cases n <;> decide

theorem cStr_uuidUnparse (uuid : Fin 16 → UInt8) : cStr (uuidUnparse uuid) = uuidUnparse uuid := by
  refine cStr_of_forall fun b hb => ?_
  obtain ⟨i, -, hi⟩ := List.mem_flatMap.mp hb
  rcases List.mem_append.mp hi with hi | hi
  · split at hi
    · rw [List.mem_singleton] at hi
      subst hi
      decide
    · cases hi
  · have hlt : (uuid i).toNat < 256 := (uuid i).toNat_lt
    rw [hexByte, List.mem_cons, List.mem_singleton] at hi
    rcases hi with rfl | rfl
    · exact hexDigit_ne_zero (by omega)
    · exact hexDigit_ne_zero (by omega)

/-- A Redis command under any failure: not sent, refused, lost or answered. -/
theorem wp_commandOr {α : Type} {E : World → Prop} {Q : α → World → Prop} {c : RedisCmd}
    {down : α} {value : Reply → α} {w : World} (hdown : Q down w) (hlost : Q down (w.cmd c))
    (herror : ∀ text, Q (value (.error text)) w) (hok : Q (value (w.reply c)) (w.cmd c)) :
    (CacheConn.commandOr ⟨true⟩ c down value).Wp step (fun _ => True) E Q w := by
  rw [CacheConn.commandOr, CacheConn.command, if_pos rfl]
  simp only [Prog.wp_bind]
  intro up _
  by_cases hup : up.ok
  · show Prog.Wp step _ E _ (if decide up.ok = true then _ else _) w
    rw [if_pos (decide_eq_true hup), Prog.wp_bind]
    intro a _
    show Prog.Wp step _ E _ _ (redisStep c a w).2
    cases ha : a.fault with
    | none =>
        rw [redisStep, ha]
        exact hok
    | fail =>
        rw [redisStep, ha]
        exact hdown
    | lost =>
        rw [redisStep, ha]
        exact hlost
    | error =>
        rw [redisStep, ha]
        exact herror a.text
  · show Prog.Wp step _ E _ (if decide up.ok = true then _ else _) w
    rw [if_neg (by simpa using hup)]
    exact hdown

theorem wp_getCacheConn {E : World → Prop} {Q : CacheConn → World → Prop} {pool : CachePool}
    {w : World} (h : ∀ live, Q ⟨live⟩ w) :
    (getCacheConn pool).Wp step (fun _ => True) E Q w :=
  fun _ _ => h _

theorem wp_generateUUID {E : World → Prop} {Q : Bytes → World → Prop} {w : World}
    (h : ∀ uuid, Q (uuidUnparse uuid) w) : generateUUID.Wp step (fun _ => True) E Q w :=
  fun _ _ => h _

/-- A string after a login was there before or is the user under the token. -/
theorem setToken_strings (user : Bytes) (w : World) :
    (setToken user).Wp step (fun _ => True) (fun _ => False)
      (fun r w' => ∀ key v, w'.redis key = some (.str v) →
        w.redis key = some (.str v) ∨ r.1 = 0 ∧ key = r.2 ∧ v = cStr user) w := by
  rw [setToken, Prog.wp_bind]
  refine wp_getCacheConn fun live => ?_
  rw [Prog.wp_bind]
  refine wp_generateUUID fun uuid => ?_
  cases live with
  | false => exact fun key v h => .inl h
  | true =>
      have hset : ∀ key v,
          (w.cmd (.setex (uuidUnparse uuid) 86400 user)).redis key = some (.str v) →
            w.redis key = some (.str v) ∨
              (0 : Int) = 0 ∧ key = uuidUnparse uuid ∧ v = cStr user := by
        intro key v h
        simp only [World.cmd, RedisCmd.format, cStr_uuidUnparse] at h
        rcases exec_str h with h | h | ⟨timeout, h⟩
        · exact .inl h
        · cases h
        · rw [RedisCmd.setex.injEq] at h
          exact .inr ⟨rfl, h.1.symm, h.2.2.symm⟩
      rw [if_pos rfl, Prog.wp_bind]
      exact wp_commandOr (fun key v h => .inl h) hset (fun _ key v h => .inl h) hset

/-! ## Every history -/

/-- Every string in Redis is the user of a token issued, or a lock. -/
def Explained (w : World) (events : List TokenEvent) : Prop :=
  ∀ key v, (after events w).redis key = some (.str v) →
    (∃ user, Issued w events user key ∧ cStr user = v) ∨ IsLock key v

theorem after_concat (events : List TokenEvent) (e : TokenEvent) (w : World) :
    after (events ++ [e]) w = next (after events w) e :=
  List.foldl_concat ..

/-- What was issued stays issued until it expires. -/
theorem Issued.concat {w : World} {events : List TokenEvent} {user token : Bytes}
    (h : Issued w events user token) {e : TokenEvent} (he : e ≠ .expire token) :
    Issued w (events ++ [e]) user token := by
  obtain ⟨before, ω, later, rfl, hres, hexpire⟩ := h
  refine ⟨before, ω, later ++ [e], by rw [List.append_assoc, List.cons_append], hres, ?_⟩
  rw [List.mem_append, List.mem_singleton, not_or]
  exact ⟨hexpire, he.symm⟩

theorem explained_nil {w : World} (hw : ∀ key, w.redis key = none) : Explained w [] := by
  intro key v h
  rw [after, List.foldl_nil, hw] at h
  cases h

theorem explained_login {w : World} {events : List TokenEvent} (h : Explained w events)
    (user : Bytes) (ω : ℕ → Ans) : Explained w (events ++ [.login user ω]) := by
  intro key v hkey
  rw [after_concat, next] at hkey
  have hrun := (setToken_strings user (after events w)).exec ω fun _ => trivial
  match hexec : Prog.exec step ω (setToken user) (after events w) with
  | ⟨none, _, _⟩ =>
      rw [hexec] at hrun
      exact hrun.elim
  | ⟨some (ret, token), w', _⟩ =>
      rw [hexec] at hrun
      rw [runIn, hexec] at hkey
      rcases hrun key v hkey with hold | ⟨rfl, rfl, rfl⟩
      · rcases h key v hold with ⟨user', hissued, hv⟩ | hlock
        · exact .inl ⟨user', hissued.concat (by simp), hv⟩
        · exact .inr hlock
      · refine .inl ⟨user, ⟨events, ω, [], rfl, ?_, by simp⟩, rfl⟩
        rw [runIn, hexec]

theorem explained_share {w : World} {events : List TokenEvent} (h : Explained w events)
    (user md5 filename : Bytes) (ω : ℕ → Ans) :
    Explained w (events ++ [.share user md5 filename ω]) := by
  intro key v hkey
  rw [after_concat, next] at hkey
  have hkept := (uses_share user md5 filename).exec
    (I := fun w' => ∀ key v, w'.redis key = some (.str v) →
      (after events w).redis key = some (.str v) ∨ IsLock key v)
    (fun c a w' r w'' hc hI (hs : step c a w' = some (r, w'')) key v hkey =>
      (step_locksOnly hc hs hkey).elim (hI key v) .inr) ω (fun _ _ hold => .inl hold)
  rcases hkept key v hkey with hold | hlock
  · rcases h key v hold with ⟨user', hissued, hv⟩ | hlock
    · exact .inl ⟨user', hissued.concat (by simp), hv⟩
    · exact .inr hlock
  · exact .inr hlock

theorem explained_expire {w : World} {events : List TokenEvent} (h : Explained w events)
    (key' : Bytes) : Explained w (events ++ [.expire key']) := by
  intro key v hkey
  rw [after_concat, next] at hkey
  dsimp only at hkey
  by_cases heq : key = key'
  · subst heq
    rw [Function.update_self] at hkey
    cases hkey
  · rw [Function.update_of_ne heq] at hkey
    rcases h key v hkey with ⟨user', hissued, hv⟩ | hlock
    · exact .inl ⟨user', hissued.concat (by simpa using Ne.symm heq), hv⟩
    · exact .inr hlock

theorem explained {w : World} (hw : ∀ key, w.redis key = none) (events : List TokenEvent) :
    Explained w events := by
  induction events using List.reverseRecOn with
  | nil => exact explained_nil hw
  | append_singleton events e ih =>
      cases e with
      | login user ω => exact explained_login ih user ω
      | share user md5 filename ω => exact explained_share ih user md5 filename ω
      | expire key => exact explained_expire ih key

/-! ## The check -/

/-- A user with a name whom the token belongs to is what Redis holds under it. -/
theorem str_of_tokenUser {w : World} {user token : Bytes} (h : w.tokenUser token = user)
    (huser : user ≠ []) : w.redis (cStr token) = some (.str user) := by
  simp only [World.tokenUser, World.reply, RedisCmd.format, Redis.exec] at h
  cases hkey : w.redis (cStr token) with
  | none =>
      rw [hkey] at h
      exact absurd h.symm huser
  | some value =>
      rw [hkey] at h
      cases value with
      | zset | hash => exact absurd h.symm huser
      | str v => exact congrArg (fun v => some (RedisVal.str v)) h

/-- Whatever fails, a user with a name passes the check only with a token of his. -/
theorem verifyToken_reads (user token : Bytes) (w : World) :
    (verifyToken user token).Wp step (fun _ => True) (fun _ => True)
      (fun r _ => r = 0 → user ≠ [] → w.tokenUser token = user) w := by
  have hjudge : ∀ temp w', (temp = [] ∨ temp = w.tokenUser token) →
      Prog.Wp step (fun _ => True) (fun _ => True)
        (fun r _ => r = 0 → user ≠ [] → w.tokenUser token = user)
        (if temp = user then pure 0 else pure (-1) : Handler Int) w' := by
    intro temp w' htemp
    split
    · next h =>
        rcases htemp with rfl | rfl
        · exact fun _ hne => absurd h.symm hne
        · exact fun _ _ => h
    · exact fun h => absurd h (by decide)
  rw [verifyToken, Prog.wp_bind]
  refine wp_getCacheConn fun live => ?_
  cases live with
  | false => exact fun h => absurd h (by decide)
  | true =>
      rw [if_pos rfl, Prog.wp_bind]
      exact wp_commandOr (hjudge _ _ (.inl rfl)) (hjudge _ _ (.inl rfl))
        (fun _ => hjudge _ _ (.inl rfl)) (hjudge _ _ (.inr rfl))

/-- A user with a name who passes the check with a token that holds no NUL and is not a
lock has logged in under that token. -/
theorem verifyToken_issued {w : World} (hw : ∀ key, w.redis key = none)
    {events : List TokenEvent} (hnamed : ∀ e ∈ events, e.Named) {user token : Bytes}
    (huser : user ≠ []) (htoken : ∀ b ∈ token, b ≠ 0) (hlock : ¬IsLock token user)
    {ω : ℕ → Ans} (h : (runIn ω (verifyToken user token) (after events w)).res = some 0) :
    Issued w events user token := by
  have hread := (verifyToken_reads user token (after events w)).exec ω fun _ => trivial
  match hexec : Prog.exec step ω (verifyToken user token) (after events w) with
  | ⟨none, _, _⟩ =>
      rw [runIn, hexec] at h
      cases h
  | ⟨some r, _, _⟩ =>
      rw [runIn, hexec] at h
      rw [hexec] at hread
      cases h
      have hkey := str_of_tokenUser (hread rfl huser) huser
      rw [cStr_of_forall htoken] at hkey
      rcases explained hw events token user hkey with ⟨user', hissued, hcut⟩ | hlocked
      · -- The user's name went through whole.
        obtain ⟨before, ω', later, rfl, -⟩ := id hissued
        have hname : ∀ b ∈ user', b ≠ 0 := hnamed (.login user' ω') (by simp)
        rw [cStr_of_forall hname] at hcut
        exact hcut ▸ hissued
      · exact absurd hlocked hlock

/-- The token made when every call succeeds. -/
def zeroToken : Bytes := ascii "00000000-0000-0000-0000-000000000000"

def loginAndShare : List TokenEvent :=
  [.login (ascii "u") allSucceed, .share (ascii "u") (ascii "m") (ascii "f") allSucceed,
    .expire (ascii "share_lock:mf")]

theorem issued_loginAndShare : Issued .empty loginAndShare (ascii "u") zeroToken := by
  refine verifyToken_issued (ω := allSucceed) (fun _ => rfl) ?_
    (by decide +kernel) (by decide +kernel) ?_ ?_
  · simp only [loginAndShare, List.forall_mem_cons, Named]
    exact ⟨by decide +kernel, trivial, trivial, by simp⟩
  · exact fun h => absurd h.1 (by decide)
  · decide +kernel

/-- The empty user passes the check with any text nobody was given. -/
theorem nobody_verified :
    ¬∀ events user token ω,
      (runIn ω (verifyToken user token) (after events .empty)).res = some 0 →
        Issued .empty events user token := by
  intro hall
  obtain ⟨before, ω, later, hevents, -⟩ :=
    hall [] [] (ascii "x") allSucceed (by decide +kernel)
  cases before <;> cases hevents

end TokenEvent

end FileHub
