import FileHub.Api.Requests
import FileHub.Lib.Answers

/-!
# Handlers under arbitrary outcomes

A handler is run with the outcome of each of its calls given: any answer to any
call, so every state of the stores, every interference and every pattern of
failures at once. `Under E Q p log`: with `log` asked and answered so far, every
run of `p` ends in `Q`, or crashes with a log that satisfies `E`. There is one
rule for each wrapper, with the connection given or null.
-/

namespace FileHub

open Lib
open Prog (Answer Log answer ask)

def Call.fatal (c : Call) : Prop := c = .crash

instance : DecidablePred Call.fatal := fun c => inferInstanceAs (Decidable (c = .crash))

/-- What the calls of a handler come to, crashes excepted. -/
abbrev Outcomes := Answer Resp Call.fatal

/-- Run a handler with the outcomes of its calls given. -/
abbrev runUnder (ω : ℕ → Outcomes) {α : Type} (p : Handler α) :
    Prog.Outcome (Log Resp) Outcomes α :=
  p.exec answer ω []

/-- Every call that can fail fails, connections apart. -/
def Outcomes.failing : Outcomes
  | .getDBConn _, _ | .getCacheConn _, _ => true
  | .select _, _ => none
  | .dml _, _ => none
  | .redis _, _ => none
  | .fdfsUpload _, _ => none
  | .stmtInit, _ | .cacheInit, _ | .tryLockFor _, _ | .rename .., _ | .unlink _, _
  | .fdfsFileInfo _, _ | .fdfsDelete _, _ => false
  | .unlock, _ => ()
  | .time, _ => 0
  | .localtime, _ => []
  | .uuid, _ => fun _ => 0
  | .rand, _ => 0
  | .crash, h => absurd rfl h

/-- What a handler returns in the world, it returns under some outcomes. -/
theorem runIn_under {α : Type} {p : Handler α} {ω : ℕ → Ans} {w : World} {a : α}
    (h : (runIn ω p w).res = some a) : ∃ outcomes, (runUnder outcomes p).res = some a := by
  apply Prog.answered _ Outcomes.failing h
  rintro _ a s rfl
  rfl

/-- Run from `log`, the handler returns in `Q` or crashes in `E`. -/
structure Under {α : Type} (E : Log Resp → Prop) (Q : α → Log Resp → Prop) (p : Handler α)
    (log : Log Resp) : Prop where
  wp : p.Wp answer (fun _ : Outcomes => True) E Q log

section Rules

variable {α β : Type} {E : Log Resp → Prop} {log : Log Resp}

theorem under_pure {Q : α → Log Resp → Prop} {a : α} (h : Q a log) :
    Under E Q (pure a) log := ⟨h⟩

theorem under_bind {Q : β → Log Resp → Prop} {p : Handler α} {f : α → Handler β}
    (h : Under E (fun a => Under E Q (f a)) p log) : Under E Q (p >>= f) log :=
  ⟨(Prog.wp_bind Q p f log).mpr (Prog.Wp.mono (fun _ _ h => h.wp) h.wp)⟩

theorem Under.mono {Q R : α → Log Resp → Prop} (hQR : ∀ a l, Q a l → R a l) {p : Handler α}
    (h : Under E Q p log) : Under E R p log :=
  ⟨Prog.Wp.mono hQR h.wp⟩

theorem Under.mono_crash {E' : Log Resp → Prop} (hE : ∀ l, E l → E' l)
    {Q : α → Log Resp → Prop} {p : Handler α} (h : Under E Q p log) : Under E' Q p log :=
  ⟨Prog.Wp.mono_stuck hE h.wp⟩

theorem under_ask (c : Call) {Q : Resp c → Log Resp → Prop} (hc : c ≠ .crash)
    (h : ∀ r, Q r (⟨c, r⟩ :: log)) : Under E Q (ask c) log := by
  have hfatal : ¬ Call.fatal c := hc
  exact ⟨Prog.wp_answer hfatal fun _ _ => h _⟩

theorem under_crash {Q : α → Log Resp → Prop} (h : E log) : Under E Q crash log := by
  have hc : Call.fatal .crash := rfl
  rw [crash]
  exact ⟨Prog.wp_answer_fatal hc h⟩

theorem under_returns {P : α → Prop} {p : Handler α} (h : p.Returns P) :
    Under (fun _ => True) (fun a _ => P a) p log :=
  ⟨h.wp⟩

/-! What holds at the two ends of a run. -/

theorem Under.returned {Q : α → Log Resp → Prop} {p : Handler α} (h : Under E Q p [])
    {ω : ℕ → Outcomes} {a : α} (hres : (runUnder ω p).res = some a) :
    Q a (runUnder ω p).st := by
  have hrun := Prog.Wp.exec h.wp ω fun _ => trivial
  rw [runUnder] at hres ⊢
  match hexec : p.exec answer ω [] with
  | ⟨none, _, _⟩ =>
      rw [hexec] at hres
      cases hres
  | ⟨some b, log, _⟩ =>
      rw [hexec] at hres hrun
      cases hres
      exact hrun

theorem Under.crashed {Q : α → Log Resp → Prop} {p : Handler α} (h : Under E Q p [])
    {ω : ℕ → Outcomes} (hres : (runUnder ω p).res = none) : E (runUnder ω p).st := by
  have hrun := Prog.Wp.exec h.wp ω fun _ => trivial
  rw [runUnder] at hres ⊢
  match hexec : p.exec answer ω [] with
  | ⟨none, log, _⟩ =>
      rw [hexec] at hrun
      exact hrun
  | ⟨some b, _, _⟩ =>
      rw [hexec] at hres
      cases hres

/-! ### The wrappers -/

theorem under_getDBConn {pool : DbPool} {Q : CDBConn → Log Resp → Prop}
    (h : ∀ live : Bool, Q ⟨live⟩ (⟨.getDBConn pool, live⟩ :: log)) :
    Under E Q (getDBConn pool) log :=
  under_bind (under_ask (.getDBConn pool) nofun fun live => under_pure (h live))

theorem under_getCacheConn {pool : CachePool} {Q : CacheConn → Log Resp → Prop}
    (h : ∀ live : Bool, Q ⟨live⟩ (⟨.getCacheConn pool, live⟩ :: log)) :
    Under E Q (getCacheConn pool) log :=
  under_bind (under_ask (.getCacheConn pool) nofun fun live => under_pure (h live))

theorem under_executeQuery {db_conn : CDBConn} {q : Select}
    {Q : Option (List q.Row) → Log Resp → Prop} (hnull : db_conn.live = false → E log)
    (h : db_conn.live = true → ∀ rows, Q rows (⟨.select q, rows⟩ :: log)) :
    Under E Q (db_conn.executeQuery q) log := by
  rw [CDBConn.executeQuery]
  split
  · next hlive => exact under_ask (.select q) nofun (h hlive)
  · next hdead => exact under_crash (hnull (Bool.eq_false_of_not_eq_true hdead))

theorem under_execute {db_conn : CDBConn} {d : Dml} {Q : Bool → Log Resp → Prop}
    (hnull : db_conn.live = false → E log)
    (h : db_conn.live = true → ∀ n : Option ℕ, Q n.isSome (⟨.dml d, n⟩ :: log)) :
    Under E Q (db_conn.execute d) log := by
  rw [CDBConn.execute]
  split
  · next hlive => exact under_bind (under_ask (.dml d) nofun fun n => under_pure (h hlive n))
  · next hdead => exact under_crash (hnull (Bool.eq_false_of_not_eq_true hdead))

theorem under_executeUpdate {db_conn : CDBConn} {d : Dml} {care : Bool}
    {Q : Bool → Log Resp → Prop} (hnull : db_conn.live = false → E log)
    (h : db_conn.live = true → ∀ n : Option ℕ,
      Q (n.any fun n => decide (0 < n) || !care) (⟨.dml d, n⟩ :: log)) :
    Under E Q (db_conn.executeUpdate d care) log := by
  rw [CDBConn.executeUpdate]
  split
  · next hlive =>
      refine under_bind (under_ask (.dml d) nofun fun n => ?_)
      have hn := h hlive n
      cases n with
      | none => exact under_pure hn
      | some n => exact under_pure hn
  · next hdead => exact under_crash (hnull (Bool.eq_false_of_not_eq_true hdead))

theorem under_command {cache_conn : CacheConn} {c : RedisCmd}
    {Q : Option (Option Reply) → Log Resp → Prop} (hnull : cache_conn.live = false → E log)
    (hdown : cache_conn.live = true → Q none (⟨.cacheInit, false⟩ :: log))
    (h : cache_conn.live = true → ∀ reply,
      Q (some reply) (⟨.redis c, reply⟩ :: ⟨.cacheInit, true⟩ :: log)) :
    Under E Q (cache_conn.command c) log := by
  rw [CacheConn.command]
  split
  · next hlive =>
      refine under_bind (under_ask .cacheInit nofun fun up => ?_)
      cases up with
      | false => exact under_pure (hdown hlive)
      | true =>
          exact under_bind (under_ask (.redis c) nofun fun reply => under_pure (h hlive reply))
  · next hdead => exact under_crash (hnull (Bool.eq_false_of_not_eq_true hdead))

theorem under_commandOr {cache_conn : CacheConn} {c : RedisCmd} {down : α}
    {value : Reply → α} {Q : α → Log Resp → Prop} (hnull : cache_conn.live = false → E log)
    (hdown : cache_conn.live = true → Q down (⟨.cacheInit, false⟩ :: log))
    (hlost : cache_conn.live = true → Q down (⟨.redis c, none⟩ :: ⟨.cacheInit, true⟩ :: log))
    (h : cache_conn.live = true → ∀ reply,
      Q (value reply) (⟨.redis c, some reply⟩ :: ⟨.cacheInit, true⟩ :: log)) :
    Under E Q (cache_conn.commandOr c down value) log := by
  refine under_bind
    (under_command hnull (fun hlive => under_pure (hdown hlive)) fun hlive reply => ?_)
  cases reply with
  | none => exact under_pure (hlost hlive)
  | some reply => exact under_pure (h hlive reply)

theorem under_commandDeref {cache_conn : CacheConn} {c : RedisCmd} {down : α}
    {value : Reply → Handler α} {Q : α → Log Resp → Prop}
    (hnull : cache_conn.live = false → E log)
    (hdown : cache_conn.live = true → Q down (⟨.cacheInit, false⟩ :: log))
    (hlost : cache_conn.live = true → E (⟨.redis c, none⟩ :: ⟨.cacheInit, true⟩ :: log))
    (h : cache_conn.live = true → ∀ reply,
      Under E Q (value reply) (⟨.redis c, some reply⟩ :: ⟨.cacheInit, true⟩ :: log)) :
    Under E Q (cache_conn.commandDeref c down value) log := by
  refine under_bind
    (under_command hnull (fun hlive => under_pure (hdown hlive)) fun hlive reply => ?_)
  cases reply with
  | none => exact under_crash (hlost hlive)
  | some reply => exact h hlive reply

end Rules

/-! ## A request whose calls are answered -/

def registrationOfU : JsonValue :=
  .object [(ascii "email", .str (ascii "u@example.com")),
    (ascii "firstPwd", .str (ascii "e10adc3949ba59abbe56e057f20f883e")),
    (ascii "nickName", .str (ascii "nu")), (ascii "userName", .str (ascii "u"))]

def registerU : ApiRequest := ⟨.reg, ascii "/api/reg", ascii "t"⟩

/-- The name is free, and the row is inserted. -/
def registered : Outcomes
  | .getDBConn _, _ | .stmtInit, _ => true
  | .select (.userId _), _ => some []
  | .localtime, _ => ascii "2024-01-01 00:00:00"
  | .dml _, _ => some 1
  | c, h => Outcomes.failing c h

theorem registered_run : (runUnder (fun _ => registered)
    (registerU.handle (fun _ => some registrationOfU) [] [])).res = some (0, some (.code 0)) := by
  rfl

end FileHub
