import FileHub.Api.Server
import FileHub.Proofs.Scripts
import FileHub.Proofs.Tokens

/-!
# The token a login answers with

A login that found the password right asks Redis to store its token and answers
with it, whatever `SetEx` came back with: no connection, an error, no reply. So
the token is worth something exactly if the command was executed, and executed
on the whole name, which reaches it as a C string.
-/

namespace FileHub

open Lib
open Prog (after Along along_ask along_bind)
open TokenEvent (cStr_uuidUnparse)

/-- The store maps the token to the user, and the check says so. -/
structure Works (w : World) (user token : Bytes) : Prop where
  stored : w.redis token = some (.str user)
  verified : ∀ ω, NoFail ω → (runIn ω (verifyToken user token) w).res = some 0

/-! ## The check -/

variable {w w' : World} {user token : Bytes}

theorem verifyToken_stored (hstored : w.redis token = some (.str user))
    (htoken : cStr token = token) {ω : ℕ → Ans} (hω : NoFail ω) :
    (runIn ω (verifyToken user token) w).res = some 0 := by
  have hensures : Ensures (fun _ => False) (fun r _ => r = 0) (verifyToken user token) w := by
    rw [verifyToken, ensures_bind, ensures_getCacheConn, if_pos rfl, ensures_bind, CacheConn.get,
      ensures_commandOr, World.reply]
    simp only [RedisCmd.format, Redis.exec, htoken, hstored, if_true]
    exact rfl
  obtain ⟨r, hres, rfl⟩ := Prog.Wp.returns hensures hω
  exact hres

theorem works_iff (htoken : cStr token = token) :
    Works w user token ↔ w.redis token = some (.str user) :=
  ⟨fun h => h.stored, fun h => ⟨h, fun _ hω => verifyToken_stored h htoken hω⟩⟩

/-! ## The login -/

/-- A call that is not for MySQL or FastDFS. -/
def Call.Elsewhere : Call → Prop
  | .select _ | .dml _ | .fdfsUpload _ | .fdfsDelete _ => False
  | _ => True

/-- What goes elsewhere runs alike on every MySQL. -/
theorem along_elsewhere (server : SqlServer) {α : Type} {p : Handler α} {ω : ℕ → Ans}
    {Q : α → World → (ℕ → Ans) → Prop} (hp : p.Uses Call.Elsewhere) :
    Along server.step Q p ω w ↔ Along step Q p ω w := by
  induction p generalizing ω w with
  | ret a => rfl
  | call c k ih =>
      have hstep : server.step c = step c := by
        cases c with
        | select | dml | fdfsUpload | fdfsDelete => exact hp.1.elim
        | _ => rfl
      rw [Prog.along_call, Prog.along_call, hstep]
      exact forall₃_congr fun r s' _ => ih r (hp.2 r)

/-- The token printed from the uuid that is drawn. -/
def drawnToken (drawn : Ans) : Bytes := uuidUnparse fun i : Fin 16 => drawn.text.getD i 0

theorem cStr_drawnToken (drawn : Ans) : cStr (drawnToken drawn) = drawnToken drawn :=
  cStr_uuidUnparse _

/-- What a login leaves in Redis, `Ran` telling whether `SETEX` was executed. -/
structure LoggedIn (w : World) (user token : Bytes) (ω : ℕ → Ans) (w' : World) : Prop where
  executed : Ran ω → w'.redis token = some (.str (cStr user))
  not_executed : ¬Ran ω → w'.redis = w.redis

theorem setToken_along (user : Bytes) (ω : ℕ → Ans) :
    Along step (fun x w' _ => ¬x.1 < 0 →
        x.2 = drawnToken (ω 1) ∧ LoggedIn w user (drawnToken (ω 1)) (after 2 ω) w')
      (setToken user) ω w := by
  rw [setToken, along_bind]
  refine along_getCacheConn ?_
  rw [generateUUID, bind_assoc, along_bind]
  refine (along_ask Call.uuid _).mpr fun uuid w' hs => ?_
  cases hs
  simp only [Prog.pure_eq, Prog.ret_bind]
  have hdrawn : uuidUnparse (fun i : Fin 16 => (after 1 ω 0).text.getD i 0) = drawnToken (ω 1) :=
    rfl
  have htoken := cStr_drawnToken (ω 1)
  rw [hdrawn]
  generalize drawnToken (ω 1) = token at htoken ⊢
  by_cases hlive : (ω 0).ok
  · rw [decide_eq_true hlive, if_pos rfl, along_bind]
    refine along_commandOr_effect.mono fun _ w' _ h _ => ?_
    refine ⟨rfl, fun hran => ?_, fun hran => ?_⟩
    · have hst := h.st
      rw [Prog.after_after, if_pos hran] at hst
      rw [hst]
      simp only [World.cmd, RedisCmd.format, Redis.exec, htoken, Function.update_self]
    · have hst := h.st
      rw [Prog.after_after, if_neg hran] at hst
      rw [hst]
  · rw [decide_eq_false hlive, if_neg Bool.false_ne_true]
    exact fun h => absurd (show (-1 : Int) < 0 by decide) h

theorem setToken_elsewhere (user : Bytes) : (setToken user).Uses Call.Elsewhere := by
  refine .bind (uses_getCacheConn trivial) fun cache => ?_
  refine .bind (.bind (uses_ask trivial) fun _ => trivial) fun token => ?_
  split
  · exact .bind (uses_commandOr trivial trivial trivial) fun _ => trivial
  · trivial

/-- The lookup of the password: two calls, whatever MySQL makes of its text. -/
theorem verifyUserPassword_along (server : SqlServer) (user pwd : Bytes) (ω : ℕ → Ans) :
    Along server.step (fun _ w' ω' => w' = w ∧ ω' = after 2 ω) (verifyUserPassword user pwd)
      ω w := by
  rw [verifyUserPassword, along_bind, getDBConn, along_bind]
  refine (along_ask (Call.getDBConn _) _).mpr fun live w' hs => ?_
  cases hs
  refine (Prog.along_ret ..).mpr ?_
  rw [along_bind, CDBConn.executeQuery]
  split
  · refine (along_ask (Call.select _) _).mpr fun rows w' hs => ?_
    cases hs
    split <;> exact ⟨rfl, rfl⟩
  · exact trivial

/-- A login that answers with a token. -/
theorem apiUserLogin_along (server : SqlServer) {parse : Bytes → Option JsonValue}
    {post_data pwd : Bytes} (hreq : parsed parse post_data decodeLoginJson = .ok (user, pwd))
    (ω : ℕ → Ans) :
    Along server.step (fun x w' _ => x.1 = 0 → x.2 = encodeLoginJson 0 (drawnToken (ω 3)) ∧
        LoggedIn w user (drawnToken (ω 3)) (after 4 ω) w')
      (apiUserLogin parse post_data) ω w := by
  rw [apiUserLogin]
  split
  · exact fun h => absurd h (by decide)
  rw [hreq, decoded, along_bind]
  refine (verifyUserPassword_along server user pwd ω).mono fun verified w' ω' h => ?_
  obtain ⟨rfl, rfl⟩ := h
  split
  · exact fun h => absurd h (by decide)
  rw [along_bind, along_elsewhere server (setToken_elsewhere user)]
  refine (setToken_along user (after 2 ω)).mono fun x w'' ω' h => ?_
  obtain ⟨set, token⟩ := x
  dsimp only
  split
  · exact fun h => absurd h (by decide)
  · next hset =>
      obtain ⟨htoken, hlogin⟩ := h hset
      exact fun _ => ⟨congrArg (encodeLoginJson 0) htoken, hlogin⟩

/-! ## The token it answers with -/

theorem encodeLoginJson_inj {token token' : Bytes}
    (h : encodeLoginJson 0 token = encodeLoginJson 0 token') : token = token' := by
  simpa [encodeLoginJson] using h

/-- The token of a login works exactly if its fifth and sixth calls go well, the
`Init` of the connection and the `SETEX`, and the name has no NUL, or the store
mapped the token of the uuid it draws to the user before. -/
theorem token_works_iff (server : SqlServer) {parse : Bytes → Option JsonValue}
    {post_data pwd : Bytes}
    (hreq : parsed parse post_data decodeLoginJson = .ok (user, pwd)) {ω : ℕ → Ans}
    (hres : (server.runIn ω (apiUserLogin parse post_data) w).res =
      some (0, encodeLoginJson 0 token)) :
    Works (server.runIn ω (apiUserLogin parse post_data) w).st user token ↔
      if (ω 4).ok ∧ (ω 5).executed then 0 ∉ user
      else w.redis (drawnToken (ω 3)) = some (.str user) := by
  obtain ⟨htoken, hlogin⟩ := (apiUserLogin_along server hreq ω).returned hres rfl
  have hran : Ran (after 4 ω) ↔ (ω 4).ok ∧ (ω 5).executed := Iff.rfl
  rw [encodeLoginJson_inj htoken, works_iff (cStr_drawnToken (ω 3))]
  split
  · next hgood =>
    rw [hlogin.executed (hran.mpr hgood), Option.some_inj, RedisVal.str.injEq]
    exact ⟨fun h h0 => cStr_nonzero user 0 (h.symm ▸ h0) rfl,
      fun h => cStr_of_forall fun b hb h0 => h (h0 ▸ hb)⟩
  · next hgood => rw [hlogin.not_executed (hran.not.mpr hgood)]

/-! A login of a registered user, with Redis and without. -/

namespace LoginToken

def registered : World :=
  { World.empty with
    db := { Db.empty with userInfo := [⟨ascii "u", ascii "n", ascii "p", [], [], []⟩] } }

def parse (_ : Bytes) : Option JsonValue :=
  some (.object [(ascii "user", .str (ascii "u")), (ascii "pwd", .str (ascii "p"))])

def login : Handler (Int × JsonValue) := apiUserLogin parse (ascii "body")

def tokenOf : JsonValue → Option Bytes
  | .object [_, (_, .str token)] => some token
  | _ => none

theorem decoded_request :
    parsed parse (ascii "body") decodeLoginJson = .ok (ascii "u", ascii "p") := by
  rfl

/-- The answer from what can be computed of it. -/
theorem login_answer {ω : ℕ → Ans} {token : Bytes}
    (h : (SqlServer.strict.runIn ω login registered).res.map (fun x => (x.1, tokenOf x.2)) =
      some (0, some token)) :
    (SqlServer.strict.runIn ω login registered).res = some (0, encodeLoginJson 0 token) := by
  obtain ⟨⟨ret, answer⟩, hres, hx⟩ := Option.map_eq_some_iff.mp h
  obtain ⟨rfl, htoken⟩ := Prod.mk.inj hx
  obtain ⟨rfl, -⟩ := (apiUserLogin_along _ decoded_request ω).returned hres rfl
  rw [hres, show drawnToken (ω 3) = token from Option.some.inj htoken]

/-- The token is stored. -/
theorem stored_works :
    Works (SqlServer.strict.runIn allSucceed login registered).st (ascii "u")
      TokenEvent.zeroToken := by
  have hres := login_answer (ω := allSucceed)
    (show _ = some (0, some TokenEvent.zeroToken) by decide)
  refine (token_works_iff _ decoded_request hres).mpr ?_
  rw [if_pos (by decide)]
  decide

/-- `SETEX` fails, and the login answers with its token all the same. -/
theorem lost_notWorks :
    (SqlServer.strict.runIn (failingAt [] [5]) login registered).res =
        some (0, encodeLoginJson 0 TokenEvent.zeroToken) ∧
      ¬Works (SqlServer.strict.runIn (failingAt [] [5]) login registered).st (ascii "u")
        TokenEvent.zeroToken := by
  refine ⟨login_answer (by decide), fun h => ?_⟩
  have hnone : ((SqlServer.strict.runIn (failingAt [] [5]) login registered).st.redis
      TokenEvent.zeroToken).isNone := by
    decide
  rw [h.stored] at hnone
  cases hnone

end LoginToken

end FileHub
