import FileHub.Proofs.NoFault
import FileHub.Proofs.Quoting

/-!
# Registering and logging in, down to the SQL text

A registration writes its strings through a prepared statement, so they arrive
as they are. The lookup before it and the lookup of the login splice the name
into the text of a query, and both take a query that fails for one that finds
nothing.

What MySQL does with a text is a parameter. `MySql.Assumed` is all that is known
of it: a text that does not lex fails, and one that is read as a lookup of a
name finds the rows of that name. `textStep` is the environment in which the two
lookups are answered so.
-/

namespace FileHub

open Lib
open Lib.Sql
open Prog (ask)

/-! ## MySQL by its text -/

/-- What MySQL answers to a text about `user_info`. -/
abbrev MySql := Db → Bytes → Option (List UserRow)

/-- The two lookups of a name. -/
def lookups (name : Bytes) : List SqlCmd := [.userId name, .password name]

structure MySql.Assumed (mysql : MySql) : Prop where
  refuses : ∀ db text, tokens text = none → mysql db text = none
  finds : ∀ db text name, ∀ cmd ∈ lookups name, tokens text = some (meant cmd.template) →
    mysql db text = some (db.userInfo.filter fun r => r.userName = name)

/-- `step` with the lookups of a name answered by their text. -/
def textStep (mysql : MySql) (c : Call) (a : Ans) (w : World) : Option (Resp c × World) :=
  match c with
  | .select (.userId name) =>
      some (if a.ok then mysql w.db (SqlCmd.userId name).text else none, w)
  | .select (.password name) =>
      some (if a.ok then (mysql w.db (SqlCmd.password name).text).map fun rows =>
        rows.map UserRow.password else none, w)
  | c => step c a w

/-- The name in the tokens of a lookup. -/
def nameIn (ts : List Token) : Option Bytes :=
  match ts.getLast? with
  | some (.str name) => if ∃ cmd ∈ lookups name, ts = meant cmd.template then some name else none
  | _ => none

/-- A MySQL that answers `other` where nothing is known. -/
def sampleMySql (other : Option (List UserRow)) : MySql := fun db text =>
  match tokens text with
  | none => none
  | some ts =>
      match nameIn ts with
      | some name => some (db.userInfo.filter fun r => r.userName = name)
      | none => other

theorem nameIn_meant {name : Bytes} {cmd : SqlCmd} (h : cmd ∈ lookups name) :
    nameIn (meant cmd.template) = some name := by
  have hlast : (meant cmd.template).getLast? = some (.str name) := by
    rcases List.mem_cons.mp h with rfl | h
    · exact List.getLast?_concat
    · rw [List.mem_singleton.mp h]
      exact List.getLast?_concat
  rw [nameIn, hlast]
  exact if_pos ⟨cmd, h, rfl⟩

theorem nameIn_eq_some {name : Bytes} {ts : List Token} :
    nameIn ts = some name ↔ ∃ cmd ∈ lookups name, ts = meant cmd.template := by
  constructor
  · intro h
    rw [nameIn] at h
    split at h
    · split at h
      · next hcmd =>
        rw [← Option.some.inj h]
        exact hcmd
      · cases h
    · cases h
  · rintro ⟨cmd, hcmd, rfl⟩
    exact nameIn_meant hcmd

theorem sampleMySql_assumed (other : Option (List UserRow)) : (sampleMySql other).Assumed where
  refuses db text h := by rw [sampleMySql, h]
  finds db text name cmd hcmd h := by
    rw [sampleMySql, h]
    dsimp only
    rw [nameIn_meant hcmd]

/-! ## One registration -/

/-- The lookup is answered and has a row. -/
def Found (mysql : MySql) (name : Bytes) (ω : ℕ → Ans) (w : World) : Prop :=
  (ω 1).ok ∧ ∃ row rows, mysql w.db (SqlCmd.userId name).text = some (row :: rows)

/-- No row has the name or the nick name. -/
def Free (req : RegisterRequest) (db : Db) : Prop :=
  ¬∃ row ∈ db.userInfo, row.userName = req.user_name ∨ row.nickName = req.nick_name

instance (req : RegisterRequest) (db : Db) : Decidable (Free req db) :=
  inferInstanceAs (Decidable (¬_))

def newUser (req : RegisterRequest) (create_time : Bytes) : UserRow :=
  ⟨req.user_name, req.nick_name, req.pwd, req.phone, req.email, create_time⟩

def addUser (w : World) (row : UserRow) : World :=
  { w with db := { w.db with userInfo := w.db.userInfo ++ [row] } }

/-- The ways `registerUser` ends, by its calls: the connection, the lookup, the
time, the preparation and the execution. -/
inductive Registration (mysql : MySql) (req : RegisterRequest) (ω : ℕ → Ans) (w : World) :
    Int → World → Prop where
  | unconnected (h0 : ¬(ω 0).ok) : Registration mysql req ω w 1 w
  | taken (h0 : (ω 0).ok) (hfound : Found mysql req.user_name ω w) : Registration mysql req ω w 2 w
  | unprepared (h0 : (ω 0).ok) (hfound : ¬Found mysql req.user_name ω w) (h3 : ¬(ω 3).ok) :
      Registration mysql req ω w 0 w
  | inserted (h0 : (ω 0).ok) (hfound : ¬Found mysql req.user_name ω w) (h3 : (ω 3).ok)
      (h4 : (ω 4).ok) (hfree : Free req w.db) :
      Registration mysql req ω w 0 (addUser w (newUser req (ω 2).text))
  | refused (h0 : (ω 0).ok) (hfound : ¬Found mysql req.user_name ω w) (h3 : (ω 3).ok)
      (h4 : (ω 4).ok → ¬Free req w.db) : Registration mysql req ω w 1 w

section

variable {mysql : MySql} {req : RegisterRequest} {ω : ℕ → Ans} {w : World}

/-- The part behind a lookup without a row. -/
def insertRegistered (db_conn : CDBConn) (req : RegisterRequest) : Handler Int := do
  let create_time : Bytes ← ask Call.localtime
  let prepared ← db_conn.prepare
  if prepared then
    let inserted ← CDBConn.executeStmt (.insertUser (newUser req create_time))
    return if inserted then 0 else 1
  else
    return 0

theorem textStep_insertUser (a : Ans) (time : Bytes) :
    textStep mysql (.dml (.insertUser (newUser req time))) a w =
      if a.ok ∧ Free req w.db then some (some 1, addUser w (newUser req time))
      else some (none, w) := by
  have hstep : textStep mysql (.dml (.insertUser (newUser req time))) a w =
      step (.dml (.insertUser (newUser req time))) a w := rfl
  rw [hstep, step]
  by_cases hfree : Free req w.db
  · have hexec : (Dml.insertUser (newUser req time)).format.exec w.db =
        some (1, { w.db with userInfo := w.db.userInfo ++ [newUser req time] }) := if_neg hfree
    rw [hexec]
    by_cases ha : a.ok
    · rw [if_pos ha, if_pos ⟨ha, hfree⟩]
      rfl
    · rw [if_neg ha, if_neg fun h => ha h.1]
  · have hexec : (Dml.insertUser (newUser req time)).format.exec w.db = none :=
      if_pos (not_not.mp hfree)
    rw [hexec, if_neg fun h : a.ok ∧ Free req w.db => hfree h.2, ite_self]

theorem insertRegistered_run (h0 : (ω 0).ok) (hfound : ¬Found mysql req.user_name ω w) :
    ∃ ret w' rest, Prog.exec (textStep mysql) (fun n => ω (n + 2)) (insertRegistered ⟨true⟩ req) w =
      ⟨some ret, w', rest⟩ ∧ Registration mysql req ω w ret w' := by
  rw [insertRegistered, Prog.ask_bind, Prog.exec_call_some rfl, CDBConn.prepare, if_pos rfl,
    Prog.ask_bind, Prog.exec_call_some rfl]
  by_cases h3 : (ω 3).ok
  · rw [if_pos (decide_eq_true h3), CDBConn.executeStmt, bind_assoc, Prog.ask_bind]
    by_cases h4 : (ω 4).ok ∧ Free req w.db
    · obtain ⟨h4, hfree⟩ := h4
      have hstep : textStep mysql (.dml (.insertUser (newUser req (ω 2).text))) (ω 4) w =
          some (some 1, addUser w (newUser req (ω 2).text)) := by
        rw [textStep_insertUser, if_pos ⟨h4, hfree⟩]
      rw [Prog.exec_call_some hstep]
      exact ⟨_, _, _, rfl, .inserted h0 hfound h3 h4 hfree⟩
    · have hstep : textStep mysql (.dml (.insertUser (newUser req (ω 2).text))) (ω 4) w =
          some (none, w) := by
        rw [textStep_insertUser]
        split
        · next h => exact absurd h h4
        · rfl
      rw [Prog.exec_call_some hstep]
      exact ⟨_, _, _, rfl, .refused h0 hfound h3 fun hok hfree => h4 ⟨hok, hfree⟩⟩
  · rw [if_neg (by simpa using h3)]
    exact ⟨_, _, _, rfl, .unprepared h0 hfound h3⟩

theorem registerUser_run (mysql : MySql) (req : RegisterRequest) (ω : ℕ → Ans) (w : World) :
    ∃ ret w' rest, Prog.exec (textStep mysql) ω (registerUser req) w = ⟨some ret, w', rest⟩ ∧
      Registration mysql req ω w ret w' := by
  rw [registerUser, getDBConn, bind_assoc, Prog.ask_bind, Prog.exec_call_some rfl]
  simp only [Prog.pure_eq, Prog.ret_bind]
  by_cases h0 : (ω 0).ok
  · rw [decide_eq_true h0, if_pos rfl, CDBConn.executeQuery, if_pos rfl, Prog.ask_bind]
    have hstep : textStep mysql (.select (.userId req.user_name)) (ω 1) w =
        some (if (ω 1).ok then mysql w.db (SqlCmd.userId req.user_name).text else none, w) := rfl
    rw [Prog.exec_call_some hstep]
    by_cases hfound : Found mysql req.user_name ω w
    · obtain ⟨h1, row, rows, hrows⟩ := id hfound
      rw [if_pos h1, hrows]
      exact ⟨_, _, _, rfl, .taken h0 hfound⟩
    · have hrows : (if (ω 1).ok then mysql w.db (SqlCmd.userId req.user_name).text else none) =
            none ∨
          (if (ω 1).ok then mysql w.db (SqlCmd.userId req.user_name).text else none) =
            some [] := by
        split
        · next h1 =>
          rcases hq : mysql w.db (SqlCmd.userId req.user_name).text with _ | _ | ⟨row, rows⟩
          · exact .inl rfl
          · exact .inr rfl
          · exact absurd ⟨h1, row, rows, hq⟩ hfound
        · exact .inl rfl
      obtain hrows | hrows := hrows <;> rw [hrows] <;> exact insertRegistered_run h0 hfound
  · rw [decide_eq_false h0]
    exact ⟨_, _, _, rfl, .unconnected h0⟩

/-! ## What the result says of the table -/

/-- A row has the name. -/
def Named (name : Bytes) (db : Db) : Prop := ∃ row ∈ db.userInfo, row.userName = name

/-- The result `ret` tells what became of the table. -/
structure ResultExact (req : RegisterRequest) (db : Db) (ret : Int) (db' : Db) : Prop where
  inserted : ret = 0 ↔ ∃ create_time, db'.userInfo = db.userInfo ++ [newUser req create_time]
  taken : ret = 2 → Named req.user_name db
  unchanged : ret ≠ 0 → db'.userInfo = db.userInfo

/-- A registration returns, and its result is exact. -/
def RegistersExactly (mysql : MySql) (req : RegisterRequest) (ω : ℕ → Ans) (w : World) : Prop :=
  ∃ ret, (Prog.exec (textStep mysql) ω (registerUser req) w).res = some ret ∧
    ResultExact req w.db ret (Prog.exec (textStep mysql) ω (registerUser req) w).st.db

theorem not_inserted {req : RegisterRequest} {db : Db} :
    ¬∃ create_time, db.userInfo = db.userInfo ++ [newUser req create_time] := by
  intro ⟨create_time, h⟩
  have hlen := congrArg List.length h
  rw [List.length_append, List.length_singleton] at hlen
  omega

theorem ResultExact.of_unchanged {db : Db} {ret : Int} (hret : ret ≠ 0)
    (htaken : ret = 2 → Named req.user_name db) : ResultExact req db ret db where
  inserted := iff_of_false hret not_inserted
  taken := htaken
  unchanged _ := rfl

/-- The result is exact unless the lookup is answered with a row where no row
has the name, or finds none and the statement is not prepared. -/
theorem registersExactly_iff (mysql : MySql) (req : RegisterRequest) (ω : ℕ → Ans) (w : World) :
    RegistersExactly mysql req ω w ↔
      ((ω 0).ok → (Found mysql req.user_name ω w → Named req.user_name w.db) ∧
        (¬Found mysql req.user_name ω w → (ω 3).ok)) := by
  obtain ⟨ret, w', rest, hrun, hreg⟩ := registerUser_run mysql req ω w
  have hexact : RegistersExactly mysql req ω w ↔ ResultExact req w.db ret w'.db := by
    rw [RegistersExactly, hrun]
    constructor
    · intro ⟨ret', hret, h⟩
      cases hret
      exact h
    · intro h
      exact ⟨ret, rfl, h⟩
  rw [hexact]
  cases hreg with
  | unconnected h0 =>
      refine iff_of_true (.of_unchanged (by decide) fun h => absurd h (by decide)) fun h => ?_
      exact absurd h h0
  | taken h0 hfound =>
      constructor
      · intro h _
        exact ⟨fun _ => h.taken rfl, fun hnot => absurd hfound hnot⟩
      · intro h
        exact .of_unchanged (by decide) fun _ => (h h0).1 hfound
  | unprepared h0 hfound h3 =>
      constructor
      · intro h
        exact absurd (h.inserted.mp rfl) not_inserted
      · intro h
        exact absurd ((h h0).2 hfound) h3
  | inserted h0 hfound h3 =>
      refine iff_of_true ⟨iff_of_true rfl ⟨_, rfl⟩, fun h => absurd h (by decide),
        fun h => absurd rfl h⟩ fun _ => ?_
      exact ⟨fun h => absurd h hfound, fun _ => h3⟩
  | refused h0 hfound h3 =>
      refine iff_of_true (.of_unchanged (by decide) fun h => absurd h (by decide)) fun _ => ?_
      exact ⟨fun h => absurd h hfound, fun _ => h3⟩

end

namespace Registration

def sampleRequest (user_name : Bytes) : RegisterRequest :=
  ⟨user_name, ascii "n", ascii "p", [], []⟩

/-- On an empty table the statement is not prepared: the result is 0, and no
row is there. -/
theorem unprepared_notExact : ∃ mysql : MySql, mysql.Assumed ∧
    ¬RegistersExactly mysql (sampleRequest (ascii "u")) (failingAt [] [3]) .empty := by
  refine ⟨sampleMySql none, sampleMySql_assumed none, fun ⟨ret, hres, hexact⟩ => ?_⟩
  have hzero : (Prog.exec (textStep (sampleMySql none)) (failingAt [] [3])
      (registerUser (sampleRequest (ascii "u"))) .empty).res = some 0 := by
    decide +kernel
  have hrows : (Prog.exec (textStep (sampleMySql none)) (failingAt [] [3])
      (registerUser (sampleRequest (ascii "u"))) .empty).st.db.userInfo = [] := by
    decide +kernel
  rw [hzero] at hres
  cases hres
  obtain ⟨time, hinserted⟩ := hexact.inserted.mp rfl
  rw [hrows] at hinserted
  cases hinserted

end Registration

/-! ## Logging in -/

/-- What `ApiRegisterUser` does to a request's body. -/
def registering (mysql : MySql) (parse : Bytes → Option JsonValue) (ω : ℕ → Ans)
    (post_data : Bytes) (w : World) : Prog.Outcome World Ans (Int × Option JsonValue) :=
  Prog.exec (textStep mysql) ω (apiRegisterUser parse post_data) w

/-- A body and the choices of the calls it makes. -/
abbrev Attempt := Bytes × (ℕ → Ans)

/-- The body does not register the name. -/
def OfOther (parse : Bytes → Option JsonValue) (name post_data : Bytes) : Prop :=
  ∀ req, parsed parse post_data decodeRegisterJson = .ok req → req.user_name ≠ name

def registerAll (mysql : MySql) (parse : Bytes → Option JsonValue) (later : List Attempt)
    (w : World) : World :=
  later.foldl (fun w x => (registering mysql parse x.2 x.1 w).st) w

def RegisterRequest.NulFree (req : RegisterRequest) : Prop :=
  ∀ s ∈ [req.user_name, req.nick_name, req.pwd, req.phone, req.email], 0 ∉ s

/-- Who is told that he is registered under the name, by calls that go as `ω`
says, logs in with his password and no other, whoever registers after him. -/
def LogsIn (mysql : MySql) (name : Bytes) (ω : ℕ → Ans) : Prop :=
  ∀ (parse : Bytes → Option JsonValue) (post_data : Bytes) (req : RegisterRequest) (w : World),
    parsed parse post_data decodeRegisterJson = .ok req → req.user_name = name → req.NulFree →
    (registering mysql parse ω post_data w).res = some (0, some (.code 0)) →
    ∀ later : List Attempt, (∀ x ∈ later, OfOther parse name x.1) →
    ∀ ω' : ℕ → Ans, NoFail ω' → ∀ pwd : Bytes,
      (Prog.exec (textStep mysql) ω' (verifyUserPassword name pwd)
        (registerAll mysql parse later (registering mysql parse ω post_data w).st)).res =
          some (if pwd = req.pwd then 0 else -1)

section

variable {mysql : MySql} {parse : Bytes → Option JsonValue} {req : RegisterRequest}
  {post_data name : Bytes} {w : World}

theorem registering_run (mysql : MySql) (w : World)
    (hreq : parsed parse post_data decodeRegisterJson = .ok req)
    (hbody : post_data ≠ []) (ω : ℕ → Ans) :
    ∃ ret w' rest, registering mysql parse ω post_data w = ⟨some (0, some (.code ret)), w', rest⟩ ∧
      Registration mysql req ω w ret w' := by
  obtain ⟨ret, w', rest, hrun, hreg⟩ := registerUser_run mysql req ω w
  refine ⟨ret, w', rest, ?_, hreg⟩
  rw [registering, apiRegisterUser, if_neg hbody, hreq, decoded, Prog.exec_bind, hrun]
  rfl

/-- The one row with the name has the password. -/
def Holds (name pwd : Bytes) (w : World) : Prop :=
  ∃ row, (w.db.userInfo.filter fun r => r.userName = name) = [row] ∧ row.password = pwd

theorem Registration.holds {ω : ℕ → Ans} {ret : Int} {w' : World} {pwd : Bytes}
    (h : Registration mysql req ω w ret w') (hother : req.user_name ≠ name)
    (hw : Holds name pwd w) : Holds name pwd w' := by
  cases h with
  | unconnected | taken | unprepared | refused => exact hw
  | inserted =>
      obtain ⟨row, hrow, hpwd⟩ := hw
      refine ⟨row, ?_, hpwd⟩
      rw [addUser, List.filter_append, hrow, newUser]
      simp [hother]

theorem registering_holds {pwd : Bytes} (hother : OfOther parse name post_data) (ω : ℕ → Ans)
    (hw : Holds name pwd w) : Holds name pwd (registering mysql parse ω post_data w).st := by
  by_cases hbody : post_data = []
  · rw [registering, apiRegisterUser, if_pos hbody]
    exact hw
  · cases hreq : parsed parse post_data decodeRegisterJson with
    | ok req =>
        obtain ⟨ret, w', rest, hrun, hreg⟩ := registering_run mysql w hreq hbody ω
        rw [hrun]
        exact hreg.holds (hother req hreq) hw
    | error e =>
        rw [registering, apiRegisterUser, if_neg hbody, hreq]
        cases e <;> exact hw

theorem registerAll_holds {pwd : Bytes} {later : List Attempt}
    (hother : ∀ x ∈ later, OfOther parse name x.1) (hw : Holds name pwd w) :
    Holds name pwd (registerAll mysql parse later w) := by
  induction later generalizing w with
  | nil => exact hw
  | cons x later ih =>
      refine ih (fun y hy => hother y (List.mem_cons_of_mem _ hy)) ?_
      exact registering_holds (hother x List.mem_cons_self) x.2 hw

/-- A login's answer by the rows MySQL gives it. -/
theorem verifyUserPassword_run {ω : ℕ → Ans} (hω : NoFail ω) (pwd : Bytes) :
    (Prog.exec (textStep mysql) ω (verifyUserPassword name pwd) w).res =
      some (match mysql w.db (SqlCmd.password name).text with
        | none | some [] => -1
        | some (row :: _) => if cStr row.password = pwd then 0 else -1) := by
  rw [verifyUserPassword, getDBConn, bind_assoc, Prog.ask_bind, Prog.exec_call_some rfl]
  simp only [Prog.pure_eq, Prog.ret_bind]
  have hstep : textStep mysql (.select (.password name)) (ω 1) w =
      some ((mysql w.db (SqlCmd.password name).text).map (·.map UserRow.password), w) := by
    rw [textStep, if_pos (hω 1)]
  rw [decide_eq_true (hω 0), CDBConn.executeQuery, if_pos rfl, Prog.ask_bind,
    Prog.exec_call_some hstep]
  rcases mysql w.db (SqlCmd.password name).text with _ | _ | ⟨row, rows⟩
  · rfl
  · rfl
  · rfl

/-- The text of the login's lookup is read as a lookup of the name only if the
name is plain. -/
theorem password_plain {cmd : SqlCmd} (hcmd : cmd ∈ lookups name)
    (h : tokens (SqlCmd.password name).text = some (meant cmd.template)) : Plain name := by
  rcases List.mem_cons.mp hcmd with rfl | hcmd
  · -- the two texts differ within their first eight bytes
    have hquote : quote ∉ ascii "select password from user_info where user_name=" := by
      decide +kernel
    have htokens : tokens (ascii "select password from user_info where user_name=" ++
        print [.quoted name]) = some (meant (SqlCmd.userId name).template) := h
    rw [tokens_bytes hquote] at htokens
    obtain ⟨ts, -, hts⟩ := Option.map_eq_some_iff.mp htokens
    have htake := congrArg (List.take 8) hts
    rw [List.take_append_of_le_length (by decide +kernel)] at htake
    have hmeant : (meant (SqlCmd.userId name).template).take 8 =
        ((ascii "select id from user_info where user_name=").map Token.byte).take 8 :=
      List.take_append_of_le_length (by decide +kernel)
    rw [hmeant] at htake
    exact absurd htake (by decide +kernel)
  · rw [List.mem_singleton.mp hcmd, SqlCmd.tokens_text_iff] at h
    exact h name List.mem_cons_self

theorem holds_logsIn (hmysql : mysql.Assumed) (hplain : Plain name) {pwd : Bytes}
    (hw : Holds name pwd w) (hpwd : 0 ∉ pwd) {ω : ℕ → Ans} (hω : NoFail ω) (given : Bytes) :
    (Prog.exec (textStep mysql) ω (verifyUserPassword name given) w).res =
      some (if given = pwd then 0 else -1) := by
  obtain ⟨row, hrow, rfl⟩ := hw
  have hread : tokens (SqlCmd.password name).text =
      some (meant (SqlCmd.password name).template) := by
    refine (SqlCmd.tokens_text_iff _).mpr fun arg harg => ?_
    rw [List.mem_singleton.mp harg]
    exact hplain
  have hrows := hmysql.finds w.db _ name _ (List.mem_cons_of_mem _ List.mem_cons_self) hread
  rw [verifyUserPassword_run hω, hrows, hrow]
  simp only [cStr_of_forall fun b hb h0 => hpwd (h0 ▸ hb), eq_comm]

/-! ### A registration that fails its user -/

/-- A body, as it is parsed, for every request. -/
def RegisterRequest.json (req : RegisterRequest) : JsonValue :=
  .object [(ascii "userName", .str req.user_name), (ascii "nickName", .str req.nick_name),
    (ascii "firstPwd", .str req.pwd), (ascii "phone", .str req.phone),
    (ascii "email", .str req.email)]

theorem decodeRegisterJson_json (req : RegisterRequest) :
    decodeRegisterJson req.json = .ok req := by
  rfl

theorem sampleMySql_row {db : Db} {text : Bytes} {row : UserRow} {rows : List UserRow}
    (h : sampleMySql none db text = some (row :: rows)) :
    row ∈ db.userInfo ∧
      ∃ cmd ∈ lookups row.userName, tokens text = some (meant cmd.template) := by
  rw [sampleMySql] at h
  split at h
  · cases h
  · next ts hts =>
    split at h
    · next name hname =>
      have hrow : row ∈ db.userInfo.filter fun r => r.userName = name := by
        rw [Option.some.inj h]
        exact List.mem_cons_self
      obtain ⟨hmem, hrowname⟩ := List.mem_filter.mp hrow
      rw [decide_eq_true_eq] at hrowname
      obtain ⟨cmd, hcmd, hmeant⟩ := nameIn_eq_some.mp hname
      exact ⟨hmem, cmd, hrowname ▸ hcmd, hmeant ▸ hts⟩
    · cases h

theorem row_of_login {answer : Option (List UserRow)} {pwd : Bytes}
    (h : (match answer with
      | none | some [] => (-1 : Int)
      | some (row :: _) => if cStr row.password = pwd then 0 else -1) = 0) :
    ∃ row rows, answer = some (row :: rows) := by
  match answer with
  | none | some [] => cases h
  | some (row :: rows) => exact ⟨row, rows, rfl⟩

theorem sampleRequest_nulFree (hname : 0 ∉ name) :
    (Registration.sampleRequest name).NulFree := by
  intro s hs
  simp only [Registration.sampleRequest, List.mem_cons, List.not_mem_nil, or_false] at hs
  obtain rfl | rfl | rfl | rfl | rfl := hs
  · exact hname
  all_goals decide +kernel

theorem plain_of_logsIn {ω : ℕ → Ans} (hname : 0 ∉ name) (h0 : (ω 0).ok)
    (h : LogsIn (sampleMySql none) name ω) : (ω 3).ok ∧ ((ω 4).ok → Plain name) := by
  have hreq : parsed (fun _ => some (Registration.sampleRequest name).json) (ascii "b")
      decodeRegisterJson = .ok (Registration.sampleRequest name) :=
    decodeRegisterJson_json _
  obtain ⟨ret, w', rest, hrun, hreg⟩ := registering_run (sampleMySql none)
    .empty hreq (by decide +kernel) ω
  -- told that he is registered, he is found by the lookup of his login
  have hlookup (hret : ret = 0) : ∃ row ∈ w'.db.userInfo, ∃ cmd ∈ lookups row.userName,
      tokens (SqlCmd.password name).text = some (meant cmd.template) := by
    have hundisturbed : NoFail fun _ => ⟨.none, [], 0⟩ := fun _ => rfl
    have hlogin := h _ _ _ .empty hreq rfl (sampleRequest_nulFree hname)
      (by rw [hrun, hret]) [] nofun _ hundisturbed
      (Registration.sampleRequest name).pwd
    rw [if_pos rfl, hrun, registerAll, List.foldl_nil, verifyUserPassword_run hundisturbed]
      at hlogin
    obtain ⟨row, rows, hrows⟩ := row_of_login (Option.some.inj hlogin)
    exact ⟨row, sampleMySql_row hrows⟩
  cases hreg with
  | unconnected h => exact absurd h0 h
  | taken _ hfound =>
      obtain ⟨-, row, rows, hrows⟩ := hfound
      exact absurd (sampleMySql_row hrows).1 List.not_mem_nil
  | unprepared =>
      obtain ⟨row, hrow, -⟩ := hlookup rfl
      exact absurd hrow List.not_mem_nil
  | inserted _ _ h3 =>
      obtain ⟨row, hrow, cmd, hcmd, htokens⟩ := hlookup rfl
      obtain rfl := List.mem_singleton.mp hrow
      exact ⟨h3, fun _ => password_plain hcmd htokens⟩
  | refused _ _ h3 h4 =>
      refine ⟨h3, fun hok => absurd ?_ (h4 hok)⟩
      exact fun ⟨row, hrow, _⟩ => absurd hrow List.not_mem_nil

theorem Free.filter_newUser {time : Bytes} (hfree : Free req w.db) :
    ((addUser w (newUser req time)).db.userInfo.filter fun r => r.userName = req.user_name) =
      [newUser req time] := by
  have hnone : (w.db.userInfo.filter fun r => r.userName = req.user_name) = [] := by
    rw [List.filter_eq_nil_iff]
    intro row hrow hname
    exact hfree ⟨row, hrow, .inl (of_decide_eq_true hname)⟩
  rw [addUser, List.filter_append, hnone]
  simp [newUser]

theorem logsIn_of_plain {ω : ℕ → Ans} (hmysql : mysql.Assumed)
    (hcond : 0 ∉ name → (ω 0).ok → (ω 3).ok ∧ ((ω 4).ok → Plain name)) :
    LogsIn mysql name ω := by
  intro parse post_data req w hreq hname hnul hres later hother ω' hω' pwd
  by_cases hbody : post_data = []
  · rw [registering, apiRegisterUser, if_pos hbody] at hres
    cases hres
  subst hname
  obtain ⟨ret, w', rest, hrun, hreg⟩ := registering_run mysql w hreq hbody ω
  have hret : ret = 0 := by
    rw [hrun] at hres
    simpa [JsonValue.code] using hres
  have hplain := hcond (hnul req.user_name List.mem_cons_self)
  rw [hrun]
  cases hreg with
  | unconnected | taken | refused => cases hret
  | unprepared h0 _ h3 => exact absurd (hplain h0).1 h3
  | inserted h0 _ _ h4 hfree =>
      have hadded : Holds req.user_name req.pwd (addUser w (newUser req (ω 2).text)) :=
        ⟨_, hfree.filter_newUser, rfl⟩
      exact holds_logsIn hmysql ((hplain h0).2 h4) (registerAll_holds hother hadded)
        (hnul req.pwd (by simp)) hω' pwd

/-- Whoever is told so can log in: exactly if the statement is prepared and, unless its
execution fails, nothing in the name means something else between quotes. -/
theorem logsIn_iff (name : Bytes) (ω : ℕ → Ans) :
    (∀ mysql : MySql, mysql.Assumed → LogsIn mysql name ω) ↔
      (0 ∉ name → (ω 0).ok → (ω 3).ok ∧ ((ω 4).ok → Plain name)) := by
  constructor
  · intro hall hname h0
    exact plain_of_logsIn hname h0 (hall _ (sampleMySql_assumed none))
  · intro hcond mysql hmysql
    exact logsIn_of_plain hmysql hcond

/-- The prepared statement stores the name with its quote, and no text with it
lexes. -/
theorem oBrien_notLogsIn :
    ¬∃ mysql : MySql, mysql.Assumed ∧ LogsIn mysql (ascii "o'brien") fun _ => ⟨.none, [], 0⟩ := by
  intro ⟨mysql, hmysql, h⟩
  have hreq : parsed (fun _ => some (Registration.sampleRequest (ascii "o'brien")).json)
      (ascii "b") decodeRegisterJson = .ok (Registration.sampleRequest (ascii "o'brien")) :=
    decodeRegisterJson_json _
  have hundisturbed : NoFail fun _ => ⟨.none, [], 0⟩ := fun _ => rfl
  obtain ⟨ret, w', rest, hrun, hreg⟩ := registering_run mysql .empty hreq
    (by decide +kernel) fun _ => ⟨.none, [], 0⟩
  have hret : ret = 0 := by
    cases hreg with
    | unconnected h0 => exact absurd rfl h0
    | taken _ hfound =>
        obtain ⟨-, row, rows, hrows⟩ := hfound
        rw [hmysql.refuses _ _ (by decide +kernel)] at hrows
        cases hrows
    | unprepared | inserted => rfl
    | refused _ _ _ h4 =>
        exact absurd (fun ⟨row, hrow, _⟩ => absurd hrow List.not_mem_nil) (h4 rfl)
  have hlogin := h _ _ _ .empty hreq rfl
    (sampleRequest_nulFree (by decide +kernel)) (by rw [hrun, hret]) [] nofun _ hundisturbed
    (Registration.sampleRequest (ascii "o'brien")).pwd
  rw [if_pos rfl, verifyUserPassword_run hundisturbed, hmysql.refuses _ _ (by decide +kernel)]
    at hlogin
  cases hlogin

end

end FileHub
