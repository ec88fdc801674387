import FileHub.Api.Server
import FileHub.Lib.Agree
import FileHub.Lib.History
import FileHub.Proofs.NoFault
import FileHub.Proofs.Quoting

/-!
# Statements with known strings do what they say

`K` are the strings in play: the names, md5s and file names that requests bring
and tables hold. `server.Tells K` asks two things of them: each can stand
between quotes, and no two are confused. A statement made of them is read as
meant (`tokens_text_iff`), compared as equality compares, and so does what
`Select.run` and `Dml.exec` say; it leaves only known strings behind. So the
server and `step` agree on all that a handler asks with known strings.
-/

namespace FileHub

open Lib
open Lib.Sql

structure SqlServer.Tells (server : SqlServer) (K : Bytes → Prop) : Prop where
  plain : ∀ s, K s → Plain s
  apart : ∀ a b, K a → K b → server.same a b = true → a = b

/-- Every string in the tables that is compared is known. -/
structure Db.Known (K : Bytes → Prop) (db : Db) : Prop where
  files : ∀ r ∈ db.userFileList.rows, K r.user ∧ K r.md5 ∧ K r.fileName
  infos : ∀ r ∈ db.fileInfo.rows, K r.md5
  shares : ∀ r ∈ db.shareFileList, K r.user ∧ K r.md5 ∧ K r.fileName
  pictures : ∀ r ∈ db.sharePictureList, K r.user ∧ K r.filemd5 ∧ K r.fileName ∧ K r.urlmd5
  users : ∀ r ∈ db.userInfo, K r.userName ∧ K r.nickName

/-- The call is no statement, or one made of known strings. -/
def Call.Known (K : Bytes → Prop) : Call → Prop
  | .select q => ∀ s ∈ q.names, K s
  | .dml d => (∀ cmd ∈ d.place, cmd.call = .dml d) ∧ (∀ s ∈ d.names, K s) ∧ ∀ s ∈ d.values, Plain s
  | _ => True

/-- What a handler may put into a later statement. -/
def Resp.Known (K : Bytes → Prop) : (c : Call) → Resp c → Prop
  | .select (.picture _), rows => ∀ row ∈ (rows : Option (List PictureRow)).getD [], K row.filemd5
  | .localtime, time => Plain time
  | .fdfsUpload _, id => ∀ i, (id : Option Bytes) = some i → Plain i
  | _, _ => True

variable {server : SqlServer} {K : Bytes → Prop} {db db' : Db}

/-! ## Read as meant -/

theorem plain_intText (n : Int) : Plain (intText n) := by
  have hdigits : ∀ b ∈ intText n, isDigit b = true ∨ b = 45 := by
    intro b hb
    rw [intText] at hb
    split at hb
    · rcases List.mem_cons.mp hb with rfl | hb
      · exact .inr rfl
      · exact .inl (isDigit_decimal _ b hb)
    · exact .inl (isDigit_decimal _ b hb)
  refine plain_of_forall fun b hb => ?_
  rcases hdigits b hb with hb | rfl
  · refine ⟨?_, ?_, ?_⟩ <;> rintro rfl <;> revert hb <;> decide
  · decide

theorem Select.read_of_known (hK : server.Tells K) {q : Select} (hq : ∀ s ∈ q.names, K s) :
    q.Read := by
  refine ⟨by cases q <;> rfl,
    (SqlCmd.tokens_text_iff _).mpr fun arg harg => hK.plain arg (hq arg ?_)⟩
  cases q <;> exact harg

theorem Dml.read_of_known (hK : server.Tells K) {d : Dml} (hd : (Call.dml d).Known K) : d.Read := by
  obtain ⟨hplace, hnames, hvalues⟩ := hd
  intro cmd hcmd
  refine ⟨hplace cmd hcmd, (SqlCmd.tokens_text_iff _).mpr fun arg harg => ?_⟩
  have hnamed : ∀ s ∈ d.names, Plain s := fun s hs => hK.plain s (hnames s hs)
  cases d with
  | insertUser => cases hcmd
  | insertFileInfo r =>
      cases hcmd
      have hsize := plain_intText r.size
      simp only [SqlCmd.template, args, List.filterMap_cons, Piece.arg, List.filterMap_nil,
        List.mem_cons, List.not_mem_nil, or_false] at harg
      simp only [Dml.names, Dml.values, List.forall_mem_cons, List.not_mem_nil, false_imp_iff,
        implies_true, and_true] at hnamed hvalues
      rcases harg with rfl | rfl | rfl | rfl | rfl
      · exact hnamed
      · exact hvalues.1
      · exact hvalues.2.1
      · exact hsize
      · exact hvalues.2.2
  | setSharedStatus v user md5 filename =>
      have hargs : args cmd.template = [user, md5, filename] := by
        cases hcmd
        split <;> rfl
      rw [hargs] at harg
      exact hnamed arg harg
  | _ =>
      cases hcmd
      simp only [SqlCmd.template, args, List.filterMap_cons, Piece.arg, List.filterMap_nil,
        List.mem_cons, List.not_mem_nil, or_false] at harg
      simp only [Dml.names, Dml.values, List.mem_cons, List.not_mem_nil, or_false] at hnamed hvalues
      first
        | exact hnamed arg harg
        | (rcases harg with rfl | rfl | rfl | rfl <;> simp_all)
        | (rcases harg with rfl | rfl | rfl | rfl | rfl | rfl <;> simp_all)

/-! ## Compared as equality compares -/

theorem Db.Known.of_mem (h : db.Known K) : ∀ s ∈ db.names, K s := by
  intro s hs
  simp only [Db.names, List.mem_append, List.mem_flatMap, List.mem_map, List.mem_cons,
    List.not_mem_nil, or_false] at hs
  rcases hs with (((⟨r, hr, hs⟩ | ⟨r, hr, rfl⟩) | ⟨r, hr, hs⟩) | ⟨r, hr, hs⟩) | ⟨r, hr, hs⟩
  · obtain ⟨h₁, h₂, h₃⟩ := h.files r hr
    rcases hs with rfl | rfl | rfl <;> assumption
  · exact h.infos r hr
  · obtain ⟨h₁, h₂, h₃⟩ := h.shares r hr
    rcases hs with rfl | rfl | rfl <;> assumption
  · obtain ⟨h₁, h₂, h₃, h₄⟩ := h.pictures r hr
    rcases hs with rfl | rfl | rfl | rfl <;> assumption
  · obtain ⟨h₁, h₂⟩ := h.users r hr
    rcases hs with rfl | rfl <;> assumption

theorem SqlServer.Tells.tellsApart (hK : server.Tells K) (hdb : db.Known K) {names : List Bytes}
    (hnames : ∀ s ∈ names, K s) : server.TellsApart (names ++ db.names) := by
  have hall : ∀ s ∈ names ++ db.names, K s := fun s hs =>
    (List.mem_append.mp hs).elim (hnames s) (hdb.of_mem s)
  exact fun a ha b hb hab => hK.apart a b (hall a ha) (hall b hb) hab

theorem SqlServer.select_of_known (hK : server.Tells K) (hdb : db.Known K) {q : Select}
    (hq : ∀ s ∈ q.names, K s) : server.select q db = q.run db :=
  if_pos ⟨Select.read_of_known hK hq, hK.tellsApart hdb hq⟩

theorem SqlServer.exec_of_known (hK : server.Tells K) (hdb : db.Known K) {d : Dml}
    (hd : (Call.dml d).Known K) : server.exec d db = d.format.exec db :=
  if_pos ⟨Dml.read_of_known hK hd, hK.tellsApart hdb hd.2.1⟩

/-! ## What is left behind -/

theorem Db.Known.empty : Db.empty.Known K := ⟨nofun, nofun, nofun, nofun, nofun⟩

theorem Db.Known.exec (hdb : db.Known K) (hK : ∀ s, K s → Plain s) {d : Dml} {n : ℕ}
    (hd : ∀ s ∈ d.names, K s) (h : d.format.exec db = some (n, db')) : db'.Known K := by
  have hc : ∀ s ∈ d.names, cStr s = s := fun s hs => cStr_plain (hK s (hd s hs))
  cases d with
  | insertUserFile r =>
      simp only [Dml.names, List.forall_mem_cons, List.not_mem_nil, false_imp_iff, implies_true,
        and_true] at hd hc
      obtain ⟨t, ht, heq⟩ := Option.map_eq_some_iff.mp h
      cases heq
      refine { hdb with files := fun r' hr' => ?_ }
      rw [Table.insert_rows ht] at hr'
      rcases List.mem_append.mp hr' with hr' | hr'
      · exact hdb.files r' hr'
      · rw [List.mem_singleton.mp hr', hc.1, hc.2.1, hc.2.2]
        exact hd
  | insertFileInfo r =>
      simp only [Dml.names, List.forall_mem_cons, List.not_mem_nil, false_imp_iff, implies_true,
        and_true] at hd hc
      obtain ⟨t, ht, heq⟩ := Option.map_eq_some_iff.mp h
      cases heq
      refine { hdb with infos := fun r' hr' => ?_ }
      rw [Table.insert_rows ht] at hr'
      rcases List.mem_append.mp hr' with hr' | hr'
      · exact hdb.infos r' hr'
      · rw [List.mem_singleton.mp hr', hc]
        exact hd
  | deleteUserFile =>
      cases h
      exact { hdb with files := fun r hr => hdb.files r (Table.mem_deleteWhere.mp hr).1 }
  | setSharedStatus | setUserFilePv =>
      cases h
      refine { hdb with files := fun r hr => ?_ }
      obtain ⟨r', hr', rfl⟩ := List.mem_map.mp hr
      split <;> exact hdb.files r' hr'
  | incrCount | decrCount =>
      cases h
      refine { hdb with infos := fun r hr => ?_ }
      obtain ⟨r', hr', rfl⟩ := List.mem_map.mp hr
      split <;> exact hdb.infos r' hr'
  | deleteFileInfo =>
      cases h
      exact { hdb with infos := fun r hr => hdb.infos r (Table.mem_deleteWhere.mp hr).1 }
  | insertShare r =>
      simp only [Dml.names, List.forall_mem_cons, List.not_mem_nil, false_imp_iff, implies_true,
        and_true] at hd hc
      cases h
      refine { hdb with shares := fun r' hr' => ?_ }
      rcases List.mem_append.mp hr' with hr' | hr'
      · exact hdb.shares r' hr'
      · rw [List.mem_singleton.mp hr', hc.1, hc.2.1, hc.2.2]
        exact hd
  | deleteShare =>
      cases h
      exact { hdb with shares := fun r hr => hdb.shares r (List.mem_filter.mp hr).1 }
  | setSharePv =>
      cases h
      refine { hdb with shares := fun r hr => ?_ }
      obtain ⟨r', hr', rfl⟩ := List.mem_map.mp hr
      split <;> exact hdb.shares r' hr'
  | insertPicture r =>
      simp only [Dml.names, List.forall_mem_cons, List.not_mem_nil, false_imp_iff, implies_true,
        and_true] at hd hc
      cases h
      refine { hdb with pictures := fun r' hr' => ?_ }
      rcases List.mem_append.mp hr' with hr' | hr'
      · exact hdb.pictures r' hr'
      · rw [List.mem_singleton.mp hr', hc.1, hc.2.1, hc.2.2.1, hc.2.2.2]
        exact hd
  | incrPicturePv =>
      cases h
      refine { hdb with pictures := fun r hr => ?_ }
      obtain ⟨r', hr', rfl⟩ := List.mem_map.mp hr
      split <;> exact hdb.pictures r' hr'
  | deletePicture =>
      cases h
      exact { hdb with pictures := fun r hr => hdb.pictures r (List.mem_filter.mp hr).1 }
  | insertUser r =>
      simp only [Dml.names, List.forall_mem_cons, List.not_mem_nil, false_imp_iff, implies_true,
        and_true] at hd
      simp only [Dml.format, Dml.exec] at h
      split at h
      · cases h
      · cases h
        refine { hdb with users := fun r' hr' => ?_ }
        rcases List.mem_append.mp hr' with hr' | hr'
        · exact hdb.users r' hr'
        · rw [List.mem_singleton.mp hr']
          exact hd

theorem plain_append {a b : Bytes} (ha : Plain a) (hb : Plain b) : Plain (a ++ b) := by
  induction a using escape_induction with
  | nil => exact hb
  | cons c a hc ih =>
      obtain ⟨hquote, hnul, ha'⟩ := (plain_cons hc).mp ha
      exact (plain_cons hc).mpr ⟨hquote, hnul, ih ha'⟩
  | single => exact absurd ha not_plain_backslash
  | escape c a ih =>
      obtain ⟨hwild, ha'⟩ := plain_escape.mp ha
      exact plain_escape.mpr ⟨hwild, ih ha'⟩

theorem plain_freshId (d : Fdfs) {id : Bytes} (hid : Plain id) : Plain (d.freshId id) := by
  rw [Fdfs.freshId]
  split
  · refine plain_append hid ?_
    generalize (d.used.map List.length).sum.succ = n
    induction n with
    | zero => trivial
    | succ n ih => exact (plain_cons (by decide)).mpr ⟨by decide, by decide, ih⟩
  · exact hid

/-- On known strings the server answers as `step` does. -/
theorem SqlServer.Tells.agree (hK : server.Tells K) :
    Prog.Agree FileHub.step server.step (fun w => w.db.Known K) (Call.Known K) (Resp.Known K)
      Call.Regular where
  same := by
    intro c a w hw hc ha
    cases c with
    | select q => rw [SqlServer.step, FileHub.step, SqlServer.select_of_known hK hw hc]
    | dml d =>
        rw [SqlServer.step, FileHub.step, SqlServer.exec_of_known hK hw hc]
        have hlost : a.fault ≠ .lost := ha
        exact if_congr Iff.rfl rfl (if_neg hlost)
    | fdfsUpload path =>
        have hlost : a.fault ≠ .lost := ha.1
        exact if_neg hlost
    | fdfsDelete id =>
        have hlost : a.fault ≠ .lost := ha
        exact if_neg hlost
    | _ => rfl
  stuck := by
    intro c a w hw hc h
    cases c with
    | select q => cases h
    | dml d =>
        rw [SqlServer.step] at h
        split at h
        · split at h <;> cases h
        · split at h <;> cases h
    | fdfsUpload path =>
        rw [SqlServer.step] at h
        split at h
        · cases h
        · exact h
    | fdfsDelete id =>
        rw [SqlServer.step] at h
        split at h
        · cases h
        · exact h
    | _ => exact h
  kept := by
    intro c a w r w' hw hc ha h
    cases c with
    | select q =>
        cases h
        refine ⟨hw, ?_⟩
        cases q with
        | picture urlmd5 =>
            intro row hrow
            split at hrow
            · exact (hw.pictures row (List.mem_filter.mp hrow).1).2.1
            · cases hrow
        | _ => trivial
    | dml d =>
        rw [FileHub.step] at h
        split at h
        · split at h
          · cases h
            exact ⟨hw, trivial⟩
          · next n db hexec =>
              cases h
              exact ⟨hw.exec hK.plain hc.2.1 hexec, trivial⟩
        · cases h
          exact ⟨hw, trivial⟩
    | redis c =>
        simp only [FileHub.step, redisStep, Option.some.injEq] at h
        split at h <;> cases h <;> exact ⟨hw, trivial⟩
    | tryLockFor ms =>
        rw [FileHub.step] at h
        split at h
        · split at h
          · cases h
          · cases h
            exact ⟨hw, trivial⟩
        · cases h
          exact ⟨hw, trivial⟩
    | fdfsUpload path =>
        rw [FileHub.step] at h
        split at h
        · cases h
          refine ⟨hw, fun i hi => ?_⟩
          cases hi
          exact plain_freshId _ ha.2
        · cases h
          exact ⟨hw, fun i hi => by cases hi⟩
    | fdfsDelete id =>
        rw [FileHub.step] at h
        split at h <;> cases h <;> exact ⟨hw, trivial⟩
    | localtime =>
        cases h
        exact ⟨hw, ha⟩
    | crash => cases h
    | _ =>
        cases h
        exact ⟨hw, trivial⟩

/-! ## What follows for a run, for a pool and for a history -/

theorem SqlServer.strict_tells : SqlServer.strict.Tells Plain :=
  ⟨fun _ h => h, fun _ _ _ _ h => eq_of_beq h⟩

section

variable {α ρ : Type} {p : Handler α} {ω : ℕ → Ans} {w : World}

/-- The script supplies no text that means something else between quotes. -/
def PlainTexts (ω : ℕ → Ans) : Prop := ∀ n, Plain (ω n).text

theorem Call.regular_of_plain {c : Call} {a : Ans} (ha : a.fault ≠ .lost) (htext : Plain a.text) :
    c.Regular a := by
  have hc := cStr_plain htext
  cases c with
  | dml | fdfsDelete => exact ha
  | fdfsUpload => exact ⟨ha, hc.symm ▸ htext⟩
  | localtime => exact htext
  | _ => trivial

theorem SqlServer.regular_of_plain (server : SqlServer) (hω : ∀ n, (ω n).fault ≠ .lost)
    (htexts : PlainTexts ω) (p : Handler α) (w : World) : server.Regular ω p w := fun m hm =>
  Call.regular_of_plain
    (Prog.trace_forall (P := fun a : Ans => a.fault ≠ .lost) hω p w m hm)
    (Prog.trace_forall (P := fun a : Ans => Plain a.text) htexts p w m hm)

theorem NoFail.not_lost (hω : NoFail ω) (n : ℕ) : (ω n).fault ≠ .lost := by
  rw [hω n]
  decide

/-- A run is as `step` says. -/
theorem SqlServer.Tells.runIn_eq (hK : server.Tells K)
    (hp : Prog.Asks (Call.Known K) (Resp.Known K) p) (hw : w.db.Known K)
    (hω : server.Regular ω p w) : server.runIn ω p w = FileHub.runIn ω p w :=
  hK.agree.exec hp hw hω

theorem SqlServer.Tells.known_st (hK : server.Tells K)
    (hp : Prog.Asks (Call.Known K) (Resp.Known K) p) (hw : w.db.Known K)
    (hω : server.Regular ω p w) : (FileHub.runIn ω p w).st.db.Known K := by
  have hst := hK.agree.st hp hw hω
  rwa [hK.agree.exec hp hw hω] at hst

section

variable {τ M : Type} [AddCommGroup M] {G : Call → Ans → World → Prop} {E : World → World → Prop}
  {pool pool' : Pool τ Call Resp α World}

theorem SqlServer.Tells.reaches (hK : server.Tells K)
    (hE : ∀ w w', w.db.Known K → E w w' → w'.db.Known K) (hw : pool.st.db.Known K)
    (hpool : ∀ t ∈ pool.threads, Prog.Asks (Call.Known K) (Resp.Known K) t.2)
    (hrun : Pool.Reaches server.step (Regularly G) E pool pool') :
    Pool.Reaches FileHub.step G E pool pool' :=
  (hK.agree.reaches (fun _ _ _ h => h.2) hE ⟨hw, hpool⟩ hrun).1.mono (fun _ _ _ h => h.1)
    fun _ _ h => h

variable [∀ c a w, Decidable (G c a w)] {sched : List (ℕ × Ans)}

theorem SqlServer.Tells.play (hK : server.Tells K) (hw : pool.st.db.Known K)
    (hpool : ∀ t ∈ pool.threads, Prog.Asks (Call.Known K) (Resp.Known K) t.2)
    (hplay : Pool.play server.step (Regularly G) sched pool = some pool') :
    Pool.play FileHub.step G sched pool = some pool' := by
  rw [hK.agree.play (fun _ _ _ h => h.2) ⟨hw, hpool⟩] at hplay
  exact Pool.play_mono (fun _ _ _ h => h.1) hplay

theorem SqlServer.Tells.net_eq (hK : server.Tells K) (hw : pool.st.db.Known K)
    (hpool : ∀ t ∈ pool.threads, Prog.Asks (Call.Known K) (Resp.Known K) t.2)
    (hplay : Pool.play server.step (Regularly G) sched pool = some pool') (f : World → M)
    (i : ℕ) :
    Pool.net server.step (Regularly G) f i sched pool = Pool.net FileHub.step G f i sched pool := by
  have hG : ∀ c a w, Regularly G c a w → c.Regular a := fun _ _ _ h => h.2
  rw [hK.agree.net hG ⟨hw, hpool⟩]
  rw [hK.agree.play hG ⟨hw, hpool⟩] at hplay
  exact Pool.net_mono (fun _ _ _ h => h.1) hplay i

end

/-- Serve one request to its end, with its statements sent to the server. -/
def SqlServer.serve (server : SqlServer) (handle : ρ → Handler Unit) (w : World)
    (x : Undisturbed ρ) : World :=
  (server.runIn x.script (handle x.request) w).st

/-- The request brings known strings, and its script none that are not. -/
def Undisturbed.Known (known : ρ → Prop) (x : Undisturbed ρ) : Prop :=
  known x.request ∧ PlainTexts x.script

section

variable {handle : ρ → Handler Unit} {known : ρ → Prop} {history : List (Undisturbed ρ)}

theorem SqlServer.Tells.serve_eq (hK : server.Tells K)
    (hhandle : ∀ r, known r → Prog.Asks (Call.Known K) (Resp.Known K) (handle r))
    (hhistory : ∀ x ∈ history, x.Known known) :
    ∀ x ∈ history, ∀ w : World, w.db.Known K →
      server.serve handle w x = FileHub.serve handle w x ∧
        (FileHub.serve handle w x).db.Known K := by
  intro x hx w hw
  have hregular := server.regular_of_plain x.noFail.not_lost (hhistory x hx).2
    (handle x.request) w
  have hasks := hhandle _ (hhistory x hx).1
  exact ⟨congrArg Prog.Outcome.st (hK.runIn_eq hasks hw hregular), hK.known_st hasks hw hregular⟩

/-- A history of requests with known strings is as `step` says. -/
theorem SqlServer.Tells.throughout_iff (hK : server.Tells K)
    (hhandle : ∀ r, known r → Prog.Asks (Call.Known K) (Resp.Known K) (handle r))
    (hhistory : ∀ x ∈ history, x.Known known) (hw : w.db.Known K) {I : World → Prop} :
    Throughout (server.serve handle) I history w ↔
      Throughout (FileHub.serve handle) I history w :=
  meets_true.throughout_congr
    (fun x hx w hw _ => hK.serve_eq hhandle hhistory x hx w hw) hw

theorem SqlServer.Tells.meets_iff (hK : server.Tells K)
    (hhandle : ∀ r, known r → Prog.Asks (Call.Known K) (Resp.Known K) (handle r))
    (hhistory : ∀ x ∈ history, x.Known known) (hw : w.db.Known K)
    {C : World → Undisturbed ρ → Prop} :
    Meets (server.serve handle) C history w ↔ Meets (FileHub.serve handle) C history w :=
  meets_congr (hK.serve_eq hhandle hhistory) hw

end

end

end FileHub
