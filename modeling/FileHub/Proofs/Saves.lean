import Mathlib.Algebra.BigOperators.Pi
import Mathlib.Algebra.Order.BigOperators.Group.Finset
import FileHub.Lib.Net
import FileHub.Proofs.KnownCalls
import FileHub.Proofs.NoFault

/-!
# Saving one file from several sides

`handleSaveFile` looks for the row, counts the file up under the lock and
inserts the row, and nothing takes the count back when the insert fails. Any
statement may fail here, and any number of calls run together. Where every
insert that is sent is accepted, a call makes one reference and its row, or
nothing at all. An insert is refused when it fails, and when another call has
inserted the row since the look-up.
-/

namespace FileHub

open Lib
open Lib.Sql (Plain)
open Prog (ask)

namespace SaveFile

/-- Is an insert of a user's row accepted? -/
def Accepted (c : Call) (a : Ans) (w : World) : Prop :=
  match c with
  | .dml (.insertUserFile r) => a.ok ∧ w.db.own r.user r.md5 r.fileName = none
  | _ => True

instance (c : Call) (a : Ans) (w : World) : Decidable (Accepted c a w) := by
  unfold Accepted
  split <;> infer_instance

/-- The calls for one row. -/
def pool (user_name md5 filename : Bytes) (n : ℕ) (w : World) :
    Pool Unit Call Resp Int World :=
  ⟨List.replicate n ((), handleSaveFile user_name md5 filename), w⟩

/-- The counter of the file, and the rows there are for it. -/
def counts (m : Bytes) (w : World) : Int × Int := ((w.db.count? m).getD 0, w.db.refs m)

/-- The calls that move neither. -/
def Apart (m : Bytes) (c : Call) : Prop :=
  ∀ a w r w', step c a w = some (r, w') → counts m w' = counts m w

variable {m user_name md5 filename : Bytes} {α β : Type} {G : Call → Ans → World → Prop}

theorem apart_of_aside {c : Call} (hc : c.Aside) : Apart m c := by
  intro a w r w' hs
  rw [counts, counts, (step_aside hc hs).1]

/-- A handler in a run of such calls. -/
abbrev Makes {α : Type} (m : Bytes) (Q : α → Int × Int → Prop) (p : Handler α)
    (g : Int × Int) : Prop :=
  Nets step Accepted (counts m) Q p g

theorem Makes.skip {Q : β → Int × Int → Prop} {p : Handler α} {f : α → Handler β}
    {g : Int × Int} (hp : p.Uses (Apart m)) (hf : ∀ a, Makes m Q (f a) g) :
    Makes m Q (p >>= f) g := by
  refine (Nets.of_uses (fun c s a r s' hc _ hs => hc a s r s' hs) hp g).bind ?_
  rintro a _ rfl
  exact hf a

theorem counts_incrCount {w : World} {md5 : Bytes} {i : FileInfoRow}
    (h : w.db.info md5 = some i) :
    counts (cStr md5) (w.sql (.incrCount md5)) - counts (cStr md5) w = (1, 0) := by
  have hrefs : (w.db.sql (.incrCount md5)).refs (cStr md5) = w.db.refs (cStr md5) := rfl
  have hcount := Db.count?_incrCount w.db md5 (cStr md5)
  rw [Db.count?_of_info h, Option.map_some, if_pos rfl] at hcount
  simp only [counts, World.sql_db, hcount, hrefs, Db.count?_of_info h, Option.getD_some,
    Prod.mk_sub_mk, sub_self, add_sub_cancel_left]

theorem counts_insertUserFile {w : World} {r : UserFileRow}
    (h : w.db.own r.user r.md5 r.fileName = none) :
    counts (cStr r.md5) (w.sql (.insertUserFile r)) - counts (cStr r.md5) w = (0, 1) := by
  have hrefs := Db.refs_insertUserFile h (cStr r.md5)
  rw [if_pos rfl] at hrefs
  simp only [counts, World.sql_db, hrefs, Db.count?_insertUserFile, Prod.mk_sub_mk, sub_self,
    Nat.cast_add, Nat.cast_one, add_sub_cancel_left]

/-- The counter goes up with a success, and otherwise stays. -/
theorem incrCount_makes (conn : CDBConn) (md5 : Bytes) (g : Int × Int) :
    Makes (cStr md5) (fun updated g' => g' = if updated then g + (1, 0) else g)
      (conn.executeUpdate (.incrCount md5)) g := by
  rw [CDBConn.executeUpdate]
  split
  · intro w a r w' _ hs
    by_cases ha : a.ok
    · rw [step_dml ha, Option.some.injEq, Prod.mk.injEq] at hs
      obtain ⟨rfl, rfl⟩ := hs
      have haffects := Db.affects_incrCount w.db md5
      have hmoved : counts (cStr md5) (w.sql (.incrCount md5)) - counts (cStr md5) w =
          if (w.db.info md5).isSome then (1, 0) else 0 := by
        cases hinfo : w.db.info md5 with
        | none => rw [World.sql_self (Db.sql_incrCount_of_info hinfo), sub_self]; rfl
        | some i => exact counts_incrCount hinfo
      rw [hmoved, ← haffects]
      cases hexec : (Dml.incrCount md5).format.exec w.db with
      | none => exact add_zero g
      | some x =>
          simp only [Option.map_some, Option.any_some, Bool.not_true, Bool.or_false]
          show g + (if decide (0 < x.1) = true then (1, 0) else 0) =
            if decide (0 < x.1) = true then g + (1, 0) else g
          cases hpos : decide (0 < x.1) with
          | true => rfl
          | false => exact add_zero g
    · rw [step_dml_of_not_ok ha] at hs
      cases hs
      rw [sub_self, add_zero]
      exact rfl
  · intro w a r w' _ hs
    cases hs

theorem insertUserFile_makes (conn : CDBConn) (r : UserFileRow) (g : Int × Int) :
    Makes (cStr r.md5) (fun inserted g' => inserted = true ∧ g' = g + (0, 1))
      (conn.executeCreate (.insertUserFile r)) g := by
  rw [CDBConn.executeCreate, CDBConn.execute]
  split
  · intro w a x w' hG hs
    obtain ⟨ha, hown⟩ : a.ok ∧ w.db.own r.user r.md5 r.fileName = none := hG
    rw [step_dml ha, Option.some.injEq, Prod.mk.injEq] at hs
    obtain ⟨rfl, rfl⟩ := hs
    have hinserted := Db.isSome_insertUserFile w.db r
    rw [hown] at hinserted
    rw [counts_insertUserFile hown]
    refine ⟨?_, rfl⟩
    show ((_ : Option (ℕ × Db)).map Prod.fst).isSome = true
    rw [Option.isSome_map, hinserted]
    rfl
  · intro w a x w' _ hs
    cases hs

/-- The block under the lock. -/
theorem countSaved_makes (conn : CDBConn) (md5 : Bytes) :
    Makes (cStr md5) (fun counted g => g = if counted then (1, 0) else 0)
      (countSaved conn md5) 0 := by
  refine Makes.skip (uses_ask (apart_of_aside trivial)) fun is_locked => ?_
  cases is_locked with
  | false => exact rfl
  | true =>
      refine (incrCount_makes conn md5 0).bind fun updated g hg => ?_
      rw [zero_add] at hg
      exact Makes.skip (uses_ask (apart_of_aside trivial)) fun _ => hg

/-- A call that returns 0 has made a reference and its row, any other nothing. -/
theorem handleSaveFile_makes (user_name md5 filename : Bytes) :
    Makes (cStr md5) (fun r g => r = 0 ∧ g = (1, 1) ∨ r ≠ 0 ∧ g = 0)
      (handleSaveFile user_name md5 filename) 0 := by
  refine Makes.skip (uses_getDBConn (apart_of_aside trivial)) fun conn => ?_
  refine Makes.skip (uses_checkwhetherHaveRecord (apart_of_aside trivial)
    (apart_of_aside trivial)) fun found => ?_
  split
  · exact .inr ⟨by decide, rfl⟩
  · refine (countSaved_makes conn md5).bind fun counted g hg => ?_
    cases counted with
    | false => exact .inr ⟨by decide, hg⟩
    | true =>
        refine Makes.skip (uses_ask (apart_of_aside trivial)) fun time => ?_
        refine (insertUserFile_makes conn ⟨user_name, md5, time, filename, 0, 0⟩ g).bind ?_
        rintro _ g' ⟨rfl, rfl⟩
        exact .inl ⟨rfl, by rw [hg]; rfl⟩

/-! ## One row at most -/

/-- There are `rows` rows for the file, and one more at most, which is then this one. -/
structure OneRow (user_name md5 filename : Bytes) (rows : ℕ) (w : World) : Prop where
  most : w.db.refs (cStr md5) ≤ rows + 1
  none : w.db.own user_name md5 filename = none → w.db.refs (cStr md5) = rows

/-- The calls that keep it so. -/
def KeepsOneRow (user_name md5 filename : Bytes) (rows : ℕ) (c : Call) : Prop :=
  ∀ a w r w', OneRow user_name md5 filename rows w → step c a w = some (r, w') →
    OneRow user_name md5 filename rows w'

theorem OneRow.congr {rows : ℕ} {w w' : World} (h : OneRow user_name md5 filename rows w)
    (hlist : w'.db.userFileList = w.db.userFileList) :
    OneRow user_name md5 filename rows w' := by
  refine ⟨?_, ?_⟩
  · rw [Db.refs, hlist]
    exact h.most
  · rw [Db.refs, Db.own, hlist]
    exact h.none

theorem keepsOneRow_of_aside {rows : ℕ} {c : Call} (hc : c.Aside) :
    KeepsOneRow user_name md5 filename rows c := fun _ _ _ _ h hs =>
  h.congr (congrArg Db.userFileList (step_aside hc hs).1)

theorem keepsOneRow_incrCount {rows : ℕ} :
    KeepsOneRow user_name md5 filename rows (.dml (.incrCount md5)) := by
  intro a w r w' h hs
  by_cases ha : a.ok
  · rw [step_dml ha] at hs
    cases hs
    exact h.congr rfl
  · rw [step_dml_of_not_ok ha] at hs
    cases hs
    exact h

theorem keepsOneRow_insertUserFile {rows : ℕ} (time : Bytes) :
    KeepsOneRow user_name md5 filename rows
      (.dml (.insertUserFile ⟨user_name, md5, time, filename, 0, 0⟩)) := by
  intro a w r w' h hs
  by_cases ha : a.ok
  · rw [step_dml ha] at hs
    cases hs
    cases hown : w.db.own user_name md5 filename with
    | some row =>
        rw [World.sql_self (Db.sql_insertUserFile_of_own (Option.isSome_of_mem hown))]
        exact h
    | none =>
        have hrefs := Db.refs_insertUserFile
          (r := ⟨user_name, md5, time, filename, 0, 0⟩) hown (cStr md5)
        rw [if_pos rfl, h.none hown] at hrefs
        refine ⟨hrefs.le, fun hnone => ?_⟩
        obtain ⟨t, row, ht, hkey, -, hsql⟩ := Db.sql_insertUserFile
          (r := ⟨user_name, md5, time, filename, 0, 0⟩) hown
        rw [World.sql_db, hsql, Db.own, Table.find?_insert ht, hkey, if_pos rfl] at hnone
        cases hnone
  · rw [step_dml_of_not_ok ha] at hs
    cases hs
    exact h

theorem OneRow.reached {n : ℕ} {w : World} {p : Pool Unit Call Resp Int World}
    (hrun : Pool.Reaches step G (fun _ _ => False) (pool user_name md5 filename n w) p) :
    OneRow user_name md5 filename (w.db.refs (cStr md5)) p.st := by
  have huses : (handleSaveFile user_name md5 filename).Uses
      (KeepsOneRow user_name md5 filename (w.db.refs (cStr md5))) :=
    uses_handleSaveFile (fun c hc => keepsOneRow_of_aside (Call.Reads.aside hc))
      (keepsOneRow_of_aside trivial) (keepsOneRow_of_aside trivial) keepsOneRow_incrCount
      fun time => keepsOneRow_insertUserFile time
  have hstart : Accounted step
      (fun s (_ : ℕ) => OneRow user_name md5 filename (w.db.refs (cStr md5)) s) G
      (fun _ _ g => g = 0) (pool user_name md5 filename n w) := by
    refine Accounted.start (fun t ht => ?_) ⟨Nat.le_succ _, fun _ => rfl⟩
    rw [List.eq_of_mem_replicate ht]
    exact Safe.of_uses (fun c s _ a r s' hc hI _ hs => hc a s r s' hI hs) huses 0
  obtain ⟨-, -, hrow⟩ := hstart.reaches (fun _ _ _ _ hE => hE.elim) hrun
  exact hrow

/-! ## Every run -/

theorem saved_of_play (user_name md5 filename : Bytes) (n : ℕ) (w : World)
    {sched : List (ℕ × Ans)} {p : Pool Unit Call Resp Int World}
    (hplay : Pool.play step Accepted sched (pool user_name md5 filename n w) = some p)
    (hfin : p.Finished) :
    (p.st.db.count? (cStr md5)).getD 0 - (w.db.count? (cStr md5)).getD 0 =
        (p.st.db.refs (cStr md5) : Int) - w.db.refs (cStr md5) ∧
      w.db.refs (cStr md5) ≤ p.st.db.refs (cStr md5) ∧
      p.st.db.refs (cStr md5) ≤ w.db.refs (cStr md5) + 1 ∧
      ∀ i t r, p.threads[i]? = some t → t.2.result? = some r → r ≠ 0 →
        Pool.net step Accepted (counts (cStr md5)) i sched
          (pool user_name md5 filename n w) = 0 := by
  have hrun := Pool.play_reaches (E := fun _ _ => False) hplay
  have hlength : p.threads.length = n := by
    have hlabels := congrArg List.length hrun.labels
    simpa [pool] using hlabels
  -- What each call has made, by what it has returned.
  have hmade (i : ℕ) (t : Unit × Handler Int) (ht : p.threads[i]? = some t) (r : Int)
      (hr : t.2.result? = some r) :
      let g := Pool.net step Accepted (counts (cStr md5)) i sched (pool user_name md5 filename n w)
      r = 0 ∧ g = (1, 1) ∨ r ≠ 0 ∧ g = 0 := by
    obtain ⟨hi, -⟩ := List.getElem?_eq_some_iff.mp ht
    have hstart : (pool user_name md5 filename n w).threads[i]? =
        some ((), handleSaveFile user_name md5 filename) :=
      List.getElem?_replicate_of_lt (hlength ▸ hi)
    have hnets := Pool.net_of_nets hplay hstart (handleSaveFile_makes user_name md5 filename) ht
    rw [zero_add] at hnets
    obtain ⟨l, q⟩ := t
    cases q with
    | call c k => cases hr
    | ret r' =>
        cases hr
        exact hnets
  have hpairs (i : Fin (pool user_name md5 filename n w).threads.length) :
      let g := Pool.net step Accepted (counts (cStr md5)) i sched (pool user_name md5 filename n w)
      g.1 = g.2 ∧ 0 ≤ g.2 := by
    have hi : (i : ℕ) < p.threads.length := by
      have hlt := i.isLt
      simp only [pool, List.length_replicate] at hlt
      omega
    have ht := List.getElem?_eq_getElem hi
    obtain ⟨r, hr⟩ := Option.isSome_iff_exists.mp (hfin _ (List.getElem_mem hi))
    rcases hmade i _ ht r hr with ⟨-, hg⟩ | ⟨-, hg⟩ <;> rw [hg] <;> decide
  have hsum := Pool.sum_net (f := counts (cStr md5)) hplay
  have hfst := congrArg Prod.fst hsum
  have hsnd := congrArg Prod.snd hsum
  rw [Prod.fst_sum] at hfst
  rw [Prod.snd_sum] at hsnd
  have hequal : (counts (cStr md5) p.st - counts (cStr md5) w).1 =
      (counts (cStr md5) p.st - counts (cStr md5) w).2 :=
    hfst.symm.trans ((Finset.sum_congr rfl fun i _ => (hpairs i).1).trans hsnd)
  have hnonneg : 0 ≤ (counts (cStr md5) p.st - counts (cStr md5) w).2 :=
    (Finset.sum_nonneg fun i _ => (hpairs i).2).trans_eq hsnd
  simp only [counts, Prod.mk_sub_mk] at hequal hnonneg
  exact ⟨hequal, by omega, (OneRow.reached hrun).most,
    fun i t r ht hr hne => (hmade i t ht r hr).elim (fun h => absurd h.1 hne) fun h => h.2⟩

/-- Where every insert sent is accepted, the counter rises by the rows added, one
at most, and a call that does not return 0 has changed neither. -/
theorem saved_once (server : SqlServer) {K : Bytes → Prop} (hK : server.Tells K)
    {user_name md5 filename : Bytes} (huser : K user_name) (hmd5 : K md5) (hname : K filename)
    (n : ℕ) {w : World} (hw : w.db.Known K) {sched : List (ℕ × Ans)}
    {p : Pool Unit Call Resp Int World}
    (hplay : Pool.play server.step (Regularly Accepted) sched
      (pool user_name md5 filename n w) = some p)
    (hfin : p.Finished) :
    (p.st.db.count? (cStr md5)).getD 0 - (w.db.count? (cStr md5)).getD 0 =
        (p.st.db.refs (cStr md5) : Int) - w.db.refs (cStr md5) ∧
      w.db.refs (cStr md5) ≤ p.st.db.refs (cStr md5) ∧
      p.st.db.refs (cStr md5) ≤ w.db.refs (cStr md5) + 1 ∧
      ∀ i t r, p.threads[i]? = some t → t.2.result? = some r → r ≠ 0 →
        Pool.net server.step (Regularly Accepted) (counts (cStr md5)) i sched
          (pool user_name md5 filename n w) = 0 := by
  have hasks : ∀ t ∈ (pool user_name md5 filename n w).threads, KnownCalls K t.2 := by
    intro t ht
    rw [List.eq_of_mem_replicate ht]
    exact known_handleSaveFile huser hmd5 hname
  have hnet := hK.net_eq hw hasks hplay (counts (cStr md5))
  simp only [hnet]
  exact saved_of_play user_name md5 filename n w (hK.play hw hasks hplay) hfin

/-! A file of one user, saved twice for another. -/

def knownFile : World :=
  { World.empty with
    db :=
      { Db.empty with
        userFileList := ⟨[⟨ascii "u", ascii "m", ascii "now", ascii "f", 0, 0⟩], by decide⟩
        fileInfo := ⟨[⟨ascii "m", ascii "x", ascii "http", 1, ascii "txt", 1⟩], by decide⟩ } }

def savedTwice : Pool Unit Call Resp Int World :=
  pool (ascii "v") (ascii "m") (ascii "f") 2 knownFile

theorem known_knownFile : knownFile.db.Known Plain := by
  refine ⟨?_, ?_, nofun, nofun, nofun⟩ <;> decide

/-- One after the other: the second call finds the row. -/
theorem savedTwice_once :
    ∃ p, Pool.play SqlServer.strict.step (Regularly Accepted)
        (schedule [0, 0, 0, 0, 0, 0, 0, 1, 1]) savedTwice = some p ∧
      p.Finished ∧
      (p.st.db.count? (ascii "m")).getD 0 - 1 = (p.st.db.refs (ascii "m") : Int) - 1 := by
  have hplayed : ((Pool.play SqlServer.strict.step (Regularly Accepted)
      (schedule [0, 0, 0, 0, 0, 0, 0, 1, 1]) savedTwice).any fun p =>
        p.threads.all fun t => (t.2.result?).isSome) = true := by
    decide +kernel
  obtain ⟨p, hp, hfin⟩ := Option.any_eq_true _ _ |>.mp hplayed
  have hfin : p.Finished := by simpa [Pool.Finished] using hfin
  have huser : Plain (ascii "v") := by decide
  have hmd5 : Plain (ascii "m") := by decide
  have hname : Plain (ascii "f") := by decide
  have hsaved := saved_once _ SqlServer.strict_tells huser hmd5 hname 2 known_knownFile hp hfin
  have hm : cStr (ascii "m") = ascii "m" := by decide
  have hcount : (knownFile.db.count? (ascii "m")).getD 0 = 1 := by decide
  have hrefs : knownFile.db.refs (ascii "m") = 1 := by decide
  rw [hm, hcount, hrefs] at hsaved
  exact ⟨p, hp, hfin, hsaved.1⟩

/-- Both look for the row before either inserts it: the counter goes up twice. -/
theorem savedTwice_countedTwice :
    (knownFile.db.count? (ascii "m")).getD 0 = knownFile.db.refs (ascii "m") ∧
    ¬∀ sched p, Pool.play SqlServer.strict.step (fun _ _ _ => True) sched savedTwice = some p →
      p.Finished →
      (p.st.db.count? (ascii "m")).getD 0 - (knownFile.db.count? (ascii "m")).getD 0 =
          (p.st.db.refs (ascii "m") : Int) - knownFile.db.refs (ascii "m") := by
  refine ⟨by decide, fun hall => ?_⟩
  have hplayed : ((Pool.play SqlServer.strict.step (fun _ _ _ => True)
      (schedule [0, 0, 1, 1, 0, 0, 0, 1, 1, 1, 0, 1, 0, 1]) savedTwice).any fun p =>
        (p.threads.all fun t => (t.2.result?).isSome) &&
        decide (p.st.db.count? (ascii "m") = some 3) &&
        decide (p.st.db.refs (ascii "m") = 2)) = true := by
    decide +kernel
  obtain ⟨p, hp, hend⟩ := Option.any_eq_true _ _ |>.mp hplayed
  simp only [Bool.and_eq_true, decide_eq_true_eq] at hend
  obtain ⟨⟨hfin, hcount⟩, hrefs⟩ := hend
  have hequal := hall _ p hp (by simpa [Pool.Finished] using hfin)
  rw [hcount, hrefs] at hequal
  exact absurd hequal (by decide)

end SaveFile

end FileHub
