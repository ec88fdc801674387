import FileHub.Api.Sharepicture
import FileHub.Lib.History
import FileHub.Proofs.KnownCalls
import FileHub.Proofs.NoFault

/-!
# Links to shared pictures

The link of a shared picture is 32 letters from `rand()`, which nothing seeds:
the sequence starts over with every start of the server. So the letters depend
on one thing only, how many pictures were shared since the start, and the n-th
share after one start gives the link of the n-th share after another.

The rows of `share_picture_list` say which links were given
(`urlmd5s_foldl`); whether they are distinct is then a question about the
positions at which shares went through.
-/

namespace FileHub

open Lib
open Lib.Sql (Plain plain_of_forall)
open Table (filter_key find?_eq_some)

namespace SharePicture

/-! ## The runs -/

/-- A request to share, with the outcomes of its calls, or a restart. -/
inductive PictureEvent where
  | share (user filemd5 file_name : Bytes) (ω : ℕ → Ans)
  | restart

/-- A start of the server: the stores persist, the numbers start over. -/
def restarted (w : World) : World := { w with locked := false, randPos := 0 }

/-- A request that crashes ends the process. -/
def next (w : World) : PictureEvent → World
  | .share user filemd5 file_name ω =>
      match runIn ω (handleSharePicture user filemd5 file_name) w with
      | ⟨some _, w', _⟩ => w'
      | ⟨none, w', _⟩ => restarted w'
  | .restart => restarted w

/-- A first start, with whatever there is but shared pictures. -/
def installed (w : World) : World :=
  restarted { w with db := { w.db with sharePictureList := [] } }

/-- The same with the statements sent to a server. -/
def nextOn (server : SqlServer) (w : World) : PictureEvent → World
  | .share user filemd5 file_name ω =>
      match server.runIn ω (handleSharePicture user filemd5 file_name) w with
      | ⟨some _, w', _⟩ => w'
      | ⟨none, w', _⟩ => restarted w'
  | .restart => restarted w

/-! ## Links that are unique -/

/-- Links are distinct, and `handleBrowsePicture` finds the picture of each. -/
structure LinksUnique (server : SqlServer) (w : World) : Prop where
  distinct : (w.db.sharePictureList.map PictureRow.urlmd5).Nodup
  found : ∀ row ∈ w.db.sharePictureList,
    server.select (.picture row.urlmd5) w.db = some [row]

/-! ## The positions of the shares -/

/-- What the share at position `k` since the start draws. -/
def letters (randSeq : ℕ → ℕ) (k : ℕ) : Bytes :=
  (List.range 32).map fun i => (97 + randSeq (32 * k + i) % 26).toUInt8

/-- The positions, each counted from the last start, of the shares whose
connection and `INSERT` succeed. -/
def positions : ℕ → List PictureEvent → List ℕ
  | _, [] => []
  | _, .restart :: events => positions 0 events
  | k, .share _ _ _ ω :: events =>
      if ¬(ω 0).ok then positions 0 events
      else if (ω 34).ok then k :: positions (k + 1) events
      else positions (k + 1) events

variable {w : World} {ω : ℕ → Ans} {row : PictureRow} {events : List PictureEvent} {k : ℕ}

theorem positions_mono {pre : List PictureEvent} (h : pre <+: events) :
    positions k pre <+: positions k events := by
  induction pre generalizing k events with
  | nil => exact List.nil_prefix
  | cons e pre ih =>
      obtain ⟨rest, rfl⟩ := h
      have hpre : pre <+: pre ++ rest := List.prefix_append pre rest
      cases e with
      | restart => exact ih hpre
      | share user filemd5 file_name ω =>
          rw [List.cons_append, positions, positions]
          split
          · exact ih hpre
          · split
            · exact List.cons_prefix_cons.mpr ⟨rfl, ih hpre⟩
            · exact ih hpre

/-! ## One request -/

theorem exec_randomString (n : ℕ) (ω : ℕ → Ans) (w : World) :
    runIn ω (randomString n) w =
      ⟨some ((List.range n).map fun i => (97 + w.randSeq (w.randPos + i) % 26).toUInt8),
        { w with randPos := w.randPos + n }, fun i => ω (i + n)⟩ := by
  induction n generalizing ω w with
  | zero => rfl
  | succ n ih =>
      rw [randomString, Prog.ask_bind, runIn, Prog.exec_call_some rfl,
        Prog.exec_bind_some (ih _ _)]
      have hpos (i : ℕ) : w.randPos + 1 + i = w.randPos + (i + 1) := by omega
      rw [List.range_succ_eq_map, List.map_cons, List.map_map]
      simp only [Prog.pure_eq, Prog.exec_ret, hpos]
      rfl

theorem exec_letters (hpos : w.randPos = 32 * k) (ω : ℕ → Ans) :
    runIn ω (randomString 32) w =
      ⟨some (letters w.randSeq k), { w with randPos := 32 * (k + 1) }, fun i => ω (i + 32)⟩ := by
  rw [exec_randomString, hpos, letters, Nat.mul_succ]

theorem letters_nonzero (randSeq : ℕ → ℕ) (k : ℕ) : ∀ b ∈ letters randSeq k, b ≠ 0 := by
  intro b hb
  obtain ⟨i, -, rfl⟩ := List.mem_map.mp hb
  have hmod := Nat.mod_lt (randSeq (32 * k + i)) (show 26 > 0 by decide)
  intro h
  have hnat := congrArg UInt8.toNat h
  rw [Nat.toUInt8, UInt8.toNat_ofNat'] at hnat
  have hzero : UInt8.toNat 0 = 0 := rfl
  omega

/-- The row of a share. -/
def rowOf (user filemd5 file_name : Bytes) (randSeq : ℕ → ℕ) (k : ℕ) (create_time : Bytes) :
    PictureRow :=
  ⟨cStr user, cStr filemd5, cStr file_name, cStr (letters randSeq k), [], 0, cStr create_time⟩

/-- A request at position `k`: it crashes, inserts its row, or leaves the table. -/
theorem next_share (hpos : w.randPos = 32 * k) (user filemd5 file_name : Bytes) (ω : ℕ → Ans) :
    next w (.share user filemd5 file_name ω) =
      if ¬(ω 0).ok then restarted w
      else if (ω 34).ok then
        { w with
          db := { w.db with sharePictureList := w.db.sharePictureList ++
            [rowOf user filemd5 file_name w.randSeq k (ω 33).text] }
          randPos := 32 * (k + 1) }
      else { w with randPos := 32 * (k + 1) } := by
  have hdraw := exec_letters hpos fun n => ω (n + 1)
  have hrun : runIn ω (handleSharePicture user filemd5 file_name) w =
      runIn (fun n => ω (n + 33)) (do
        let create_time : Bytes ← Prog.ask Call.localtime
        let inserted ← CDBConn.executeCreate ⟨decide (ω 0).ok⟩ (.insertPicture
          ⟨user, filemd5, file_name, letters w.randSeq k, [], 0, create_time⟩)
        return encodeSharePictureJson (if inserted then HTTP_RESP_OK else HTTP_RESP_FAIL)
          (letters w.randSeq k)) { w with randPos := 32 * (k + 1) } := by
    rw [handleSharePicture]
    generalize randomString 32 = draw at hdraw ⊢
    rw [runIn, getDBConn, Prog.ask_bind, Prog.call_bind, Prog.exec_call_some rfl]
    exact Prog.exec_bind_some hdraw
  rw [next, hrun]
  by_cases h0 : (ω 0).ok
  · rw [if_neg (not_not_intro h0), decide_eq_true h0]
    rw [Prog.ask_bind, runIn, Prog.exec_call_some rfl, CDBConn.executeCreate, CDBConn.execute,
      if_pos rfl, Prog.ask_bind, Prog.call_bind]
    by_cases h34 : (ω 34).ok
    · have hstep : step (.dml (.insertPicture ⟨user, filemd5, file_name, letters w.randSeq k, [], 0,
          (ω 33).text⟩)) (ω 34) { w with randPos := 32 * (k + 1) } =
          some (some 1, { w with
            db := { w.db with sharePictureList := w.db.sharePictureList ++
              [rowOf user filemd5 file_name w.randSeq k (ω 33).text] }
            randPos := 32 * (k + 1) }) := by
        rw [step_dml h34]
        rfl
      rw [if_pos h34, Prog.exec_call_some hstep]
      rfl
    · rw [if_neg h34, Prog.exec_call_some (step_dml_of_not_ok h34 _ _)]
      rfl
  · rw [if_pos h0, decide_eq_false h0]
    rfl

/-! ## A run -/

/-- What a run keeps: the rows hold C strings. -/
def Stored (w : World) : Prop :=
  ∀ row ∈ w.db.sharePictureList, cStr row.urlmd5 = row.urlmd5 ∧ cStr row.filemd5 = row.filemd5

theorem stored_next (e : PictureEvent) (hpos : w.randPos = 32 * k) (h : Stored w) :
    Stored (next w e) := by
  cases e with
  | restart => exact h
  | share user filemd5 file_name ω =>
      rw [next_share hpos]
      split
      · exact h
      · split
        · intro row hrow
          rcases List.mem_append.mp hrow with hrow | hrow
          · exact h row hrow
          · rw [List.mem_singleton.mp hrow]
            exact ⟨cStr_cStr _, cStr_cStr _⟩
        · exact h

theorem foldl_next (events : List PictureEvent) (hpos : w.randPos = 32 * k) (h : Stored w) :
    Stored (events.foldl next w) ∧
      (events.foldl next w).db.sharePictureList.map PictureRow.urlmd5 =
        w.db.sharePictureList.map PictureRow.urlmd5 ++
          (positions k events).map (letters w.randSeq) := by
  induction events generalizing w k with
  | nil => exact ⟨h, (List.append_nil _).symm⟩
  | cons e events ih =>
      have hnext := stored_next e hpos h
      rw [List.foldl_cons]
      cases e with
      | restart => exact ih (k := 0) rfl hnext
      | share user filemd5 file_name ω =>
          rw [positions]
          rw [next_share hpos] at hnext ⊢
          by_cases h0 : ¬(ω 0).ok
          · rw [if_pos h0] at hnext ⊢
            rw [if_pos h0]
            exact ih (k := 0) rfl hnext
          rw [if_neg h0] at hnext ⊢
          rw [if_neg h0]
          by_cases h34 : (ω 34).ok
          · rw [if_pos h34] at hnext ⊢
            rw [if_pos h34]
            obtain ⟨hstored, hurls⟩ := ih (k := k + 1) rfl hnext
            refine ⟨hstored, hurls.trans ?_⟩
            have hlink : (rowOf user filemd5 file_name w.randSeq k (ω 33).text).urlmd5 =
                letters w.randSeq k := cStr_of_forall (letters_nonzero w.randSeq k)
            rw [List.map_append, List.map_singleton, hlink, List.append_assoc]
            rfl
          · rw [if_neg h34] at hnext ⊢
            rw [if_neg h34]
            exact ih (k := k + 1) rfl hnext

/-- Where the links are distinct, each finds its row. -/
theorem found_of_distinct (h : Stored w)
    (hdistinct : (w.db.sharePictureList.map PictureRow.urlmd5).Nodup)
    (hrow : row ∈ w.db.sharePictureList) : (Select.picture row.urlmd5).run w.db = some [row] := by
  have hfilter := filter_key (⟨_, hdistinct⟩ : Table PictureRow PictureRow.urlmd5) row.urlmd5
  rw [find?_eq_some.mpr ⟨hrow, rfl⟩] at hfilter
  rw [Select.run, (h row hrow).1, hfilter]
  rfl

/-- Browsing such a link counts the picture and writes the answer for it, if
`file_info` has the file and no call fails. -/
theorem browsedPicture_found (h : Stored w) (hrow : row ∈ w.db.sharePictureList)
    (hpicture : (Select.picture row.urlmd5).run w.db = some [row]) {file : FileInfoRow}
    (hfile : file ∈ w.db.fileInfo.rows) (hkey : file.md5 = row.filemd5) (hω : NoFail ω) :
    (runIn ω (browsedPicture row.urlmd5) w).res =
      some (.object [(ascii "code", .int HTTP_RESP_OK), (ascii "pv", .int (asInt (row.pv + 1))),
        (ascii "url", .str (cStr file.url)), (ascii "user", .str (cStr row.user)),
        (ascii "time", .str (cStr row.createTime))]) := by
  obtain ⟨hurl, hmd5⟩ := h row hrow
  have hfind : (Select.fileInfo row.filemd5).run w.db = some [file] := by
    rw [Db.run_fileInfo, Db.info, hmd5, find?_eq_some.mpr ⟨hfile, hkey⟩]
    rfl
  have hensures : Ensures (fun _ => False) (fun answer _ => answer =
      .object [(ascii "code", .int HTTP_RESP_OK), (ascii "pv", .int (asInt (row.pv + 1))),
        (ascii "url", .str (cStr file.url)), (ascii "user", .str (cStr row.user)),
        (ascii "time", .str (cStr row.createTime))]) (browsedPicture row.urlmd5) w := by
    rw [browsedPicture]
    rw [ensures_bind, ensures_getDBConn, ensures_bind]
    refine (ensures_executeQuery (.picture row.urlmd5) _).mpr ?_
    rw [hpicture]
    refine (ensures_bind ..).mpr ((ensures_executeQuery (.fileInfo row.filemd5) _).mpr ?_)
    rw [hfind]
    refine (ensures_bind ..).mpr ((ensures_executeUpdate ..).mpr ?_)
    have hcounted : 0 < w.db.sharePictureList.countP fun r => r.urlmd5 = row.urlmd5 :=
      List.countP_pos_iff.mpr ⟨row, hrow, decide_eq_true rfl⟩
    simp only [Dml.format, Dml.exec, hurl, Option.any_some, hcounted, decide_true, Bool.true_or]
    exact rfl
  obtain ⟨answer, hres, rfl⟩ := Prog.Wp.returns hensures hω
  exact hres

/-! ## Runs of any length -/

/-- The request brings known strings; the time can stand between quotes, and no
call that took effect is reported as failed. -/
def PictureEvent.Known (K : Bytes → Prop) : PictureEvent → Prop
  | .share user filemd5 file_name ω =>
      K user ∧ K filemd5 ∧ K file_name ∧ (∀ n, (ω n).fault ≠ .lost) ∧ PlainTexts ω
  | .restart => True

section

variable {server : SqlServer} {K : Bytes → Prop}

theorem nextOn_eq (hK : server.Tells K) (hletters : ∀ s, IsLetters 32 s → K s)
    {e : PictureEvent} (he : e.Known K) (hw : w.db.Known K) :
    nextOn server w e = next w e ∧ (next w e).db.Known K := by
  cases e with
  | restart => exact ⟨rfl, hw⟩
  | share user filemd5 file_name ω =>
      obtain ⟨huser, hmd5, hname, hlost, htexts⟩ := he
      have hasks := known_handleSharePicture hletters huser hmd5 hname
      have hregular := server.regular_of_plain hlost htexts
        (handleSharePicture user filemd5 file_name) w
      refine ⟨?_, ?_⟩
      · rw [nextOn, next, hK.runIn_eq hasks hw hregular]
      · have hst := hK.known_st hasks hw hregular
        rw [next]
        split <;> next hrun => rw [hrun] at hst; exact hst

/-- After a first start, links of known strings are distinct and found throughout
a run exactly if no two shares that went through stood at positions with the
same letters. -/
theorem linksUnique_iff (server : SqlServer) {K : Bytes → Prop} (hK : server.Tells K)
    (hletters : ∀ s, IsLetters 32 s → K s) {w : World} (hw : (installed w).db.Known K)
    {events : List PictureEvent} (hevents : ∀ e ∈ events, e.Known K) :
    Throughout (nextOn server) (LinksUnique server) events (installed w) ↔
      ((positions 0 events).map (letters w.randSeq)).Nodup := by
  have hnext : ∀ e ∈ events, ∀ w : World, w.db.Known K → True →
      nextOn server w e = next w e ∧ (next w e).db.Known K :=
    fun e he w hw _ => nextOn_eq hK hletters (hevents e he) hw
  rw [meets_true.throughout_congr hnext hw, throughout_iff_foldl]
  have hrun (pre : List PictureEvent) := foldl_next (w := installed w) (k := 0) pre rfl nofun
  have hurls (pre : List PictureEvent) :
      (pre.foldl next (installed w)).db.sharePictureList.map PictureRow.urlmd5 =
        (positions 0 pre).map (letters w.randSeq) := (hrun pre).2
  constructor
  · intro h
    rw [← hurls]
    exact (h events List.prefix_rfl).distinct
  · intro h pre hpre
    have hdistinct := h.sublist ((positions_mono hpre).sublist.map (letters w.randSeq))
    rw [← hurls] at hdistinct
    have hknown : (pre.foldl next (installed w)).db.Known K :=
      List.foldlRecOn pre next hw fun w hw e he => (hnext e (hpre.subset he) w hw trivial).2
    refine ⟨hdistinct, fun row hrow => ?_⟩
    rw [SqlServer.select_of_known hK hknown]
    · exact found_of_distinct (hrun pre).1 hdistinct hrow
    · exact known_one (hknown.pictures row hrow).2.2.2

end

/-! Two users share a picture each, one after the other or with a restart between. -/

def shareBoth (between : List PictureEvent) : List PictureEvent :=
  .share (ascii "u") (ascii "m") (ascii "a.png") allSucceed ::
    (between ++ [.share (ascii "v") (ascii "n") (ascii "b.png") allSucceed])

def counting : World := World.init (fun _ _ => 0) id

theorem shareBoth_linksUnique :
    Throughout (nextOn .strict) (LinksUnique .strict) (shareBoth []) (installed counting) := by
  refine (linksUnique_iff _ SqlServer.strict_tells (fun s hs => ?_) .empty fun e he => ?_).mpr
    (by decide)
  · refine plain_of_forall fun b hb => ?_
    have hletter := (hs.2 b hb).1
    refine ⟨?_, ?_, ?_⟩ <;> rintro rfl <;> revert hletter <;> decide
  · simp only [shareBoth, List.nil_append, List.mem_cons, List.not_mem_nil, or_false] at he
    rcases he with rfl | rfl
    all_goals exact ⟨by decide, by decide, by decide, noFail_allSucceed.not_lost, fun _ => trivial⟩

theorem acrossRestart_sameLink :
    ¬Throughout (nextOn .strict) (LinksUnique .strict) (shareBoth [.restart])
      (installed counting) := by
  intro h
  have hdistinct := (throughout_iff_foldl.mp h (shareBoth [.restart]) List.prefix_rfl).distinct
  revert hdistinct
  decide +kernel

end SharePicture

end FileHub
