import FileHub.Proofs.ReplyItems

/-!
# Replies do not depend on how the socket cut them

`redisBufferRead` feeds the reader whatever one `read` returned, so a reply
may come in any number of pieces, or several in one. The reader is an
incremental reader in the sense of `Lib/Incremental` (`readItem_lawful`): its
state between two items is the task stack, its input the bytes from the cursor
on. What a new reader returned and what is left in its buffer always make up
the replies of everything it was fed (`Accounted`), whatever the sequence of
calls of `redisReaderFeed` and `redisReaderGetReply` was.
-/

namespace FileHub.Hiredis

open Lib Lib.Incremental

/-! ## The reader as an incremental reader -/

/-- The four ways of one item on the unread bytes. -/
inductive ReadItem (rstack : List RedisReadTask) (input : Bytes) : Prop where
  | item (t : RedisReader) (h : processItem (reading (begun rstack) input) = (true, t))
      (err : t.err = none) (pos : 0 < t.pos) (fits : t.pos ≤ input.length) (emitted : Emitted t)
      (read : readItem rstack input = .next t.rstack t.pos t.reply)
  | failed (e : RedisError)
      (h : processItem (reading (begun rstack) input) = (false, ⟨some e, [], 0, [], none⟩))
      (read : readItem rstack input = .fail e)
  | waits (read : readItem rstack input = .more (begun rstack) 0)
  | typed (cur : RedisReadTask) (below : List RedisReadTask) (type : ReplyType)
      (hinput : input ≠ [])
      (h : ∀ more, processItem (reading (begun rstack) (input ++ more)) =
        processTyped (((reading (begun rstack) input).typed cur below type).fed more) type)
      (read : readItem rstack input = .more ({ cur with type := some type } :: below) 1)

theorem readItem_cases (rstack : List RedisReadTask) (input : Bytes) : ReadItem rstack input := by
  have hr := ready_reading rstack input
  rcases processItem_outcome hr with hout | ⟨cur, below, type, hinput, h, hfed⟩
  · generalize ht : processItem (reading (begun rstack) input) = t at hout
    cases hout with
    | item err buf pos fits emitted =>
        refine .item _ ht err pos fits emitted ?_
        rw [readItem, ht]
        rfl
    | failed e =>
        refine .failed e ht ?_
        rw [readItem, ht]
        rfl
    | waits =>
        refine .waits ?_
        rw [readItem, ht]
        rfl
  · refine .typed cur below type hinput hfed ?_
    rw [readItem, h]
    rfl

theorem begun_begun (rstack : List RedisReadTask) : begun (begun rstack) = begun rstack :=
  begun_of_ne_nil (ready_reading rstack []).rstack

theorem itemOf_waits {r : RedisReader} (h : r.err = none) :
    itemOf (false, r) = .more r.rstack r.pos := by
  simp [itemOf, h]

theorem itemOf_fed {t : RedisReader} {b : Bool} (more : Bytes) (h : t.err = none) :
    itemOf (carry (·.fed more) (b, t)) = itemOf (b, t) := by
  rw [carry_ok _ h]
  rfl

/-- A finished item does not see what follows. -/
theorem readItem_append {rstack : List RedisReadTask} {input : Bytes} (more : Bytes)
    (hb : (input ++ more).length ≤ INT_MAX)
    (hdone : (processItem (reading (begun rstack) input)).1 = true ∨
      (processItem (reading (begun rstack) input)).2.err.isSome) :
    readItem rstack (input ++ more) =
      itemOf (carry (·.fed more) (processItem (reading (begun rstack) input))) := by
  rw [readItem, ← processItem_fed (ready_reading rstack input) more hb hdone]
  rfl

/-- hiredis reads a stream of replies the same way wherever it was cut. -/
theorem readItem_lawful : Lawful INT_MAX readItem where
  consumes := by
    intro rstack input s n out h
    cases readItem_cases rstack input with
    | item t _ _ pos fits _ read =>
        rw [read] at h
        cases h
        exact ⟨pos, fits⟩
    | failed e _ read => rw [read] at h; cases h
    | waits read => rw [read] at h; cases h
    | typed cur below type _ _ read => rw [read] at h; cases h
  noted := by
    intro rstack input s n h
    cases readItem_cases rstack input with
    | item t _ _ _ _ _ read => rw [read] at h; cases h
    | failed e _ read => rw [read] at h; cases h
    | waits read =>
        rw [read] at h
        cases h
        exact Nat.zero_le _
    | typed cur below type hinput _ read =>
        rw [read] at h
        cases h
        exact List.length_pos_iff.mpr hinput
  next := by
    intro rstack input s n out more hb h
    cases readItem_cases rstack input with
    | item t ht err _ _ _ read =>
        rw [readItem_append more hb (.inl (by rw [ht])), ht, itemOf_fed more err, ← h, read]
        rfl
    | failed e _ read => rw [read] at h; cases h
    | waits read => rw [read] at h; cases h
    | typed cur below type _ _ read => rw [read] at h; cases h
  fail := by
    intro rstack input e more hb h
    cases readItem_cases rstack input with
    | item t _ _ _ _ _ read => rw [read] at h; cases h
    | failed e' ht read =>
        rw [readItem_append more hb (.inr (by rw [ht]; rfl)), ht, ← h, read]
        rfl
    | waits read => rw [read] at h; cases h
    | typed cur below type _ _ read => rw [read] at h; cases h
  more := by
    intro rstack input s n more hb h
    cases readItem_cases rstack input with
    | item t _ _ _ _ _ read => rw [read] at h; cases h
    | failed e _ read => rw [read] at h; cases h
    | waits read =>
        rw [read] at h
        cases h
        rw [readItem, readItem, begun_begun, List.drop_zero]
        cases itemOf (processItem (reading (begun rstack) (input ++ more))) with
        | next t k out => rw [shifted, Nat.zero_add]
        | more t k => rw [shifted, Nat.zero_add]
        | fail e => rfl
    | typed cur below type hinput hfed read =>
        rw [read] at h
        cases h
        obtain ⟨b, rest, rfl⟩ := List.exists_cons_of_ne_nil hinput
        have hstack := begun_of_ne_nil
          (List.cons_ne_nil { cur with type := some type } below)
        have hready : Ready (reading ({ cur with type := some type } :: below) (rest ++ more)) := by
          have := ready_reading ({ cur with type := some type } :: below) (rest ++ more)
          rwa [hstack] at this
        have hbehind : ((reading (begun rstack) (b :: rest)).typed cur below type).fed more =
            (reading ({ cur with type := some type } :: below) (rest ++ more)).behind [b] := rfl
        have hout := processTyped_outcome hready type
        rw [readItem, hfed, hbehind, processTyped_behind _ rfl, itemOf_behind]
        · rw [readItem, hstack]
          rfl
        · intro htrue
          generalize processTyped (reading ({ cur with type := some type } :: below) (rest ++ more))
            type = t at hout htrue
          cases hout with
          | item err _ _ _ _ => exact err
          | failed e => cases htrue
          | waits => rfl

/-! ## `redisReaderGetReply` -/

/-- A reader between two calls. -/
structure Idle (r : RedisReader) : Prop where
  err : r.err = none
  pos : r.pos ≤ r.buf.length
  reply : r.reply = none

/-- The replies in what is unread, and where reading them ends. -/
def remaining (r : RedisReader) :
    List RedisReply × Stopped (List RedisReadTask) UInt8 RedisError :=
  run readItem r.rstack r.unread

theorem run_begun (rstack : List RedisReadTask) (input : Bytes) :
    run readItem (begun rstack) input = run readItem rstack input := by
  have hitem : readItem (begun rstack) input = readItem rstack input := by
    rw [readItem, readItem, begun_begun]
  rw [run, run, readItems, readItems, hitem]

/-- What the loop of `redisReaderGetReply` makes of a reader. -/
inductive Looped (r s : RedisReader) : Prop where
  | reply (x : RedisReply) (hreply : s.reply = some x) (err : s.err = none)
      (pos : s.pos ≤ s.buf.length) (rstack : s.rstack = [])
      (shorter : s.unread.length ≤ r.unread.length)
      (h : remaining r = (x :: (remaining s).1, (remaining s).2))
  | waits (ready : Ready s) (shorter : s.unread.length ≤ r.unread.length)
      (h : remaining r = ([], .waiting s.rstack s.unread))
  | failed (e : RedisError) (err : s = ⟨some e, [], 0, [], none⟩)
      (h : remaining r = ([], .failed e))

theorem Looped.trans {r s t : RedisReader} (hshort : s.unread.length ≤ r.unread.length)
    (h : remaining r = remaining s) (hs : Looped s t) : Looped r t := by
  cases hs with
  | reply x hreply err pos rstack shorter h' =>
      exact .reply x hreply err pos rstack (by omega) (h.trans h')
  | waits ready shorter h' => exact .waits ready (by omega) (h.trans h')
  | failed e err h' => exact .failed e err (h.trans h')

theorem shifted_eq_next {n k : ℕ} {i : Item (List RedisReadTask) RedisReply RedisError}
    {s : List RedisReadTask} {out : Option RedisReply} (h : shifted n i = .next s k out) :
    ∃ m, i = .next s m out ∧ k = n + m := by
  cases i with
  | next t m o => cases h; exact ⟨m, rfl, rfl⟩
  | more t m => cases h
  | fail e => cases h

theorem shifted_eq_more {n k : ℕ} {i : Item (List RedisReadTask) RedisReply RedisError}
    {s : List RedisReadTask} (h : shifted n i = .more s k) : ∃ m, i = .more s m ∧ k = n + m := by
  cases i with
  | next t m o => cases h
  | more t m => cases h; exact ⟨m, rfl, rfl⟩
  | fail e => cases h

theorem shifted_eq_fail {n : ℕ} {i : Item (List RedisReadTask) RedisReply RedisError}
    {e : RedisError} (h : shifted n i = .fail e) : i = .fail e := by
  cases i with
  | next t m o => cases h
  | more t m => cases h
  | fail e' => exact h

theorem unread_drop {r s : RedisReader} {m : ℕ} (hbuf : s.buf = r.buf) (hpos : s.pos = r.pos + m) :
    s.unread = r.unread.drop m := by
  rw [RedisReader.unread, RedisReader.unread, hbuf, hpos, List.drop_drop]

/-- The loop reads up to the first reply, or as far as the bytes go. -/
theorem processItems_looped {fuel : ℕ} {r : RedisReader} (hr : Ready r)
    (hf : r.unread.length < fuel) : Looped r (processItems fuel r) := by
  induction fuel generalizing r with
  | zero => omega
  | succ fuel ih =>
      have hitem := itemOf_processItem hr
      rw [processItems, if_neg hr.rstack]
      rcases processItem_outcome hr with hout | ⟨cur, below, type, hunread, h, -⟩
      · generalize hp : processItem r = p at hout hitem ⊢
        cases hout with
        | @item t err buf pos fits emitted =>
            have hnext : shifted r.pos (readItem r.rstack r.unread) =
                .next t.rstack t.pos t.reply := hitem.symm
            obtain ⟨m, hread, hm⟩ := shifted_eq_next hnext
            have hdrop := unread_drop buf hm
            have hlen : t.unread.length + m ≤ r.unread.length := by
              rw [length_unread, length_unread, buf]
              omega
            have hrun : remaining r =
                (t.reply.toList ++ (remaining t).1, (remaining t).2) := by
              rw [remaining, run_next readItem_lawful hread, ← hdrop]
              rfl
            show Looped r (processItems fuel t)
            rcases emitted with ⟨hnil, x, hx⟩ | ⟨hcons, hnone⟩
            · have hstop : processItems fuel t = t := by
                cases fuel with
                | zero => rfl
                | succ fuel => rw [processItems, if_pos hnil]
              rw [hstop]
              rw [hx] at hrun
              exact .reply x hx err (buf ▸ fits) hnil (by omega) hrun
            · rw [hnone] at hrun
              have hready : Ready t := ⟨err, buf ▸ fits, hcons, hnone⟩
              exact (ih hready (by omega)).trans (by omega) hrun
        | failed e =>
            have hread := shifted_eq_fail (e := e) hitem.symm
            exact .failed e rfl (run_fail hread)
        | waits =>
            obtain ⟨m, hread, hm⟩ := shifted_eq_more (hitem.symm.trans (itemOf_waits hr.err))
            have hzero : m = 0 := by omega
            subst hzero
            exact .waits hr (Nat.le_refl _) (run_more hread)
      · rw [h] at hitem ⊢
        have hready := hr.typed hunread cur below type
        obtain ⟨m, hread, hm⟩ := shifted_eq_more (hitem.symm.trans (itemOf_waits hready.err))
        have hpos : r.pos + 1 = r.pos + m := hm
        have hone : m = 1 := by omega
        subst hone
        have hdrop : (r.typed cur below type).unread = r.unread.drop 1 := unread_drop rfl rfl
        refine .waits hready ?_ ?_
        · show (r.typed cur below type).unread.length ≤ _
          rw [hdrop, List.length_drop]
          omega
        · show remaining r = ([], .waiting _ (r.typed cur below type).unread)
          rw [hdrop]
          exact run_more hread

/-- What `redisReaderGetReply` makes of a reader. -/
inductive Got (r : RedisReader) : Bool × Option RedisReply × RedisReader → Prop where
  | reply (x : RedisReply) {s : RedisReader} (idle : Idle s)
      (shorter : s.unread.length ≤ r.unread.length)
      (h : remaining r = (x :: (remaining s).1, (remaining s).2)) : Got r (true, some x, s)
  | waits {s : RedisReader} (idle : Idle s) (shorter : s.unread.length ≤ r.unread.length)
      (exhausted : (remaining r).1 = []) (h : remaining r = remaining s) : Got r (true, none, s)
  | failed (e : RedisError) (h : remaining r = ([], .failed e)) :
      Got r (false, none, ⟨some e, [], 0, [], none⟩)

theorem unread_discard (r : RedisReader) : (discard r).unread = r.unread := by
  rw [discard]
  split
  · rfl
  · rfl

theorem idle_discard {r : RedisReader} (err : r.err = none) (pos : r.pos ≤ r.buf.length) :
    (discard r).err = none ∧ (discard r).pos ≤ (discard r).buf.length := by
  rw [discard]
  split
  · exact ⟨err, Nat.zero_le _⟩
  · exact ⟨err, pos⟩

theorem rstack_discard (r : RedisReader) : (discard r).rstack = r.rstack := by
  rw [discard]
  split
  · rfl
  · rfl

theorem reply_discard (r : RedisReader) : (discard r).reply = r.reply := by
  rw [discard]
  split
  · rfl
  · rfl

/-- Without input there is nothing to read. -/
theorem run_nil (rstack : List RedisReadTask) : (run readItem rstack []).1 = [] := by
  cases readItem_cases rstack [] with
  | item t _ _ pos fits _ _ =>
      rw [List.length_nil] at fits
      omega
  | failed e _ read => rw [run_fail read]
  | waits read => rw [run_more read]
  | typed cur below type hinput _ _ => exact absurd rfl hinput

/-- A reader that stopped has nothing to add where it stopped. -/
theorem run_waiting {rstack s : List RedisReadTask} {input unread : Bytes}
    (hb : input.length ≤ INT_MAX) (h : run readItem rstack input = ([], .waiting s unread)) :
    run readItem s unread = run readItem rstack input := by
  have happend : run readItem rstack (input ++ []) =
      resume readItem (run readItem rstack input) [] :=
    run_append readItem_lawful (by rw [List.append_nil]; exact hb)
  rw [List.append_nil, h, resume] at happend
  dsimp only at happend
  rw [List.append_nil, List.nil_append] at happend
  rw [h, happend]

theorem getReply_got {r : RedisReader} (hr : Idle r) (hb : r.unread.length ≤ INT_MAX) :
    Got r (redisReaderGetReply r) := by
  rw [redisReaderGetReply, if_neg (by rw [hr.err]; exact Bool.false_ne_true)]
  split
  · next hempty =>
    have hunread : r.unread = [] :=
      List.eq_nil_of_length_eq_zero (by rw [length_unread]; omega)
    refine .waits hr (Nat.le_refl _) ?_ rfl
    rw [remaining, hunread]
    exact run_nil r.rstack
  · have hstarted : (if r.rstack = [] then { r with rstack := [.root] } else r) =
        { r with rstack := begun r.rstack } := by
      rw [begun]
      split
      · rfl
      · rfl
    dsimp only
    rw [hstarted]
    have hready : Ready { r with rstack := begun r.rstack } :=
      ⟨hr.err, hr.pos, (ready_reading r.rstack []).rstack, hr.reply⟩
    have hsame : remaining { r with rstack := begun r.rstack } = remaining r :=
      run_begun r.rstack r.unread
    have hloop := processItems_looped hready (Nat.lt_succ_self _)
    generalize processItems _ { r with rstack := begun r.rstack } = s at hloop ⊢
    cases hloop with
    | reply x hreply err pos rstack shorter h =>
        have hidle := idle_discard err pos
        rw [if_neg (by rw [err]; exact Bool.false_ne_true),
          if_pos ((rstack_discard s).trans rstack), reply_discard, hreply]
        refine .reply x ⟨hidle.1, hidle.2, rfl⟩ ?_ ?_
        · show (discard s).unread.length ≤ _
          rw [unread_discard]
          exact shorter
        · rw [← hsame, h]
          show (x :: (remaining s).1, (remaining s).2) =
            (x :: (run readItem (discard s).rstack (discard s).unread).1,
              (run readItem (discard s).rstack (discard s).unread).2)
          rw [unread_discard, rstack_discard]
          rfl
    | waits ready shorter h =>
        have hidle := idle_discard ready.err ready.pos
        rw [if_neg (by rw [ready.err]; exact Bool.false_ne_true),
          if_neg (by rw [rstack_discard]; exact ready.rstack)]
        refine .waits ⟨hidle.1, hidle.2, (reply_discard s).trans ready.reply⟩ ?_ ?_ ?_
        · rw [unread_discard]
          exact shorter
        · rw [← hsame, h]
        · rw [← hsame, remaining, remaining, unread_discard, rstack_discard]
          exact (run_waiting hb h).symm
    | failed e err h =>
        subst err
        exact .failed e (hsame ▸ h)

/-! ## Any sequence of calls -/

/-- The calls of a reader. -/
inductive ReaderCall where
  | feed (bytes : Bytes)
  | getReply

/-- The replies returned so far, and the reader after another call. -/
def ReaderCall.step (t : List RedisReply × RedisReader) :
    ReaderCall → List RedisReply × RedisReader
  | .feed bytes => (t.1, (redisReaderFeed t.2 bytes).2)
  | .getReply => (t.1 ++ (redisReaderGetReply t.2).2.1.toList, (redisReaderGetReply t.2).2.2)

/-- A new reader after some calls. -/
def session (calls : List ReaderCall) : List RedisReply × RedisReader :=
  calls.foldl ReaderCall.step ([], .create)

/-- Everything a sequence of calls feeds. -/
def allFed : List ReaderCall → Bytes
  | [] => []
  | .feed bytes :: calls => bytes ++ allFed calls
  | .getReply :: calls => allFed calls

/-- What was returned and what remains to be read make up what reading all
of the input at once gives. -/
structure Accounted (fed : Bytes) (t : List RedisReply × RedisReader) : Prop where
  reading : t.2.err = none → Idle t.2 ∧ t.2.unread.length ≤ fed.length ∧
    run readItem [] fed = (t.1 ++ (remaining t.2).1, (remaining t.2).2)
  failed : ∀ e, t.2.err = some e → run readItem [] fed = (t.1, .failed e)

theorem accounted_feed {fed bytes : Bytes} {t : List RedisReply × RedisReader}
    (h : Accounted fed t) (hb : (fed ++ bytes).length ≤ INT_MAX) :
    Accounted (fed ++ bytes) (ReaderCall.step t (.feed bytes)) := by
  have happend := run_append readItem_lawful (s := []) hb
  cases herr : t.2.err with
  | some e =>
      have hsame : ReaderCall.step t (.feed bytes) = t := by
        rw [ReaderCall.step, redisReaderFeed, if_pos (by rw [herr]; rfl)]
      rw [hsame]
      refine ⟨fun hnone => absurd (hnone.symm.trans herr) (Option.some_ne_none e).symm, ?_⟩
      intro e' he'
      rw [happend, h.failed e' he']
      rfl
  | none =>
      obtain ⟨hidle, hlen, hrun⟩ := h.reading herr
      have hfed : ReaderCall.step t (.feed bytes) = (t.1, t.2.fed bytes) := by
        rw [ReaderCall.step, redisReaderFeed, if_neg (by rw [herr]; exact Bool.false_ne_true)]
        rfl
      rw [hfed]
      refine ⟨fun _ => ⟨⟨herr, ?_, hidle.reply⟩, ?_, ?_⟩,
        fun e he => absurd (herr.symm.trans he) (Option.some_ne_none e).symm⟩
      · show t.2.pos ≤ (t.2.buf ++ bytes).length
        rw [List.length_append]
        exact Nat.le_add_right_of_le hidle.pos
      · show (t.2.fed bytes).unread.length ≤ _
        rw [unread_fed bytes hidle.pos, List.length_append, List.length_append]
        omega
      · have hremaining : remaining (t.2.fed bytes) = resume readItem (remaining t.2) bytes := by
          rw [remaining, unread_fed bytes hidle.pos]
          refine run_append readItem_lawful ?_
          rw [List.length_append] at hb ⊢
          omega
        show _ = (t.1 ++ (remaining (t.2.fed bytes)).1, (remaining (t.2.fed bytes)).2)
        rw [happend, hrun, hremaining]
        obtain ⟨outs, stopped⟩ := remaining t.2
        cases stopped with
        | waiting s unread =>
            rw [resume, resume]
            dsimp only
            rw [List.append_assoc]
        | failed e => rfl

theorem accounted_getReply {fed : Bytes} {t : List RedisReply × RedisReader}
    (h : Accounted fed t) (hb : fed.length ≤ INT_MAX) :
    Accounted fed (ReaderCall.step t .getReply) := by
  cases herr : t.2.err with
  | some e =>
      have hsame : ReaderCall.step t .getReply = t := by
        rw [ReaderCall.step, redisReaderGetReply, if_pos (by rw [herr]; rfl)]
        show (t.1 ++ [], t.2) = t
        rw [List.append_nil]
      rw [hsame]
      exact h
  | none =>
      obtain ⟨hidle, hlen, hrun⟩ := h.reading herr
      have hgot := getReply_got hidle (by omega)
      rw [ReaderCall.step]
      generalize redisReaderGetReply t.2 = g at hgot ⊢
      cases hgot with
      | @reply x s idle shorter hx =>
          refine ⟨fun _ => ⟨idle, ?_, ?_⟩,
            fun e he => absurd (idle.err.symm.trans he) (Option.some_ne_none e).symm⟩
          · show s.unread.length ≤ _
            omega
          · rw [hrun, hx]
            show (t.1 ++ x :: _, _) = ((t.1 ++ [x]) ++ _, _)
            rw [List.append_assoc]
            rfl
      | @waits s idle shorter exhausted hs =>
          refine ⟨fun _ => ⟨idle, ?_, ?_⟩,
            fun e he => absurd (idle.err.symm.trans he) (Option.some_ne_none e).symm⟩
          · show s.unread.length ≤ _
            omega
          · rw [hrun, hs]
            show _ = ((t.1 ++ []) ++ _, _)
            rw [List.append_nil]
      | failed e he =>
          refine ⟨fun hnone => absurd hnone (Option.some_ne_none e), fun e' he' => ?_⟩
          cases he'
          rw [hrun, he]
          rfl

theorem session_accounted {calls : List ReaderCall} (hb : (allFed calls).length ≤ INT_MAX) :
    Accounted (allFed calls) (session calls) := by
  have hstart : Accounted [] (([], .create) : List RedisReply × RedisReader) := by
    refine ⟨fun _ => ⟨⟨rfl, Nat.le_refl _, rfl⟩, Nat.le_refl _, ?_⟩, fun e he => by cases he⟩
    rfl
  suffices h : ∀ (calls : List ReaderCall) (fed : Bytes) (t : List RedisReply × RedisReader),
      Accounted fed t → (fed ++ allFed calls).length ≤ INT_MAX →
      Accounted (fed ++ allFed calls) (calls.foldl ReaderCall.step t) from
    h calls [] _ hstart hb
  intro calls
  induction calls with
  | nil =>
      intro fed t h _
      rw [allFed, List.append_nil]
      exact h
  | cons call calls ih =>
      intro fed t h hb
      cases call with
      | feed bytes =>
          rw [allFed, ← List.append_assoc] at hb ⊢
          refine ih (fed ++ bytes) _ (accounted_feed h ?_) hb
          rw [List.length_append] at hb
          omega
      | getReply =>
          rw [allFed] at hb ⊢
          refine ih fed _ (accounted_getReply h ?_) hb
          rw [List.length_append] at hb
          omega

/-- What was returned is the beginning of what reading all at once gives, and
the whole of it when nothing more is returned. -/
theorem accounted_replies {fed : Bytes} {t : List RedisReply × RedisReader}
    (h : Accounted fed t) (hb : fed.length ≤ INT_MAX) :
    t.1 <+: (run readItem [] fed).1 ∧
      ((redisReaderGetReply t.2).2.1 = none → t.1 = (run readItem [] fed).1) := by
  cases herr : t.2.err with
  | some e =>
      rw [h.failed e herr]
      exact ⟨List.prefix_refl _, fun _ => rfl⟩
  | none =>
      obtain ⟨hidle, hlen, hrun⟩ := h.reading herr
      rw [hrun]
      refine ⟨List.prefix_append _ _, fun hnone => ?_⟩
      have hgot := getReply_got hidle (by omega)
      generalize redisReaderGetReply t.2 = g at hgot hnone
      cases hgot with
      | reply x idle shorter hx => cases hnone
      | waits idle shorter exhausted hs =>
          show _ = t.1 ++ (remaining _).1
          rw [exhausted, List.append_nil]
      | failed e he =>
          show _ = t.1 ++ (remaining _).1
          rw [he, List.append_nil]

/-- However the socket cuts the bytes and whenever the replies are asked for:
the replies returned are the first of those that reading all the bytes at once
gives, and all of them once no more is returned. -/
theorem replies_of_calls {calls : List ReaderCall} (hb : (allFed calls).length ≤ INT_MAX) :
    (session calls).1 <+: (run readItem [] (allFed calls)).1 ∧
      ((redisReaderGetReply (session calls).2).2.1 = none →
        (session calls).1 = (run readItem [] (allFed calls)).1) :=
  accounted_replies (session_accounted hb) hb

/-- A status and an integer, cut inside of the line and behind a type byte. -/
def cutCalls : List ReaderCall :=
  [.feed [43, 79], .getReply, .feed [75, 13, 10, 58], .getReply, .getReply, .feed [55, 13, 10],
    .getReply]

theorem cutCalls_replies :
    (session cutCalls).1 = [.status [79, 75], .integer 7] ∧
      (session cutCalls).1 = (run readItem [] (allFed cutCalls)).1 :=
  ⟨rfl, (replies_of_calls (by decide)).2 rfl⟩

end FileHub.Hiredis
