import FileHub.Hiredis.Reader
import FileHub.Lib.Incremental

/-!
# One item of a reply

What `processItem` does to a reader is read off its three item functions once:
it goes on behind a part of the buffer, fails for good, or notes a type byte
and waits (`processItem_outcome`). The bytes in front of the cursor do not
matter to it (`processItem_behind`), and the bytes behind a finished item do
not either (`processItem_fed`). `readItem` is `processItem` on the task stack
and the unread bytes alone.

The positions of `seekNewline` are of type `int`, so what follows an item is
limited to 2^31 bytes in all.
-/

namespace FileHub.Hiredis

open Lib Lib.Incremental

/-! ## Lines -/

theorem seek_append {n n' : ℕ} {s : Bytes} {i : ℕ} (more : Bytes) (hn : n ≤ n')
    (h : seek n s = some i) : seek n' (s ++ more) = some i := by
  induction n generalizing n' s i with
  | zero => cases s <;> simp [seek] at h
  | succ n ih =>
      obtain ⟨n', rfl⟩ : ∃ k, n' = k + 1 := ⟨n' - 1, by omega⟩
      match s with
      | [] => simp [seek] at h
      | [b] => simp [seek] at h
      | b :: b' :: s =>
          rw [seek] at h
          show seek (n' + 1) (b :: b' :: (s ++ more)) = some i
          rw [seek]
          split at h
          · next hb => rw [if_pos hb]; exact h
          · next hb =>
            rw [if_neg hb]
            obtain ⟨j, hj, rfl⟩ := Option.map_eq_some_iff.mp h
            have hle : n ≤ n' := by omega
            have := ih hle hj
            rw [List.cons_append] at this
            rw [this]
            rfl

theorem seek_length {n : ℕ} {s : Bytes} {i : ℕ} (h : seek n s = some i) : i + 2 ≤ s.length := by
  induction n generalizing s i with
  | zero => cases s <;> simp [seek] at h
  | succ n ih =>
      match s with
      | [] => simp [seek] at h
      | [b] => simp [seek] at h
      | b :: b' :: s =>
          rw [seek] at h
          split at h
          · cases h
            simp
          · obtain ⟨j, hj, rfl⟩ := Option.map_eq_some_iff.mp h
            have := ih hj
            simp only [List.length_cons] at this ⊢
            omega

theorem seekNewline_eq {s : Bytes} (hb : s.length ≤ INT_MAX) :
    seekNewline s = seek (s.length - 1) s := by
  rw [seekNewline, asInt_of_range (by rw [INT_MAX] at hb; omega) (by omega)]
  congr 1
  omega

theorem seekNewline_append {s : Bytes} {i : ℕ} (more : Bytes)
    (hb : (s ++ more).length ≤ INT_MAX) (h : seekNewline s = some i) :
    seekNewline (s ++ more) = some i := by
  have hs : s.length ≤ INT_MAX := by rw [List.length_append] at hb; omega
  rw [seekNewline_eq hs] at h
  rw [seekNewline_eq hb]
  exact seek_append more (by rw [List.length_append]; omega) h

theorem seekNewline_length {s : Bytes} {i : ℕ} (h : seekNewline s = some i) :
    i + 2 ≤ s.length := seek_length h

/-! ## A reader seen from its cursor -/

/-- A reader with `pre` in front of its buffer, already consumed. -/
def RedisReader.behind (pre : Bytes) (r : RedisReader) : RedisReader :=
  { r with buf := pre ++ r.buf, pos := pre.length + r.pos }

/-- A reader with more in its buffer. -/
def RedisReader.fed (r : RedisReader) (more : Bytes) : RedisReader :=
  { r with buf := r.buf ++ more }

@[simp] theorem unread_behind (pre : Bytes) (r : RedisReader) :
    (r.behind pre).unread = r.unread := by
  show (pre ++ r.buf).drop (pre.length + r.pos) = r.buf.drop r.pos
  rw [← List.drop_drop, List.drop_left]

theorem unread_fed {r : RedisReader} (more : Bytes) (hpos : r.pos ≤ r.buf.length) :
    (r.fed more).unread = r.unread ++ more :=
  List.drop_append_of_le_length hpos

theorem length_unread (r : RedisReader) : r.unread.length = r.buf.length - r.pos :=
  List.length_drop

/-- A change of the buffer goes through a step that does not fail. -/
def carry (f : RedisReader → RedisReader) (t : Bool × RedisReader) : Bool × RedisReader :=
  if t.2.err.isSome then t else (t.1, f t.2)

theorem carry_ok (f : RedisReader → RedisReader) {b : Bool} {r : RedisReader}
    (h : r.err = none) : carry f (b, r) = (b, f r) := by
  rw [carry, if_neg]
  show ¬r.err.isSome = true
  rw [h]
  exact Bool.false_ne_true

theorem advance_behind (pre : Bytes) (r : RedisReader) (n : ℕ) :
    (r.behind pre).advance n = (r.advance n).behind pre := by
  rw [RedisReader.advance, RedisReader.advance, RedisReader.behind, RedisReader.behind,
    ← Nat.add_assoc]

theorem moveToNextTask_behind (pre : Bytes) (r : RedisReader) (obj : RedisReply) :
    moveToNextTask (r.behind pre) obj = (moveToNextTask r obj).behind pre := by
  have hstack : (r.behind pre).rstack = r.rstack := rfl
  rw [moveToNextTask, moveToNextTask, hstack]
  cases r.rstack <;> rfl

theorem moveToNextTask_fed (r : RedisReader) (more : Bytes) (obj : RedisReply) :
    moveToNextTask (r.fed more) obj = (moveToNextTask r obj).fed more := by
  have hstack : (r.fed more).rstack = r.rstack := rfl
  rw [moveToNextTask, moveToNextTask, hstack]
  cases r.rstack <;> rfl

@[simp] theorem moveToNextTask_err (r : RedisReader) (obj : RedisReply) :
    (moveToNextTask r obj).err = r.err := by
  unfold moveToNextTask
  cases r.rstack <;> rfl

@[simp] theorem moveToNextTask_pos (r : RedisReader) (obj : RedisReply) :
    (moveToNextTask r obj).pos = r.pos := by
  unfold moveToNextTask
  cases r.rstack <;> rfl

@[simp] theorem moveToNextTask_buf (r : RedisReader) (obj : RedisReply) :
    (moveToNextTask r obj).buf = r.buf := by
  unfold moveToNextTask
  cases r.rstack <;> rfl

/-! ## The item functions

Each either goes on behind a part of the buffer, fails for good, or leaves the
reader as it was. -/

/-- A reader in the middle of a reply. -/
structure Ready (r : RedisReader) : Prop where
  err : r.err = none
  pos : r.pos ≤ r.buf.length
  rstack : r.rstack ≠ []
  reply : r.reply = none

/-- The reply is there when the last task ended, and not before. -/
def Emitted (r : RedisReader) : Prop :=
  (r.rstack = [] ∧ ∃ reply, r.reply = some reply) ∨ (r.rstack ≠ [] ∧ r.reply = none)

/-- What one of the item functions makes of a reader. -/
inductive Outcome (r : RedisReader) : Bool × RedisReader → Prop where
  | item {s : RedisReader} (err : s.err = none) (buf : s.buf = r.buf) (pos : r.pos < s.pos)
      (fits : s.pos ≤ r.buf.length) (emitted : Emitted s) : Outcome r (true, s)
  | failed (e : RedisError) : Outcome r (false, ⟨some e, [], 0, [], none⟩)
  | waits : Outcome r (false, r)

theorem nextTask_cases (obj : RedisReply) (cur : RedisReadTask) (below : List RedisReadTask) :
    ((nextTask obj cur below).1 = [] ∧ ∃ reply, (nextTask obj cur below).2 = some reply) ∨
      ((nextTask obj cur below).1 ≠ [] ∧ (nextTask obj cur below).2 = none) := by
  induction below generalizing obj cur with
  | nil => exact .inl ⟨rfl, obj, rfl⟩
  | cons prv below ih =>
      rw [nextTask]
      split
      · exact ih _ _
      · exact .inr ⟨List.cons_ne_nil _ _, rfl⟩

theorem Outcome.moved {r : RedisReader} {n : ℕ} (obj : RedisReply) (h : Ready r)
    (hn : 0 < n) (hend : n ≤ r.unread.length) :
    Outcome r (true, moveToNextTask (r.advance n) obj) := by
  rw [length_unread] at hend
  refine .item ?_ ?_ ?_ ?_ ?_
  · rw [moveToNextTask_err]
    exact h.err
  · rw [moveToNextTask_buf]
    rfl
  · rw [moveToNextTask_pos]
    show r.pos < r.pos + n
    omega
  · rw [moveToNextTask_pos]
    show r.pos + n ≤ r.buf.length
    omega
  · obtain ⟨cur, below, hstack⟩ := List.exists_cons_of_ne_nil h.rstack
    have hstack' : (r.advance n).rstack = cur :: below := hstack
    rw [moveToNextTask, hstack']
    exact nextTask_cases obj cur below

theorem readLine_eq (r : RedisReader) :
    readLine r =
      (seekNewline r.unread).map fun len => (r.unread.take len, r.advance (len + 2)) := by
  rw [readLine]
  cases seekNewline r.unread <;> rfl

theorem processLineItem_outcome {r : RedisReader} (h : Ready r) (type : ReplyType) :
    Outcome r (processLineItem r type) := by
  rw [processLineItem, readLine_eq]
  cases hline : seekNewline r.unread with
  | none => exact .waits
  | some len =>
      have hend := seekNewline_length hline
      have hmoved := fun obj => Outcome.moved (n := len + 2) obj h (by omega) hend
      show Outcome r (if _ then _ else _)
      split
      · cases string2ll (r.unread.take len) with
        | none => exact .failed _
        | some v => exact hmoved _
      · split
        · exact hmoved _
        · exact hmoved _

theorem processBulkItem_outcome {r : RedisReader} (h : Ready r) :
    Outcome r (processBulkItem r) := by
  rw [processBulkItem]
  cases hline : seekNewline r.unread with
  | none => exact .waits
  | some line =>
      have hend := seekNewline_length hline
      dsimp only
      cases string2ll (r.unread.take line) with
      | none => exact .failed _
      | some len =>
          show Outcome r (if _ then _ else if _ then _ else if _ then _ else _)
          split
          · exact .failed _
          · split
            · exact .moved _ h (by omega) hend
            · split
              · next hfull =>
                refine .moved _ h (by omega) ?_
                rw [length_unread]
                omega
              · exact .waits

theorem processMultiBulkItem_outcome {r : RedisReader} (h : Ready r) :
    Outcome r (processMultiBulkItem r) := by
  rw [processMultiBulkItem]
  split
  · exact .failed _
  · rw [readLine_eq]
    cases hline : seekNewline r.unread with
    | none => exact .waits
    | some len =>
        have hend := seekNewline_length hline
        dsimp only [Option.map_some]
        cases string2ll (r.unread.take len) with
        | none => exact .failed _
        | some elements =>
            show Outcome r (if _ then _ else if _ then _ else if _ then _ else _)
            split
            · exact .failed _
            · split
              · exact .moved _ h (by omega) hend
              · split
                · rw [length_unread] at hend
                  refine .item h.err rfl ?_ ?_ (.inr ⟨List.cons_ne_nil _ _, h.reply⟩)
                  · show r.pos < r.pos + (len + 2)
                    omega
                  · show r.pos + (len + 2) ≤ r.buf.length
                    omega
                · exact .moved _ h (by omega) hend

theorem processTyped_outcome {r : RedisReader} (h : Ready r) (type : ReplyType) :
    Outcome r (processTyped r type) := by
  cases type with
  | error => exact processLineItem_outcome h .error
  | status => exact processLineItem_outcome h .status
  | integer => exact processLineItem_outcome h .integer
  | string => exact processBulkItem_outcome h
  | array => exact processMultiBulkItem_outcome h

/-! ## Consumed bytes do not matter -/

section Behind

variable {r : RedisReader} (pre : Bytes)

theorem moved_behind (herr : r.err = none) (n : ℕ) (obj : RedisReply) :
    (true, moveToNextTask ((r.behind pre).advance n) obj) =
      carry (·.behind pre) (true, moveToNextTask (r.advance n) obj) := by
  have h : (moveToNextTask (r.advance n) obj).err = none := (moveToNextTask_err _ _).trans herr
  rw [carry_ok _ h, advance_behind, moveToNextTask_behind]

theorem processLineItem_behind (herr : r.err = none) (type : ReplyType) :
    processLineItem (r.behind pre) type = carry (·.behind pre) (processLineItem r type) := by
  rw [processLineItem, processLineItem, readLine_eq, readLine_eq, unread_behind]
  cases seekNewline r.unread with
  | none => exact (carry_ok (·.behind pre) herr).symm
  | some len =>
      show (if _ then _ else _) = carry _ (if _ then _ else _)
      split
      · cases string2ll (r.unread.take len) with
        | none => rfl
        | some v => exact moved_behind pre herr _ _
      · split
        · exact moved_behind pre herr _ _
        · exact moved_behind pre herr _ _

theorem processBulkItem_behind (herr : r.err = none) :
    processBulkItem (r.behind pre) = carry (·.behind pre) (processBulkItem r) := by
  rw [processBulkItem, processBulkItem, unread_behind]
  cases seekNewline r.unread with
  | none => exact (carry_ok (·.behind pre) herr).symm
  | some line =>
      dsimp only
      cases string2ll (r.unread.take line) with
      | none => rfl
      | some len =>
          have hfits : (r.behind pre).pos + (line + 2 + len.toNat + 2) ≤ (r.behind pre).buf.length ↔
              r.pos + (line + 2 + len.toNat + 2) ≤ r.buf.length := by
            show pre.length + r.pos + _ ≤ (pre ++ r.buf).length ↔ _
            rw [List.length_append]
            omega
          show (if _ then _ else if _ then _ else if _ then _ else _) =
            carry _ (if _ then _ else if _ then _ else if _ then _ else _)
          split
          · rfl
          · split
            · exact moved_behind pre herr _ _
            · split
              · next h =>
                rw [if_pos (hfits.mp h)]
                exact moved_behind pre herr _ _
              · next h =>
                rw [if_neg (mt hfits.mpr h)]
                exact (carry_ok (·.behind pre) herr).symm

theorem processMultiBulkItem_behind (herr : r.err = none) :
    processMultiBulkItem (r.behind pre) = carry (·.behind pre) (processMultiBulkItem r) := by
  rw [processMultiBulkItem, processMultiBulkItem, readLine_eq, readLine_eq, unread_behind]
  show (if r.rstack.length = 9 then _ else _) = _
  split
  · rfl
  · cases seekNewline r.unread with
    | none => exact (carry_ok (·.behind pre) herr).symm
    | some len =>
        dsimp only [Option.map_some]
        cases string2ll (r.unread.take len) with
        | none => rfl
        | some elements =>
            show (if _ then _ else if _ then _ else if _ then _ else _) =
              carry _ (if _ then _ else if _ then _ else if _ then _ else _)
            split
            · rfl
            · split
              · exact moved_behind pre herr _ _
              · split
                · rw [carry_ok _ (by exact herr), advance_behind]
                  rfl
                · exact moved_behind pre herr _ _

theorem processTyped_behind (herr : r.err = none) (type : ReplyType) :
    processTyped (r.behind pre) type = carry (·.behind pre) (processTyped r type) := by
  cases type with
  | error => exact processLineItem_behind pre herr .error
  | status => exact processLineItem_behind pre herr .status
  | integer => exact processLineItem_behind pre herr .integer
  | string => exact processBulkItem_behind pre herr
  | array => exact processMultiBulkItem_behind pre herr

theorem processItem_behind (herr : r.err = none) :
    processItem (r.behind pre) = carry (·.behind pre) (processItem r) := by
  rw [processItem, processItem, unread_behind]
  have hstack : (r.behind pre).rstack = r.rstack := rfl
  rw [hstack]
  cases r.rstack with
  | nil => exact (carry_ok (·.behind pre) herr).symm
  | cons cur below =>
      dsimp only
      cases cur.type with
      | some type => exact processTyped_behind pre herr type
      | none =>
          cases r.unread with
          | nil => exact (carry_ok (·.behind pre) herr).symm
          | cons b rest =>
              dsimp only
              cases replyType b with
              | none => rfl
              | some type =>
                  have := processTyped_behind (r := { r.advance 1 with
                    rstack := { cur with type := some type } :: below }) pre herr type
                  rw [← this]
                  dsimp only
                  rw [advance_behind]
                  rfl

end Behind

/-! ## Bytes behind an item do not matter -/

section Fed

variable {r : RedisReader} (more : Bytes) (hpos : r.pos ≤ r.buf.length)
  (hb : (r.unread ++ more).length ≤ INT_MAX)
include hpos hb

omit hpos hb in
theorem moved_fed (herr : r.err = none) (n : ℕ) (obj : RedisReply) :
    (true, moveToNextTask ((r.fed more).advance n) obj) =
      carry (·.fed more) (true, moveToNextTask (r.advance n) obj) := by
  have h : (moveToNextTask (r.advance n) obj).err = none := (moveToNextTask_err _ _).trans herr
  rw [carry_ok _ h, ← moveToNextTask_fed]
  rfl

theorem processLineItem_fed (herr : r.err = none) (type : ReplyType)
    (hdone : processLineItem r type ≠ (false, r)) :
    processLineItem (r.fed more) type = carry (·.fed more) (processLineItem r type) := by
  rw [processLineItem, readLine_eq] at hdone ⊢
  rw [processLineItem, readLine_eq, unread_fed more hpos]
  cases hline : seekNewline r.unread with
  | none =>
      rw [hline] at hdone
      exact absurd rfl hdone
  | some len =>
      have hend := seekNewline_length hline
      rw [seekNewline_append more hb hline, Option.map_some, Option.map_some,
        List.take_append_of_le_length (by omega)]
      show (if _ then _ else _) = carry _ (if _ then _ else _)
      split
      · cases string2ll (r.unread.take len) with
        | none => rfl
        | some v => exact moved_fed more herr _ _
      · split
        · exact moved_fed more herr _ _
        · exact moved_fed more herr _ _

theorem processBulkItem_fed (herr : r.err = none) (hdone : processBulkItem r ≠ (false, r)) :
    processBulkItem (r.fed more) = carry (·.fed more) (processBulkItem r) := by
  rw [processBulkItem] at hdone ⊢
  rw [processBulkItem, unread_fed more hpos]
  cases hline : seekNewline r.unread with
  | none =>
      rw [hline] at hdone
      exact absurd rfl hdone
  | some line =>
      have hend := seekNewline_length hline
      rw [hline] at hdone
      rw [seekNewline_append more hb hline]
      dsimp only at hdone ⊢
      rw [List.take_append_of_le_length (by omega)]
      cases hlen : string2ll (r.unread.take line) with
      | none => rfl
      | some len =>
          rw [hlen] at hdone
          dsimp only at hdone ⊢
          split
          · rfl
          · next hrange =>
            rw [if_neg hrange] at hdone
            split
            · exact moved_fed more herr _ _
            · next hnil =>
              rw [if_neg hnil] at hdone
              by_cases hfull : r.pos + (line + 2 + len.toNat + 2) ≤ r.buf.length
              · have hfull' : (r.fed more).pos + (line + 2 + len.toNat + 2) ≤
                    (r.fed more).buf.length := by
                  show r.pos + _ ≤ (r.buf ++ more).length
                  rw [List.length_append]
                  omega
                have hbulk : ((r.unread ++ more).drop (line + 2)).take len.toNat =
                    (r.unread.drop (line + 2)).take len.toNat := by
                  rw [List.drop_append_of_le_length hend, List.take_append_of_le_length]
                  rw [List.length_drop, length_unread]
                  omega
                rw [if_pos hfull, if_pos hfull', hbulk]
                exact moved_fed more herr _ _
              · rw [if_neg hfull] at hdone
                exact absurd rfl hdone

theorem processMultiBulkItem_fed (herr : r.err = none)
    (hdone : processMultiBulkItem r ≠ (false, r)) :
    processMultiBulkItem (r.fed more) = carry (·.fed more) (processMultiBulkItem r) := by
  rw [processMultiBulkItem, readLine_eq] at hdone ⊢
  rw [processMultiBulkItem, readLine_eq, unread_fed more hpos]
  show (if r.rstack.length = 9 then _ else _) = _
  split
  · rfl
  · next hdepth =>
    rw [if_neg hdepth] at hdone
    cases hline : seekNewline r.unread with
    | none =>
        rw [hline] at hdone
        exact absurd rfl hdone
    | some len =>
        have hend := seekNewline_length hline
        rw [seekNewline_append more hb hline, Option.map_some, Option.map_some,
          List.take_append_of_le_length (by omega)]
        dsimp only [Option.map_some]
        cases string2ll (r.unread.take len) with
        | none => rfl
        | some elements =>
            show (if _ then _ else if _ then _ else if _ then _ else _) =
              carry _ (if _ then _ else if _ then _ else if _ then _ else _)
            split
            · rfl
            · split
              · exact moved_fed more herr _ _
              · split
                · rw [carry_ok _ (by exact herr)]
                  rfl
                · exact moved_fed more herr _ _

theorem processTyped_fed (herr : r.err = none) (type : ReplyType)
    (hdone : processTyped r type ≠ (false, r)) :
    processTyped (r.fed more) type = carry (·.fed more) (processTyped r type) := by
  cases type with
  | error => exact processLineItem_fed more hpos hb herr .error hdone
  | status => exact processLineItem_fed more hpos hb herr .status hdone
  | integer => exact processLineItem_fed more hpos hb herr .integer hdone
  | string => exact processBulkItem_fed more hpos hb herr hdone
  | array => exact processMultiBulkItem_fed more hpos hb herr hdone

end Fed

/-! ## The reader as an incremental reader -/

/-- A reader at the start of its buffer. -/
def reading (rstack : List RedisReadTask) (input : Bytes) : RedisReader :=
  ⟨none, input, 0, rstack, none⟩

/-- The stack `redisReaderGetReply` works on. -/
def begun (rstack : List RedisReadTask) : List RedisReadTask :=
  if rstack = [] then [.root] else rstack

def itemOf (t : Bool × RedisReader) : Item (List RedisReadTask) RedisReply RedisError :=
  if t.1 then .next t.2.rstack t.2.pos t.2.reply
  else match t.2.err with
    | some e => .fail e
    | none => .more t.2.rstack t.2.pos

/-- `processItem` on a task stack and the bytes from the cursor on. -/
def readItem (rstack : List RedisReadTask) (input : Bytes) :
    Item (List RedisReadTask) RedisReply RedisError :=
  itemOf (processItem (reading (begun rstack) input))

/-- The type byte of the next item noted. -/
def RedisReader.typed (r : RedisReader) (cur : RedisReadTask) (below : List RedisReadTask)
    (type : ReplyType) : RedisReader :=
  { r.advance 1 with rstack := { cur with type := some type } :: below }

/-- The ways of `processItem`. -/
inductive Itemized (r : RedisReader) : Prop where
  | resumed (type : ReplyType) (h : processItem r = processTyped r type)
      (hfed : ∀ more, processItem (r.fed more) = processTyped (r.fed more) type)
  | empty (hunread : r.unread = []) (h : processItem r = (false, r))
  | unknown (b : UInt8) (h : ∀ more, processItem (r.fed more) =
      (false, redisReaderSetErrorProtocolByte b))
  | typed (cur : RedisReadTask) (below : List RedisReadTask) (type : ReplyType)
      (hunread : r.unread ≠ [])
      (h : ∀ more, processItem (r.fed more) =
        processTyped ((r.typed cur below type).fed more) type)

theorem fed_nil (r : RedisReader) : r.fed [] = r := by
  rw [RedisReader.fed, List.append_nil]

theorem processItem_itemized {r : RedisReader} (hr : Ready r) : Itemized r := by
  obtain ⟨cur, below, hstack⟩ := List.exists_cons_of_ne_nil hr.rstack
  have hstack' : ∀ more, (r.fed more).rstack = cur :: below := fun _ => hstack
  cases htype : cur.type with
  | some type =>
      refine .resumed type ?_ fun more => ?_
      · rw [processItem, hstack]
        dsimp only
        rw [htype]
      · rw [processItem, hstack']
        dsimp only
        rw [htype]
  | none =>
      cases hunread : r.unread with
      | nil =>
          refine .empty hunread ?_
          rw [processItem, hstack]
          dsimp only
          rw [htype, hunread]
      | cons b rest =>
          have hunread' : ∀ more, (r.fed more).unread = b :: (rest ++ more) := by
            intro more
            rw [unread_fed more hr.pos, hunread, List.cons_append]
          cases hb : replyType b with
          | none =>
              refine .unknown b fun more => ?_
              rw [processItem, hstack']
              dsimp only
              rw [htype, hunread']
              dsimp only
              rw [hb]
          | some type =>
              refine .typed cur below type (hunread ▸ List.cons_ne_nil _ _) fun more => ?_
              rw [processItem, hstack']
              dsimp only
              rw [htype, hunread']
              dsimp only
              rw [hb]
              rfl

theorem Ready.typed {r : RedisReader} (hr : Ready r) (hunread : r.unread ≠ [])
    (cur : RedisReadTask) (below : List RedisReadTask) (type : ReplyType) :
    Ready (r.typed cur below type) := by
  refine ⟨hr.err, ?_, List.cons_ne_nil _ _, hr.reply⟩
  have := List.length_pos_iff.mpr hunread
  rw [length_unread] at this
  show r.pos + 1 ≤ r.buf.length
  omega

/-- What `processItem` makes of a reader: as the item functions, but that the
type byte may have been noted when the rest is not there yet. -/
theorem processItem_outcome {r : RedisReader} (hr : Ready r) :
    Outcome r (processItem r) ∨
      ∃ cur below type, r.unread ≠ [] ∧
        processItem r = (false, r.typed cur below type) ∧
        ∀ more, processItem (r.fed more) =
          processTyped ((r.typed cur below type).fed more) type := by
  cases processItem_itemized hr with
  | resumed type h hfed => exact .inl (h ▸ processTyped_outcome hr type)
  | empty hunread h => exact .inl (h ▸ .waits)
  | unknown b h =>
      have := h []
      rw [fed_nil] at this
      exact .inl (this ▸ .failed _)
  | typed cur below type hunread h =>
      have hnil := h []
      rw [fed_nil, fed_nil] at hnil
      have hout := processTyped_outcome (hr.typed hunread cur below type) type
      rw [hnil]
      generalize processTyped (r.typed cur below type) type = t at hout
      cases hout with
      | item err buf pos fits emitted =>
          have hpos : r.pos + 1 < _ := pos
          exact .inl (.item err buf (by omega) fits emitted)
      | failed e => exact .inl (.failed e)
      | waits => exact .inr ⟨cur, below, type, hunread, rfl, h⟩

/-- A finished item, or a failure, is what it is whatever follows. -/
theorem processItem_fed {r : RedisReader} (hr : Ready r) (more : Bytes)
    (hb : (r.unread ++ more).length ≤ INT_MAX)
    (hdone : (processItem r).1 = true ∨ (processItem r).2.err.isSome) :
    processItem (r.fed more) = carry (·.fed more) (processItem r) := by
  have hne : ∀ {s : RedisReader}, s.err = none → processItem r ≠ (false, s) := by
    intro s hs heq
    rw [heq] at hdone
    rcases hdone with h | h
    · exact absurd h Bool.false_ne_true
    · rw [hs] at h
      exact absurd h Bool.false_ne_true
  cases processItem_itemized hr with
  | resumed type h hfed =>
      rw [hfed, h]
      exact processTyped_fed more hr.pos hb hr.err type (h ▸ hne hr.err)
  | empty hunread h => exact absurd h (hne hr.err)
  | unknown b h =>
      have hnil := h []
      rw [fed_nil] at hnil
      rw [h, hnil]
      rfl
  | typed cur below type hunread h =>
      have hnil := h []
      rw [fed_nil, fed_nil] at hnil
      have hr' := hr.typed hunread cur below type
      have hdrop : (r.typed cur below type).unread = r.unread.drop 1 := by
        show r.buf.drop (r.pos + 1) = (r.buf.drop r.pos).drop 1
        rw [List.drop_drop]
      have hb' : ((r.typed cur below type).unread ++ more).length ≤ INT_MAX := by
        rw [hdrop]
        rw [List.length_append] at hb ⊢
        rw [List.length_drop]
        omega
      rw [h, hnil]
      exact processTyped_fed more hr'.pos hb' hr'.err type (hnil ▸ hne hr'.err)

theorem ready_reading (rstack : List RedisReadTask) (input : Bytes) :
    Ready (reading (begun rstack) input) := by
  refine ⟨rfl, Nat.zero_le _, ?_, rfl⟩
  show begun rstack ≠ []
  rw [begun]
  split
  · exact List.cons_ne_nil _ _
  · next h => exact h

theorem begun_of_ne_nil {rstack : List RedisReadTask} (h : rstack ≠ []) :
    begun rstack = rstack := if_neg h

/-- Bytes in front of the cursor shift an item. -/
theorem itemOf_behind (pre : Bytes) {t : Bool × RedisReader}
    (h : t.1 = true → t.2.err = none) :
    itemOf (carry (·.behind pre) t) = shifted pre.length (itemOf t) := by
  obtain ⟨b, r⟩ := t
  cases hr : r.err with
  | none =>
      rw [carry_ok _ hr]
      unfold itemOf
      cases b with
      | true => rfl
      | false =>
          show (match r.err with | some e => _ | none => _) =
            shifted _ (match r.err with | some e => _ | none => _)
          rw [hr]
          rfl
  | some e =>
      have hb : b = false := by
        cases b with
        | false => rfl
        | true => exact absurd (h rfl) (by rw [hr]; exact Option.some_ne_none e)
      subst hb
      have : carry (·.behind pre) (false, r) = (false, r) := if_pos (by rw [hr]; rfl)
      rw [this]
      unfold itemOf
      show (match r.err with | some e => _ | none => _) =
        shifted _ (match r.err with | some e => _ | none => _)
      rw [hr]
      rfl

/-- An item does not see the bytes in front of the cursor. -/
theorem itemOf_processItem {r : RedisReader} (hr : Ready r) :
    itemOf (processItem r) = shifted r.pos (readItem r.rstack r.unread) := by
  have hsplit : r = (reading r.rstack r.unread).behind (r.buf.take r.pos) := by
    show r = ⟨none, r.buf.take r.pos ++ r.buf.drop r.pos, (r.buf.take r.pos).length + 0,
      r.rstack, none⟩
    rw [List.take_append_drop, List.length_take, Nat.min_eq_left hr.pos, ← hr.err, ← hr.reply]
    rfl
  have hitem : ∀ {s : RedisReader}, Ready s → (processItem s).1 = true →
      (processItem s).2.err = none := by
    intro s hs htrue
    rcases processItem_outcome hs with hout | ⟨cur, below, type, -, h, -⟩
    · generalize processItem s = t at hout htrue
      cases hout with
      | item err buf pos fits emitted => exact err
      | failed e => cases htrue
      | waits => exact hs.err
    · rw [h] at htrue
      cases htrue
  have hready : Ready (reading r.rstack r.unread) := by
    have := ready_reading r.rstack r.unread
    rwa [begun_of_ne_nil hr.rstack] at this
  have hlen : (r.buf.take r.pos).length = r.pos := by
    rw [List.length_take, Nat.min_eq_left hr.pos]
  rw [readItem, begun_of_ne_nil hr.rstack]
  calc itemOf (processItem r)
      = itemOf (processItem ((reading r.rstack r.unread).behind (r.buf.take r.pos))) := by
        rw [← hsplit]
    _ = shifted r.pos (itemOf (processItem (reading r.rstack r.unread))) := by
        rw [processItem_behind _ rfl, itemOf_behind _ (hitem hready), hlen]

end FileHub.Hiredis
