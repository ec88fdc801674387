import FileHub.Proofs.ReplyStream

/-!
# Replies read back

The Redis protocol writes a reply as a type byte and a line, a string with its
length in front, an array with its number of elements in front. Reading undoes
that, number by number (`string2ll_iff`), item by item and, along the task
stack, array by array (`run_encode`). The stack has nine places, one of them
for the item itself, so at most eight arrays may stand inside of one another.
-/

namespace FileHub.Hiredis

open Lib Lib.Incremental

/-! ## Numbers -/

/-- The value of digits that follow a number. -/
def digitsFrom (v : ℕ) (p : Bytes) : ℕ := p.foldl (fun n b => n * 10 + (b.toNat - 48)) v

theorem le_digitsFrom (v : ℕ) (p : Bytes) : v ≤ digitsFrom v p := by
  induction p generalizing v with
  | nil => exact Nat.le_refl _
  | cons b p ih =>
      have := ih (v * 10 + (b.toNat - 48))
      show v ≤ digitsFrom (v * 10 + (b.toNat - 48)) p
      omega

theorem string2llDigits_eq {v : ℕ} {p : Bytes} (hdigits : ∀ b ∈ p, isDigit b = true)
    (hmax : digitsFrom v p ≤ ULLONG_MAX) : string2llDigits v p = some (digitsFrom v p) := by
  induction p generalizing v with
  | nil => rfl
  | cons b p ih =>
      have hle := le_digitsFrom (v * 10 + (b.toNat - 48)) p
      have hmax' : digitsFrom (v * 10 + (b.toNat - 48)) p ≤ ULLONG_MAX := hmax
      rw [string2llDigits, if_pos (hdigits b List.mem_cons_self),
        if_neg (by omega), if_neg (by omega)]
      exact ih (fun c hc => hdigits c (List.mem_cons_of_mem _ hc)) hmax'

/-- The first digit of a positive number is not a zero. -/
theorem decimal_head {n : ℕ} (hn : n ≠ 0) :
    ∃ b p, decimal n = b :: p ∧ 49 ≤ b ∧ b ≤ 57 := by
  have hne := decimal_ne_nil n
  obtain ⟨b, p, hbp⟩ := List.exists_cons_of_ne_nil hne
  refine ⟨b, p, hbp, ?_⟩
  have hdigits : Nat.digits 10 n ≠ [] := Nat.digits_ne_nil_iff_ne_zero.mpr hn
  have hlast := Nat.getLast_digit_ne_zero 10 hn
  have hlt : (Nat.digits 10 n).getLast hdigits < 10 :=
    Nat.digits_lt_base (by omega) (List.getLast_mem hdigits)
  have hb : b = (48 + (Nat.digits 10 n).getLast hdigits).toUInt8 := by
    have hhead : (decimal n).head? = some b := by rw [hbp]; rfl
    rw [decimal, if_neg hn, List.head?_reverse, List.getLast?_map,
      List.getLast?_eq_getLast_of_ne_nil hdigits] at hhead
    exact (Option.some.inj hhead).symm
  generalize (Nat.digits 10 n).getLast hdigits = d at hb hlast hlt
  subst hb
  interval_cases d
  · exact absurd rfl hlast
  all_goals exact ⟨by decide, by decide⟩

theorem string2llNumber_decimal {n : ℕ} (hn : n ≠ 0) (hmax : n ≤ ULLONG_MAX) :
    string2llNumber (decimal n) = some n := by
  obtain ⟨b, p, hbp, hlow, hhigh⟩ := decimal_head hn
  have hvalue : digitsFrom (b.toNat - 48) p = n := by
    have h := ofDecimal_decimal n
    rw [hbp, ofDecimal, List.foldl_cons, Nat.zero_mul, Nat.zero_add] at h
    exact h
  rw [hbp, string2llNumber, if_pos ⟨hlow, hhigh⟩, string2llDigits_eq _ (by omega), hvalue]
  intro c hc
  exact isDigit_decimal n c (hbp ▸ List.mem_cons_of_mem _ hc)

/-- `string2ll` reads back what `%lld` prints. -/
theorem string2ll_intText {v : Int} (hmin : -(LLONG_MAX : Int) - 1 ≤ v) (hmax : v ≤ LLONG_MAX) :
    string2ll (intText v) = some v := by
  rw [LLONG_MAX] at hmin hmax
  by_cases hneg : v < 0
  · have hnumber := string2llNumber_decimal (n := v.natAbs) (by omega) (by rw [ULLONG_MAX]; omega)
    rw [intText, if_pos hneg, string2ll, hnumber]
    dsimp only
    rw [if_neg (by rw [LLONG_MAX]; omega)]
    congr 1
    omega
  · rw [intText, if_neg hneg]
    by_cases hzero : v = 0
    · subst hzero
      rfl
    · have hnumber := string2llNumber_decimal (n := v.natAbs) (by omega)
        (by rw [ULLONG_MAX]; omega)
      obtain ⟨b, p, hbp, hlow, hhigh⟩ := decimal_head (n := v.natAbs) (by omega)
      rw [hbp] at hnumber ⊢
      have h45 : b ≠ 45 := by
        intro h
        subst h
        exact absurd hlow (by decide)
      have h48 : ¬(b = 48 ∧ p = []) := by
        intro h
        rw [h.1] at hlow
        exact absurd hlow (by decide)
      rw [string2ll]
      · rw [if_neg h48, hnumber]
        dsimp only
        rw [if_neg (by rw [LLONG_MAX]; omega)]
        congr 1
        omega
      · exact h45

theorem string2llDigits_some {v n : ℕ} {p : Bytes} (h : string2llDigits v p = some n) :
    (∀ b ∈ p, isDigit b = true) ∧ n = digitsFrom v p := by
  induction p generalizing v with
  | nil =>
      cases h
      exact ⟨fun b hb => absurd hb List.not_mem_nil, rfl⟩
  | cons b p ih =>
      rw [string2llDigits] at h
      by_cases hb : isDigit b = true
      · rw [if_pos hb] at h
        split at h
        · cases h
        · split at h
          · cases h
          · obtain ⟨hp, hn⟩ := ih h
            refine ⟨fun c hc => ?_, hn⟩
            rcases List.mem_cons.mp hc with rfl | hmem
            · exact hb
            · exact hp c hmem
      · rw [if_neg hb] at h
        cases h

theorem decimal_append {n d : ℕ} (hn : n ≠ 0) (hd : d < 10) :
    decimal (n * 10 + d) = decimal n ++ [(48 + d).toUInt8] := by
  have hdigits : Nat.digits 10 (n * 10 + d) = d :: Nat.digits 10 n := by
    rw [Nat.mul_comm, Nat.add_comm]
    exact Nat.digits_add 10 (by omega) d n hd (.inr hn)
  rw [decimal, decimal, if_neg (by omega), if_neg hn, hdigits, List.map_cons, List.reverse_cons]

theorem digit_byte {b : UInt8} (h : isDigit b = true) :
    b.toNat - 48 < 10 ∧ (48 + (b.toNat - 48)).toUInt8 = b := by
  rw [isDigit, Bool.and_eq_true, decide_eq_true_eq, decide_eq_true_eq] at h
  have hlow : 48 ≤ b.toNat := UInt8.le_iff_toNat_le.mp h.1
  have hhigh : b.toNat ≤ 57 := UInt8.le_iff_toNat_le.mp h.2
  refine ⟨by omega, ?_⟩
  have hsum : 48 + (b.toNat - 48) = b.toNat := by omega
  rw [hsum, Nat.toUInt8_eq, UInt8.ofNat_toNat]

theorem decimal_digitsFrom {v : ℕ} {p : Bytes} (hv : v ≠ 0) (hp : ∀ b ∈ p, isDigit b = true) :
    decimal (digitsFrom v p) = decimal v ++ p := by
  induction p generalizing v with
  | nil => exact (List.append_nil _).symm
  | cons b p ih =>
      obtain ⟨hlt, hbyte⟩ := digit_byte (hp b List.mem_cons_self)
      have hrest := ih (v := v * 10 + (b.toNat - 48)) (by omega)
        fun c hc => hp c (List.mem_cons_of_mem _ hc)
      show decimal (digitsFrom (v * 10 + (b.toNat - 48)) p) = _
      rw [hrest, decimal_append hv hlt, hbyte, List.append_assoc]
      rfl

/-- A number read is the text that is printed for it. -/
theorem string2llNumber_some {s : Bytes} {n : ℕ} (h : string2llNumber s = some n) :
    n ≠ 0 ∧ s = decimal n := by
  cases s with
  | nil => cases h
  | cons b p =>
      rw [string2llNumber] at h
      split at h
      · next hb =>
        obtain ⟨hp, rfl⟩ := string2llDigits_some h
        have hlow : 49 ≤ b.toNat := UInt8.le_iff_toNat_le.mp hb.1
        have hdigit : isDigit b = true := by
          rw [isDigit, Bool.and_eq_true, decide_eq_true_eq, decide_eq_true_eq]
          exact ⟨UInt8.le_trans (by decide) hb.1, hb.2⟩
        obtain ⟨hlt, hbyte⟩ := digit_byte hdigit
        have hone : decimal (b.toNat - 48) = [b] := by
          rw [decimal, if_neg (by omega), Nat.digits_of_lt 10 _ (by omega) hlt]
          show [(48 + (b.toNat - 48)).toUInt8] = [b]
          rw [hbyte]
        have hle := le_digitsFrom (b.toNat - 48) p
        refine ⟨by omega, ?_⟩
        rw [decimal_digitsFrom (by omega) hp, hone]
        rfl
      · cases h

/-- `string2ll` accepts exactly the texts that `%lld` prints, so a string that
it accepts can be had back from the number. -/
theorem string2ll_iff (s : Bytes) (v : Int) :
    string2ll s = some v ↔
      s = intText v ∧ -(LLONG_MAX : Int) - 1 ≤ v ∧ v ≤ LLONG_MAX := by
  constructor
  · intro h
    cases s with
    | nil => cases h
    | cons b p =>
        by_cases hminus : b = 45
        · subst hminus
          rw [string2ll] at h
          cases hn : string2llNumber p with
          | none => rw [hn] at h; cases h
          | some n =>
              rw [hn] at h
              dsimp only at h
              split at h
              · cases h
              · cases h
                obtain ⟨hzero, rfl⟩ := string2llNumber_some hn
                rw [intText, if_pos (by omega), Int.natAbs_neg, Int.natAbs_natCast]
                exact ⟨rfl, by omega, by omega⟩
        · rw [string2ll] at h
          · split at h
            · next hzero =>
              cases h
              obtain ⟨rfl, rfl⟩ := hzero
              exact ⟨rfl, by rw [LLONG_MAX]; omega, by omega⟩
            · cases hn : string2llNumber (b :: p) with
              | none => rw [hn] at h; cases h
              | some n =>
                  rw [hn] at h
                  dsimp only at h
                  split at h
                  · cases h
                  · cases h
                    obtain ⟨hzero, htext⟩ := string2llNumber_some hn
                    rw [intText, if_neg (by omega), Int.natAbs_natCast]
                    exact ⟨htext, by omega, by omega⟩
          · exact hminus
  · intro h
    rw [h.1]
    exact string2ll_intText h.2.1 h.2.2

/-! ## Replies on the wire -/

mutual

/-- The bytes of a reply in the Redis protocol. -/
def RedisReply.encode : RedisReply → Bytes
  | .string str => 36 :: (decimal str.length ++ [13, 10] ++ str ++ [13, 10])
  | .array element => 42 :: (decimal element.length ++ [13, 10] ++ encodeAll element)
  | .integer n => 58 :: (intText n ++ [13, 10])
  | .nil => [36, 45, 49, 13, 10]
  | .status str => 43 :: (str ++ [13, 10])
  | .error str => 45 :: (str ++ [13, 10])

def encodeAll : List RedisReply → Bytes
  | [] => []
  | x :: xs => x.encode ++ encodeAll xs

end

/-- A reply that the protocol can carry to this reader, inside of at most `n`
more arrays: lines without CRLF, numbers of 64 bits, array lengths of 31. -/
inductive Sendable : ℕ → RedisReply → Prop where
  | string {n : ℕ} {str : Bytes} (h : str.length ≤ LLONG_MAX) : Sendable n (.string str)
  | array {n : ℕ} {element : List RedisReply} (hlen : element.length ≤ INT_MAX)
      (h : ∀ x ∈ element, Sendable n x) : Sendable (n + 1) (.array element)
  | integer {n : ℕ} {v : Int} (hmin : -(LLONG_MAX : Int) - 1 ≤ v) (hmax : v ≤ LLONG_MAX) :
      Sendable n (.integer v)
  | nil {n : ℕ} : Sendable n .nil
  | status {n : ℕ} {str : Bytes} (h : ¬[13, 10] <:+: str) : Sendable n (.status str)
  | error {n : ℕ} {str : Bytes} (h : ¬[13, 10] <:+: str) : Sendable n (.error str)

theorem seek_line {n : ℕ} {line : Bytes} (rest : Bytes) (hline : ¬[13, 10] <:+: line)
    (hn : line.length < n) : seek n (line ++ 13 :: 10 :: rest) = some line.length := by
  induction line generalizing n with
  | nil =>
      obtain ⟨n, rfl⟩ : ∃ k, n = k + 1 := ⟨n - 1, by rw [List.length_nil] at hn; omega⟩
      rfl
  | cons b line ih =>
      obtain ⟨n, rfl⟩ : ∃ k, n = k + 1 := ⟨n - 1, by omega⟩
      have hline' : ¬[13, 10] <:+: line := fun h =>
        hline (h.trans (List.suffix_cons b line).isInfix)
      have hn' : line.length < n := by
        rw [List.length_cons] at hn
        omega
      have hrest := ih hline' hn'
      cases line with
      | nil =>
          show seek (n + 1) (b :: 13 :: 10 :: rest) = some 1
          rw [seek, if_neg (by intro h; exact absurd h.2 (by decide))]
          rw [List.nil_append] at hrest
          rw [hrest]
          rfl
      | cons c line =>
          have hcut : ¬(b = 13 ∧ c = 10) := by
            intro h
            obtain ⟨rfl, rfl⟩ := h
            exact hline ⟨[], line, rfl⟩
          show seek (n + 1) (b :: c :: (line ++ 13 :: 10 :: rest)) = _
          rw [seek, if_neg hcut]
          rw [List.cons_append] at hrest
          rw [hrest]
          rfl

theorem seekNewline_line {line rest : Bytes} (hline : ¬[13, 10] <:+: line)
    (hb : (line ++ 13 :: 10 :: rest).length ≤ INT_MAX) :
    seekNewline (line ++ 13 :: 10 :: rest) = some line.length := by
  rw [seekNewline_eq hb]
  refine seek_line rest hline ?_
  rw [List.length_append, List.length_cons, List.length_cons]
  omega

theorem not_crlf_of_forall {line : Bytes} (h : ∀ b ∈ line, b ≠ 13) : ¬[13, 10] <:+: line :=
  fun hin => h 13 (hin.subset List.mem_cons_self) rfl

theorem not_crlf_decimal (n : ℕ) : ¬[13, 10] <:+: decimal n := by
  refine not_crlf_of_forall fun b hb h => ?_
  have := isDigit_decimal n b hb
  rw [h] at this
  exact absurd this (by decide)

theorem not_crlf_intText (v : Int) : ¬[13, 10] <:+: intText v := by
  rw [intText]
  split
  · refine not_crlf_of_forall fun b hb h => ?_
    rcases List.mem_cons.mp hb with hminus | hb
    · rw [h] at hminus
      exact absurd hminus (by decide)
    · have := isDigit_decimal _ b hb
      rw [h] at this
      exact absurd this (by decide)
  · exact not_crlf_decimal _

theorem string2ll_decimal {n : ℕ} (h : n ≤ LLONG_MAX) : string2ll (decimal n) = some (n : Int) := by
  have := string2ll_intText (v := n) (by omega) (by omega)
  rwa [intText, if_neg (by omega), Int.natAbs_natCast] at this

/-! ## Reading one reply -/

/-- A task about to read an item, with the type byte noted. -/
def announced (cur : RedisReadTask) (type : ReplyType) : RedisReadTask :=
  { cur with type := some type }

theorem processItem_announced {cur : RedisReadTask} {below : List RedisReadTask} {b : UInt8}
    {type : ReplyType} (input : Bytes) (hcur : cur.type = none) (hb : replyType b = some type) :
    processItem (reading (cur :: below) (b :: input)) =
      carry (·.behind [b])
        (processTyped (reading (announced cur type :: below) input) type) := by
  have hstack : (reading (cur :: below) (b :: input)).rstack = cur :: below := rfl
  have hunread : (reading (cur :: below) (b :: input)).unread = b :: input := rfl
  rw [← processTyped_behind [b] rfl type, processItem, hstack]
  dsimp only
  rw [hcur, hunread]
  dsimp only
  rw [hb]
  rfl

theorem nextTask_congr (x : RedisReply) {cur cur' : RedisReadTask} (h : cur.idx = cur'.idx)
    (below : List RedisReadTask) : nextTask x cur below = nextTask x cur' below := by
  cases below with
  | nil => rfl
  | cons prv below => rw [nextTask, nextTask, h]

/-- What there is to read once the object of a task is there. -/
def readAfter (t : List RedisReadTask × Option RedisReply) (rest : Bytes) :
    List RedisReply × Stopped (List RedisReadTask) UInt8 RedisError :=
  (t.2.toList ++ (run readItem t.1 rest).1, (run readItem t.1 rest).2)

theorem run_item {cur : RedisReadTask} {below : List RedisReadTask} {b : UInt8}
    {input rest : Bytes} {k : ℕ} {x : RedisReply} (type : ReplyType) (hcur : cur.type = none)
    (hb : replyType b = some type) (hrest : input.drop k = rest)
    (h : processTyped (reading (announced cur type :: below) input) type =
      (true, moveToNextTask ((reading (announced cur type :: below) input).advance k) x)) :
    run readItem (cur :: below) (b :: input) = readAfter (nextTask x cur below) rest := by
  have hread : readItem (cur :: below) (b :: input) =
      .next (nextTask x cur below).1 (1 + (0 + k)) (nextTask x cur below).2 := by
    rw [readItem, begun_of_ne_nil (List.cons_ne_nil _ _), processItem_announced input hcur hb, h,
      itemOf_behind _ fun _ => moveToNextTask_err _ _]
    have hsame : nextTask x cur below = nextTask x (announced cur type) below :=
      nextTask_congr x (by rfl) below
    rw [hsame]
    rfl
  rw [run_next readItem_lawful hread, readAfter, Nat.zero_add, Nat.add_comm, List.drop_succ_cons,
    hrest]

theorem unread_reading (rstack : List RedisReadTask) (input : Bytes) :
    (reading rstack input).unread = input := rfl

section Line

variable {line rest : Bytes} (hline : ¬[13, 10] <:+: line)
  (hb : (line ++ 13 :: 10 :: rest).length ≤ INT_MAX)
include hline hb

omit hline hb in
theorem drop_line : (line ++ 13 :: 10 :: rest).drop (line.length + 2) = rest := by
  rw [← List.drop_drop, List.drop_left]
  rfl

theorem processLineItem_line (rstack : List RedisReadTask) (type : ReplyType) {x : RedisReply}
    (hx : (type = .integer ∧ ∃ v, x = .integer v ∧ string2ll line = some v) ∨
      (type = .error ∧ x = .error line) ∨ (type = .status ∧ x = .status line)) :
    processLineItem (reading rstack (line ++ 13 :: 10 :: rest)) type =
      (true, moveToNextTask ((reading rstack (line ++ 13 :: 10 :: rest)).advance
        (line.length + 2)) x) := by
  rw [processLineItem, readLine_eq, unread_reading, seekNewline_line hline hb, Option.map_some,
    List.take_left]
  dsimp only
  rcases hx with ⟨rfl, v, rfl, hv⟩ | ⟨rfl, rfl⟩ | ⟨rfl, rfl⟩
  · rw [if_pos rfl, hv]
  · rw [if_neg ReplyType.noConfusion, if_pos rfl]
  · rw [if_neg ReplyType.noConfusion, if_neg ReplyType.noConfusion]

end Line

theorem processBulkItem_string {str rest : Bytes} (rstack : List RedisReadTask)
    (hlen : str.length ≤ LLONG_MAX)
    (hb : (decimal str.length ++ 13 :: 10 :: (str ++ 13 :: 10 :: rest)).length ≤ INT_MAX) :
    processBulkItem (reading rstack (decimal str.length ++ 13 :: 10 :: (str ++ 13 :: 10 :: rest))) =
      (true, moveToNextTask
        ((reading rstack (decimal str.length ++ 13 :: 10 :: (str ++ 13 :: 10 :: rest))).advance
          ((decimal str.length).length + 2 + str.length + 2)) (.string str)) := by
  rw [processBulkItem, unread_reading, seekNewline_line (not_crlf_decimal _) hb]
  dsimp only
  rw [List.take_left, string2ll_decimal hlen]
  dsimp only
  rw [if_neg (by omega), if_neg (by omega), Int.toNat_natCast, drop_line, List.take_left, if_pos]
  show 0 + _ ≤ (decimal str.length ++ 13 :: 10 :: (str ++ 13 :: 10 :: rest)).length
  simp only [List.length_append, List.length_cons]
  omega

theorem processBulkItem_nil {rest : Bytes} (rstack : List RedisReadTask)
    (hb : ([45, 49] ++ 13 :: 10 :: rest : Bytes).length ≤ INT_MAX) :
    processBulkItem (reading rstack ([45, 49] ++ 13 :: 10 :: rest)) =
      (true, moveToNextTask ((reading rstack ([45, 49] ++ 13 :: 10 :: rest)).advance 4) .nil) := by
  have hline : ¬[13, 10] <:+: ([45, 49] : Bytes) := by decide
  rw [processBulkItem, unread_reading, seekNewline_line hline hb]
  rfl

theorem processMultiBulkItem_array {n : ℕ} {rest : Bytes} (cur : RedisReadTask)
    {below : List RedisReadTask} (hdepth : below.length < 8) (hn : n ≤ INT_MAX)
    (hb : (decimal n ++ 13 :: 10 :: rest).length ≤ INT_MAX) :
    processMultiBulkItem (reading (cur :: below) (decimal n ++ 13 :: 10 :: rest)) =
      (true,
        if n = 0 then
          moveToNextTask ((reading (cur :: below) (decimal n ++ 13 :: 10 :: rest)).advance
            ((decimal n).length + 2)) (.array [])
        else
          { (reading (cur :: below) (decimal n ++ 13 :: 10 :: rest)).advance
              ((decimal n).length + 2) with
            rstack := ⟨none, -1, 0, []⟩ :: { cur with elements := n, obj := [] } :: below }) := by
  have hmax : n ≤ LLONG_MAX := by
    rw [INT_MAX] at hn
    rw [LLONG_MAX]
    omega
  have hstack : ¬(reading (cur :: below) (decimal n ++ 13 :: 10 :: rest)).rstack.length = 9 := by
    show ¬below.length + 1 = 9
    omega
  rw [processMultiBulkItem, if_neg hstack, readLine_eq, unread_reading,
    seekNewline_line (not_crlf_decimal _) hb, Option.map_some, List.take_left]
  dsimp only
  rw [string2ll_decimal hmax]
  dsimp only
  rw [if_neg (by omega), if_neg (by omega)]
  by_cases hzero : n = 0
  · rw [if_neg (by omega), if_pos hzero]
  · rw [if_pos (by omega), if_neg hzero]
    rfl

/-- The elements of an array, from the one at `idx` on. -/
theorem run_encodeAll {below : List RedisReadTask} {rest : Bytes} {ys : List RedisReply}
    (hread : ∀ y ∈ ys, ∀ (cur prv : RedisReadTask) (rest : Bytes), cur.type = none →
      (y.encode ++ rest).length ≤ INT_MAX →
      run readItem (cur :: prv :: below) (y.encode ++ rest) =
        readAfter (nextTask y cur (prv :: below)) rest)
    (hne : ys ≠ []) {idx : ℕ} {prv : RedisReadTask} (hel : prv.elements = idx + ys.length)
    (hb : (encodeAll ys ++ rest).length ≤ INT_MAX) :
    run readItem (⟨none, -1, idx, []⟩ :: prv :: below) (encodeAll ys ++ rest) =
      readAfter (nextTask (.array (prv.obj ++ ys)) prv below) rest := by
  induction ys generalizing idx prv with
  | nil => exact absurd rfl hne
  | cons y ys ih =>
      rw [encodeAll, List.append_assoc] at hb ⊢
      rw [hread y List.mem_cons_self _ _ _ rfl hb, nextTask]
      cases ys with
      | nil =>
          have hlast : (idx : Int) = prv.elements - 1 := by
            rw [hel, List.length_singleton]
            omega
          rw [if_pos hlast]
          rfl
      | cons z zs =>
          have hmore : ¬(idx : Int) = prv.elements - 1 := by
            rw [hel, List.length_cons, List.length_cons]
            omega
          have hb' : (encodeAll (z :: zs) ++ rest).length ≤ INT_MAX := by
            rw [List.length_append] at hb
            omega
          have hel' : ({ prv with obj := prv.obj ++ [y] } : RedisReadTask).elements =
              ((idx + 1 : ℕ) : Int) + (z :: zs).length := by
            show prv.elements = _
            rw [hel, List.length_cons]
            omega
          have hrest := ih (fun w hw => hread w (List.mem_cons_of_mem _ hw))
            (List.cons_ne_nil _ _) hel' hb'
          rw [if_neg hmore, readAfter]
          show (([] : List RedisReply) ++ _, _) = _
          rw [List.nil_append]
          refine hrest.trans ?_
          show readAfter (nextTask (.array (prv.obj ++ [y] ++ z :: zs)) _ below) rest = _
          rw [List.append_assoc]
          exact congrArg (readAfter · rest) (nextTask_congr _ (by rfl) below)

/-- The reader reads a reply off the front of its input. -/
theorem run_encode {n : ℕ} {x : RedisReply} (hx : Sendable n x) {cur : RedisReadTask}
    {below : List RedisReadTask} {rest : Bytes} (hcur : cur.type = none)
    (hdepth : below.length + n ≤ 8) (hb : (x.encode ++ rest).length ≤ INT_MAX) :
    run readItem (cur :: below) (x.encode ++ rest) = readAfter (nextTask x cur below) rest := by
  induction hx generalizing cur below rest with
  | @string n str h =>
      have hbytes : (RedisReply.string str).encode ++ rest =
          36 :: (decimal str.length ++ 13 :: 10 :: (str ++ 13 :: 10 :: rest)) := by
        simp [RedisReply.encode]
      rw [hbytes] at hb ⊢
      rw [List.length_cons] at hb
      refine run_item .string hcur rfl ?_
        (processBulkItem_string _ h (by omega))
      have hsplit : (decimal str.length).length + 2 + str.length + 2 =
          ((decimal str.length).length + 2) + (str.length + 2) := by omega
      rw [hsplit, ← List.drop_drop, drop_line, drop_line]
  | @array n element hlen hel ih =>
      have hbytes : (RedisReply.array element).encode ++ rest =
          42 :: (decimal element.length ++ 13 :: 10 :: (encodeAll element ++ rest)) := by
        simp [RedisReply.encode]
      rw [hbytes] at hb ⊢
      rw [List.length_cons] at hb
      have hdeep : below.length < 8 := by omega
      have hline : (decimal element.length ++ 13 :: 10 :: (encodeAll element ++ rest)).length ≤
          INT_MAX := by omega
      have harray := processMultiBulkItem_array (announced cur .array) hdeep hlen hline
      by_cases hempty : element = []
      · have hzero : element.length = 0 := by rw [hempty]; rfl
        rw [if_pos hzero] at harray
        subst hempty
        exact run_item .array hcur rfl drop_line harray
      · have hpos : element.length ≠ 0 := fun h => hempty (List.eq_nil_of_length_eq_zero h)
        rw [if_neg hpos] at harray
        have hread : readItem (cur :: below)
            (42 :: (decimal element.length ++ 13 :: 10 :: (encodeAll element ++ rest))) =
            .next (⟨none, -1, ((0 : ℕ) : Int), []⟩ ::
              { announced cur .array with elements := element.length, obj := [] } :: below)
              (1 + (0 + ((decimal element.length).length + 2))) none := by
          rw [readItem, begun_of_ne_nil (List.cons_ne_nil _ _),
            processItem_announced _ hcur (show replyType 42 = some .array from rfl), processTyped,
            harray,
            itemOf_behind _ fun _ => rfl]
          rfl
        have hb' : (encodeAll element ++ rest).length ≤ INT_MAX := by
          rw [List.length_append, List.length_cons, List.length_cons] at hb
          omega
        rw [run_next readItem_lawful hread, Nat.zero_add, Nat.add_comm, List.drop_succ_cons,
          drop_line, run_encodeAll _ hempty _ hb']
        · show ([] ++ _, _) = _
          rw [List.nil_append]
          exact congrArg (readAfter · rest) (nextTask_congr _ (by rfl) below)
        · intro y hy cur' prv rest' hcur' hb''
          refine ih y hy hcur' ?_ hb''
          rw [List.length_cons]
          omega
        · show (element.length : Int) = ((0 : ℕ) : Int) + element.length
          omega
  | @integer n v hmin hmax =>
      have hbytes : (RedisReply.integer v).encode ++ rest =
          58 :: (intText v ++ 13 :: 10 :: rest) := by
        simp [RedisReply.encode]
      rw [hbytes] at hb ⊢
      rw [List.length_cons] at hb
      exact run_item .integer hcur rfl drop_line
        (processLineItem_line (not_crlf_intText v) (by omega) _ _
          (.inl ⟨rfl, v, rfl, string2ll_intText hmin hmax⟩))
  | nil =>
      have hbytes : RedisReply.nil.encode ++ rest = 36 :: ([45, 49] ++ 13 :: 10 :: rest) := by
        simp [RedisReply.encode]
      rw [hbytes] at hb ⊢
      rw [List.length_cons] at hb
      exact run_item .string hcur rfl rfl (processBulkItem_nil _ (by omega))
  | @status n str h =>
      have hbytes : (RedisReply.status str).encode ++ rest = 43 :: (str ++ 13 :: 10 :: rest) := by
        simp [RedisReply.encode]
      rw [hbytes] at hb ⊢
      rw [List.length_cons] at hb
      exact run_item .status hcur rfl drop_line
        (processLineItem_line h (by omega) _ _ (.inr (.inr ⟨rfl, rfl⟩)))
  | @error n str h =>
      have hbytes : (RedisReply.error str).encode ++ rest = 45 :: (str ++ 13 :: 10 :: rest) := by
        simp [RedisReply.encode]
      rw [hbytes] at hb ⊢
      rw [List.length_cons] at hb
      exact run_item .error hcur rfl drop_line
        (processLineItem_line h (by omega) _ _ (.inr (.inl ⟨rfl, rfl⟩)))

/-- A stream of replies is read as these replies. -/
theorem run_stream {xs : List RedisReply} (hxs : ∀ x ∈ xs, Sendable 8 x)
    (hb : (encodeAll xs).length ≤ INT_MAX) : (run readItem [] (encodeAll xs)).1 = xs := by
  induction xs with
  | nil => exact run_nil []
  | cons x xs ih =>
      rw [encodeAll] at hb ⊢
      have hrest := ih (fun y hy => hxs y (List.mem_cons_of_mem _ hy))
        (by rw [List.length_append] at hb; omega)
      have hone : run readItem [.root] (x.encode ++ encodeAll xs) =
          readAfter (nextTask x .root []) (encodeAll xs) :=
        run_encode (hxs x List.mem_cons_self) rfl (Nat.le_refl _) hb
      rw [← run_begun]
      show (run readItem [.root] (x.encode ++ encodeAll xs)).1 = x :: xs
      rw [hone, readAfter]
      show [x] ++ (run readItem [] (encodeAll xs)).1 = x :: xs
      rw [hrest]
      rfl

/-- Replies sent one after the other come out as they were sent, however the
socket cuts their bytes and whenever they are asked for. -/
theorem replies_read_back {xs : List RedisReply} {calls : List ReaderCall}
    (hxs : ∀ x ∈ xs, Sendable 8 x) (hfed : allFed calls = encodeAll xs)
    (hb : (encodeAll xs).length ≤ INT_MAX) :
    (session calls).1 <+: xs ∧
      ((redisReaderGetReply (session calls).2).2.1 = none → (session calls).1 = xs) := by
  have h : Accounted (encodeAll xs) (session calls) := by
    rw [← hfed] at hb ⊢
    exact session_accounted hb
  have hreplies := accounted_replies h hb
  rw [run_stream hxs hb] at hreplies
  exact hreplies

/-- An array with a string in it, sent behind a nil reply. -/
def sentReplies : List RedisReply := [.nil, .array [.string [102], .integer (-1)]]

def sentCalls : List ReaderCall :=
  [.feed [36, 45, 49, 13, 10, 42, 50, 13], .getReply, .feed [10, 36, 49, 13, 10, 102, 13, 10, 58],
    .getReply, .feed [45, 49, 13, 10], .getReply]

theorem sentReplies_read_back : (session sentCalls).1 = sentReplies := by
  have hsendable : ∀ x ∈ sentReplies, Sendable 8 x := by
    intro x hx
    rcases List.mem_cons.mp hx with rfl | hx
    · exact .nil
    · rw [List.mem_singleton.mp hx]
      refine .array (by decide) fun y hy => ?_
      rcases List.mem_cons.mp hy with rfl | hy
      · exact .string (by decide)
      · rw [List.mem_singleton.mp hy]
        exact .integer (by decide) (by decide)
  exact (replies_read_back hsendable rfl (by decide)).2 rfl

end FileHub.Hiredis
