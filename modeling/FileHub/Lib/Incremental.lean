import Mathlib.Data.List.Basic

/-!
# Incremental readers

A reader takes items off the front of an input that arrives in pieces. Asked
for an item, it does one of three things: it consumes some of the input and
goes on, perhaps with an output; it needs more input, having noted what it saw
so far; or it fails for good.

`Lawful` says what makes such a reader indifferent to where the pieces end:
more input behind what an item consumed changes nothing, a failure stays one,
and a reader that stopped for want of input takes up where it left off. Then
`run_append` follows: reading a part and going on with the rest is reading
everything at once. The laws may be limited to inputs of at most `bound`
symbols, for readers whose counters are.
-/

namespace FileHub.Lib

inductive Item (σ β ε : Type*) where
  | next (s : σ) (n : ℕ) (out : Option β)
  | more (s : σ) (n : ℕ)
  | fail (e : ε)

/-- Where a reader is when it stops: at a state with unread input, or failed. -/
inductive Stopped (σ α ε : Type*) where
  | waiting (s : σ) (unread : List α)
  | failed (e : ε)

namespace Incremental

variable {σ α β ε : Type*}

/-- Items are read while there are any. The fuel counts symbols. -/
def readItems (item : σ → List α → Item σ β ε) :
    ℕ → σ → List α → List β × Stopped σ α ε
  | 0, s, input => ([], .waiting s input)
  | fuel + 1, s, input =>
      match item s input with
      | .next s' n out =>
          let rest := readItems item fuel s' (input.drop n)
          (out.toList ++ rest.1, rest.2)
      | .more s' n => ([], .waiting s' (input.drop n))
      | .fail e => ([], .failed e)

def run (item : σ → List α → Item σ β ε) (s : σ) (input : List α) :
    List β × Stopped σ α ε :=
  readItems item (input.length + 1) s input

/-- More input for a reader that stopped. -/
def resume (item : σ → List α → Item σ β ε) (t : List β × Stopped σ α ε)
    (more : List α) : List β × Stopped σ α ε :=
  match t.2 with
  | .waiting s unread => (t.1 ++ (run item s (unread ++ more)).1, (run item s (unread ++ more)).2)
  | .failed _ => t

/-- The item shifted behind `n` symbols that an earlier call consumed. -/
def shifted (n : ℕ) : Item σ β ε → Item σ β ε
  | .next s k out => .next s (n + k) out
  | .more s k => .more s (n + k)
  | .fail e => .fail e

/-- A reader that does not see where the input was cut. -/
structure Lawful (bound : ℕ) (item : σ → List α → Item σ β ε) : Prop where
  /-- An item consumes something, and nothing that is not there. -/
  consumes : ∀ {s input s' n out}, item s input = .next s' n out → 0 < n ∧ n ≤ input.length
  noted : ∀ {s input s' n}, item s input = .more s' n → n ≤ input.length
  /-- What is behind an item does not matter to it. -/
  next : ∀ {s input s' n out} (more : List α), (input ++ more).length ≤ bound →
    item s input = .next s' n out → item s (input ++ more) = .next s' n out
  fail : ∀ {s input e} (more : List α), (input ++ more).length ≤ bound →
    item s input = .fail e → item s (input ++ more) = .fail e
  /-- A reader that waited takes up where it stopped. -/
  more : ∀ {s input s' n} (more : List α), (input ++ more).length ≤ bound →
    item s input = .more s' n →
    item s (input ++ more) = shifted n (item s' (input.drop n ++ more))

section Lawful

variable {bound : ℕ} {item : σ → List α → Item σ β ε} (law : Lawful bound item)
include law

/-- Enough fuel is as good as any. -/
theorem readItems_fuel {fuel fuel' : ℕ} {s : σ} {input : List α} (hf : input.length < fuel)
    (hf' : input.length < fuel') :
    readItems item fuel s input = readItems item fuel' s input := by
  induction fuel generalizing fuel' s input with
  | zero => omega
  | succ fuel ih =>
      cases fuel' with
      | zero => omega
      | succ fuel' =>
          rw [readItems, readItems]
          cases h : item s input with
          | next s' n out =>
              have hn := law.consumes h
              have hlen : (input.drop n).length < fuel := by rw [List.length_drop]; omega
              have hlen' : (input.drop n).length < fuel' := by rw [List.length_drop]; omega
              show (out.toList ++ _, _) = (out.toList ++ _, _)
              rw [ih hlen hlen']
          | more s' n => rfl
          | fail e => rfl

theorem run_next {s s' : σ} {input : List α} {n : ℕ} {out : Option β}
    (h : item s input = .next s' n out) :
    run item s input =
      (out.toList ++ (run item s' (input.drop n)).1, (run item s' (input.drop n)).2) := by
  have hn := law.consumes h
  rw [run, readItems, h]
  have hlen : (input.drop n).length < input.length := by rw [List.length_drop]; omega
  show (out.toList ++ (readItems item input.length s' (input.drop n)).1, _) = _
  rw [readItems_fuel law hlen (Nat.lt_succ_self _)]
  rfl

omit law in
theorem run_more {s s' : σ} {input : List α} {n : ℕ} (h : item s input = .more s' n) :
    run item s input = ([], .waiting s' (input.drop n)) := by
  rw [run, readItems, h]

omit law in
theorem run_fail {s : σ} {input : List α} {e : ε} (h : item s input = .fail e) :
    run item s input = ([], .failed e) := by
  rw [run, readItems, h]

/-- A reader at a shifted item does what it does behind the shift. -/
theorem run_shifted {s s' : σ} {input rest : List α} {n : ℕ}
    (hdrop : input.drop n = rest) (h : item s input = shifted n (item s' rest)) :
    run item s input = run item s' rest := by
  cases h' : item s' rest with
  | next t k out =>
      rw [h', shifted] at h
      rw [run_next law h, run_next law h', ← hdrop, List.drop_drop]
  | more t k =>
      rw [h', shifted] at h
      rw [run_more h, run_more h', ← hdrop, List.drop_drop]
  | fail e =>
      rw [h', shifted] at h
      rw [run_fail h, run_fail h']

/-- Reading on is reading all of it. -/
theorem run_append {s : σ} {input more : List α} (hb : (input ++ more).length ≤ bound) :
    run item s (input ++ more) = resume item (run item s input) more := by
  generalize hk : input.length = k
  induction k using Nat.strongRecOn generalizing s input with
  | ind k ih =>
      cases h : item s input with
      | next s' n out =>
          have hn := law.consumes h
          have hdrop : (input ++ more).drop n = input.drop n ++ more :=
            List.drop_append_of_le_length hn.2
          have hlen : (input.drop n).length = k - n := by rw [List.length_drop, hk]
          have hb' : (input.drop n ++ more).length ≤ bound := by
            rw [List.length_append] at hb ⊢
            omega
          rw [run_next law (law.next more hb h), run_next law h, hdrop,
            ih (k - n) (by omega) hb' hlen]
          obtain ⟨outs, stopped⟩ := run item s' (input.drop n)
          cases stopped with
          | waiting t unread =>
              show (_ ++ (_ ++ _), _) = ((_ ++ _) ++ _, _)
              rw [List.append_assoc]
              rfl
          | failed e => rfl
      | more s' n =>
          have hn := law.noted h
          have hdrop : (input ++ more).drop n = input.drop n ++ more :=
            List.drop_append_of_le_length hn
          rw [run_shifted law hdrop (law.more more hb h), run_more h]
          rfl
      | fail e =>
          rw [run_fail (law.fail more hb h), run_fail h]
          rfl

end Lawful

end Incremental

end FileHub.Lib
