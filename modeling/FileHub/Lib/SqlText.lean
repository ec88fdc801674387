import FileHub.Lib.CString

/-!
# SQL text printed from a template, and what MySQL reads of it

A template is a text with holes for quoted strings and for numbers. MySQL reads
the text back by its rules for single quotes: a quote ends the string unless
another follows it, which stands for one; a backslash and the byte after it
stand for one byte, but before `%` and `_` for both.

A printed argument reads back as itself exactly when it is `Plain`. One
direction is easy. For the other, a string that is read past the quote meant to
end it must have swallowed a pair of special bytes for one; what it reads from
there on lags behind, and to catch up it would need ever more of them, but the
template goes on with another byte after the quote.
-/

namespace FileHub.Lib.Sql

def quote : UInt8 := 39

def backslash : UInt8 := 92

/-! ## Reading -/

/-- What a backslash and `c` stand for. -/
def unescape (c : UInt8) : Bytes :=
  if c = 48 then [0]
  else if c = 98 then [8]
  else if c = 110 then [10]
  else if c = 114 then [13]
  else if c = 116 then [9]
  else if c = 90 then [26]
  else if c = 37 ∨ c = 95 then [backslash, c]
  else [c]

/-- A string after its opening quote: its value, and what follows the closing one. -/
def readString : Bytes → Option (Bytes × Bytes)
  | [] => none
  | b :: rest =>
      if b = quote then
        match rest with
        | [] => some ([], [])
        | c :: rest' =>
            if c = quote then (readString rest').map fun p => (quote :: p.1, p.2)
            else some ([], c :: rest')
      else if b = backslash then
        match rest with
        | [] => none
        | c :: rest' => (readString rest').map fun p => (unescape c ++ p.1, p.2)
      else (readString rest).map fun p => (b :: p.1, p.2)

/-- A byte outside of strings, or a string with its value. -/
inductive Token where
  | byte (b : UInt8)
  | str (value : Bytes)
deriving DecidableEq

def lex : ℕ → Bytes → Option (List Token)
  | 0, _ => none
  | _ + 1, [] => some []
  | fuel + 1, b :: rest =>
      if b = quote then
        match readString rest with
        | none => none
        | some (value, rest') => (lex fuel rest').map (.str value :: ·)
      else (lex fuel rest).map (.byte b :: ·)

def tokens (s : Bytes) : Option (List Token) := lex (s.length + 1) s

/-! ## Printing -/

/-- A piece of a template: text, `'%s'` and `%d` with their arguments. -/
inductive Piece where
  | text (s : String)
  | quoted (arg : Bytes)
  | num (n : Int)

def Piece.print : Piece → Bytes
  | .text s => ascii s
  | .quoted arg => quote :: (cStr arg ++ [quote])
  | .num n => intText n

def print (ps : List Piece) : Bytes := (ps.map Piece.print).flatten

/-- What the template means a piece to be read as. -/
def Piece.tokens : Piece → List Token
  | .text s => (ascii s).map .byte
  | .quoted arg => [.str arg]
  | .num n => (intText n).map .byte

def meant (ps : List Piece) : List Token := (ps.map Piece.tokens).flatten

def Piece.arg : Piece → Option Bytes
  | .text _ | .num _ => none
  | .quoted arg => some arg

/-- The quoted arguments of a template. -/
def args (ps : List Piece) : List Bytes := ps.filterMap Piece.arg

/-- Nothing in the argument means something else between quotes: no quote and
no NUL, and a backslash only before `%` and `_`. -/
def Plain : Bytes → Prop
  | [] => True
  | b :: rest =>
      if b = backslash then
        match rest with
        | [] => False
        | c :: rest' => (c = 37 ∨ c = 95) ∧ Plain rest'
      else b ≠ quote ∧ b ≠ 0 ∧ Plain rest

/-! ## One step of the reader -/

theorem unescape_wild {c : UInt8} (h : c = 37 ∨ c = 95) : unescape c = [backslash, c] := by
  rcases h with rfl | rfl <;> rfl

/-- The other escapes stand for one byte, a quote or a backslash only for itself. -/
theorem unescape_single {c : UInt8} (h : ¬(c = 37 ∨ c = 95)) :
    ∃ e, unescape c = [e] ∧ (e = quote ∨ e = backslash → c = e) := by
  rw [unescape, if_neg h]
  repeat' split
  all_goals first
    | exact ⟨_, rfl, fun he => absurd he (by decide)⟩
    | exact ⟨_, rfl, fun _ => rfl⟩

theorem readString_byte {b : UInt8} {rest : Bytes} (hq : b ≠ quote) (hb : b ≠ backslash) :
    readString (b :: rest) = (readString rest).map fun p => (b :: p.1, p.2) := by
  rw [readString.eq_def]
  dsimp only
  rw [if_neg hq, if_neg hb]

theorem readString_pair {rest : Bytes} : readString (quote :: quote :: rest) =
    (readString rest).map fun p => (quote :: p.1, p.2) := by
  rw [readString, if_pos rfl]
  exact if_pos rfl

theorem readString_close {rest : Bytes} (h : ∀ c ∈ rest.head?, c ≠ quote) :
    readString (quote :: rest) = some ([], rest) := by
  rw [readString.eq_def]
  dsimp only
  rw [if_pos rfl]
  cases rest with
  | nil => rfl
  | cons c rest => exact if_neg (h c rfl)

theorem readString_escape {c : UInt8} {rest : Bytes} : readString (backslash :: c :: rest) =
    (readString rest).map fun p => (unescape c ++ p.1, p.2) := by
  rw [readString, if_neg (by decide), if_pos rfl]

/-- The ways a string goes on, with what is left of its text and of its value. -/
theorem readString_cases {s value rem : Bytes} (h : readString s = some (value, rem)) :
    (∃ rest, s = quote :: rest ∧ (∀ c ∈ rest.head?, c ≠ quote) ∧ value = [] ∧ rem = rest) ∨
    (∃ rest v, s = quote :: quote :: rest ∧ value = quote :: v ∧
      readString rest = some (v, rem)) ∨
    (∃ c rest v, s = backslash :: c :: rest ∧ value = unescape c ++ v ∧
      readString rest = some (v, rem)) ∨
    (∃ b rest v, s = b :: rest ∧ b ≠ quote ∧ b ≠ backslash ∧ value = b :: v ∧
      readString rest = some (v, rem)) := by
  cases s with
  | nil => cases h
  | cons b rest =>
      by_cases hq : b = quote
      · subst hq
        by_cases hclose : ∀ c ∈ rest.head?, c ≠ quote
        · rw [readString_close hclose] at h
          cases h
          exact .inl ⟨_, rfl, hclose, rfl, rfl⟩
        · push Not at hclose
          obtain ⟨c, hc, rfl⟩ := hclose
          cases rest with
          | nil => cases hc
          | cons d rest =>
              cases hc
              rw [readString_pair] at h
              obtain ⟨⟨v, rem'⟩, hv, heq⟩ := Option.map_eq_some_iff.mp h
              cases heq
              exact .inr (.inl ⟨rest, v, rfl, rfl, hv⟩)
      · by_cases hb : b = backslash
        · subst hb
          cases rest with
          | nil => cases h
          | cons c rest =>
              rw [readString_escape] at h
              obtain ⟨⟨v, rem'⟩, hv, heq⟩ := Option.map_eq_some_iff.mp h
              cases heq
              exact .inr (.inr (.inl ⟨c, rest, v, rfl, rfl, hv⟩))
        · rw [readString_byte hq hb] at h
          obtain ⟨⟨v, rem'⟩, hv, heq⟩ := Option.map_eq_some_iff.mp h
          cases heq
          exact .inr (.inr (.inr ⟨b, rest, v, rfl, hq, hb, rfl, hv⟩))

/-! ## A plain argument -/

theorem plain_cons {b : UInt8} {rest : Bytes} (hb : b ≠ backslash) :
    Plain (b :: rest) ↔ b ≠ quote ∧ b ≠ 0 ∧ Plain rest := by
  rw [Plain.eq_def]
  dsimp only
  rw [if_neg hb]

theorem plain_escape {c : UInt8} {rest : Bytes} :
    Plain (backslash :: c :: rest) ↔ (c = 37 ∨ c = 95) ∧ Plain rest := by
  rw [Plain, if_pos rfl]

theorem plain_of_forall {s : Bytes} (h : ∀ b ∈ s, b ≠ backslash ∧ b ≠ quote ∧ b ≠ 0) :
    Plain s := by
  induction s with
  | nil => trivial
  | cons b s ih =>
      obtain ⟨hback, hquote, hnul⟩ := h b List.mem_cons_self
      exact (plain_cons hback).mpr ⟨hquote, hnul, ih fun c hc => h c (List.mem_cons_of_mem _ hc)⟩

theorem not_plain_backslash : ¬ Plain [backslash] := by
  rw [Plain, if_pos rfl]
  exact not_false

instance Plain.decide : DecidablePred Plain
  | [] => .isTrue trivial
  | [b] =>
      if hb : b = backslash then .isFalse (hb ▸ not_plain_backslash)
      else decidable_of_iff (b ≠ quote ∧ b ≠ 0) (by simp [Plain, hb])
  | b :: c :: rest =>
      if hb : b = backslash then
        have := Plain.decide rest
        decidable_of_iff ((c = 37 ∨ c = 95) ∧ Plain rest) (hb ▸ plain_escape.symm)
      else
        have := Plain.decide (c :: rest)
        decidable_of_iff (b ≠ quote ∧ b ≠ 0 ∧ Plain (c :: rest)) (plain_cons hb).symm

/-- By the bytes of an argument, two at a time after a backslash. -/
theorem escape_induction {P : Bytes → Prop} (nil : P [])
    (cons : ∀ b rest, b ≠ backslash → P rest → P (b :: rest)) (single : P [backslash])
    (escape : ∀ c rest, P rest → P (backslash :: c :: rest)) : ∀ q, P q
  | [] => nil
  | [b] => by
      by_cases hb : b = backslash
      · rw [hb]
        exact single
      · exact cons b [] hb nil
  | b :: c :: rest => by
      by_cases hb : b = backslash
      · rw [hb]
        exact escape c rest (escape_induction nil cons single escape rest)
      · exact cons b _ hb (escape_induction nil cons single escape (c :: rest))

theorem cStr_plain {q : Bytes} (hq : Plain q) : cStr q = q := by
  refine cStr_of_forall ?_
  induction q using escape_induction with
  | nil => nofun
  | cons b rest hb ih =>
      obtain ⟨-, hnul, hrest⟩ := (plain_cons hb).mp hq
      intro c hc
      rcases List.mem_cons.mp hc with rfl | hc
      · exact hnul
      · exact ih hrest c hc
  | single => exact absurd hq not_plain_backslash
  | escape c rest ih =>
      obtain ⟨hwild, hrest⟩ := plain_escape.mp hq
      intro d hd
      rcases List.mem_cons.mp hd with rfl | hd
      · decide
      · rcases List.mem_cons.mp hd with rfl | hd
        · rcases hwild with rfl | rfl <;> decide
        · exact ih hrest d hd

theorem readString_plain {q rest : Bytes} (hq : Plain q) (hrest : ∀ c ∈ rest.head?, c ≠ quote) :
    readString (q ++ quote :: rest) = some (q, rest) := by
  induction q using escape_induction with
  | nil => exact readString_close hrest
  | cons b q hb ih =>
      obtain ⟨hquote, -, hq'⟩ := (plain_cons hb).mp hq
      rw [List.cons_append, readString_byte hquote hb, ih hq', Option.map_some]
  | single => exact absurd hq not_plain_backslash
  | escape c q ih =>
      obtain ⟨hwild, hq'⟩ := plain_escape.mp hq
      rw [List.cons_append, List.cons_append, readString_escape, ih hq', Option.map_some,
        unescape_wild hwild]
      rfl

/-! ## An argument that reads back -/

def Special (b : UInt8) : Prop := b = quote ∨ b = backslash

instance (b : UInt8) : Decidable (Special b) := inferInstanceAs (Decidable (_ ∨ _))

/-- The template goes on, if it does, with a byte that means nothing special. -/
def GoesOn (rest : Bytes) : Prop := ∀ c ∈ rest.head?, ¬ Special c ∧ c ≠ 0

theorem GoesOn.not_quote {rest : Bytes} (h : GoesOn rest) : ∀ c ∈ rest.head?, c ≠ quote :=
  fun c hc hq => (h c hc).1 (.inl hq)

/-- A reader that has read `ahead` beyond the value it has to produce, all of it
special, never produces the rest of it: each step would read two special bytes
more to produce one. -/
theorem readString_ahead {B tail rest ahead s rem : Bytes} (hrest : GoesOn rest)
    (htail : ∀ c ∈ tail.head?, c = 0) (hsplit : B ++ quote :: rest = ahead ++ s)
    (hne : ahead ≠ []) (hspecial : ∀ b ∈ ahead, Special b) :
    readString s ≠ some (B ++ tail, rem) := by
  intro h
  induction B generalizing ahead s with
  | nil =>
      -- only the closing quote is ahead, and what is read begins after it
      obtain ⟨b, ahead, rfl⟩ := List.exists_cons_of_ne_nil hne
      obtain ⟨-, hrest'⟩ := List.cons_eq_cons.mp hsplit
      cases ahead with
      | cons c ahead =>
          have hc : c ∈ rest.head? := by
            rw [hrest']
            rfl
          exact (hrest c hc).1 (hspecial c (List.mem_cons_of_mem _ List.mem_cons_self))
      | nil =>
          obtain rfl : rest = s := hrest'
          rcases readString_cases h with ⟨r, rfl, -⟩ | ⟨r, v, rfl, -⟩ | ⟨c, r, v, rfl, -⟩ |
            ⟨b, r, v, rfl, -, -, hv, -⟩
          · exact (hrest quote rfl).1 (.inl rfl)
          · exact (hrest quote rfl).1 (.inl rfl)
          · exact (hrest backslash rfl).1 (.inr rfl)
          · rw [List.nil_append] at hv
            subst hv
            exact (hrest b rfl).2 (htail b rfl)
  | cons b B ih =>
      obtain ⟨b', ahead, rfl⟩ := List.exists_cons_of_ne_nil hne
      rw [List.cons_append, List.cons_append] at hsplit
      obtain ⟨rfl, hsplit'⟩ := List.cons_eq_cons.mp hsplit
      have hb : Special b := hspecial b List.mem_cons_self
      have hahead : ∀ c ∈ ahead, Special c := fun c hc => hspecial c (List.mem_cons_of_mem _ hc)
      -- two more special bytes are read to produce `b`
      have hmore : ∀ c d r v, s = c :: d :: r → Special c → Special d →
          readString r = some (v, rem) → B ++ tail = v → False := by
        rintro c d r v rfl hc hd hread rfl
        refine @ih (ahead ++ [c, d]) _ ?_ ?_ ?_ hread
        · rw [hsplit', List.append_assoc]
          rfl
        · exact List.append_ne_nil_of_right_ne_nil _ (List.cons_ne_nil c [d])
        · intro e he
          rcases List.mem_append.mp he with he | he
          · exact hahead e he
          · simp only [List.mem_cons, List.not_mem_nil, or_false] at he
            rcases he with rfl | rfl
            · exact hc
            · exact hd
      rcases readString_cases h with ⟨r, -, -, hv, -⟩ | ⟨r, v, hs, hv, hread⟩ |
        ⟨c, r, v, hs, hv, hread⟩ | ⟨c, r, v, hs, hq, hbs, hv, -⟩
      · cases hv
      · exact hmore _ _ r v hs (.inl rfl) (.inl rfl) hread (List.cons_eq_cons.mp hv).2
      · by_cases hwild : c = 37 ∨ c = 95
        · -- `c` would have to stand among the special bytes ahead, or be the NUL
          rw [unescape_wild hwild] at hv
          obtain ⟨-, hv'⟩ := List.cons_eq_cons.mp hv
          have hc : ¬ Special c := by rcases hwild with rfl | rfl <;> decide
          cases B with
          | nil =>
              have hnul := htail c (by rw [show tail = _ from hv']; rfl)
              rw [hnul] at hwild
              revert hwild
              decide
          | cons d B =>
              obtain ⟨rfl, -⟩ := List.cons_eq_cons.mp hv'
              cases ahead with
              | nil =>
                  rw [hs] at hsplit'
                  exact hc (.inr (List.cons_eq_cons.mp hsplit').1)
              | cons a ahead =>
                  have ha := (List.cons_eq_cons.mp hsplit').1
                  exact hc (ha ▸ hahead a List.mem_cons_self)
        · obtain ⟨e, he, hself⟩ := unescape_single hwild
          rw [he] at hv
          obtain ⟨rfl, hv'⟩ := List.cons_eq_cons.mp hv
          obtain rfl := hself hb
          exact hmore _ _ r v hs (.inr rfl) hb hread hv'
      · obtain ⟨rfl, -⟩ := List.cons_eq_cons.mp hv
        exact hb.elim hq hbs

/-- If the value begins with the argument, and goes on at most with a NUL, then the argument is
plain, and it was read to the quote that is to end it. -/
theorem plain_of_readString {q tail rest rem : Bytes} (hrest : GoesOn rest)
    (htail : ∀ c ∈ tail.head?, c = 0) (hnul : ∀ b ∈ q, b ≠ 0)
    (h : readString (q ++ quote :: rest) = some (q ++ tail, rem)) :
    Plain q ∧ tail = [] ∧ rem = rest := by
  induction q using escape_induction with
  | nil =>
      rw [List.nil_append, readString_close hrest.not_quote] at h
      obtain ⟨hvalue, hrem⟩ := Prod.mk.inj (Option.some.inj h)
      exact ⟨trivial, hvalue.symm, hrem.symm⟩
  | cons b q hb ih =>
      have hnul' : ∀ c ∈ q, c ≠ 0 := fun c hc => hnul c (List.mem_cons_of_mem _ hc)
      rcases readString_cases h with ⟨r, hs, -, hv, -⟩ | ⟨r, v, hs, hv, hread⟩ |
        ⟨c, r, v, hs, -⟩ | ⟨c, r, v, hs, hquote, -, hv, hread⟩
      · cases hv
      · -- a pair of quotes stands for the first, and puts the reader ahead
        have hsplit : q ++ quote :: rest = [quote] ++ r := (List.cons_eq_cons.mp hs).2
        obtain ⟨-, hv'⟩ := List.cons_eq_cons.mp hv
        rw [← hv'] at hread
        refine absurd hread (readString_ahead hrest htail hsplit (List.cons_ne_nil _ _) ?_)
        intro c hc
        rw [List.mem_singleton] at hc
        exact .inl hc
      · exact absurd (List.cons_eq_cons.mp hs).1 hb
      · obtain ⟨rfl, rfl⟩ := List.cons_eq_cons.mp hs
        rw [List.cons_append] at hv
        obtain ⟨-, rfl⟩ := List.cons_eq_cons.mp hv
        obtain ⟨hq, htail', hrem⟩ := ih hnul' hread
        exact ⟨(plain_cons hb).mpr ⟨hquote, hnul b List.mem_cons_self, hq⟩, htail', hrem⟩
  | single =>
      rw [List.cons_append, List.nil_append, readString_escape] at h
      obtain ⟨⟨v, rem'⟩, -, heq⟩ := Option.map_eq_some_iff.mp h
      have hvalue := (Prod.mk.inj heq).1
      exact absurd (List.cons_eq_cons.mp hvalue).1 (by decide)
  | escape c q ih =>
      have hnul' : ∀ d ∈ q, d ≠ 0 := fun d hd =>
        hnul d (List.mem_cons_of_mem _ (List.mem_cons_of_mem _ hd))
      rw [List.cons_append, List.cons_append, readString_escape] at h
      obtain ⟨⟨v, rem'⟩, hread, heq⟩ := Option.map_eq_some_iff.mp h
      obtain ⟨hvalue, rfl⟩ := Prod.mk.inj heq
      by_cases hwild : c = 37 ∨ c = 95
      · rw [unescape_wild hwild] at hvalue
        have hv : v = q ++ tail := by
          simpa only [List.cons_append, List.nil_append, List.cons.injEq, true_and] using hvalue
        rw [hv] at hread
        obtain ⟨hq, htail', hrem⟩ := ih hnul' hread
        exact ⟨plain_escape.mpr ⟨hwild, hq⟩, htail', hrem⟩
      · obtain ⟨e, he, hself⟩ := unescape_single hwild
        rw [he] at hvalue
        obtain ⟨rfl, hv⟩ := List.cons_eq_cons.mp hvalue
        obtain rfl := hself (.inr rfl)
        -- a pair of backslashes, of which the second is still to be produced
        have hsplit : backslash :: q ++ quote :: rest = [backslash] ++ (q ++ quote :: rest) := rfl
        have hv' : v = backslash :: q ++ tail := hv
        rw [hv'] at hread
        refine absurd hread (readString_ahead hrest htail hsplit (List.cons_ne_nil _ _) ?_)
        intro d hd
        rw [List.mem_singleton] at hd
        exact .inr hd

/-- An argument and its C reading differ by what begins with a NUL. -/
theorem exists_tail (arg : Bytes) :
    ∃ tail, arg = cStr arg ++ tail ∧ ∀ c ∈ tail.head?, c = 0 := by
  refine ⟨arg.dropWhile fun b => b != 0, (List.takeWhile_append_dropWhile ..).symm, ?_⟩
  intro c hc
  have := List.head?_dropWhile_not (fun b => b != 0) arg
  rw [hc] at this
  simpa using this

/-- A printed argument reads back as itself exactly when it is plain. -/
theorem readString_iff {arg rest : Bytes} (hrest : GoesOn rest) :
    (∃ rem, readString (cStr arg ++ quote :: rest) = some (arg, rem)) ↔ Plain arg := by
  constructor
  · rintro ⟨rem, h⟩
    obtain ⟨tail, harg, htail⟩ := exists_tail arg
    have hread : readString (cStr arg ++ quote :: rest) = some (cStr arg ++ tail, rem) := by
      rw [h, ← harg]
    obtain ⟨hq, rfl, -⟩ := plain_of_readString hrest htail (cStr_nonzero arg) hread
    rw [harg, List.append_nil]
    exact hq
  · intro h
    rw [cStr_plain h]
    exact ⟨rest, readString_plain h hrest.not_quote⟩

/-! ## The whole text -/

theorem readString_length {s value rem : Bytes} (h : readString s = some (value, rem)) :
    rem.length < s.length := by
  induction hn : s.length using Nat.strong_induction_on generalizing s value with
  | _ n ih =>
      rcases readString_cases h with ⟨rest, rfl, -, -, rfl⟩ | ⟨rest, v, rfl, -, hread⟩ |
        ⟨c, rest, v, rfl, -, hread⟩ | ⟨b, rest, v, rfl, -, -, -, hread⟩ <;>
        rw [← hn] at ih ⊢ <;> simp only [List.length_cons] at ih ⊢
      · omega
      · have := ih rest.length (by omega) hread rfl
        omega
      · have := ih rest.length (by omega) hread rfl
        omega
      · have := ih rest.length (by omega) hread rfl
        omega

/-- Any fuel beyond the length does. -/
theorem lex_eq {m n : ℕ} {s : Bytes} (hm : s.length < m) (hn : s.length < n) :
    lex m s = lex n s := by
  induction m generalizing n s with
  | zero => omega
  | succ m ih =>
      obtain ⟨n, rfl⟩ := Nat.exists_eq_succ_of_ne_zero (by omega : n ≠ 0)
      cases s with
      | nil => rfl
      | cons b rest =>
          rw [List.length_cons] at hm hn
          rw [lex, lex]
          split
          · split
            · rfl
            · next hread =>
                have := readString_length hread
                rw [@ih n _ (by omega) (by omega)]
          · rw [@ih n _ (by omega) (by omega)]

theorem tokens_byte {b : UInt8} {rest : Bytes} (hb : b ≠ quote) :
    tokens (b :: rest) = (tokens rest).map (.byte b :: ·) := by
  rw [tokens, lex, if_neg hb]
  rfl

theorem tokens_quote {rest : Bytes} : tokens (quote :: rest) =
    (readString rest).bind fun p => (tokens p.2).map (.str p.1 :: ·) := by
  rw [tokens, lex, if_pos rfl]
  cases h : readString rest with
  | none => rfl
  | some p =>
      have := readString_length h
      dsimp only [Option.bind_some]
      rw [lex_eq (by rw [List.length_cons]; omega) (Nat.lt_succ_self _), tokens]

theorem tokens_bytes {t rest : Bytes} (h : quote ∉ t) :
    tokens (t ++ rest) = (tokens rest).map (t.map .byte ++ ·) := by
  induction t with
  | nil => simp
  | cons b t ih =>
      rw [List.mem_cons, not_or] at h
      obtain ⟨hb, ht⟩ := h
      rw [List.cons_append, tokens_byte (Ne.symm hb), ih ht, Option.map_map]
      rfl

theorem tokens_bytes_iff {t rest : Bytes} {ts : List Token} (h : quote ∉ t) :
    tokens (t ++ rest) = some (t.map .byte ++ ts) ↔ tokens rest = some ts := by
  rw [tokens_bytes h]
  constructor
  · intro hts
    obtain ⟨us, hus, heq⟩ := Option.map_eq_some_iff.mp hts
    rw [hus, List.append_cancel_left heq]
  · intro hts
    rw [hts, Option.map_some]

/-- A quoted argument, read in its place. -/
theorem tokens_quoted_iff {arg rest : Bytes} {ts : List Token} (hrest : GoesOn rest) :
    tokens (quote :: (cStr arg ++ quote :: rest)) = some (.str arg :: ts) ↔
      Plain arg ∧ tokens rest = some ts := by
  rw [tokens_quote]
  constructor
  · intro h
    obtain ⟨⟨value, rem⟩, hread, hmap⟩ := Option.bind_eq_some_iff.mp h
    obtain ⟨us, hus, heq⟩ := Option.map_eq_some_iff.mp hmap
    obtain ⟨hvalue, rfl⟩ := List.cons_eq_cons.mp heq
    obtain rfl := Token.str.inj hvalue
    have harg := (readString_iff hrest).mp ⟨rem, hread⟩
    rw [cStr_plain harg, readString_plain harg hrest.not_quote] at hread
    cases hread
    exact ⟨harg, hus⟩
  · rintro ⟨harg, hts⟩
    rw [cStr_plain harg, readString_plain harg hrest.not_quote, Option.bind_some, hts]
    rfl

theorem quote_not_mem_decimal (n : ℕ) : quote ∉ decimal n := by
  intro h
  exact absurd (isDigit_decimal n quote h) (by decide)

theorem quote_not_mem_intText (n : Int) : quote ∉ intText n := by
  rw [intText]
  split
  · rw [List.mem_cons, not_or]
    exact ⟨by decide, quote_not_mem_decimal _⟩
  · exact quote_not_mem_decimal _

/-! ## Templates -/

/-- A piece that begins with a text byte which means nothing special. -/
def Piece.opens : Piece → Bool
  | .text s => (ascii s).head?.any fun b => b != quote && b != backslash && b != 0
  | .quoted _ | .num _ => false

/-- The text has no quotes of its own, and no argument stands right before another. -/
def separated : List Piece → Bool
  | [] => true
  | .text s :: ps => !(ascii s).contains quote && separated ps
  | .num _ :: ps => separated ps
  | .quoted _ :: ps => ps.head?.all Piece.opens && separated ps

theorem goesOn_of_opens {p : Piece} (h : p.opens = true) (ps : List Piece) :
    GoesOn (print (p :: ps)) := by
  cases p with
  | quoted arg => cases h
  | num n => cases h
  | text s =>
      rw [Piece.opens, Option.any_eq_true] at h
      obtain ⟨b, hb, hspecial⟩ := h
      obtain ⟨t, ht⟩ := List.head?_eq_some_iff.mp hb
      intro c hc
      rw [print, List.map_cons, List.flatten_cons, Piece.print, ht, List.cons_append,
        List.head?_cons, Option.mem_some_iff] at hc
      subst hc
      simp only [Bool.and_eq_true, bne_iff_ne, ne_eq] at hspecial
      exact ⟨fun hs => hs.elim hspecial.1.1 hspecial.1.2, hspecial.2⟩

theorem goesOn_print {ps : List Piece} (h : ps.head?.all Piece.opens = true) :
    GoesOn (print ps) := by
  cases ps with
  | nil => nofun
  | cons p ps => exact goesOn_of_opens h ps

/-- The printed template is read as it is meant exactly when every argument is plain. -/
theorem tokens_print_iff {ps : List Piece} (h : separated ps = true) :
    tokens (print ps) = some (meant ps) ↔ ∀ arg ∈ args ps, Plain arg := by
  induction ps with
  | nil => exact ⟨fun _ => nofun, fun _ => rfl⟩
  | cons p ps ih =>
      rw [print, meant, args, List.map_cons, List.flatten_cons, List.map_cons,
        List.flatten_cons]
      cases p with
      | text s =>
          rw [separated, Bool.and_eq_true, Bool.not_eq_true', List.contains_eq_mem,
            decide_eq_false_iff_not] at h
          rw [List.filterMap_cons_none rfl]
          exact (tokens_bytes_iff h.1).trans (ih h.2)
      | num n =>
          rw [separated] at h
          rw [List.filterMap_cons_none rfl]
          exact (tokens_bytes_iff (quote_not_mem_intText n)).trans (ih h)
      | quoted arg =>
          rw [separated, Bool.and_eq_true] at h
          show _ ↔ ∀ a ∈ arg :: args ps, Plain a
          rw [List.forall_mem_cons, ← ih h.2, Piece.print, List.cons_append, List.append_assoc]
          exact tokens_quoted_iff (goesOn_print h.1)

end FileHub.Lib.Sql
