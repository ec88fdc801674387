import FileHub.Http.HttpParserWrapper

/-!
# Whose value a header gets

A name is compared over the length of the key, so a longer name sets the flag
too; a flag set by a line without a colon waits for the next line that has one;
a name that ends within the key is read past its end; and a number that is no
`uint32_t` is stored as another. The six headers do not meet, so each is followed
on its own: `Header.next` is what one line does to its slot, and the slot is right
after every line exactly if no line in between brought it the value of another or
a number too large.
-/

namespace FileHub.Http

open Lib

/-! ## What is to be stored -/

def HeaderLine.Named (key : Bytes) (line : HeaderLine) : Prop :=
  line.name.map lower = key.map lower

instance (key : Bytes) : DecidablePred (HeaderLine.Named key) := fun line =>
  inferInstanceAs (Decidable (line.name.map lower = _))

/-- The line has the name and a value that is not empty. -/
def HeaderLine.Gives (key : Bytes) (line : HeaderLine) : Prop :=
  line.Named key ∧ ∃ v ∈ line.value, v ≠ []

instance (key : Bytes) : DecidablePred (HeaderLine.Gives key) := fun line =>
  inferInstanceAs (Decidable (_ ∧ ∃ v ∈ line.value, v ≠ []))

/-- The number that a run of digits begins with. -/
def digits (s : Bytes) : ℤ := ofDecimal (s.takeWhile isDigit)

/-- The number that a value spells, behind blanks and with its sign. -/
def number (value : Bytes) : ℤ :=
  match value.dropWhile fun b => b == 32 || 9 ≤ b && b ≤ 13 with
  | 45 :: t => -digits t
  | 43 :: t => digits t
  | t => digits t

theorem digits_cStr (s : Bytes) : digits (cStr s) = digits s := by
  have hdigit : (fun b : UInt8 => decide (isDigit b = true ∧ (b != 0) = true)) = isDigit := by
    funext b
    by_cases hb : b = 0
    · subst hb
      rfl
    · simp [hb]
  rw [digits, digits, cStr, List.takeWhile_takeWhile, hdigit]

/-- No number goes on behind a NUL. -/
theorem number_cStr (s : Bytes) : number (cStr s) = number s := by
  induction s with
  | nil => rfl
  | cons b s ih =>
      by_cases hzero : b = 0
      · subst hzero
        rfl
      · have hcons : cStr (b :: s) = b :: cStr s := by
          rw [cStr, List.takeWhile_cons, if_pos (bne_iff_ne.mpr hzero), cStr]
        have hdigits := digits_cStr (b :: s)
        rw [hcons] at hdigits ⊢
        rw [number, number, List.dropWhile_cons, List.dropWhile_cons]
        by_cases hblank : (b == 32 || 9 ≤ b && b ≤ 13) = true
        · rw [if_pos hblank, if_pos hblank]
          exact ih
        · rw [if_neg hblank, if_neg hblank]
          by_cases hminus : b = 45
          · subst hminus
            exact congrArg (-·) (digits_cStr s)
          · by_cases hplus : b = 43
            · subst hplus
              exact digits_cStr s
            · split
              · next heq => exact absurd (List.cons.inj heq).1 hminus
              · next heq => exact absurd (List.cons.inj heq).1 hplus
              · split
                · next heq => exact absurd (List.cons.inj heq).1 hminus
                · next heq => exact absurd (List.cons.inj heq).1 hplus
                · exact hdigits

/-- `strtol` gives the number, or the bound that it is beyond. -/
theorem strtol_eq (s : Bytes) :
    strtol s = max (-9223372036854775808) (min (number s) 9223372036854775807) :=
  rfl

/-- What a header is to hold of a value, and when its setter stores that. -/
structure Meaning {α : Type} (h : Header α) where
  value : Bytes → α
  Fits : Bytes → Prop
  set_iff : ∀ v, h.set h.start v = value v ↔ Fits v

namespace Meaning

/-- The whole text. -/
def text (key : String) (hkey : ∀ b ∈ nameEnds, ∀ c ∈ ascii key, lower b ≠ lower c) :
    Meaning (Http.text key hkey) where
  value v := v
  Fits _ := True
  set_iff _ := iff_of_true rfl trivial

def referer : Meaning Http.referer where
  value v := v.take 32
  Fits _ := True
  set_iff _ := iff_of_true rfl trivial

def forwardIp : Meaning Http.forwardIp := text _ _

def userAgent : Meaning Http.userAgent := text _ _

def contentType : Meaning Http.contentType := text _ _

/-- The number, which is to be a `uint32_t`. -/
def contentLen : Meaning Http.contentLen where
  value := number
  Fits v := 0 ≤ number v ∧ number v < 2 ^ 32
  set_iff v := by
    have hset : Http.contentLen.set Http.contentLen.start v = atoi (cStr v) % 2 ^ 32 := rfl
    have hmod (n : ℤ) : n.bmod (2 ^ 32) % 2 ^ 32 = n % 2 ^ 32 := Int.bmod_emod
    rw [hset, atoi, hmod, strtol_eq, number_cStr]
    omega

def host : Meaning Http.host := text _ _

/-- What is to be stored: of the first line that gives a value. -/
def wanted {α : Type} {h : Header α} (m : Meaning h) (lines : List HeaderLine) : α :=
  match lines.find? fun line => line.Gives h.key with
  | none => h.start
  | some line => m.value (line.value.getD [])

end Meaning

/-- The six headers are stored as they are to be. -/
structure Stored (w : CHttpParserWrapper) (lines : List HeaderLine) : Prop where
  referer : w.referer_.stored = Meaning.referer.wanted lines
  forwardIp : w.forward_ip_.stored = Meaning.forwardIp.wanted lines
  userAgent : w.user_agent_.stored = Meaning.userAgent.wanted lines
  contentType : w.content_type_.stored = Meaning.contentType.wanted lines
  contentLen : w.content_len_.stored = Meaning.contentLen.wanted lines
  host : w.host_.stored = Meaning.host.wanted lines

/-- The headers are stored, and a name is compared as if nothing followed it. -/
structure Captures (lines : List HeaderLine) : Prop where
  stored : ∃ w, CHttpParserWrapper.parseHttpContent lines = some w ∧ Stored w lines
  inside : ∀ before line, before ++ [line] <+: lines →
    ∃ w, CHttpParserWrapper.parseHttpContent before = some w ∧ (w.onHeaderField line.name).isSome

/-! ## When it holds -/

/-- The name begins with the key. -/
def begins (key name : Bytes) : Prop := key.map lower <+: name.map lower

instance (key name : Bytes) : Decidable (begins key name) :=
  inferInstanceAs (Decidable (_ <+: _))

/-- The line brings no value but its own: one that would be stored, as the flag is
set or the name begins with the key, comes with that very name, and none came with
it before; and the first value that does come with it fits. -/
structure Meaning.Proper {α : Type} {h : Header α} (m : Meaning h) (slot : Slot α)
    (before : List HeaderLine) (line : HeaderLine) : Prop where
  own : ∀ v ∈ line.value, h.set h.start v ≠ h.start →
    slot.read = true ∨ begins h.key line.name →
      line.Named h.key ∧ ∀ l ∈ before, ¬l.Gives h.key
  fits : line.Gives h.key → (∀ l ∈ before, ¬l.Gives h.key) → ∀ v ∈ line.value, m.Fits v

/-- As long as nothing is stored: a name does not end within the key, and the line
is proper. -/
def Meaning.Unambiguous {α : Type} {h : Header α} (m : Meaning h) (slot : Slot α)
    (before : List HeaderLine) (line : HeaderLine) : Prop :=
  slot.stored = h.start →
    ¬(line.name.map lower <+: h.key.map lower ∧ ¬line.Named h.key) ∧ m.Proper slot before line

structure Unambiguous (w : CHttpParserWrapper) (before : List HeaderLine) (line : HeaderLine) :
    Prop where
  referer : Meaning.referer.Unambiguous w.referer_ before line
  forwardIp : Meaning.forwardIp.Unambiguous w.forward_ip_ before line
  userAgent : Meaning.userAgent.Unambiguous w.user_agent_ before line
  contentType : Meaning.contentType.Unambiguous w.content_type_ before line
  contentLen : Meaning.contentLen.Unambiguous w.content_len_ before line
  host : Meaning.host.Unambiguous w.host_ before line

/-! ## The comparison -/

variable {key name rest : Bytes}

theorem strncasecmp_append (hrest : ∃ b more, rest = b :: more ∧ b ∈ nameEnds)
    (hkey : ∀ b ∈ nameEnds, ∀ c ∈ key, lower b ≠ lower c) :
    strncasecmp (name ++ rest) key = some (decide (begins key name)) := by
  induction key generalizing name with
  | nil =>
      rw [strncasecmp, decide_eq_true]
      exact List.nil_prefix
  | cons c key ih =>
      have hkey' : ∀ b ∈ nameEnds, ∀ c ∈ key, lower b ≠ lower c := fun b hb c hc =>
        hkey b hb c (List.mem_cons_of_mem _ hc)
      cases name with
      | nil =>
          obtain ⟨b, more, rfl, hb⟩ := hrest
          rw [List.nil_append, strncasecmp, if_neg (hkey b hb c List.mem_cons_self),
            decide_eq_false]
          intro h
          cases List.prefix_nil.mp h
      | cons b name =>
          rw [List.cons_append, strncasecmp]
          have hcons : begins (c :: key) (b :: name) ↔ lower c = lower b ∧ begins key name :=
            List.cons_prefix_cons
          by_cases hbc : lower b = lower c
          · rw [if_pos hbc, ih hkey', decide_eq_decide.mpr]
            rw [hcons, and_iff_right hbc.symm]
          · rw [if_neg hbc, decide_eq_false]
            rw [hcons]
            exact fun h => hbc h.1.symm

/-- The comparison stays within the name unless it ends within the key. -/
theorem isSome_strncasecmp : (strncasecmp name key).isSome ↔
    ¬(name.map lower <+: key.map lower ∧ name.map lower ≠ key.map lower) := by
  induction key generalizing name with
  | nil =>
      rw [strncasecmp]
      refine iff_of_true rfl fun h => h.2 ?_
      exact List.prefix_nil.mp h.1
  | cons c key ih =>
      cases name with
      | nil =>
          rw [strncasecmp]
          exact iff_of_false nofun fun h => h ⟨List.nil_prefix, nofun⟩
      | cons b name =>
          rw [strncasecmp, List.map_cons, List.map_cons, List.cons_prefix_cons]
          by_cases hbc : lower b = lower c
          · rw [if_pos hbc, ih]
            simp [hbc]
          · rw [if_neg hbc]
            exact iff_of_true rfl fun h => hbc h.1.1

/-! ## One header -/

namespace Header

variable {α : Type} {h : Header α} {m : Meaning h} {slot : Slot α} {line : HeaderLine}
  {lines before : List HeaderLine} {v : Bytes}

theorem wanted_of_none (hnone : ¬∃ l ∈ lines, l.Gives h.key) : m.wanted lines = h.start := by
  have hfind : lines.find? (fun l => l.Gives h.key) = none :=
    List.find?_eq_none.mpr fun l hl hgives => hnone ⟨l, hl, of_decide_eq_true hgives⟩
  rw [Meaning.wanted, hfind]

theorem begins_of_named (hnamed : line.Named h.key) : begins h.key line.name := by
  rw [begins, hnamed]

theorem gives_of_set (hnamed : line.Named h.key) (hvalue : line.value = some v)
    (hset : h.set h.start v ≠ h.start) : line.Gives h.key := by
  refine ⟨hnamed, v, hvalue, ?_⟩
  rintro rfl
  exact hset h.set_nil

theorem wanted_concat : m.wanted (lines ++ [line]) =
    if ∃ l ∈ lines, l.Gives h.key then m.wanted lines
    else if line.Gives h.key then m.value (line.value.getD []) else h.start := by
  rw [Meaning.wanted, Meaning.wanted, List.find?_append]
  by_cases hex : ∃ l ∈ lines, l.Gives h.key
  · obtain ⟨l, hl, hgives⟩ := id hex
    have hsome : (lines.find? fun l => l.Gives h.key).isSome := by
      rw [List.find?_isSome]
      exact ⟨l, hl, decide_eq_true hgives⟩
    obtain ⟨first, hfirst⟩ := Option.isSome_iff_exists.mp hsome
    rw [if_pos hex, hfirst, Option.some_or]
  · have hnone : lines.find? (fun l => l.Gives h.key) = none :=
      List.find?_eq_none.mpr fun l hl hgives => hex ⟨l, hl, of_decide_eq_true hgives⟩
    rw [if_neg hex, hnone, Option.none_or, List.find?_singleton]
    by_cases hgives : line.Gives h.key
    · rw [decide_eq_true hgives, if_pos rfl, if_pos hgives]
    · rw [decide_eq_false hgives, if_neg Bool.false_ne_true, if_neg hgives]

theorem stored_onHeaderValue (hstored : slot.stored = h.start) :
    (h.onHeaderValue slot v).stored = if slot.read then h.set h.start v else h.start := by
  rw [onHeaderValue]
  split
  · rw [hstored]
  · exact hstored

variable [DecidableEq α]

/-- The slot after the name. -/
def named (h : Header α) (slot : Slot α) (line : HeaderLine) : Slot α :=
  if slot.stored = h.start ∧ begins h.key line.name then { slot with read := true } else slot

/-- And after the value, if there is one. -/
def next (h : Header α) (slot : Slot α) (line : HeaderLine) : Slot α :=
  match line.value with
  | none => h.named slot line
  | some v => h.onHeaderValue (h.named slot line) v

def run (h : Header α) (lines : List HeaderLine) : Slot α := lines.foldl h.next h.empty

theorem onHeaderField_line (h : Header α) (slot : Slot α) (line : HeaderLine) :
    h.onHeaderField slot (line.name ++ line.rest) = some (h.named slot line) := by
  have hrest : ∃ b more, line.rest = b :: more ∧ b ∈ nameEnds := by
    obtain ⟨b, more, hrest, hb⟩ := line.stop
    refine ⟨b, more, hrest, ?_⟩
    split at hb
    · rw [hb]
      decide
    · rcases hb with rfl | rfl <;> decide
  rw [onHeaderField, named, strncasecmp_append hrest h.key_ends]
  by_cases hstored : slot.stored = h.start
  · rw [if_neg (not_not.mpr hstored)]
    by_cases hbegins : begins h.key line.name
    · rw [if_pos ⟨hstored, hbegins⟩, decide_eq_true hbegins]
      rfl
    · rw [if_neg fun hboth => hbegins hboth.2, decide_eq_false hbegins]
      rfl
  · rw [if_pos hstored, if_neg fun hboth => hstored hboth.1]

theorem isSome_onHeaderField : (h.onHeaderField slot line.name).isSome ↔
    (slot.stored = h.start →
      ¬(line.name.map lower <+: h.key.map lower ∧ ¬line.Named h.key)) := by
  rw [onHeaderField]
  by_cases hstored : slot.stored = h.start
  · have hinside := @isSome_strncasecmp h.key line.name
    rw [if_neg (not_not.mpr hstored)]
    cases hcompare : strncasecmp line.name h.key with
    | none =>
        rw [hcompare] at hinside
        exact iff_of_false nofun fun hend => Bool.false_ne_true (hinside.mpr (hend hstored))
    | some equal =>
        rw [hcompare] at hinside
        refine iff_of_true ?_ fun _ => hinside.mp rfl
        cases equal <;> rfl
  · rw [if_pos hstored]
    exact iff_of_true rfl fun hstart => absurd hstart hstored

theorem run_concat : h.run (lines ++ [line]) = h.next (h.run lines) line := by
  rw [run, List.foldl_append]
  rfl

/-- The flag waits only while nothing is stored. -/
theorem run_read (h : Header α) (lines : List HeaderLine) :
    (h.run lines).read = true → (h.run lines).stored = h.start := by
  induction lines using List.reverseRecOn with
  | nil => exact fun _ => rfl
  | append_singleton lines line ih =>
      have hnamed : (h.named (h.run lines) line).read = true →
          (h.named (h.run lines) line).stored = h.start := by
        rw [named]
        split
        · next hboth => exact fun _ => hboth.1
        · exact ih
      rw [run_concat, next]
      split
      · exact hnamed
      · rw [onHeaderValue]
        split
        · nofun
        · exact hnamed

theorem stored_named : (h.named slot line).stored = slot.stored := by
  rw [named]
  split <;> rfl

theorem read_named (hstored : slot.stored = h.start) :
    (h.named slot line).read = true ↔ slot.read = true ∨ begins h.key line.name := by
  rw [named]
  by_cases hbegins : begins h.key line.name
  · rw [if_pos ⟨hstored, hbegins⟩]
    exact iff_of_true rfl (.inr hbegins)
  · rw [if_neg fun hboth => hbegins hboth.2, or_iff_left hbegins]

/-- Nothing is stored of a value that comes to an empty slot, unless its flag is set. -/
theorem stored_next_eq_start (hstored : slot.stored = h.start) (hvalue : line.value = some v) :
    (h.next slot line).stored = h.start ↔ (h.set h.start v ≠ h.start →
      ¬(slot.read = true ∨ begins h.key line.name)) := by
  have hflag := @read_named _ h slot line _ hstored
  rw [next, hvalue]
  dsimp only
  rw [stored_onHeaderValue (stored_named.trans hstored)]
  by_cases hread : slot.read = true ∨ begins h.key line.name
  · rw [if_pos (hflag.mpr hread)]
    exact ⟨fun hset hne => absurd hset hne, fun hall => not_not.mp fun hne => hall hne hread⟩
  · rw [if_neg (mt hflag.mp hread)]
    exact iff_of_true rfl fun _ => hread

/-- A line with a value, while nothing is stored. -/
theorem right_value (hstored : slot.stored = h.start) (hbefore : m.wanted before = h.start)
    (hvalue : line.value = some v) :
    (h.next slot line).stored = m.wanted (before ++ [line]) ↔ m.Proper slot before line := by
  have hsilent := stored_next_eq_start hstored hvalue
  have heq {v' : Bytes} (hv' : v' ∈ line.value) : v' = v :=
    Option.some.inj (hv'.symm.trans hvalue)
  rw [wanted_concat, hbefore]
  by_cases hex : ∃ l ∈ before, l.Gives h.key
  · -- the value came before, and was one that cannot be told from none
    rw [if_pos hex, hsilent]
    obtain ⟨l, hl, hgives⟩ := hex
    constructor
    · intro hnot
      refine ⟨fun v' hv' hset hread => ?_, fun _ hnone => absurd hgives (hnone l hl)⟩
      rw [heq hv'] at hset
      exact absurd hread (hnot hset)
    · intro hproper hset hread
      exact (hproper.own v hvalue hset hread).2 l hl hgives
  · have hnone : ∀ l ∈ before, ¬l.Gives h.key := fun l hl hgives => hex ⟨l, hl, hgives⟩
    rw [if_neg hex]
    by_cases hgives : line.Gives h.key
    · -- the value is the one wanted
      have hread := (@read_named _ h slot line _ hstored).mpr (.inr (begins_of_named hgives.1))
      rw [if_pos hgives, hvalue, Option.getD_some, next, hvalue]
      dsimp only
      rw [stored_onHeaderValue (stored_named.trans hstored), if_pos hread, m.set_iff]
      constructor
      · intro hfits
        refine ⟨fun _ _ _ _ => ⟨hgives.1, hnone⟩, fun _ _ v' hv' => ?_⟩
        rw [heq hv']
        exact hfits
      · exact fun hproper => hproper.fits hgives hnone v hvalue
    · -- the value is not to be stored
      rw [if_neg hgives, hsilent]
      constructor
      · intro hnot
        refine ⟨fun v' hv' hset hread => ?_, fun hgives' => absurd hgives' hgives⟩
        rw [heq hv'] at hset
        exact absurd hread (hnot hset)
      · intro hproper hset hread
        exact hgives (gives_of_set (hproper.own v hvalue hset hread).1 hvalue hset)

/-- A slot that is right stays right exactly if the line is proper for it. -/
theorem right_concat (hright : (h.run before).stored = m.wanted before) :
    (h.run (before ++ [line])).stored = m.wanted (before ++ [line]) ↔
      ((h.run before).stored = h.start → m.Proper (h.run before) before line) := by
  have hread := run_read h before
  rw [run_concat]
  generalize h.run before = slot at hright hread ⊢
  by_cases hstored : slot.stored = h.start
  · have hbefore : m.wanted before = h.start := hright ▸ hstored
    rw [forall_prop_of_true hstored]
    cases hvalue : line.value with
    | none =>
        have hgives : ¬line.Gives h.key := fun ⟨_, v, hv, _⟩ => by
          rw [hvalue] at hv
          cases hv
        rw [wanted_concat, hbefore, if_neg hgives, ite_self, next, hvalue, stored_named]
        refine iff_of_true hstored ⟨fun v hv => ?_, fun hgives' => absurd hgives' hgives⟩
        rw [hvalue] at hv
        cases hv
    | some v => exact right_value hstored hbefore hvalue
  · -- what is stored stays, and it came from a line before
    have hex : ∃ l ∈ before, l.Gives h.key := by
      by_contra hnone
      rw [wanted_of_none hnone] at hright
      exact hstored hright
    have hflag : slot.read = false := by
      cases hcase : slot.read with
      | false => rfl
      | true => exact absurd (hread hcase) hstored
    have hnamed : h.named slot line = slot := if_neg fun hboth => hstored hboth.1
    rw [wanted_concat, if_pos hex, next, hnamed]
    refine iff_of_true ?_ fun hstart => absurd hstart hstored
    split
    · exact hright
    · rw [onHeaderValue, hflag, if_neg Bool.false_ne_true]
      exact hright

/-- One header over a whole request. -/
structure Follows (m : Meaning h) (lines : List HeaderLine) : Prop where
  right : ∀ before, before <+: lines → (h.run before).stored = m.wanted before
  inside : ∀ before line, before ++ [line] <+: lines →
    (h.onHeaderField (h.run before) line.name).isSome

theorem follows_iff (m : Meaning h) (lines : List HeaderLine) :
    Follows m lines ↔ ∀ before line, before ++ [line] <+: lines →
      m.Unambiguous (h.run before) before line := by
  constructor
  · intro ⟨hright, hinside⟩ before line hline hstored
    have hbefore := hright before ((List.prefix_append _ _).trans hline)
    exact ⟨isSome_onHeaderField.mp (hinside before line hline) hstored,
      (right_concat hbefore).mp (hright _ hline) hstored⟩
  · intro hcond
    constructor
    · intro before
      induction before using List.reverseRecOn with
      | nil => exact fun _ => rfl
      | append_singleton before line ih =>
          intro hline
          refine (right_concat (ih ((List.prefix_append _ _).trans hline))).mpr ?_
          exact fun hstored => (hcond before line hline hstored).2
    · intro before line hline
      exact isSome_onHeaderField.mpr fun hstored => (hcond before line hline hstored).1

end Header

/-! ## All six -/

namespace CHttpParserWrapper

/-- The six slots after some lines. -/
def after (lines : List HeaderLine) : CHttpParserWrapper :=
  ⟨referer.run lines, forwardIp.run lines, userAgent.run lines, contentType.run lines,
    contentLen.run lines, host.run lines⟩

theorem onLine_eq (w : CHttpParserWrapper) (line : HeaderLine) : w.onLine line =
    some ⟨referer.next w.referer_ line, forwardIp.next w.forward_ip_ line,
      userAgent.next w.user_agent_ line, contentType.next w.content_type_ line,
      contentLen.next w.content_len_ line, host.next w.host_ line⟩ := by
  rw [onLine, onHeaderField]
  simp only [Header.onHeaderField_line, Option.bind_eq_bind, Option.bind_some, Header.next]
  cases line.value <;> rfl

theorem parseHttpContent_eq (lines : List HeaderLine) :
    parseHttpContent lines = some (after lines) := by
  induction lines using List.reverseRecOn with
  | nil => rfl
  | append_singleton lines line ih =>
      rw [parseHttpContent] at ih ⊢
      rw [List.foldlM_append, ih, Option.bind_eq_bind, Option.bind_some, List.foldlM_cons,
        onLine_eq]
      simp only [after, Header.run_concat]
      rfl

theorem isSome_bind_iff {α β : Type} {x : Option α} {f : α → Option β} {P : Prop}
    (hf : ∀ a, (f a).isSome ↔ P) : (x >>= f).isSome ↔ x.isSome ∧ P := by
  cases x with
  | none => simp
  | some a => simpa using hf a

theorem isSome_onHeaderField (w : CHttpParserWrapper) (at_ : Bytes) :
    (w.onHeaderField at_).isSome ↔ (referer.onHeaderField w.referer_ at_).isSome ∧
      (forwardIp.onHeaderField w.forward_ip_ at_).isSome ∧
      (userAgent.onHeaderField w.user_agent_ at_).isSome ∧
      (contentType.onHeaderField w.content_type_ at_).isSome ∧
      (contentLen.onHeaderField w.content_len_ at_).isSome ∧
      (host.onHeaderField w.host_ at_).isSome :=
  isSome_bind_iff fun _ => isSome_bind_iff fun _ => isSome_bind_iff fun _ =>
    isSome_bind_iff fun _ => isSome_bind_iff fun _ => (isSome_bind_iff fun _ =>
      iff_of_true rfl trivial).trans (and_iff_left trivial)

end CHttpParserWrapper

open CHttpParserWrapper (after parseHttpContent_eq)

/-- All six are followed. -/
structure Followed (lines : List HeaderLine) : Prop where
  referer : Header.Follows Meaning.referer lines
  forwardIp : Header.Follows Meaning.forwardIp lines
  userAgent : Header.Follows Meaning.userAgent lines
  contentType : Header.Follows Meaning.contentType lines
  contentLen : Header.Follows Meaning.contentLen lines
  host : Header.Follows Meaning.host lines

theorem captures_iff_followed (lines : List HeaderLine) :
    (∀ before, before <+: lines → Captures before) ↔ Followed lines := by
  constructor
  · intro h
    have hstored (before : List HeaderLine) (hbefore : before <+: lines) :
        Stored (after before) before := by
      obtain ⟨w, hw, hstored⟩ := (h before hbefore).stored
      rw [parseHttpContent_eq] at hw
      exact Option.some.inj hw ▸ hstored
    have hinside (before : List HeaderLine) (line : HeaderLine)
        (hline : before ++ [line] <+: lines) :
        ((after before).onHeaderField line.name).isSome := by
      obtain ⟨w, hw, hinside⟩ := (h _ hline).inside before line List.prefix_rfl
      rw [parseHttpContent_eq] at hw
      exact Option.some.inj hw ▸ hinside
    simp only [CHttpParserWrapper.isSome_onHeaderField] at hinside
    exact ⟨⟨fun b hb => (hstored b hb).referer, fun b l hl => (hinside b l hl).1⟩,
      ⟨fun b hb => (hstored b hb).forwardIp, fun b l hl => (hinside b l hl).2.1⟩,
      ⟨fun b hb => (hstored b hb).userAgent, fun b l hl => (hinside b l hl).2.2.1⟩,
      ⟨fun b hb => (hstored b hb).contentType, fun b l hl => (hinside b l hl).2.2.2.1⟩,
      ⟨fun b hb => (hstored b hb).contentLen, fun b l hl => (hinside b l hl).2.2.2.2.1⟩,
      ⟨fun b hb => (hstored b hb).host, fun b l hl => (hinside b l hl).2.2.2.2.2⟩⟩
  · intro ⟨hreferer, hforwardIp, huserAgent, hcontentType, hcontentLen, hhost⟩ before hbefore
    refine ⟨⟨_, parseHttpContent_eq before, ?_⟩, fun b l hl => ⟨_, parseHttpContent_eq b, ?_⟩⟩
    · exact ⟨hreferer.right _ hbefore, hforwardIp.right _ hbefore, huserAgent.right _ hbefore,
        hcontentType.right _ hbefore, hcontentLen.right _ hbefore, hhost.right _ hbefore⟩
    · have hl' := hl.trans hbefore
      rw [CHttpParserWrapper.isSome_onHeaderField]
      exact ⟨hreferer.inside b l hl', hforwardIp.inside b l hl', huserAgent.inside b l hl',
        hcontentType.inside b l hl', hcontentLen.inside b l hl', hhost.inside b l hl'⟩

/-- After every line of a request the six headers are stored as they are to be, exactly if every
line is unambiguous where it comes. -/
theorem captures_iff (lines : List HeaderLine) :
    (∀ before, before <+: lines → Captures before) ↔
      ∀ before line, before ++ [line] <+: lines →
        ∃ w, CHttpParserWrapper.parseHttpContent before = some w ∧ Unambiguous w before line := by
  rw [captures_iff_followed]
  constructor
  · intro h before line hline
    exact ⟨_, parseHttpContent_eq before, (Header.follows_iff ..).mp h.referer before line hline,
      (Header.follows_iff ..).mp h.forwardIp before line hline,
      (Header.follows_iff ..).mp h.userAgent before line hline,
      (Header.follows_iff ..).mp h.contentType before line hline,
      (Header.follows_iff ..).mp h.contentLen before line hline,
      (Header.follows_iff ..).mp h.host before line hline⟩
  · intro h
    have hstep (before : List HeaderLine) (line : HeaderLine)
        (hline : before ++ [line] <+: lines) : Unambiguous (after before) before line := by
      obtain ⟨w, hw, hcond⟩ := h before line hline
      rw [parseHttpContent_eq] at hw
      exact Option.some.inj hw ▸ hcond
    exact ⟨(Header.follows_iff ..).mpr fun b l hl => (hstep b l hl).referer,
      (Header.follows_iff ..).mpr fun b l hl => (hstep b l hl).forwardIp,
      (Header.follows_iff ..).mpr fun b l hl => (hstep b l hl).userAgent,
      (Header.follows_iff ..).mpr fun b l hl => (hstep b l hl).contentType,
      (Header.follows_iff ..).mpr fun b l hl => (hstep b l hl).contentLen,
      (Header.follows_iff ..).mpr fun b l hl => (hstep b l hl).host⟩

/-! A header whose name only begins with `Host`. -/

def hostname : HeaderLine where
  name := ascii "Hostname"
  value := some (ascii "x")
  rest := ascii ": x"
  stop := ⟨58, [32, 120], by decide, rfl⟩

theorem hostname_notCaptured : ¬Captures [hostname] := by
  intro h
  obtain ⟨w, hw, hstored⟩ := h.stored
  rw [parseHttpContent_eq] at hw
  rw [← Option.some.inj hw] at hstored
  have hhost : (host.run [hostname]).stored = Meaning.host.wanted [hostname] := hstored.host
  exact absurd hhost (by decide)

end FileHub.Http
