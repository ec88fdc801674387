import Mathlib.Data.FinEnum
import FileHub.Api.Common
import FileHub.Lib.Strstr

/-!
# The `cmd` parameter of a url

`QueryParseKeyValue` does not look for a parameter. It takes the text after the
first `cmd` anywhere in the url and one more byte, whatever that byte is, up to
the next `#` or `&`. Where nothing follows the first `cmd` it goes on reading
behind the terminator, and a value of 20 bytes or more overruns the caller's
array.
-/

namespace FileHub

open Lib

/-! ## What the lookup should find -/

/-- The components of a url up to a `#`, split at `?` and `&`. -/
def urlComponents (url : Bytes) : List Bytes :=
  (url.takeWhile (· != 35)).splitOnP fun b => b == 63 || b == 38

/-- The value of the first of some components that is of the form `cmd=v`. -/
def paramIn (parts : List Bytes) : Option Bytes :=
  parts.findSome? fun part => if ascii "cmd=" <+: part then some (part.drop 4) else none

def cmdParam (url : Bytes) : Option Bytes := paramIn (urlComponents url)

/-- What the lookup should put into an array of 20 bytes. -/
def expectedCmd (url : Bytes) : Option Bytes :=
  (cmdParam url).filter fun v => v.length ≤ 19

/-- The lookup returns -1 without such a value, and else 0 with it, inside the
url and the array. -/
def LooksUpCmd (url : Bytes) : Prop :=
  match queryParseKeyValue (cStr url) (ascii "cmd") with
  | .absent => expectedCmd (cStr url) = none
  | .value v => v.length + 1 ≤ 20 ∧ expectedCmd (cStr url) = some v
  | .pastEnd | .tooLong => False

/-! ## When it holds -/

/-- The text up to the next `#` or `&`. -/
def valueText (s : Bytes) : Bytes := s.takeWhile fun b => b != 35 && b != 38

/-- There is no `cmd` in the url, or the first one has no `#` before it and is
followed by a byte and a text of at most 19 bytes without a `?`. Either it opens
a component and the byte is `=`, or the text is the value of a parameter that
comes later. -/
def CmdComesFirst (url : Bytes) : Prop :=
  ¬ascii "cmd" <:+: url ∨
    ∃ before b rest, url = before ++ (ascii "cmd" ++ b :: rest) ∧ ¬ascii "cmd" <:+: before ∧
      35 ∉ before ∧ 63 ∉ valueText rest ∧ (valueText rest).length ≤ 19 ∧
      (b = 61 ∧ (∀ c ∈ before.getLast?, c = 63 ∨ c = 38) ∨
        paramIn (urlComponents (b :: rest)).tail = some (valueText rest))

/-! ## The components -/

section

variable {p : UInt8 → Bool} {s part : Bytes}

/-- The first component is a prefix, the others are infixes. -/
theorem splitOnP_infix (p : UInt8 → Bool) (s : Bytes) :
    ∃ first rest, s.splitOnP p = first :: rest ∧ first <+: s ∧ ∀ part ∈ rest, part <:+: s := by
  induction s with
  | nil => exact ⟨[], [], rfl, List.nil_prefix, by simp⟩
  | cons b s ih =>
      obtain ⟨first, rest, hsplit, hfirst, hrest⟩ := ih
      rw [List.splitOnP_cons_eq_if_modifyHead, hsplit]
      split
      · refine ⟨[], _, rfl, List.nil_prefix, fun part hpart => ?_⟩
        rcases List.mem_cons.mp hpart with rfl | hpart
        · exact hfirst.isInfix.trans (List.suffix_cons b s).isInfix
        · exact (hrest part hpart).trans (List.suffix_cons b s).isInfix
      · have hpre : b :: first <+: b :: s := List.cons_prefix_cons.mpr ⟨rfl, hfirst⟩
        refine ⟨b :: first, rest, rfl, hpre, fun part hpart => ?_⟩
        exact (hrest part hpart).trans (List.suffix_cons b s).isInfix

theorem infix_of_mem_urlComponents {url part : Bytes} (h : part ∈ urlComponents url) :
    part <:+: url := by
  obtain ⟨first, rest, hsplit, hfirst, hrest⟩ :=
    splitOnP_infix (fun b => b == 63 || b == 38) (url.takeWhile (· != 35))
  rw [urlComponents, hsplit] at h
  have hurl := (List.takeWhile_prefix (· != 35) : url.takeWhile (· != 35) <+: url).isInfix
  rcases List.mem_cons.mp h with rfl | h
  · exact hfirst.isInfix.trans hurl
  · exact (hrest part h).trans hurl

/-- Without `cmd` there is no such component. -/
theorem paramIn_eq_none {parts : List Bytes} (h : ∀ part ∈ parts, ¬ascii "cmd" <:+: part) :
    paramIn parts = none := by
  rw [paramIn, List.findSome?_eq_none_iff]
  intro part hpart
  have hcmd : ascii "cmd" <+: ascii "cmd=" := ⟨ascii "=", by decide⟩
  exact if_neg fun hparam => h part hpart (hcmd.trans hparam).isInfix

theorem cmdParam_eq_none {url : Bytes} (h : ¬ascii "cmd" <:+: url) : cmdParam url = none :=
  paramIn_eq_none fun _ hpart hcmd => h (hcmd.trans (infix_of_mem_urlComponents hpart))

end

section

variable {before frag t : Bytes} {b : UInt8}

/-- What comes after a `#` is in no component. -/
theorem urlComponents_of_hash (h : 35 ∈ before) :
    urlComponents (before ++ t) = urlComponents before := by
  have hlt : (before.takeWhile (· != 35)).length ≠ before.length := fun hlen => by
    have heq := (List.takeWhile_prefix (· != 35)).eq_of_length hlen
    have hne := List.all_eq_true.mp (List.all_takeWhile (l := before) (p := (· != 35)))
    rw [heq] at hne
    simpa using hne 35 h
  rw [urlComponents, List.takeWhile_append, if_neg hlt, urlComponents]

theorem takeWhile_hash (h : 35 ∉ before) :
    (before ++ t).takeWhile (· != 35) = before ++ t.takeWhile (· != 35) :=
  List.takeWhile_append_of_pos fun c hc => by
    rw [bne_iff_ne]
    exact fun h35 => h (h35 ▸ hc)

theorem urlComponents_append_cons (h : 35 ∉ before) (hb : b = 63 ∨ b = 38) :
    urlComponents (before ++ b :: t) = urlComponents before ++ urlComponents t := by
  have hb35 : b ≠ 35 := by rcases hb with rfl | rfl <;> decide
  have hbefore : before.takeWhile (· != 35) = before := by
    have := takeWhile_hash (t := []) h
    rwa [List.takeWhile_nil, List.append_nil] at this
  rw [urlComponents, takeWhile_hash h, List.takeWhile_cons_of_pos (by simpa using hb35),
    List.splitOnP_append_cons _ _ (by rcases hb with rfl | rfl <;> rfl), urlComponents, hbefore,
    urlComponents]

/-- A stretch without separators belongs to the first component. -/
theorem urlComponents_append (h : ∀ c ∈ frag, c ≠ 35 ∧ c ≠ 63 ∧ c ≠ 38) :
    urlComponents (frag ++ t) = (urlComponents t).modifyHead (frag ++ ·) := by
  rw [urlComponents, takeWhile_hash fun h35 => (h 35 h35).1 rfl, urlComponents]
  induction frag with
  | nil =>
      rw [List.nil_append]
      cases List.splitOnP (fun b => b == 63 || b == 38) (t.takeWhile (· != 35)) <;> rfl
  | cons c frag ih =>
      have hc := h c List.mem_cons_self
      have hsep : ¬(c == 63 || c == 38) = true := by simp [hc]
      rw [List.cons_append, List.splitOnP_cons_eq_if_modifyHead, if_neg hsep,
        ih fun d hd => h d (List.mem_cons_of_mem _ hd)]
      cases List.splitOnP (fun b => b == 63 || b == 38) (t.takeWhile (· != 35)) <;> rfl

/-- The first component ends at the first separator. -/
theorem urlComponents_eq (t : Bytes) :
    urlComponents t =
      t.takeWhile (fun b => b != 35 && b != 63 && b != 38) :: (urlComponents t).tail := by
  have hfrag : ∀ c ∈ t.takeWhile (fun b => b != 35 && b != 63 && b != 38),
      c ≠ 35 ∧ c ≠ 63 ∧ c ≠ 38 := fun c hc => by
    have := List.all_eq_true.mp List.all_takeWhile c hc
    simpa [and_assoc] using this
  have hsplit :=
    urlComponents_append (t := t.dropWhile fun b => b != 35 && b != 63 && b != 38) hfrag
  rw [List.takeWhile_append_dropWhile] at hsplit
  have hrest : ∃ parts, urlComponents (t.dropWhile fun b => b != 35 && b != 63 && b != 38) =
      [] :: parts := by
    cases hdrop : t.dropWhile fun b => b != 35 && b != 63 && b != 38 with
    | nil => exact ⟨[], rfl⟩
    | cons b rest =>
        have hb : (b != 35 && b != 63 && b != 38) = false := by
          have := List.head?_dropWhile_not (fun b : UInt8 => b != 35 && b != 63 && b != 38) t
          rw [hdrop] at this
          exact this
        by_cases h35 : b = 35
        · rw [h35]
          exact ⟨[], rfl⟩
        · refine ⟨urlComponents rest, @urlComponents_append_cons [] _ _ List.not_mem_nil ?_⟩
          simp [h35] at hb
          tauto
  obtain ⟨parts, hparts⟩ := hrest
  rw [hparts] at hsplit
  rw [hsplit, List.modifyHead_cons, List.append_nil, List.tail_cons]

/-- A text ends in a piece of a component, behind a separator or the start. -/
theorem exists_lastPiece (before : Bytes) :
    ∃ l frag, before = l ++ frag ∧ (∀ c ∈ frag, c ≠ 63 ∧ c ≠ 38) ∧
      (l = [] ∨ ∃ l' c, l = l' ++ [c] ∧ (c = 63 ∨ c = 38)) := by
  induction before using List.reverseRecOn with
  | nil => exact ⟨[], [], rfl, by simp, .inl rfl⟩
  | append_singleton before b ih =>
      obtain ⟨l, frag, rfl, hfrag, hl⟩ := ih
      by_cases hb : b = 63 ∨ b = 38
      · exact ⟨l ++ frag ++ [b], [], (List.append_nil _).symm, by simp, .inr ⟨_, b, rfl, hb⟩⟩
      · refine ⟨l, frag ++ [b], List.append_assoc .., fun c hc => ?_, hl⟩
        rcases List.mem_append.mp hc with hc | hc
        · exact hfrag c hc
        · rw [List.mem_singleton.mp hc]
          exact not_or.mp hb

end

/-! ## The first `cmd` -/

section

variable {before t : Bytes}

/-- The first `cmd` splits a text in one way. -/
theorem strstr_cmd {s t : Bytes} : strstr s (ascii "cmd") = some t ↔
    ∃ l r, s = l ++ (ascii "cmd" ++ r) ∧ t = ascii "cmd" ++ r ∧ ¬ascii "cmd" <:+: l :=
  strstr_eq_some (show (99 : UInt8) ∉ [109, 100] by decide)

/-- A piece before the first `cmd` makes it a part of another name. -/
theorem not_opens {frag : Bytes} (hne : frag ≠ []) (h : ¬ascii "cmd" <:+: frag) (s : Bytes) :
    ¬ascii "cmd=" <+: frag ++ (ascii "cmd" ++ s) := by
  intro hpre
  have hcmd : ascii "cmd" <+: frag ++ (ascii "cmd" ++ s) :=
    List.IsPrefix.trans ⟨ascii "=", by decide⟩ hpre
  have hfound : strstr (frag ++ (ascii "cmd" ++ s)) (ascii "cmd") = some (ascii "cmd" ++ s) :=
    strstr_cmd.mpr ⟨frag, s, rfl, rfl, h⟩
  rw [strstr_start hcmd] at hfound
  have hlen := congrArg List.length (Option.some.inj hfound)
  rw [List.length_append] at hlen
  exact hne (List.length_eq_zero_iff.mp (by omega))

theorem paramIn_cons {part : Bytes} {parts : List Bytes} (h : ¬ascii "cmd=" <+: part) :
    paramIn (part :: parts) = paramIn parts := by
  rw [paramIn, List.findSome?_cons, if_neg h, paramIn]

/-- Where the component with the first `cmd` begins. -/
theorem cmdParam_piece {frag : Bytes} (h : ¬ascii "cmd" <:+: frag)
    (hfrag : ∀ c ∈ frag, c ≠ 35 ∧ c ≠ 63 ∧ c ≠ 38) :
    cmdParam (frag ++ (ascii "cmd" ++ t)) =
      if frag = [] ∧ t.head? = some 61 then
        some (t.tail.takeWhile fun b => b != 35 && b != 63 && b != 38)
      else paramIn (urlComponents t).tail := by
  have hcmd : ∀ c ∈ frag ++ ascii "cmd", c ≠ 35 ∧ c ≠ 63 ∧ c ≠ 38 := fun c hc => by
    rcases List.mem_append.mp hc with hc | hc
    · exact hfrag c hc
    · exact (by decide +kernel : ∀ c ∈ ascii "cmd", c ≠ 35 ∧ c ≠ 63 ∧ c ≠ 38) c hc
  rw [cmdParam, ← List.append_assoc, urlComponents_append hcmd, urlComponents_eq t,
    List.modifyHead_cons, List.tail_cons, List.append_assoc]
  split
  · next hopen =>
    obtain ⟨rfl, hhead⟩ := hopen
    obtain ⟨rest, rfl⟩ := List.head?_eq_some_iff.mp hhead
    rw [List.takeWhile_cons_of_pos (by decide), List.nil_append, paramIn, List.findSome?_cons]
    have hparam (v : Bytes) : ascii "cmd=" <+: ascii "cmd" ++ 61 :: v := ⟨v, rfl⟩
    rw [if_pos (hparam _)]
    rfl
  · next hopen =>
    refine paramIn_cons fun hpre => ?_
    by_cases hnil : frag = []
    · subst hnil
      have hhead : t.head? ≠ some 61 := fun hhead => hopen ⟨rfl, hhead⟩
      have h61 : [61] <+: t.takeWhile fun b => b != 35 && b != 63 && b != 38 :=
        (List.prefix_append_right_inj (ascii "cmd")).mp hpre
      obtain ⟨v, hv⟩ := h61.trans (List.takeWhile_prefix _)
      rw [← hv] at hhead
      exact hhead rfl
    · exact not_opens hnil h _ hpre

/-- The parameter of a url whose first `cmd` stands between `before` and `t`. -/
theorem cmdParam_eq (h : ¬ascii "cmd" <:+: before) (h35 : 35 ∉ before) :
    cmdParam (before ++ (ascii "cmd" ++ t)) =
      if (∀ c ∈ before.getLast?, c = 63 ∨ c = 38) ∧ t.head? = some 61 then
        some (t.tail.takeWhile fun b => b != 35 && b != 63 && b != 38)
      else paramIn (urlComponents t).tail := by
  obtain ⟨l, frag, rfl, hfrag, hl⟩ := exists_lastPiece before
  have hpiece := cmdParam_piece (t := t)
    (fun hcmd => h (hcmd.trans (List.suffix_append l frag).isInfix))
    fun c hc => ⟨fun hc35 => h35 (hc35 ▸ List.mem_append_right l hc), hfrag c hc⟩
  have hopens : (∀ c ∈ (l ++ frag).getLast?, c = 63 ∨ c = 38) ↔ frag = [] := by
    rcases List.eq_nil_or_concat frag with rfl | ⟨frag, c, rfl⟩
    · rcases hl with rfl | ⟨l', c, rfl, hc⟩
      · simp
      · simpa using hc
    · have hc := hfrag c (by simp)
      simp [hc]
  rw [if_congr (and_congr_left' hopens) rfl rfl, ← hpiece]
  rcases hl with rfl | ⟨l', c, rfl, hc⟩
  · rfl
  have h35' : 35 ∉ l' := fun hmem => h35 (by simp [hmem])
  have hl' : paramIn (urlComponents l') = none := cmdParam_eq_none fun hcmd =>
    h (hcmd.trans (List.IsPrefix.isInfix ⟨[c] ++ frag, by simp⟩))
  have happend : l' ++ [c] ++ frag ++ (ascii "cmd" ++ t) =
      l' ++ c :: (frag ++ (ascii "cmd" ++ t)) := by simp
  rw [happend, cmdParam, urlComponents_append_cons h35' hc, paramIn, List.findSome?_append,
    ← paramIn, hl', Option.none_or]
  rfl

end

/-! ## The text behind the first `cmd` -/

section

variable {s v url before rest : Bytes} {b : UInt8}

theorem valueText_cons : valueText (b :: s) = if b ≠ 35 ∧ b ≠ 38 then b :: valueText s else [] := by
  rw [valueText, List.takeWhile_cons]
  split <;> split <;> simp_all [valueText]

/-- A value ends at a `?` only if it has one. -/
theorem takeWhile_eq_valueText_iff :
    s.takeWhile (fun b => b != 35 && b != 63 && b != 38) = valueText s ↔ 63 ∉ valueText s := by
  constructor
  · intro h hmem
    rw [← h] at hmem
    have := List.all_eq_true.mp List.all_takeWhile 63 hmem
    simp at this
  · intro h
    induction s with
    | nil => rfl
    | cons b s ih =>
        rw [valueText_cons] at h ⊢
        split at h
        · next hb =>
          obtain ⟨hb63, hrest⟩ := not_or.mp (mt List.mem_cons.mpr h)
          rw [if_pos hb, ← ih hrest, List.takeWhile_cons_of_pos (by simp [hb, Ne.symm hb63])]
        · next hb =>
          rw [if_neg hb, List.takeWhile_cons_of_neg]
          simp only [Bool.and_eq_true, bne_iff_ne]
          tauto

theorem not_mem_of_mem_splitOnP {p : UInt8 → Bool} {part : Bytes} (h : part ∈ s.splitOnP p)
    (hb : p b = true) : b ∉ part := by
  induction s generalizing part with
  | nil =>
      rw [List.mem_singleton.mp h]
      exact List.not_mem_nil
  | cons c s ih =>
      obtain ⟨first, parts, hsplit⟩ := List.exists_cons_of_ne_nil (List.splitOnP_ne_nil p s)
      rw [List.splitOnP_cons_eq_if_modifyHead, hsplit] at h
      rw [hsplit] at ih
      split at h
      · rcases List.mem_cons.mp h with rfl | h
        · exact List.not_mem_nil
        · exact ih h
      · next hc =>
        rcases List.mem_cons.mp h with rfl | h
        · refine fun hmem => ?_
          rcases List.mem_cons.mp hmem with rfl | hmem
          · exact hc hb
          · exact ih List.mem_cons_self hmem
        · exact ih (List.mem_cons_of_mem _ h)

theorem not_mem_of_paramIn (h : paramIn (urlComponents s).tail = some v) : 63 ∉ v := by
  obtain ⟨part, hpart, hv⟩ := List.exists_of_findSome?_eq_some h
  split at hv
  · rw [← Option.some.inj hv]
    intro hmem
    exact not_mem_of_mem_splitOnP (List.mem_of_mem_tail hpart) (by rfl) (List.mem_of_mem_drop hmem)
  · cases hv

/-- When the text behind the first `cmd` and a byte is the value of the parameter. -/
theorem cmdParam_eq_some (h : ¬ascii "cmd" <:+: before) :
    cmdParam (before ++ (ascii "cmd" ++ b :: rest)) = some (valueText rest) ↔
      35 ∉ before ∧ 63 ∉ valueText rest ∧
        (b = 61 ∧ (∀ c ∈ before.getLast?, c = 63 ∨ c = 38) ∨
          paramIn (urlComponents (b :: rest)).tail = some (valueText rest)) := by
  by_cases h35 : 35 ∈ before
  · rw [cmdParam, urlComponents_of_hash h35, ← cmdParam, cmdParam_eq_none h]
    simp [h35]
  rw [cmdParam_eq h h35]
  split
  · next hopens =>
    have hb : b = 61 := Option.some.inj hopens.2
    rw [Option.some.injEq, List.tail_cons, takeWhile_eq_valueText_iff]
    exact ⟨fun h63 => ⟨h35, h63, .inl ⟨hb, hopens.1⟩⟩, fun hcond => hcond.2.1⟩
  · next hopens =>
    constructor
    · intro hparam
      exact ⟨h35, not_mem_of_paramIn hparam, .inr hparam⟩
    · rintro ⟨-, -, ⟨rfl, hlast⟩ | hparam⟩
      · exact absurd ⟨hlast, rfl⟩ hopens
      · exact hparam

end

/-- The lookup does what it should exactly if the first `cmd` is the parameter's
or repeats it. -/
theorem looksUpCmd_iff (url : Bytes) : LooksUpCmd url ↔ CmdComesFirst (cStr url) := by
  rw [LooksUpCmd, queryParseKeyValue]
  cases hfound : strstr (cStr url) (ascii "cmd") with
  | none =>
      have hcmd := strstr_eq_none hfound
      simp only [expectedCmd, cmdParam_eq_none hcmd, Option.filter_none, true_iff]
      exact .inl hcmd
  | some t =>
      obtain ⟨before, t, hurl, rfl, hbefore⟩ := strstr_cmd.mp hfound
      have hcmd : ascii "cmd" <:+: cStr url := ⟨before, t, by rw [hurl, List.append_assoc]⟩
      -- The text around the first `cmd` is determined by the url.
      have hunique {before' t' : Bytes} (h : cStr url = before' ++ (ascii "cmd" ++ t'))
          (hbefore' : ¬ascii "cmd" <:+: before') : before' = before ∧ t' = t := by
        have h' := strstr_cmd.mpr ⟨before', t', h, rfl, hbefore'⟩
        rw [hfound] at h'
        have ht : t' = t := List.append_cancel_left (Option.some.inj h').symm
        rw [hurl, ht] at h
        exact ⟨(List.append_cancel_right h).symm, ht⟩
      cases t with
      | nil =>
          dsimp only
          rw [if_pos (by decide)]
          refine iff_of_false id ?_
          rintro (hno | ⟨before', b, rest, h, hbefore', -⟩)
          · exact hno hcmd
          · exact List.cons_ne_nil _ _ (hunique h hbefore').2
      | cons b rest =>
          have hlen : ¬(ascii "cmd" ++ b :: rest).length ≤ (ascii "cmd").length := by
            rw [List.length_append, List.length_cons]
            omega
          have hvalue : ((ascii "cmd" ++ b :: rest).drop ((ascii "cmd").length + 1)).takeWhile
              (fun b => b != 35 && b != 38) = valueText rest := rfl
          dsimp only
          rw [if_neg hlen, hvalue]
          by_cases hint : (valueText rest).length ≤ INT_MAX
          swap
          · rw [if_neg hint]
            refine iff_of_false id ?_
            rintro (hno | ⟨before', b', rest', h, hbefore', -, -, hlength, -⟩)
            · exact hno hcmd
            · rw [(List.cons.inj (hunique h hbefore').2).2] at hlength
              exact hint (hlength.trans (by decide))
          rw [if_pos hint]
          have hexp : (valueText rest).length + 1 ≤ 20 ∧
              expectedCmd (cStr url) = some (valueText rest) ↔
              (valueText rest).length ≤ 19 ∧ cmdParam (cStr url) = some (valueText rest) := by
            rw [expectedCmd, Option.filter_eq_some_iff, decide_eq_true_eq]
            constructor
            · rintro ⟨-, hparam, hlength⟩
              exact ⟨hlength, hparam⟩
            · rintro ⟨hlength, hparam⟩
              exact ⟨by omega, hparam, hlength⟩
          dsimp only
          rw [hexp, show cmdParam (cStr url) = some (valueText rest) ↔ _ from
            hurl ▸ cmdParam_eq_some hbefore]
          constructor
          · rintro ⟨hlength, h35, h63, hopens⟩
            exact .inr ⟨before, b, rest, hurl, hbefore, h35, h63, hlength, hopens⟩
          · rintro (hno | ⟨before', b', rest', h, hbefore', h35, h63, hlength, hopens⟩)
            · exact absurd hcmd hno
            · obtain ⟨rfl, ht⟩ := hunique h hbefore'
              rw [List.cons.injEq] at ht
              obtain ⟨rfl, rfl⟩ := ht
              exact ⟨hlength, h35, h63, hopens⟩

/-! A parameter whose name ends in `cmd` is found before the parameter. -/

theorem otherParam_notLookedUp : ¬LooksUpCmd (ascii "/api/dealfile?xcmd=1&cmd=share") := by
  rw [LooksUpCmd, show queryParseKeyValue (cStr (ascii "/api/dealfile?xcmd=1&cmd=share"))
    (ascii "cmd") = .value (ascii "1") by decide +kernel]
  decide +kernel

end FileHub
