import FileHub.Base.ConfigFileReader
import FileHub.Lib.Trim

/-!
# The configuration file is read line by line

`entry` says what a line of the file configures, without an array: the text up
to a `#`, split at the first `=`, with the blanks around both halves dropped.
The reader computes the same in its one array. Each of its passes turns an
array that holds a string into one that holds the string the next pass starts
from, with the NUL it wrote behind it; so the passes compose, and none of them
meets the end of the array.

A line of 255 bytes fills the array without its newline, which `fgets` then
reads as an empty line of its own.
-/

namespace FileHub

open Lib

namespace CConfigFileReader

/-! ## What a line configures -/

def trim (s : Bytes) : Bytes := (s.dropWhile isBlank).rdropWhile isBlank

/-- The key and the value of a text that has both. -/
def setting (text : Bytes) : Option (Bytes × Bytes) :=
  if 61 ∈ text then
    let key := trim (text.takeWhile (· != 61))
    let value := trim ((text.dropWhile (· != 61)).drop 1)
    if key ≠ [] ∧ value ≠ [] then some (key, value) else none
  else none

def entry (line : Bytes) : Option (Bytes × Bytes) := setting (line.takeWhile (· != 35))

/-- What the lines of a file configure, in their order. -/
def entries (file : Bytes) : List (Bytes × Bytes) := (file.splitOn 10).filterMap entry

/-! ## Trimming -/

section

variable {s pre post : Bytes}

/-- The blanks in front of the text. -/
def lead (s : Bytes) : ℕ := (s.takeWhile isBlank).length

theorem skipBlanks_append (h : 0 ∉ s) (post : Bytes) :
    skipBlanks (s ++ 0 :: post) = some (lead s) := by
  induction s with
  | nil => rfl
  | cons b s ih =>
      rw [List.mem_cons, not_or] at h
      rw [List.cons_append, skipBlanks, ih h.2]
      cases hb : isBlank b with
      | true =>
          rw [if_pos rfl, lead, lead, List.takeWhile_cons_of_pos hb]
          rfl
      | false =>
          rw [if_neg (by simp), lead, List.takeWhile_cons_of_neg (by simp [hb])]
          rfl

theorem trimEnd_append {a blanks : Bytes} {x : UInt8} (hx : isBlank x = false)
    (hblanks : ∀ b ∈ blanks, isBlank b = true) (post : Bytes) :
    trimEnd (a ++ x :: (blanks ++ post)) (a.length + blanks.length) =
      some (a ++ x :: (List.replicate blanks.length 0 ++ post), a.length) := by
  induction blanks using List.reverseRecOn generalizing post with
  | nil =>
      have hread := getElem?_append_length a x post
      rw [List.nil_append, List.length_nil, Nat.add_zero]
      cases hlen : a.length with
      | zero =>
          rw [hlen] at hread
          simp only [trimEnd, hread, Option.bind_eq_bind, Option.bind_some, hx]
          rfl
      | succ n =>
          rw [hlen] at hread
          simp only [trimEnd, hread, Option.bind_eq_bind, Option.bind_some, hx]
          rfl
  | append_singleton blanks b ih =>
      have hb := hblanks b (by simp)
      have hrest := ih (fun b' hb' => hblanks b' (List.mem_append_left _ hb')) (0 :: post)
      have hsplit : a ++ x :: (blanks ++ [b] ++ post) = (a ++ x :: blanks) ++ b :: post := by simp
      have hlen : a.length + (blanks ++ [b]).length = (a ++ x :: blanks).length := by simp
      have hnext : (a ++ x :: blanks).length = a.length + blanks.length + 1 := by simp; omega
      have hread := getElem?_append_length (a ++ x :: blanks) b post
      have hpoke := poke_append (a ++ x :: blanks) b 0 post
      rw [hsplit, hlen]
      rw [hnext] at hread hpoke ⊢
      simp only [trimEnd, hread, hpoke, Option.bind_eq_bind, Option.bind_some, hb, if_true]
      rw [List.append_assoc, List.cons_append, hrest]
      simp [List.replicate_succ']

/-- The text between blanks, and those blanks. -/
theorem exists_trim (s : Bytes) : ∃ front back, s = front ++ trim s ++ back ∧
    front.length = lead s ∧ ∀ b ∈ back, isBlank b = true :=
  ⟨_, _, trimBy_split isBlank s, rfl, fun _ hb => List.mem_rtakeWhile_imp hb⟩

theorem lead_eq_length (h : trim s = []) : lead s = s.length := by
  rw [lead, takeWhile_of_trimBy_eq_nil h]

theorem exists_trim_end (h : trim s ≠ []) :
    ∃ core x, trim s = core ++ [x] ∧ isBlank x = false :=
  exists_trimBy_end h

/-- A string trimmed in place: what stands there then, and where the text starts. -/
theorem trimSpace_append (hs : 0 ∉ s) (pre post : Bytes) :
    ∃ t, t.length = s.length ∧
      trimSpace (pre ++ (s ++ 0 :: post)) pre.length =
        some (pre ++ (t ++ 0 :: post), if trim s = [] then none else some (pre.length + lead s)) ∧
      (trim s ≠ [] → ∀ post', readStr ((t ++ 0 :: post').drop (lead s)) = some (trim s)) := by
  obtain ⟨front, back, hsplit, hfront, hback⟩ := exists_trim s
  have hskip : skipBlanks ((pre ++ (s ++ 0 :: post)).drop pre.length) = some (lead s) := by
    rw [List.drop_left, skipBlanks_append hs]
  have hle : lead s ≤ s.length := (List.takeWhile_prefix _).length_le
  have hrest : strlen (pre ++ (s ++ 0 :: post)) (pre.length + lead s) =
      some (s.length - lead s) := by
    have h0 : 0 ∉ s.drop (lead s) := fun h => hs (List.mem_of_mem_drop h)
    rw [strlen, ← List.drop_drop, List.drop_left, List.drop_append_of_le_length hle,
      readStr_append h0, Option.map_some, List.length_drop]
  rw [trimSpace, hskip]
  simp only [Option.bind_eq_bind, Option.bind_some, hrest]
  by_cases hempty : trim s = []
  · refine ⟨s, rfl, ?_, fun h => absurd hempty h⟩
    rw [if_pos (by rw [lead_eq_length hempty]; omega), if_pos hempty]
    rfl
  · obtain ⟨core, x, hcore, hx⟩ := exists_trim_end hempty
    have hlen : s.length = lead s + core.length + 1 + back.length := by
      have h := congrArg List.length hsplit
      simp only [hcore, List.length_append, List.length_singleton] at h
      omega
    have htext : 0 ∉ core ++ [x] := by
      rw [hsplit, hcore] at hs
      exact fun h => hs (List.mem_append_left _ (List.mem_append_right _ h))
    have hbuf : pre ++ (s ++ 0 :: post) =
        (pre ++ front ++ core) ++ x :: (back ++ 0 :: post) := by
      conv_lhs => rw [hsplit, hcore]
      simp
    have hend : pre.length + s.length - 1 = (pre ++ front ++ core).length + back.length := by
      simp only [List.length_append, hlen]
      omega
    rw [if_neg (by omega), strlen_append hs, Option.bind_some, hend, hbuf,
      trimEnd_append hx hback]
    refine ⟨front ++ core ++ x :: List.replicate back.length 0, ?_, ?_, fun _ post' => ?_⟩
    · simp only [List.length_append, List.length_cons, List.length_replicate, hlen]
      omega
    · rw [if_neg hempty, Option.bind_some]
      dsimp only
      rw [if_neg (by simp only [List.length_append]; omega)]
      simp
    · have hzeros : List.replicate back.length 0 ++ 0 :: post' =
          (0 :: (List.replicate back.length 0 ++ post') : Bytes) := by
        rw [List.append_cons, ← List.replicate_succ', List.replicate_succ, List.cons_append]
      have hdrop : ((front ++ core ++ x :: List.replicate back.length 0) ++ 0 :: post').drop
          (lead s) = (core ++ [x]) ++ 0 :: (List.replicate back.length 0 ++ post') := by
        rw [← hfront, ← hzeros]
        simp
      rw [hdrop, readStr_append htext, hcore]

/-! ## One line -/

/-- A configured pair goes into the map unless its key is there. -/
def add (config_map_ : Bytes → Option Bytes) : Option (Bytes × Bytes) → Bytes → Option Bytes
  | none => config_map_
  | some (key, value) => insert config_map_ key value

theorem split_at {c : UInt8} (h : c ∈ s) :
    s = s.takeWhile (· != c) ++ c :: (s.dropWhile (· != c)).drop 1 ∧
      s.idxOf c = (s.takeWhile (· != c)).length := by
  induction s with
  | nil => cases h
  | cons b s ih =>
      by_cases hb : b = c
      · subst hb
        simp
      · obtain ⟨hs, hidx⟩ := ih (List.mem_of_ne_of_mem (Ne.symm hb) h)
        have hne : (b != c) = true := by simpa using hb
        rw [List.takeWhile_cons_of_pos (p := (· != c)) hne,
          List.dropWhile_cons_of_pos (p := (· != c)) hne, List.idxOf_cons_ne _ hb, hidx]
        exact ⟨congrArg (b :: ·) hs, rfl⟩

theorem takeWhile_of_not_mem {c : UInt8} (h : c ∉ s) : s.takeWhile (· != c) = s := by
  rw [List.takeWhile_eq_self_iff]
  intro b hb
  simp only [bne_iff_ne, ne_eq]
  rintro rfl
  exact h hb

theorem not_mem_takeWhile {c : UInt8} (h : c ∉ s) (p : UInt8 → Bool) : c ∉ s.takeWhile p :=
  fun hc => h ((List.takeWhile_prefix p).subset hc)

theorem parseLine_append {text : Bytes} (h0 : 0 ∉ text) (post : Bytes)
    (config_map_ : Bytes → Option Bytes) :
    ∃ buf, buf.length = (text ++ 0 :: post).length ∧
      parseLine (text ++ 0 :: post) config_map_ = some (buf, add config_map_ (setting text)) := by
  have hchr := strchr_append h0 [] post 61
  rw [List.nil_append, List.length_nil, Nat.zero_add] at hchr
  rw [parseLine, hchr, setting]
  by_cases heq : 61 ∈ text
  · obtain ⟨hsplit, hidx⟩ := split_at heq
    rw [if_pos heq, if_pos heq]
    generalize text.takeWhile (· != 61) = key at hsplit hidx ⊢
    generalize (text.dropWhile (· != 61)).drop 1 = value at hsplit ⊢
    subst hsplit
    rw [List.mem_append, List.mem_cons, not_or, not_or] at h0
    have hpoke := poke_append key 61 0 (value ++ 0 :: post)
    obtain ⟨k, hklen, hktrim, hkread⟩ := trimSpace_append h0.1 [] (value ++ 0 :: post)
    obtain ⟨v, hvlen, hvtrim, hvread⟩ := trimSpace_append h0.2.2 (k ++ [0]) post
    rw [List.nil_append, List.nil_append, List.length_nil, Nat.zero_add] at hktrim
    rw [List.append_assoc, List.append_assoc, List.singleton_append, List.singleton_append,
      List.length_append, List.length_singleton, hklen] at hvtrim
    refine ⟨k ++ 0 :: (v ++ 0 :: post), by simp [hklen, hvlen], ?_⟩
    rw [List.append_assoc, List.cons_append, hidx]
    simp only [Option.bind_eq_bind, Option.bind_some, hpoke, hktrim, hvtrim]
    by_cases hkey : trim key = []
    · have hnot : ¬(trim key ≠ [] ∧ trim value ≠ []) := fun h => h.1 hkey
      rw [if_pos hkey, if_neg hnot]
      rfl
    · by_cases hvalue : trim value = []
      · have hnot : ¬(trim key ≠ [] ∧ trim value ≠ []) := fun h => h.2 hvalue
        rw [if_pos hvalue, if_neg hnot, if_neg hkey]
        rfl
      · have hdrop : (k ++ 0 :: (v ++ 0 :: post)).drop (key.length + 1 + lead value) =
            (v ++ 0 :: post).drop (lead value) := by
          rw [← hklen, ← List.drop_drop, ← List.drop_drop, List.drop_left]
          rfl
        rw [if_neg hkey, if_neg hvalue, if_pos ⟨hkey, hvalue⟩]
        simp only [hkread hkey, hdrop, hvread hvalue, Option.bind_some]
        rfl
  · rw [if_neg heq, if_neg heq]
    exact ⟨_, rfl, rfl⟩

theorem stripNewline_append {line newline : Bytes} (h10 : 10 ∉ line)
    (hnewline : newline = [] ∨ newline = [10]) (hne : line ++ newline ≠ []) (post : Bytes) :
    ∃ post', newline.length + post.length = post'.length ∧
      stripNewline (line ++ newline ++ 0 :: post) (line ++ newline).length =
        some (line ++ 0 :: post') := by
  rcases hnewline with rfl | rfl
  · rw [List.append_nil] at hne ⊢
    obtain ⟨front, b, rfl⟩ := List.eq_nil_or_concat' line |>.resolve_left hne
    have hb : b ≠ 10 := by
      rintro rfl
      exact h10 (by simp)
    have hread := getElem?_append_length front b (0 :: post)
    have hlen : (front ++ [b]).length - 1 = front.length := by simp
    refine ⟨post, Nat.zero_add _, ?_⟩
    rw [List.append_assoc, List.singleton_append, stripNewline, hlen, hread]
    exact if_neg hb
  · have hread := getElem?_append_length line 10 (0 :: post)
    have hlen : (line ++ [10]).length - 1 = line.length := by simp
    refine ⟨0 :: post, by simp; omega, ?_⟩
    rw [List.append_assoc, List.singleton_append, stripNewline, hlen, hread]
    exact poke_append line 10 0 (0 :: post)

theorem cutComment_append {line : Bytes} (h0 : 0 ∉ line) (post : Bytes) :
    ∃ post', (line ++ 0 :: post).length =
        (line.takeWhile (· != 35) ++ 0 :: post').length ∧
      cutComment (line ++ 0 :: post) = some (line.takeWhile (· != 35) ++ 0 :: post') := by
  have hchr := strchr_append h0 [] post 35
  rw [List.nil_append, List.length_nil, Nat.zero_add] at hchr
  rw [cutComment, hchr]
  by_cases hmem : 35 ∈ line
  · obtain ⟨hsplit, hidx⟩ := split_at hmem
    rw [if_pos hmem]
    generalize line.takeWhile (· != 35) = text at hsplit hidx ⊢
    generalize (line.dropWhile (· != 35)).drop 1 = comment at hsplit
    subst hsplit
    refine ⟨comment ++ 0 :: post, by simp, ?_⟩
    rw [hidx, List.append_assoc, List.cons_append]
    exact poke_append text 35 0 _
  · rw [if_neg hmem, takeWhile_of_not_mem hmem]
    exact ⟨post, rfl, rfl⟩

/-- A line with its newline or without, as `fgets` leaves it. -/
theorem readLine_append {line newline : Bytes} (h0 : 0 ∉ line) (h10 : 10 ∉ line)
    (hnewline : newline = [] ∨ newline = [10]) (hne : line ++ newline ≠ []) (post : Bytes)
    (config_map_ : Bytes → Option Bytes) :
    ∃ buf, buf.length = (line ++ newline ++ 0 :: post).length ∧
      readLine (line ++ newline ++ 0 :: post) config_map_ =
        some (buf, add config_map_ (entry line)) := by
  have hchunk : 0 ∉ line ++ newline := by
    rcases hnewline with rfl | rfl
    · simpa using h0
    · simpa using h0
  have hlen := strlen_append hchunk [] post
  rw [List.nil_append, List.length_nil] at hlen
  have hpos := List.length_pos_iff.mpr hne
  obtain ⟨post₁, hpost₁, hstrip⟩ := stripNewline_append h10 hnewline hne post
  obtain ⟨post₂, hpost₂, hcut⟩ := cutComment_append h0 post₁
  have htext := not_mem_takeWhile h0 (· != 35)
  have hlen' := strlen_append htext [] post₂
  rw [List.nil_append, List.length_nil] at hlen'
  rw [readLine, hlen]
  simp only [Option.bind_eq_bind, Option.bind_some, hstrip, hcut, hlen']
  rw [if_neg (by omega), entry]
  have hsize : (line.takeWhile (· != 35) ++ 0 :: post₂).length =
      (line ++ newline ++ 0 :: post).length := by
    simp only [List.length_append, List.length_cons] at hpost₂ ⊢
    omega
  by_cases hempty : (line.takeWhile (· != 35)).length = 0
  · have hnil := List.length_eq_zero_iff.mp hempty
    rw [hnil] at hsize ⊢
    rw [if_pos (show ([] : Bytes).length = 0 from rfl)]
    exact ⟨_, hsize, rfl⟩
  · obtain ⟨buf, hbuf, hparse⟩ := parseLine_append htext post₂ config_map_
    rw [if_neg hempty]
    exact ⟨buf, hbuf.trans hsize, hparse⟩

/-! ## The whole file -/

/-- What the loop takes of a file that is not at its end. -/
theorem nextLine_split {file : Bytes} (hne : file ≠ []) :
    ∃ line newline rest, file = line ++ newline ++ rest ∧ nextLine file = line ++ newline ∧
      10 ∉ line ∧ line ++ newline ≠ [] ∧
      (newline = [10] ∨ newline = [] ∧ (line.length = 255 ∨ rest = [])) := by
  have hpos := length_nextLine_pos hne
  have hline : 10 ∉ file.takeWhile (· != 10) := fun h => by
    simpa using List.mem_takeWhile_imp h
  have hsplit := List.takeWhile_append_dropWhile (p := (· != 10)) (l := file)
  rw [nextLine] at hpos ⊢
  by_cases hfull : 255 ≤ (file.takeWhile (· != 10)).length
  · have htake : (file.takeWhile (· != 10) ++ (file.dropWhile (· != 10)).take 1).take
        (BUF_SIZE - 1) = (file.takeWhile (· != 10)).take 255 :=
      List.take_append_of_le_length hfull
    rw [htake] at hpos ⊢
    refine ⟨(file.takeWhile (· != 10)).take 255, [],
      (file.takeWhile (· != 10)).drop 255 ++ file.dropWhile (· != 10), ?_, ?_, ?_, ?_, ?_⟩
    · rw [List.append_nil, ← List.append_assoc, List.take_append_drop, hsplit]
    · rw [List.append_nil]
    · exact fun h => hline (List.mem_of_mem_take h)
    · rw [List.append_nil]
      exact List.ne_nil_of_length_pos hpos
    · refine .inr ⟨rfl, .inl ?_⟩
      rw [List.length_take, Nat.min_eq_left hfull]
  · have hshort : (file.takeWhile (· != 10) ++ (file.dropWhile (· != 10)).take 1).length ≤
        BUF_SIZE - 1 := by
      rw [List.length_append, List.length_take, BUF_SIZE]
      omega
    rw [List.take_of_length_le hshort] at hpos ⊢
    refine ⟨_, _, (file.dropWhile (· != 10)).drop 1, ?_, rfl, hline,
      List.ne_nil_of_length_pos hpos, ?_⟩
    · rw [List.append_assoc, List.take_append_drop, hsplit]
    · cases hdrop : file.dropWhile (· != 10) with
      | nil => exact .inr ⟨rfl, .inr rfl⟩
      | cons c rest =>
          have hhead := List.head?_dropWhile_not (· != 10) file
          rw [hdrop] at hhead
          left
          simpa using hhead

theorem entries_append {line : Bytes} (h10 : 10 ∉ line) (rest : Bytes) :
    entries (line ++ 10 :: rest) = (entry line).toList ++ entries rest := by
  rw [entries, List.splitOn_append_cons_self_of_not_mem h10, List.filterMap_cons]
  cases entry line <;> rfl

theorem entries_line {line : Bytes} (h10 : 10 ∉ line) : entries line = (entry line).toList := by
  rw [entries, List.splitOn_eq_singleton h10, List.filterMap_cons]
  cases entry line <;> rfl

/-- Where lines have at most 255 bytes, a full array ends where a line does. -/
theorem starts_newline {line rest : Bytes} (h10 : 10 ∉ line) (hfull : line.length = 255)
    (hlines : ∀ l ∈ (line ++ rest).splitOn 10, l.length ≤ 255) :
    rest = [] ∨ ∃ rest', rest = 10 :: rest' := by
  cases rest with
  | nil => exact .inl rfl
  | cons c rest =>
      by_cases hc : c = 10
      · exact .inr ⟨rest, congrArg (· :: rest) hc⟩
      · have hlong (a : Bytes) : 255 < (line ++ c :: a).length := by
          rw [List.length_append, List.length_cons]
          omega
        exfalso
        by_cases hmem : 10 ∈ rest
        · obtain ⟨hsplit, -⟩ := split_at hmem
          have hmore : 10 ∉ rest.takeWhile (· != 10) := fun h => by
            simpa using List.mem_takeWhile_imp h
          generalize rest.takeWhile (· != 10) = more at hsplit hmore
          rw [hsplit, ← List.cons_append, ← List.append_assoc,
            List.splitOn_append_cons_self_of_not_mem (by simp [h10, hmore, Ne.symm hc])] at hlines
          exact absurd (hlines _ List.mem_cons_self) (by have := hlong more; omega)
        · rw [List.splitOn_eq_singleton (by simp [h10, hmem, Ne.symm hc])] at hlines
          exact absurd (hlines _ List.mem_cons_self) (by have := hlong rest; omega)

/-- The line a file starts with, and what `fgets` takes of it. -/
theorem nextLine_cases {file : Bytes} (hne : file ≠ [])
    (hlines : ∀ line ∈ file.splitOn 10, line.length ≤ 255) :
    ∃ line newline rest, file = line ++ newline ++ rest ∧ nextLine file = line ++ newline ∧
      10 ∉ line ∧ (newline = [] ∨ newline = [10]) ∧ line ++ newline ≠ [] ∧
      entries file = (entry line).toList ++ entries rest ∧
      ∀ l ∈ rest.splitOn 10, l.length ≤ 255 := by
  obtain ⟨line, newline, rest, hsplit, hnext, h10, hne', hnewline⟩ := nextLine_split hne
  refine ⟨line, newline, rest, hsplit, hnext, h10, hnewline.symm.imp_left And.left, hne', ?_⟩
  subst hsplit
  rcases hnewline with rfl | ⟨rfl, hend⟩
  · rw [List.append_assoc, List.singleton_append] at hlines ⊢
    rw [List.splitOn_append_cons_self_of_not_mem h10] at hlines
    exact ⟨entries_append h10 rest, fun l hl => hlines l (List.mem_cons_of_mem line hl)⟩
  · rw [List.append_nil] at hlines ⊢
    have hrest : rest = [] ∨ ∃ rest', rest = 10 :: rest' := by
      rcases hend with hfull | hnil
      · exact starts_newline h10 hfull hlines
      · exact .inl hnil
    rcases hrest with rfl | ⟨rest, rfl⟩
    · rw [List.append_nil]
      refine ⟨?_, by simp⟩
      rw [entries_line h10]
      exact (List.append_nil _).symm
    · -- The newline does not fit and is read as the next line.
      rw [List.splitOn_append_cons_self_of_not_mem h10] at hlines
      refine ⟨?_, ?_⟩
      · rw [entries_append h10]
        exact congrArg ((entry line).toList ++ ·) (entries_append List.not_mem_nil rest).symm
      · have hblank : (10 :: rest).splitOn 10 = [] :: rest.splitOn 10 :=
          List.splitOn_append_cons_self_of_not_mem List.not_mem_nil rest
        rw [hblank]
        intro l hl
        cases hl with
        | head => exact Nat.zero_le _
        | tail _ hl => exact hlines l (List.mem_cons_of_mem line hl)

theorem loadLines_end {buf file : Bytes} (hfgets : fgets buf file = some none)
    (config_map_ : Bytes → Option Bytes) : loadLines buf file config_map_ = some config_map_ := by
  rw [loadLines.eq_def]
  split
  · next h =>
      rw [hfgets] at h
      cases h
  · rfl
  · next h =>
      rw [hfgets] at h
      cases h

theorem loadLines_next {buf file buf₁ rest buf₂ : Bytes}
    {config_map_ config_map_' : Bytes → Option Bytes}
    (hfgets : fgets buf file = some (some (buf₁, rest)))
    (hread : readLine buf₁ config_map_ = some (buf₂, config_map_')) :
    loadLines buf file config_map_ = loadLines buf₂ rest config_map_' := by
  rw [loadLines.eq_def]
  split
  · next h =>
      rw [hfgets] at h
      cases h
  · next h =>
      rw [hfgets] at h
      cases h
  · next h =>
      rw [hfgets] at h
      cases h
      rw [hread]

/-- One turn of the loop, the array as it may be. -/
theorem loadLines_step {line newline rest buf : Bytes} (hbuf : buf.length = 256)
    (hnext : nextLine (line ++ newline ++ rest) = line ++ newline) (h0 : 0 ∉ line)
    (h10 : 10 ∉ line) (hnewline : newline = [] ∨ newline = [10]) (hne : line ++ newline ≠ [])
    (config_map_ : Bytes → Option Bytes) :
    ∃ buf', buf'.length = 256 ∧ loadLines buf (line ++ newline ++ rest) config_map_ =
      loadLines buf' rest (add config_map_ (entry line)) := by
  have hfile : line ++ newline ++ rest ≠ [] := List.append_ne_nil_of_left_ne_nil hne rest
  have hle : (line ++ newline).length ≤ 255 := by
    rw [← hnext, nextLine, List.length_take]
    exact Nat.min_le_left _ _
  have hfgets : fgets buf (line ++ newline ++ rest) =
      some (some (line ++ newline ++ 0 :: buf.drop ((line ++ newline).length + 1), rest)) := by
    rw [fgets, if_neg hfile, hnext]
    dsimp only
    rw [if_pos (by omega), List.drop_left]
  obtain ⟨buf', hbuf', hread⟩ := readLine_append h0 h10 hnewline hne
    (buf.drop ((line ++ newline).length + 1)) config_map_
  refine ⟨buf', ?_, loadLines_next hfgets hread⟩
  rw [hbuf', List.length_append, List.length_cons, List.length_drop]
  omega

/-- The loop adds the entries of the lines. -/
theorem loadLines_eq {file buf : Bytes} (hbuf : buf.length = 256) (h0 : 0 ∉ file)
    (hlines : ∀ line ∈ file.splitOn 10, line.length ≤ 255)
    (config_map_ : Bytes → Option Bytes) :
    loadLines buf file config_map_ =
      some ((entries file).foldl (fun m e => add m (some e)) config_map_) := by
  induction hn : file.length using Nat.strong_induction_on generalizing file buf config_map_ with
  | _ n ih =>
      subst hn
      by_cases hfile : file = []
      · subst hfile
        rw [loadLines_end (if_pos rfl)]
        rfl
      · obtain ⟨line, newline, rest, hsplit, hnext, h10, hnewline, hne, hentries, hrest⟩ :=
          nextLine_cases hfile hlines
        have hpos := List.length_pos_iff.mpr hne
        rw [hentries, List.foldl_append]
        subst hsplit
        rw [List.mem_append, List.mem_append, not_or, not_or] at h0
        have hshorter : rest.length < (line ++ newline ++ rest).length := by
          rw [List.length_append]
          omega
        obtain ⟨buf', hbuf', hstep⟩ := loadLines_step hbuf hnext h0.1.1 h10 hnewline hne config_map_
        rw [hstep, ih rest.length hshorter hbuf' h0.2 hrest _ rfl]
        cases entry line <;> rfl

theorem foldl_add (es : List (Bytes × Bytes)) (config_map_ : Bytes → Option Bytes) (name : Bytes) :
    es.foldl (fun m e => add m (some e)) config_map_ name =
      (config_map_ name).or (es.lookup name) := by
  induction es generalizing config_map_ with
  | nil => rw [List.foldl_nil, List.lookup_nil, Option.or_none]
  | cons e es ih =>
      obtain ⟨key, value⟩ := e
      rw [List.foldl_cons, ih, add, insert, List.lookup_cons]
      by_cases hname : name = key
      · subst hname
        rw [BEq.rfl]
        split
        · next hsome =>
            obtain ⟨v, hv⟩ := Option.isSome_iff_exists.mp hsome
            rw [hv, Option.some_or, Option.some_or]
        · next hnone =>
            rw [Function.update_self, Option.some_or, Option.not_isSome_iff_eq_none.mp hnone,
              Option.none_or]
      · rw [beq_eq_false_iff_ne.mpr hname]
        split
        · rfl
        · rw [Function.update_of_ne hname]

/-- After loading, a name has the value of the first line that configures it,
and no access has left the array. -/
theorem loadFile_spec {buf file : Bytes} (hbuf : buf.length = 256) (h0 : 0 ∉ file)
    (hlines : ∀ line ∈ file.splitOn 10, line.length ≤ 255) :
    ∃ reader, loadFile buf file = some reader ∧
      ∀ name, reader.getConfigName name = (entries file).lookup name := by
  rw [loadFile, loadLines_eq hbuf h0 hlines]
  refine ⟨_, rfl, fun name => ?_⟩
  rw [getConfigName, if_pos rfl]
  exact foldl_add (entries file) (fun _ => none) name

/-! A comment, a key without a value, and a key that comes twice. -/

def sampleFile : Bytes := ascii "# pools\n a = b # c\nk=\na=d"

theorem sampleFile_loaded :
    ∃ reader, loadFile (List.replicate 256 7) sampleFile = some reader ∧
      reader.getConfigName (ascii "a") = some (ascii "b") ∧
      reader.getConfigName (ascii "k") = none := by
  obtain ⟨reader, hload, hname⟩ := loadFile_spec
    (show (List.replicate 256 7 : Bytes).length = 256 by decide +kernel)
    (show 0 ∉ sampleFile by decide) (by decide)
  refine ⟨reader, hload, ?_, ?_⟩
  · rw [hname]
    decide
  · rw [hname]
    decide

end

end CConfigFileReader

end FileHub
