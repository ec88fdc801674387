import FileHub.Base.Util

/-!
# Splitting a string at a separator

The second pass splits at a separator only when it has passed a byte since the
last one. Where two of them meet, or one opens or closes the string, the passes
disagree: the second writes fewer entries than the first has counted, and none
of them is empty. They agree exactly where no part is empty, and the parts and
their number fit the counters.
-/

namespace FileHub

open Lib

namespace CStrExplode

/-! ## Strings that are split -/

structure Splits (s : Bytes) (c : UInt8) (e : CStrExplode) : Prop where
  initialised : ∀ i < e.item_cnt_, (e.getItem i).isSome
  separated : ∀ i < e.item_cnt_, ∀ item ∈ e.getItem i, c ∉ item
  joined : [c].intercalate ((List.range e.item_cnt_).map fun i => (e.getItem i).getD []) = s

/-- The string is not empty, and its separators neither open nor close it nor
stand side by side. -/
structure NoEmptyPart (s : Bytes) (c : UInt8) : Prop where
  nonempty : s ≠ []
  first : s.head? ≠ some c
  last : s.getLast? ≠ some c
  inner : ¬[c, c] <:+: s

/-- The parts can be numbered by an `int`, and each has a length that a `uint32_t`
holds along with its terminator. -/
structure Fits (s : Bytes) (c : UInt8) : Prop where
  number : s.count c ≤ INT_MAX
  lengths : ∀ item ∈ s.splitOn c, item.length + 1 < 2 ^ 32

/-! ## What the second pass writes -/

variable {c : UInt8}

/-- The entries it writes, in order. -/
def parts (c : UInt8) : Bytes → Bytes → List Bytes
  | [], token => if token = [] then [] else [token]
  | b :: rest, token =>
      if token ≠ [] ∧ b = c then token :: parts c rest [] else parts c rest (token ++ [b])

/-- What an array holds from `idx` on. -/
def HoldsFrom (items items' : ℕ → Option Bytes) (idx : ℕ) (written : List Bytes) : Prop :=
  ∀ i, items' i = if i < idx then items i else written[i - idx]?

theorem holdsFrom_nil {items : ℕ → Option Bytes} {idx : ℕ}
    (hfresh : ∀ i, idx ≤ i → items i = none) :
    HoldsFrom items items idx [] := by
  intro i
  split
  · rfl
  · next hi => rw [hfresh i (by omega), List.getElem?_nil]

/-- One item is written, and then the others. -/
theorem HoldsFrom.cons {items items' : ℕ → Option Bytes} {idx : ℕ} {item : Bytes}
    {written : List Bytes}
    (h : HoldsFrom (Function.update items idx (some item)) items' (idx + 1) written) :
    HoldsFrom items items' idx (item :: written) := by
  intro i
  rw [h i]
  rcases lt_trichotomy i idx with hi | rfl | hi
  · rw [if_pos (by omega), if_pos hi, Function.update_of_ne (by omega)]
  · rw [if_pos (by omega), if_neg (by omega), Function.update_self, Nat.sub_self]
    rfl
  · rw [if_neg (by omega), if_neg (by omega), show i - idx = i - (idx + 1) + 1 by omega,
      List.getElem?_cons_succ]

theorem update_fresh {items : ℕ → Option Bytes} {idx : ℕ} (item : Bytes)
    (hfresh : ∀ i, idx ≤ i → items i = none) (i : ℕ) (hi : idx + 1 ≤ i) :
    Function.update items idx (some item) i = none := by
  rw [Function.update_of_ne (by omega), hfresh i (by omega)]

theorem setItem_eq_some {n : ℕ} {token : Bytes} {idx : ℕ} {items items' : ℕ → Option Bytes} :
    setItem n token idx items = some items' ↔
      (idx < n ∧ token.length % 2 ^ 32 + 1 < 2 ^ 32) ∧
        Function.update items idx (some (token.take (token.length % 2 ^ 32))) = items' := by
  rw [setItem, Option.ite_none_right_eq_some, Option.some.injEq]

/-- Of a part that fits the whole is written. -/
theorem setItem_of_fits {n : ℕ} {token : Bytes} {idx : ℕ} (items : ℕ → Option Bytes)
    (hlen : token.length + 1 < 2 ^ 32) (hroom : idx < n) :
    setItem n token idx items = some (Function.update items idx (some token)) := by
  have hmod : token.length % 2 ^ 32 = token.length := Nat.mod_eq_of_lt (by omega)
  rw [setItem_eq_some, hmod, List.take_length]
  exact ⟨⟨hroom, hlen⟩, rfl⟩

/-- Where the parts fit, the second pass writes them all. -/
theorem fill_eq_some {n : ℕ} {rest token : Bytes} {idx : ℕ} {items : ℕ → Option Bytes}
    (hlengths : ∀ item ∈ parts c rest token, item.length + 1 < 2 ^ 32)
    (hroom : idx + (parts c rest token).length ≤ n) (hint : idx + rest.count c ≤ INT_MAX)
    (hfresh : ∀ i, idx ≤ i → items i = none) :
    ∃ items', fill c n rest token idx items = some items' ∧
      HoldsFrom items items' idx (parts c rest token) := by
  induction rest generalizing token idx items with
  | nil =>
      rw [parts] at hlengths hroom
      rw [fill, parts]
      by_cases h : token = []
      · rw [if_neg (by simp [h]), if_pos h]
        exact ⟨items, rfl, holdsFrom_nil hfresh⟩
      · rw [if_neg h] at hlengths hroom ⊢
        have hlen := hlengths token (List.mem_singleton.mpr rfl)
        have hpos := List.length_pos_iff.mpr h
        rw [List.length_singleton] at hroom
        rw [if_pos (by omega), setItem_of_fits items hlen (by omega)]
        exact ⟨_, rfl, (holdsFrom_nil (update_fresh token hfresh)).cons⟩
  | cons b rest ih =>
      rw [parts] at hlengths hroom
      rw [fill, parts]
      by_cases h : token ≠ [] ∧ b = c
      · rw [if_pos h] at hlengths hroom ⊢
        rw [if_pos h]
        rw [List.length_cons] at hroom
        rw [List.count_cons, h.2, if_pos BEq.rfl] at hint
        have hlen := hlengths token List.mem_cons_self
        rw [setItem_of_fits items hlen (by omega), Option.bind_eq_bind, Option.bind_some,
          if_pos (by omega)]
        obtain ⟨items', hfill, hget⟩ := ih
          (fun item hitem => hlengths item (List.mem_cons_of_mem _ hitem)) (by omega) (by omega)
          (update_fresh token hfresh)
        exact ⟨items', hfill, hget.cons⟩
      · rw [if_neg h] at hlengths hroom ⊢
        rw [if_neg h]
        have hcount := List.count_le_count_cons (a := c) (b := b) (l := rest)
        exact ih hlengths hroom (by omega) hfresh

/-- What the second pass writes, if it ends, is as long as the string together with
its separators only if it is the parts. -/
structure Wrote (c : UInt8) (n idx : ℕ) (rest token : Bytes) (written : List Bytes) : Prop where
  room : written ≠ [] → idx + written.length ≤ n
  number : idx + written.length ≤ INT_MAX + 1
  length : (written.map List.length).sum + written.length ≤ token.length + rest.length + 1
  whole : (written.map List.length).sum + written.length = token.length + rest.length + 1 →
    written = parts c rest token ∧ ∀ item ∈ written, item.length + 1 < 2 ^ 32

theorem wrote_nil {n idx : ℕ} (token : Bytes) (hidx : idx ≤ INT_MAX) :
    Wrote c n idx [] token [] where
  room h := absurd rfl h
  number := by
    rw [List.length_nil]
    omega
  length := Nat.zero_le _
  whole h := by simp at h

theorem length_stored (token : Bytes) :
    (token.take (token.length % 2 ^ 32)).length = token.length % 2 ^ 32 := by
  have hle := Nat.mod_le token.length (2 ^ 32)
  rw [List.length_take]
  omega

/-- The last item. -/
theorem wrote_last {n idx : ℕ} {token : Bytes} (hroom : idx < n) (hidx : idx ≤ INT_MAX)
    (hlen : token.length % 2 ^ 32 + 1 < 2 ^ 32) (hne : token ≠ []) :
    Wrote c n idx [] token [token.take (token.length % 2 ^ 32)] := by
  have hle := Nat.mod_le token.length (2 ^ 32)
  have hstored := length_stored token
  refine ⟨fun _ => ?_, ?_, ?_, fun hsum => ?_⟩
  · rw [List.length_singleton]
    omega
  · rw [List.length_singleton]
    omega
  · rw [List.map_singleton, List.sum_singleton, hstored, List.length_singleton, List.length_nil]
    omega
  · rw [List.map_singleton, List.sum_singleton, hstored, List.length_singleton,
      List.length_nil] at hsum
    have hmod : token.length % 2 ^ 32 = token.length := by omega
    rw [hmod, List.take_length, parts, if_neg hne]
    refine ⟨rfl, fun item hitem => ?_⟩
    rw [List.mem_singleton.mp hitem]
    omega

/-- An item before a separator. -/
theorem Wrote.split {n idx : ℕ} {b : UInt8} {rest token : Bytes} {written : List Bytes}
    (h : Wrote c n (idx + 1) rest [] written) (hroom : idx < n)
    (hlen : token.length % 2 ^ 32 + 1 < 2 ^ 32) (hsplit : token ≠ [] ∧ b = c) :
    Wrote c n idx (b :: rest) token (token.take (token.length % 2 ^ 32) :: written) := by
  have hle := Nat.mod_le token.length (2 ^ 32)
  have hstored := length_stored token
  have hnumber := h.number
  have hrest := h.length
  rw [List.length_nil, Nat.zero_add] at hrest
  refine ⟨fun _ => ?_, ?_, ?_, fun hsum => ?_⟩
  · rw [List.length_cons]
    by_cases hne : written = []
    · rw [hne, List.length_nil]
      omega
    · have := h.room hne
      omega
  · rw [List.length_cons]
    omega
  · rw [List.map_cons, List.sum_cons, hstored, List.length_cons, List.length_cons]
    omega
  · rw [List.map_cons, List.sum_cons, hstored, List.length_cons, List.length_cons] at hsum
    obtain ⟨hparts, hlengths⟩ := h.whole (by rw [List.length_nil]; omega)
    have hmod : token.length % 2 ^ 32 = token.length := by omega
    rw [hmod, List.take_length, parts, if_pos hsplit, ← hparts]
    refine ⟨rfl, fun item hitem => ?_⟩
    rcases List.mem_cons.mp hitem with rfl | hitem
    · omega
    · exact hlengths item hitem

/-- A byte that stays in its part. -/
theorem Wrote.stay {n idx : ℕ} {b : UInt8} {rest token : Bytes} {written : List Bytes}
    (h : Wrote c n idx rest (token ++ [b]) written) (hsplit : ¬(token ≠ [] ∧ b = c)) :
    Wrote c n idx (b :: rest) token written := by
  have hlength := h.length
  have hwhole := h.whole
  rw [List.length_append, List.length_singleton] at hlength hwhole
  refine ⟨h.room, h.number, ?_, fun hsum => ?_⟩
  · rw [List.length_cons]
    omega
  · rw [List.length_cons] at hsum
    rw [parts, if_neg hsplit]
    exact hwhole (by omega)

/-- What the second pass writes, if it ends. -/
theorem fill_spec {n : ℕ} {rest token : Bytes} {idx : ℕ} {items items' : ℕ → Option Bytes}
    (h : fill c n rest token idx items = some items') (hidx : idx ≤ INT_MAX)
    (hfresh : ∀ i, idx ≤ i → items i = none) :
    ∃ written, HoldsFrom items items' idx written ∧ Wrote c n idx rest token written := by
  induction rest generalizing token idx items with
  | nil =>
      rw [fill] at h
      split at h
      · next hlen =>
          obtain ⟨⟨hroom, hfits⟩, rfl⟩ := setItem_eq_some.mp h
          have hne : token ≠ [] := by
            rintro rfl
            exact hlen rfl
          exact ⟨_, (holdsFrom_nil (update_fresh _ hfresh)).cons, wrote_last hroom hidx hfits hne⟩
      · cases h
        exact ⟨[], holdsFrom_nil hfresh, wrote_nil token hidx⟩
  | cons b rest ih =>
      rw [fill] at h
      split at h
      · next hsplit =>
          obtain ⟨items₁, hset, h⟩ := Option.bind_eq_some_iff.mp h
          obtain ⟨⟨hroom, hfits⟩, rfl⟩ := setItem_eq_some.mp hset
          split at h
          · next hint =>
              obtain ⟨written, hget, hwrote⟩ := ih h (by omega) (update_fresh _ hfresh)
              exact ⟨_, hget.cons, hwrote.split hroom hfits hsplit⟩
          · cases h
      · next hsplit =>
          obtain ⟨written, hget, hwrote⟩ := ih h hidx hfresh
          exact ⟨written, hget, hwrote.stay hsplit⟩

/-- No entry is empty. -/
theorem ne_nil_of_mem_parts {rest token item : Bytes} (h : item ∈ parts c rest token) :
    item ≠ [] := by
  induction rest generalizing token with
  | nil =>
      rw [parts] at h
      split at h
      · cases h
      · next hne => rwa [List.mem_singleton.mp h]
  | cons b rest ih =>
      rw [parts] at h
      split at h
      · next hsplit =>
          rcases List.mem_cons.mp h with rfl | h
          · exact hsplit.1
          · exact ih h
      · exact ih h

/-! ## Where the passes agree -/

/-- The second pass from inside a part that has not been closed. -/
theorem parts_spec {rest token : Bytes} (htoken : c ∉ token)
    (hfirst : token = [] → rest ≠ [] ∧ rest.head? ≠ some c) (hlast : rest.getLast? ≠ some c)
    (hinner : ¬[c, c] <:+: rest) :
    (parts c rest token).length = 1 + rest.count c ∧ (∀ item ∈ parts c rest token, c ∉ item) ∧
      [c].intercalate (parts c rest token) = token ++ rest := by
  induction rest generalizing token with
  | nil =>
      have hne : token ≠ [] := fun h => (hfirst h).1 rfl
      rw [parts, if_neg hne]
      refine ⟨rfl, fun item hitem => ?_, ?_⟩
      · rwa [List.mem_singleton.mp hitem]
      · rw [List.intercalate_singleton, List.append_nil]
  | cons b rest ih =>
      rw [parts]
      split
      · next hsplit =>
          obtain ⟨-, rfl⟩ := hsplit
          have hrest : rest ≠ [] := by
            rintro rfl
            exact hlast rfl
          have hhead : rest.head? ≠ some b := by
            intro h
            cases rest with
            | nil => cases h
            | cons d rest =>
                cases h
                exact hinner ⟨[], rest, rfl⟩
          rw [List.getLast?_cons_of_ne_nil hrest] at hlast
          obtain ⟨hlen, hmem, hjoin⟩ := ih (show b ∉ ([] : Bytes) from List.not_mem_nil)
            (fun _ => ⟨hrest, hhead⟩) hlast
            fun h => hinner (h.trans (List.suffix_cons b rest).isInfix)
          have hne : parts b rest [] ≠ [] := by
            intro h
            rw [h, List.length_nil] at hlen
            omega
          refine ⟨?_, fun item hitem => ?_, ?_⟩
          · rw [List.length_cons, hlen, List.count_cons_self]
            omega
          · rcases List.mem_cons.mp hitem with rfl | hitem
            · exact htoken
            · exact hmem item hitem
          · rw [List.intercalate_cons_of_ne_nil hne, hjoin]
            simp
      · next hsplit =>
          have hb : b ≠ c := by
            rintro rfl
            by_cases htoken' : token = []
            · exact (hfirst htoken').2 rfl
            · exact hsplit ⟨htoken', rfl⟩
          have hlast' : rest.getLast? ≠ some c := by
            intro h
            cases rest with
            | nil => cases h
            | cons d rest => exact hlast (by rwa [List.getLast?_cons_cons])
          have htoken' : c ∉ token ++ [b] := by simpa [htoken] using hb.symm
          have hgoal := ih htoken' (by simp) hlast'
            fun h => hinner (h.trans (List.suffix_cons b rest).isInfix)
          rwa [List.append_assoc, List.singleton_append, ← List.count_cons_of_ne hb] at hgoal

theorem not_infix_append {l t : Bytes} (hl : c ∉ l) (hhead : t.head? ≠ some c)
    (ht : ¬[c, c] <:+: t) : ¬[c, c] <:+: l ++ c :: t := by
  induction l with
  | nil =>
      rw [List.nil_append, List.infix_cons_iff, not_or]
      refine ⟨fun h => ?_, ht⟩
      obtain ⟨-, h⟩ := List.cons_prefix_cons.mp h
      obtain ⟨post, rfl⟩ := h
      exact hhead rfl
  | cons x l ih =>
      rw [List.cons_append, List.infix_cons_iff, not_or]
      refine ⟨fun h => hl ?_, ih fun h => hl (List.mem_cons_of_mem x h)⟩
      obtain ⟨rfl, -⟩ := List.cons_prefix_cons.mp h
      exact List.mem_cons_self

/-- A text joined from parts that are not empty and lack the separator. -/
theorem noEmptyPart_intercalate {items : List Bytes} (hne : items ≠ [])
    (hitems : ∀ item ∈ items, item ≠ [] ∧ c ∉ item) :
    NoEmptyPart ([c].intercalate items) c := by
  have hends {item : Bytes} (h : c ∉ item) : item.head? ≠ some c ∧ item.getLast? ≠ some c :=
    ⟨fun hc => h (List.mem_of_mem_head? hc), fun hc => h (List.mem_of_getLast? hc)⟩
  induction items with
  | nil => exact absurd rfl hne
  | cons item items ih =>
      obtain ⟨hitem, hc⟩ := hitems item List.mem_cons_self
      cases items with
      | nil =>
          rw [List.intercalate_singleton]
          refine ⟨hitem, (hends hc).1, (hends hc).2, fun h => hc ?_⟩
          exact h.subset List.mem_cons_self
      | cons item' items =>
          have hrest := ih (by simp) fun i hi => hitems i (List.mem_cons_of_mem _ hi)
          rw [List.intercalate_cons_of_ne_nil (by simp), List.append_assoc,
            List.singleton_append]
          refine ⟨by simp, ?_, ?_, not_infix_append hc hrest.first hrest.inner⟩
          · rw [List.head?_append_of_ne_nil _ hitem]
            exact (hends hc).1
          · rw [List.getLast?_append_of_ne_nil _ (by simp),
              List.getLast?_cons_of_ne_nil hrest.nonempty]
            exact hrest.last

theorem length_intercalate (items : List Bytes) (hne : items ≠ []) :
    ([c].intercalate items).length + 1 = (items.map List.length).sum + items.length := by
  induction items with
  | nil => exact absurd rfl hne
  | cons item items ih =>
      cases items with
      | nil => simp
      | cons item' items =>
          have hrest := ih (by simp)
          rw [List.intercalate_cons_of_ne_nil (by simp)]
          simp only [List.length_append, List.map_cons, List.sum_cons, List.length_cons,
            List.length_nil] at hrest ⊢
          omega

/-- The entries below the counter are the list of them. -/
theorem items_eq {n : ℕ} {items : ℕ → Option Bytes} {written : List Bytes}
    (hget : ∀ i, items i = written[i]?) (hn : n = written.length) :
    ((List.range n).map fun i => (items i).getD []) = written := by
  refine List.ext_getElem (by simp [hn]) fun i hi hi' => ?_
  rw [List.getElem_map, List.getElem_range, hget, List.getElem?_eq_getElem hi', Option.getD_some]

/-- The string is split exactly when no part of it is empty and the parts fit. -/
theorem splits_iff (s : Bytes) (c : UInt8) :
    (∃ e, new s c = some e ∧ Splits s c e) ↔ NoEmptyPart s c ∧ Fits s c := by
  constructor
  · rintro ⟨e, hnew, h⟩
    obtain ⟨items, hfill, rfl⟩ := Option.map_eq_some_iff.mp hnew
    obtain ⟨written, hget, hwrote⟩ := fill_spec hfill (Nat.zero_le _) fun _ _ => rfl
    have hroom := hwrote.room
    have hmax := hwrote.number
    simp only [HoldsFrom, Nat.not_lt_zero, if_false, Nat.sub_zero, Nat.zero_add] at hget hroom hmax
    have hwritten : written ≠ [] := by
      rintro rfl
      have hzero : (1 + s.count c) % 2 ^ 32 = 0 := by
        by_contra hpos
        have hsome := h.initialised 0 (Nat.pos_of_ne_zero hpos)
        rw [show getItem _ 0 = items 0 from rfl, hget] at hsome
        cases hsome
      have hjoined := h.joined
      simp only [hzero, List.range_zero, List.map_nil, List.intercalate_nil] at hjoined
      rw [← hjoined] at hzero
      exact absurd hzero (by simp)
    have hn : (1 + s.count c) % 2 ^ 32 = written.length := by
      refine le_antisymm (Nat.le_of_not_lt fun hlt => ?_) (hroom hwritten)
      have hsome := h.initialised written.length hlt
      rw [show getItem _ written.length = items written.length from rfl, hget,
        List.getElem?_eq_none le_rfl] at hsome
      cases hsome
    have hjoined : [c].intercalate written = s := by
      have hjoined := h.joined
      rwa [show getItem _ = items from rfl, items_eq hget hn] at hjoined
    have hseparated : ∀ item ∈ written, c ∉ item := by
      intro item hitem
      obtain ⟨i, hi, rfl⟩ := List.mem_iff_getElem.mp hitem
      exact h.separated i (hn ▸ hi) _ ((hget i).trans (List.getElem?_eq_getElem hi))
    have hlength := length_intercalate (c := c) written hwritten
    rw [hjoined] at hlength
    obtain ⟨hparts, hlengths⟩ := hwrote.whole (by rw [List.length_nil]; omega)
    have hnone : NoEmptyPart s c := by
      rw [← hjoined]
      refine noEmptyPart_intercalate hwritten fun item hitem => ⟨?_, hseparated item hitem⟩
      rw [hparts] at hitem
      exact ne_nil_of_mem_parts hitem
    obtain ⟨hcount, -, -⟩ := parts_spec (show c ∉ ([] : Bytes) from List.not_mem_nil)
      (fun _ => ⟨hnone.nonempty, hnone.first⟩) hnone.last hnone.inner
    rw [← hparts] at hcount
    refine ⟨hnone, by omega, ?_⟩
    rwa [← hjoined, List.splitOn_intercalate c hseparated hwritten]
  · rintro ⟨h, hfits⟩
    obtain ⟨hlen, hmem, hjoin⟩ := parts_spec (show c ∉ ([] : Bytes) from List.not_mem_nil)
      (fun _ => ⟨h.nonempty, h.first⟩) h.last h.inner
    rw [List.nil_append] at hjoin
    have hne : parts c s [] ≠ [] := by
      intro hnil
      rw [hnil, List.length_nil] at hlen
      omega
    have hnumber := hfits.number
    have hmax : INT_MAX = 2 ^ 31 - 1 := rfl
    have hn : (1 + s.count c) % 2 ^ 32 = (parts c s []).length := by
      rw [hlen, Nat.mod_eq_of_lt (by omega)]
    have hlengths := hfits.lengths
    nth_rewrite 1 [← hjoin] at hlengths
    rw [List.splitOn_intercalate c hmem hne] at hlengths
    have hroom : 0 + (parts c s []).length ≤ (1 + s.count c) % 2 ^ 32 := by omega
    obtain ⟨items, hfill, hget⟩ := fill_eq_some hlengths hroom (by omega)
      fun i _ => (rfl : (fun _ : ℕ => (none : Option Bytes)) i = none)
    simp only [HoldsFrom, Nat.not_lt_zero, if_false, Nat.sub_zero] at hget
    refine ⟨⟨(1 + s.count c) % 2 ^ 32, items⟩, Option.map_eq_some_iff.mpr ⟨items, hfill, rfl⟩,
      fun i hi => ?_, fun i hi item hitem => ?_, ?_⟩
    · rw [show getItem _ i = items i from rfl, hget, List.getElem?_eq_getElem (hn ▸ hi)]
      rfl
    · exact hmem item (List.mem_of_getElem? ((hget i).symm.trans hitem))
    · rw [show getItem _ = items from rfl, items_eq hget hn, hjoin]

/-- A trailing comma leaves the second of two counted entries unwritten. -/
theorem trailing_not_split :
    ((new (ascii "a,") 44).map fun e => (e.item_cnt_, e.getItem 1)) = some (2, none) ∧
      ¬∀ s c, ∃ e, new s c = some e ∧ Splits s c e := by
  have hentry : ((new (ascii "a,") 44).map fun e => (e.item_cnt_, e.getItem 1)) =
      some (2, none) := by
    decide
  refine ⟨hentry, fun hall => ?_⟩
  obtain ⟨e, hnew, hsplits⟩ := hall (ascii "a,") 44
  rw [hnew, Option.map_some, Option.some.injEq, Prod.mk.injEq] at hentry
  have hsome := hsplits.initialised 1 (by omega)
  rw [hentry.2] at hsome
  cases hsome

end CStrExplode

end FileHub
