import Mathlib.Algebra.Order.BigOperators.Group.List
import FileHub.Proofs.ConfigLines

/-!
# A saved configuration is loaded again

A pair is written as one line, of which `szPaire` takes 127 bytes, and is read
as one line, for which `fgets` has room for 255. So a pair that fills the
writer's array loses its newline there, and the line below becomes a part of its
value.

That all pairs come back is a matter of bytes. Whatever a file looks like, each
pair that is read out of it has taken the bytes of its line, and only the last
line may be without a newline. So a file that gives every pair back has all the
bytes of all their lines, but for a newline at its end; and `szPaire` passes on
at most 127 of each.
-/

namespace FileHub

open Lib

namespace CConfigFileReader

/-! ## What a loaded map holds -/

/-- A pair as a line has it, without the newline. -/
def pair (it : Bytes × Bytes) : Bytes := it.1 ++ 61 :: it.2

/-- What a line can configure. -/
structure Storable (it : Bytes × Bytes) : Prop where
  key_ne : it.1 ≠ []
  value_ne : it.2 ≠ []
  trim_key : trim it.1 = it.1
  trim_value : trim it.2 = it.2
  not_eq : 61 ∉ it.1
  zero : 0 ∉ pair it
  newline : 10 ∉ pair it
  comment : 35 ∉ pair it

theorem length_trim_le (s : Bytes) : (trim s).length ≤ s.length := by
  have h := congrArg List.length (trimBy_split isBlank s)
  rw [List.length_append, List.length_append] at h
  rw [trim, ← trimBy]
  omega

theorem mem_pair {it : Bytes × Bytes} {c : UInt8} (hc : c ≠ 61) :
    c ∈ pair it ↔ c ∈ it.1 ∨ c ∈ it.2 := by
  rw [pair, List.mem_append, List.mem_cons]
  simp [hc]

theorem entry_some {line : Bytes} {it : Bytes × Bytes} (h : entry line = some it) :
    (pair it).length ≤ line.length ∧ (0 ∉ line → 10 ∉ line → Storable it) := by
  rw [entry, setting] at h
  have hline := (List.takeWhile_prefix (l := line) (· != 35)).length_le
  split at h
  · next hmem =>
      obtain ⟨hsplit, -⟩ := split_at hmem
      have hcomment : 35 ∉ line.takeWhile (· != 35) := fun h => by
        simpa using List.mem_takeWhile_imp h
      have hkey : 61 ∉ (line.takeWhile (· != 35)).takeWhile (· != 61) := fun h => by
        simpa using List.mem_takeWhile_imp h
      dsimp only at h
      generalize (line.takeWhile (· != 35)).takeWhile (· != 61) = key at h hsplit hkey
      generalize ((line.takeWhile (· != 35)).dropWhile (· != 61)).drop 1 = value at h hsplit
      split at h
      · next hne =>
          cases h
          have hin : ∀ c, c ∉ line.takeWhile (· != 35) → c ≠ 61 →
              c ∉ pair (trim key, trim value) := by
            intro c hc h61 hmem
            rw [hsplit, List.mem_append, List.mem_cons] at hc
            rcases (mem_pair h61).mp hmem with h | h
            · exact hc (.inl (mem_of_mem_trimBy h))
            · exact hc (.inr (.inr (mem_of_mem_trimBy h)))
          refine ⟨?_, fun h0 h10 => ⟨hne.1, hne.2, trimBy_trimBy, trimBy_trimBy, ?_, ?_, ?_, ?_⟩⟩
          · have hlen := congrArg List.length hsplit
            have hkeylen := length_trim_le key
            have hvaluelen := length_trim_le value
            simp only [pair, List.length_append, List.length_cons] at hlen ⊢
            omega
          · exact fun h => hkey (mem_of_mem_trimBy h)
          · exact hin 0 (not_mem_takeWhile h0 _) (by decide)
          · exact hin 10 (not_mem_takeWhile h10 _) (by decide)
          · exact hin 35 hcomment (by decide)
      · cases h
  · cases h

theorem entry_pair {it : Bytes × Bytes} (h : Storable it) : entry (pair it) = some it := by
  have htake : (pair it).takeWhile (· != 61) = it.1 := by
    rw [pair, List.takeWhile_append_of_pos]
    · simp
    · intro b hb
      simp only [bne_iff_ne, ne_eq]
      rintro rfl
      exact h.not_eq hb
  have hdrop : ((pair it).dropWhile (· != 61)).drop 1 = it.2 := by
    have hsplit := (split_at (show 61 ∈ pair it by simp [pair])).1
    rw [htake] at hsplit
    conv_lhs at hsplit => rw [pair]
    exact (List.cons_inj_right _).mp (List.append_cancel_left hsplit) |>.symm
  rw [entry, takeWhile_of_not_mem h.comment, setting, if_pos (by simp [pair]), htake, hdrop]
  dsimp only
  rw [h.trim_key, h.trim_value, if_pos ⟨h.key_ne, h.value_ne⟩]

/-! ## What any file loads -/

theorem readLine_empty (post : Bytes) (config_map_ : Bytes → Option Bytes) :
    readLine (0 :: post) config_map_ = none := by
  have hlen := strlen_append (s := []) List.not_mem_nil [] post
  rw [List.nil_append, List.nil_append, List.length_nil] at hlen
  rw [readLine, hlen]
  rfl

/-- A NUL in a line ends it. -/
theorem readLine_some {line newline post buf : Bytes}
    {config_map_ config_map_' : Bytes → Option Bytes} (h10 : 10 ∉ line)
    (hnewline : newline = [] ∨ newline = [10])
    (h : readLine (line ++ newline ++ 0 :: post) config_map_ = some (buf, config_map_')) :
    ∃ text, 0 ∉ text ∧ 10 ∉ text ∧ config_map_' = add config_map_ (entry text) := by
  by_cases h0 : 0 ∈ line
  · obtain ⟨hsplit, -⟩ := split_at h0
    have htext : 0 ∉ line.takeWhile (· != 0) := fun h => by
      simpa using List.mem_takeWhile_imp h
    have htext10 := not_mem_takeWhile h10 (· != 0)
    generalize line.takeWhile (· != 0) = text at hsplit htext htext10
    generalize (line.dropWhile (· != 0)).drop 1 = more at hsplit
    subst hsplit
    rw [List.append_assoc, List.append_assoc, List.cons_append] at h
    by_cases hne : text = []
    · rw [hne, List.nil_append, readLine_empty] at h
      cases h
    · have hnone : ([] : Bytes) = [] ∨ ([] : Bytes) = [10] := .inl rfl
      obtain ⟨buf', -, hread⟩ := readLine_append htext htext10 hnone
        (by rwa [List.append_nil]) (more ++ (newline ++ 0 :: post)) config_map_
      rw [List.append_nil, h] at hread
      cases hread
      exact ⟨text, htext, htext10, rfl⟩
  · by_cases hne : line ++ newline = []
    · rw [hne, List.nil_append, readLine_empty] at h
      cases h
    · obtain ⟨buf', -, hread⟩ := readLine_append h0 h10 hnewline hne post config_map_
      rw [h] at hread
      cases hread
      exact ⟨line, h0, h10, rfl⟩

theorem fgets_some {buf file buf' rest : Bytes} (h : fgets buf file = some (some (buf', rest))) :
    ∃ line newline post, buf' = line ++ newline ++ 0 :: post ∧ 10 ∉ line ∧
      (newline = [] ∨ newline = [10]) := by
  rw [fgets] at h
  split at h
  · cases h
  · next hfile =>
      obtain ⟨line, newline, _, -, hnext, h10, -, hnewline⟩ := nextLine_split hfile
      dsimp only at h
      split at h
      · cases h
        rw [hnext]
        exact ⟨line, newline, _, rfl, h10, hnewline.symm.imp_left And.left⟩
      · cases h

theorem loadLines_some {buf file : Bytes} {config_map_ config_map_' : Bytes → Option Bytes}
    (h : loadLines buf file config_map_ = some config_map_') :
    ∃ es : List (Bytes × Bytes), (∀ it ∈ es, Storable it) ∧
      config_map_' = es.foldl (fun m e => add m (some e)) config_map_ := by
  fun_induction loadLines buf file config_map_ with
  | case1 => cases h
  | case2 =>
      cases h
      exact ⟨[], by simp, rfl⟩
  | case3 => cases h
  | case4 buf file m buf₁ rest hfgets buf₂ m₁ hread ih =>
      obtain ⟨es, hes, hm⟩ := ih h
      obtain ⟨line, newline, post, rfl, h10, hnewline⟩ := fgets_some hfgets
      obtain ⟨text, h0, h10', rfl⟩ := readLine_some h10 hnewline hread
      cases hentry : entry text with
      | none =>
          rw [hentry] at hm
          exact ⟨es, hes, hm⟩
      | some it =>
          rw [hentry] at hm
          refine ⟨it :: es, ?_, hm⟩
          rw [List.forall_mem_cons]
          exact ⟨(entry_some hentry).2 h0 h10', hes⟩

/-! ## The bytes of what is read -/

/-- What a pair takes of a file, where lines without a newline are full. -/
def cost (it : Bytes × Bytes) : ℕ := min ((pair it).length + 1) 255

/-- The newline that the last line of a file can do without. -/
def openEnd (file : Bytes) : ℕ := if file = [] ∨ file.getLast? = some 10 then 0 else 1

theorem openEnd_le (file : Bytes) : openEnd file ≤ 1 := by
  rw [openEnd]
  split <;> omega

theorem openEnd_append (front rest : Bytes) : openEnd rest ≤ openEnd (front ++ rest) := by
  by_cases hrest : rest = []
  · rw [hrest]
    exact Nat.zero_le _
  · rw [openEnd, openEnd, List.getLast?_append_of_ne_nil _ hrest]
    simp [hrest]

theorem cost_entry (line : Bytes) :
    ((entry line).toList.map cost).sum ≤ min (line.length + 1) 255 := by
  cases hentry : entry line with
  | none => exact Nat.zero_le _
  | some it =>
      have hle := (entry_some hentry).1
      show cost it + 0 ≤ _
      rw [cost]
      omega

/-- Each pair that is read has taken the bytes of its line. -/
theorem loadLines_cost {file buf : Bytes} (hbuf : buf.length = 256) (h0 : 0 ∉ file)
    (config_map_ : Bytes → Option Bytes) :
    ∃ es : List (Bytes × Bytes), loadLines buf file config_map_ =
        some (es.foldl (fun m e => add m (some e)) config_map_) ∧
      (es.map cost).sum ≤ file.length + openEnd file := by
  induction hn : file.length using Nat.strong_induction_on generalizing file buf config_map_ with
  | _ n ih =>
      subst hn
      by_cases hfile : file = []
      · subst hfile
        exact ⟨[], loadLines_end (if_pos rfl) _, Nat.zero_le _⟩
      · obtain ⟨line, newline, rest, rfl, hnext, h10, hne, hnewline⟩ := nextLine_split hfile
        have hpos := List.length_pos_iff.mpr hne
        rw [List.mem_append, List.mem_append, not_or, not_or] at h0
        obtain ⟨buf', hbuf', hstep⟩ := loadLines_step hbuf hnext h0.1.1 h10
          (hnewline.symm.imp_left And.left) hne config_map_
        have hshorter : rest.length < (line ++ newline ++ rest).length := by
          rw [List.length_append]
          omega
        obtain ⟨es, hload, hcost⟩ :=
          ih rest.length hshorter hbuf' h0.2 (add config_map_ (entry line)) rfl
        have hline := cost_entry line
        have hend := openEnd_append (line ++ newline) rest
        refine ⟨(entry line).toList ++ es, ?_, ?_⟩
        · rw [hstep, hload]
          cases entry line <;> rfl
        · rw [List.map_append, List.sum_append, List.length_append, List.length_append]
          rcases hnewline with rfl | ⟨rfl, hfull | rfl⟩
          · rw [List.length_singleton]
            omega
          · omega
          · have hopen : openEnd (line ++ [] ++ []) = 1 := by
              rw [List.append_nil, List.append_nil] at hfile ⊢
              rw [openEnd, if_neg]
              rw [not_or]
              exact ⟨hfile, fun h => h10 (List.mem_of_getLast? h)⟩
            have hnil : openEnd [] = 0 := rfl
            rw [hnil] at hcost
            omega

/-! ## What is written -/

/-- The lines of all pairs. -/
def complete (order : List (Bytes × Bytes)) : Bytes := order.flatMap fun it => pair it ++ [10]

theorem szPaire_eq {it : Bytes × Bytes} (h : Storable it) :
    szPaire it = (pair it ++ [10]).take 127 := by
  have h0 := h.zero
  rw [mem_pair (by decide), not_or] at h0
  have hkey := cStr_of_forall fun b hb => ne_of_mem_of_not_mem hb h0.1
  have hvalue := cStr_of_forall fun b hb => ne_of_mem_of_not_mem hb h0.2
  rw [szPaire, hkey, hvalue, pair, List.append_assoc, List.cons_append]

theorem writeLines_ret {disk : Disk} {n : ℕ} {text : Bytes} {order : List (Bytes × Bytes)}
    (h : (writeLines disk n text order).1 = 0) :
    (writeLines disk n text order).2 = text ++ order.flatMap szPaire := by
  induction order generalizing n text with
  | nil => exact (List.append_nil text).symm
  | cons it order ih =>
      rw [writeLines] at h ⊢
      split at h
      · cases h
      · next hwrite => rw [if_neg hwrite, ih h, List.flatMap_cons, List.append_assoc]

theorem assign_eq (config_map_ : Bytes → Option Bytes) (name value : Bytes) :
    assign config_map_ name value = Function.update config_map_ name (some value) := by
  rw [assign, insert]
  split
  · rfl
  · rfl

theorem setConfigValue_ret {disk : Disk} {file : Bytes} {order : List (Bytes × Bytes)}
    {r : CConfigFileReader} {name value : Bytes}
    (h : (setConfigValue disk file order r name value).2.1 = 0) :
    (setConfigValue disk file order r name value).1.config_map_ =
        Function.update r.config_map_ name (some value) ∧
      (setConfigValue disk file order r name value).2.2 =
        (order.flatMap szPaire).take disk.flushed := by
  rw [setConfigValue] at h ⊢
  split at h
  · next hload =>
      rw [if_pos hload, ← assign_eq]
      refine ⟨rfl, ?_⟩
      dsimp only at h ⊢
      rw [writeFile] at h ⊢
      split at h
      · next hopens =>
          rw [if_pos hopens]
          exact congrArg (List.take disk.flushed) (writeLines_ret h)
      · cases h
  · cases h

/-- Every pair keeps its newline, but for the last. -/
structure Fits (order : List (Bytes × Bytes)) (flushed : ℕ) : Prop where
  others : ∀ it ∈ order.dropLast, (pair it).length + 1 ≤ 127
  last : ∀ it ∈ order.getLast?, (pair it).length ≤ 127
  flushed : (complete order).length ≤ flushed + 1

theorem complete_append (order order' : List (Bytes × Bytes)) :
    complete (order ++ order') = complete order ++ complete order' := List.flatMap_append

theorem flatMap_szPaire {order : List (Bytes × Bytes)} (hstorable : ∀ it ∈ order, Storable it)
    (hshort : ∀ it ∈ order, (pair it).length + 1 ≤ 127) :
    order.flatMap szPaire = complete order := by
  refine List.flatMap_congr fun it hit => ?_
  have hle := hshort it hit
  rw [szPaire_eq (hstorable it hit), List.take_of_length_le]
  rw [List.length_append, List.length_singleton]
  exact hle

/-- A file with all lines, or with all but the newline at its end. -/
theorem Fits.file {order : List (Bytes × Bytes)} {flushed : ℕ} (h : Fits order flushed)
    (hstorable : ∀ it ∈ order, Storable it) :
    (order.flatMap szPaire).take flushed = complete order ∨
      (order.flatMap szPaire).take flushed ++ [10] = complete order := by
  rcases List.eq_nil_or_concat' order with rfl | ⟨init, it, rfl⟩
  · left
    exact List.take_nil
  · have hothers := h.others
    have hlast := h.last it (by simp)
    have hflushed := h.flushed
    rw [List.dropLast_concat] at hothers
    have hinit := flatMap_szPaire (fun i hi => hstorable i (List.mem_append_left _ hi)) hothers
    have hwhole : complete (init ++ [it]) = complete init ++ pair it ++ [10] := by
      rw [complete_append, List.append_assoc]
      exact congrArg (complete init ++ ·) (List.append_nil _)
    have hwritten : (init ++ [it]).flatMap szPaire =
        (complete init ++ pair it ++ [10]).take ((complete init).length + 127) := by
      rw [List.flatMap_append, hinit, List.flatMap_singleton, szPaire_eq (hstorable it (by simp)),
        List.append_assoc, List.take_length_add_append]
    rw [hwhole, List.length_append, List.length_singleton] at hflushed
    rw [hwhole, hwritten, List.take_take]
    have hbody : (complete init ++ pair it).length ≤
        min flushed ((complete init).length + 127) := by
      rw [List.length_append] at hflushed ⊢
      omega
    rcases Nat.eq_or_lt_of_le hbody with heq | hlt
    · right
      rw [← heq, List.take_left]
    · left
      rw [List.take_of_length_le]
      rw [List.length_append, List.length_singleton]
      exact hlt

theorem entries_newline (file : Bytes) : entries (file ++ [10]) = entries file := by
  rw [entries, List.splitOn_append_cons_self, List.filterMap_append, entries]
  exact List.append_nil _

theorem entries_complete {order : List (Bytes × Bytes)} (hstorable : ∀ it ∈ order, Storable it) :
    entries (complete order) = order := by
  induction order with
  | nil => rfl
  | cons it order ih =>
      rw [List.forall_mem_cons] at hstorable
      rw [complete, List.flatMap_cons, List.append_assoc, List.singleton_append,
        entries_append hstorable.1.newline, entry_pair hstorable.1]
      exact congrArg (it :: ·) (ih hstorable.2)

theorem splitOn_complete {order : List (Bytes × Bytes)} (hstorable : ∀ it ∈ order, Storable it) :
    (complete order).splitOn 10 = order.map pair ++ [[]] := by
  induction order with
  | nil => rfl
  | cons it order ih =>
      rw [List.forall_mem_cons] at hstorable
      rw [complete, List.flatMap_cons, List.append_assoc, List.singleton_append,
        List.splitOn_append_cons_self_of_not_mem hstorable.1.newline]
      exact congrArg (pair it :: ·) (ih hstorable.2)

theorem zero_complete {order : List (Bytes × Bytes)} (hstorable : ∀ it ∈ order, Storable it) :
    0 ∉ complete order := by
  intro h
  obtain ⟨it, hit, h⟩ := List.mem_flatMap.mp h
  rcases List.mem_append.mp h with h | h
  · exact (hstorable it hit).zero h
  · cases h with
    | tail _ h => cases h

theorem zero_szPaire {order : List (Bytes × Bytes)} (hstorable : ∀ it ∈ order, Storable it) :
    0 ∉ order.flatMap szPaire := by
  intro h
  obtain ⟨it, hit, h⟩ := List.mem_flatMap.mp h
  rw [szPaire_eq (hstorable it hit)] at h
  exact zero_complete hstorable (List.mem_flatMap.mpr ⟨it, hit, List.mem_of_mem_take h⟩)

theorem Fits.length_pair {order : List (Bytes × Bytes)} {flushed : ℕ} (h : Fits order flushed) :
    ∀ it ∈ order, (pair it).length ≤ 127 := by
  rcases List.eq_nil_or_concat' order with rfl | ⟨init, it, rfl⟩
  · simp
  · have hothers := h.others
    rw [List.dropLast_concat] at hothers
    rw [List.forall_mem_append]
    refine ⟨fun i hi => ?_, fun i hi => h.last i ?_⟩
    · have := hothers i hi
      omega
    · rw [List.mem_singleton.mp hi]
      simp

/-- A file with all lines is read as it was meant. -/
theorem Fits.loadLines_eq {order : List (Bytes × Bytes)} {flushed : ℕ} (h : Fits order flushed)
    (hstorable : ∀ it ∈ order, Storable it) {buf : Bytes} (hbuf : buf.length = 256)
    (config_map_ : Bytes → Option Bytes) :
    loadLines buf ((order.flatMap szPaire).take flushed) config_map_ =
      some (order.foldl (fun m e => add m (some e)) config_map_) := by
  have hfile := h.file hstorable
  generalize (order.flatMap szPaire).take flushed = file at hfile ⊢
  have hcomplete : entries file = entries (complete order) ∧
      (∀ line ∈ file.splitOn 10, line ∈ (complete order).splitOn 10) ∧
      ∀ c ∈ file, c ∈ complete order := by
    rcases hfile with hfile | hfile
    · rw [hfile]
      exact ⟨rfl, fun _ h => h, fun _ h => h⟩
    · rw [← hfile]
      refine ⟨(entries_newline file).symm, fun line hline => ?_, fun c hc => ?_⟩
      · rw [List.splitOn_append_cons_self]
        exact List.mem_append_left _ hline
      · exact List.mem_append_left _ hc
  obtain ⟨hentries, hlines, hmem⟩ := hcomplete
  have h0 : 0 ∉ file := fun h => zero_complete hstorable (hmem 0 h)
  rw [CConfigFileReader.loadLines_eq hbuf h0, hentries, entries_complete hstorable]
  intro line hline
  have hline := hlines line hline
  rw [splitOn_complete hstorable, List.mem_append, List.mem_singleton] at hline
  rcases hline with hline | rfl
  · obtain ⟨it, hit, rfl⟩ := List.mem_map.mp hline
    exact (h.length_pair it hit).trans (by decide)
  · exact Nat.zero_le _

/-! ## A map and its pairs -/

section

variable {order : List (Bytes × Bytes)} {config_map_ : Bytes → Option Bytes}

theorem Iterates.nodup (h : Iterates order config_map_) : order.Nodup := by
  refine h.ascending.imp fun {a b} hlt heq => ?_
  rw [heq] at hlt
  exact List.lt_irrefl _ hlt

theorem mem_of_lookup {es : List (Bytes × Bytes)} {key value : Bytes}
    (h : es.lookup key = some value) : (key, value) ∈ es := by
  obtain ⟨front, back, rfl, -⟩ := List.lookup_eq_some_iff.mp h
  simp

theorem lookup_of_mem (h : order.Pairwise fun a b => a.1 < b.1) {key value : Bytes}
    (hmem : (key, value) ∈ order) : order.lookup key = some value := by
  obtain ⟨front, back, rfl⟩ := List.append_of_mem hmem
  refine List.lookup_eq_some_iff.mpr ⟨front, back, rfl, fun it hit => ?_⟩
  have hlt := (List.pairwise_append.mp h).2.2 it hit _ List.mem_cons_self
  rw [bne_iff_ne]
  rintro rfl
  exact List.lt_irrefl _ hlt

theorem Iterates.lookup (h : Iterates order config_map_) (key : Bytes) :
    order.lookup key = config_map_ key := by
  refine Option.ext fun value => ?_
  rw [← h.mem_iff]
  exact ⟨mem_of_lookup, lookup_of_mem h.ascending⟩

theorem foldl_add_empty (es : List (Bytes × Bytes)) (name : Bytes) :
    es.foldl (fun m e => add m (some e)) (fun _ => none) name = es.lookup name := by
  rw [foldl_add]
  exact Option.none_or

theorem update_foldl_add (es : List (Bytes × Bytes)) (name value : Bytes) :
    Function.update (es.foldl (fun m e => add m (some e)) fun _ => none) name (some value) =
      ((name, value) :: es).foldl (fun m e => add m (some e)) fun _ => none := by
  funext key
  rw [foldl_add_empty, List.lookup_cons]
  by_cases hkey : key = name
  · rw [hkey, Function.update_self, BEq.rfl]
  · rw [Function.update_of_ne hkey, foldl_add_empty, beq_eq_false_iff_ne.mpr hkey]

theorem iterates_foldl_add (h : order.Pairwise fun a b => a.1 < b.1) :
    Iterates order (order.foldl (fun m e => add m (some e)) fun _ => none) := by
  refine ⟨h, fun key value => ?_⟩
  rw [foldl_add_empty]
  exact ⟨lookup_of_mem h, mem_of_lookup⟩

/-- Every map that is loaded, and then changed, has an order. -/
theorem exists_iterates (es : List (Bytes × Bytes)) :
    ∃ order, Iterates order (es.foldl (fun m e => add m (some e)) fun _ => none) := by
  have hsorted : (((es.map Prod.fst).dedup).mergeSort fun a b => decide (a ≤ b)).Pairwise
      fun a b => a < b := by
    have hle := @List.pairwise_mergeSort Bytes (fun a b => decide (a ≤ b))
      (fun a b c hab hbc => by simpa using List.le_trans (by simpa using hab) (by simpa using hbc))
      (fun a b => by simpa using List.le_total a b) (es.map Prod.fst).dedup
    have hne : (((es.map Prod.fst).dedup).mergeSort fun a b => decide (a ≤ b)).Nodup :=
      (List.mergeSort_perm _ _).nodup_iff.mpr (List.nodup_dedup _)
    refine (hle.and hne).imp fun {a b} hab => ?_
    exact Std.lt_of_le_of_ne (by simpa using hab.1) hab.2
  refine ⟨(((es.map Prod.fst).dedup).mergeSort fun a b => decide (a ≤ b)).filterMap
    fun key => (es.lookup key).map (key, ·), ?_, fun key value => ?_⟩
  · refine List.pairwise_filterMap.mpr (hsorted.imp fun {a b} hlt => ?_)
    intro it hit it' hit'
    obtain ⟨-, -, rfl⟩ := Option.map_eq_some_iff.mp hit
    obtain ⟨-, -, rfl⟩ := Option.map_eq_some_iff.mp hit'
    exact hlt
  · rw [foldl_add_empty, List.mem_filterMap]
    constructor
    · rintro ⟨key', -, h⟩
      obtain ⟨value', hvalue, heq⟩ := Option.map_eq_some_iff.mp h
      cases heq
      exact hvalue
    · intro h
      have hmem : key ∈ es.map Prod.fst := List.mem_map.mpr ⟨_, mem_of_lookup h, rfl⟩
      refine ⟨key, ?_, by rw [h, Option.map_some]⟩
      rw [List.mem_mergeSort, List.mem_dedup]
      exact hmem

/-- A loop that gives the map back has read every pair. -/
theorem Iterates.cost_le {es : List (Bytes × Bytes)}
    (h : Iterates order (es.foldl (fun m e => add m (some e)) fun _ => none)) :
    (order.map cost).sum ≤ (es.map cost).sum := by
  have hsubset : order ⊆ es := fun it hit =>
    mem_of_lookup ((foldl_add_empty es it.1).symm.trans ((h.mem_iff it.1 it.2).mp hit))
  obtain ⟨order', hperm, hsublist⟩ := List.subperm_of_subset h.nodup hsubset
  rw [← (hperm.map cost).sum_eq]
  exact (hsublist.map cost).sum_le_sum fun _ _ => Nat.zero_le _

end

/-! ## Enough bytes -/

theorem length_flatMap_szPaire {order : List (Bytes × Bytes)}
    (hstorable : ∀ it ∈ order, Storable it) :
    (order.flatMap szPaire).length =
      (order.map fun it => min ((pair it).length + 1) 127).sum := by
  rw [List.length_flatMap]
  refine congrArg List.sum (List.map_congr_left fun it hit => ?_)
  rw [szPaire_eq (hstorable it hit), List.length_take, List.length_append, List.length_singleton,
    Nat.min_comm]

theorem length_complete (order : List (Bytes × Bytes)) :
    (complete order).length = (order.map fun it => (pair it).length + 1).sum := by
  rw [complete, List.length_flatMap]
  simp only [List.length_append, List.length_singleton]

theorem openEnd_newline (front : Bytes) : openEnd (front ++ [10]) = 0 := by
  rw [openEnd, if_pos (.inr List.getLast?_concat)]

/-- A file with the bytes of every line has every newline but the last. -/
theorem fits_of_cost {order : List (Bytes × Bytes)} {flushed : ℕ}
    (hstorable : ∀ it ∈ order, Storable it)
    (h : (order.map cost).sum ≤ ((order.flatMap szPaire).take flushed).length +
      openEnd ((order.flatMap szPaire).take flushed)) : Fits order flushed := by
  rcases List.eq_nil_or_concat' order with rfl | ⟨init, it, rfl⟩
  · exact ⟨by simp, by simp, Nat.zero_le _⟩
  · have hopen := openEnd_le (((init ++ [it]).flatMap szPaire).take flushed)
    have hwritten := length_flatMap_szPaire hstorable
    have hfile := List.length_take (i := flushed) (l := (init ++ [it]).flatMap szPaire)
    have hcomplete := length_complete (init ++ [it])
    rw [List.map_append, List.sum_append, List.map_singleton, List.sum_singleton]
      at h hwritten hcomplete
    have hle : (init.map fun it => min ((pair it).length + 1) 127).sum ≤ (init.map cost).sum :=
      List.sum_le_sum fun i _ => by rw [cost]; omega
    have hcost : cost it = min ((pair it).length + 1) 255 := rfl
    have hothers : ∀ i ∈ init, (pair i).length + 1 ≤ 127 := by
      intro i hi
      by_contra hlong
      have hlt : (init.map fun it => min ((pair it).length + 1) 127).sum < (init.map cost).sum :=
        List.sum_lt_sum _ _ (fun i _ => by rw [cost]; omega) ⟨i, hi, by rw [cost]; omega⟩
      -- The newline that is missing here must be the one at the end, but there it is.
      have hshort : (pair it ++ [10]).length ≤ 127 := by
        rw [List.length_append, List.length_singleton]
        omega
      have hclosed : openEnd (((init ++ [it]).flatMap szPaire).take flushed) = 0 := by
        rw [List.take_of_length_le (by omega), List.flatMap_append, List.flatMap_singleton,
          szPaire_eq (hstorable it (by simp)), List.take_of_length_le hshort, ← List.append_assoc]
        exact openEnd_newline _
      omega
    have hsum : (init.map fun it => (pair it).length + 1).sum = (init.map cost).sum := by
      refine congrArg List.sum (List.map_congr_left fun i hi => ?_)
      have hshort := hothers i hi
      rw [cost]
      omega
    have hlast : (pair it).length ≤ 127 := by omega
    refine ⟨?_, ?_, by omega⟩
    · rw [List.dropLast_concat]
      exact hothers
    · rw [List.getLast?_concat]
      rintro _ ⟨⟩
      exact hlast

/-! ## Saving and loading -/

theorem loadFile_some {buf file : Bytes} {reader : CConfigFileReader}
    (h : loadFile buf file = some reader) :
    loadLines buf file (fun _ => none) = some reader.config_map_ := by
  obtain ⟨config_map_, hlines, rfl⟩ := Option.map_eq_some_iff.mp h
  exact hlines

/-- The map that `SetConfigValue` writes has an order. -/
theorem exists_order {buf file : Bytes} {reader : CConfigFileReader}
    (h : loadFile buf file = some reader) (name value : Bytes) :
    ∃ order, Iterates order (assign reader.config_map_ name value) := by
  obtain ⟨es, -, hreader⟩ := loadLines_some (loadFile_some h)
  rw [assign_eq, hreader, update_foldl_add]
  exact exists_iterates _

/-- What was saved is loaded as it was if and only if every pair keeps its
newline, but for the last. -/
theorem saves_iff {buf file buf' name value : Bytes} {disk : Disk}
    {order : List (Bytes × Bytes)} {reader : CConfigFileReader}
    (hload : loadFile buf file = some reader) (hit : Storable (name, value))
    (horder : Iterates order (setConfigValue disk file order reader name value).1.config_map_)
    (hret : (setConfigValue disk file order reader name value).2.1 = 0)
    (hbuf : buf'.length = 256) :
    (∃ reader', loadFile buf' (setConfigValue disk file order reader name value).2.2 =
        some reader' ∧
      reader'.config_map_ = Function.update reader.config_map_ name (some value)) ↔
    Fits order disk.flushed := by
  obtain ⟨hmap, hfile⟩ := setConfigValue_ret hret
  obtain ⟨es, hes, hreader⟩ := loadLines_some (loadFile_some hload)
  rw [hmap, hreader, update_foldl_add] at horder
  rw [hfile, hreader, update_foldl_add]
  have hstorable : ∀ it ∈ order, Storable it := by
    intro it hmem
    have hlookup := (horder.mem_iff it.1 it.2).mp hmem
    rw [foldl_add_empty] at hlookup
    cases mem_of_lookup hlookup with
    | head => exact hit
    | tail _ hold => exact hes it hold
  constructor
  · rintro ⟨reader', hload', hreader'⟩
    have h0 := fun h => zero_szPaire hstorable (List.mem_of_mem_take (i := disk.flushed) h)
    obtain ⟨es', hlines, hcost⟩ := loadLines_cost hbuf h0 fun _ => none
    rw [loadFile_some hload', hreader', Option.some_inj] at hlines
    rw [hlines] at horder
    exact fits_of_cost hstorable (horder.cost_le.trans hcost)
  · intro hfits
    refine ⟨⟨_, true⟩, by rw [loadFile, hfits.loadLines_eq hstorable hbuf]; rfl, ?_⟩
    funext key
    exact (foldl_add_empty order key).trans (horder.lookup key)

/-! One line in the file, a second one set, on a disk without faults. -/

def oldFile : Bytes := ascii "k=1\n"

def oldReader : CConfigFileReader :=
  ⟨[(ascii "k", ascii "1")].foldl (fun m e => add m (some e)) fun _ => none, true⟩

def wellDisk : Disk := ⟨true, fun _ => 1, 1000⟩

theorem oldFile_loaded : loadFile (List.replicate 256 7) oldFile = some oldReader := by
  have hentries : entries oldFile = [(ascii "k", ascii "1")] := by decide
  rw [loadFile, loadLines_eq (by decide +kernel) (by decide +kernel) (by decide +kernel), hentries]
  rfl

theorem oldReader_iterates (value : Bytes) :
    Iterates [(ascii "a", value), (ascii "k", ascii "1")]
      (assign oldReader.config_map_ (ascii "a") value) := by
  have hlt : ascii "a" < ascii "k" := by decide
  rw [assign_eq, oldReader, update_foldl_add]
  exact iterates_foldl_add (List.pairwise_pair.mpr hlt)

theorem shortValue_saves :
    ∃ order, Fits order wellDisk.flushed ∧
      ∃ reader', loadFile (List.replicate 256 7)
          (setConfigValue wellDisk oldFile order oldReader (ascii "a") (ascii "b")).2.2 =
            some reader' ∧
        reader'.config_map_ =
          Function.update oldReader.config_map_ (ascii "a") (some (ascii "b")) := by
  have hfits : Fits [(ascii "a", ascii "b"), (ascii "k", ascii "1")] wellDisk.flushed :=
    ⟨by decide, by decide, by decide⟩
  refine ⟨_, hfits, (saves_iff oldFile_loaded ?_ ?_ ?_ (by decide +kernel)).mpr hfits⟩
  · constructor <;> decide
  · exact oldReader_iterates (ascii "b")
  · decide

/-! The value fits a line that the reader takes, and its own array does not hold it. -/

def longValue : Bytes := List.replicate 130 120

theorem longValue_notSaved :
    loadFile (List.replicate 256 7) oldFile = some oldReader ∧
      Storable (ascii "a", longValue) ∧ (pair (ascii "a", longValue)).length ≤ 255 ∧
      ∃ order,
        Iterates order
          (setConfigValue wellDisk oldFile order oldReader (ascii "a") longValue).1.config_map_ ∧
        (setConfigValue wellDisk oldFile order oldReader (ascii "a") longValue).2.1 = 0 ∧
        ∃ reader', loadFile (List.replicate 256 7)
            (setConfigValue wellDisk oldFile order oldReader (ascii "a") longValue).2.2 =
              some reader' ∧
          oldReader.getConfigName (ascii "k") = some (ascii "1") ∧
          reader'.getConfigName (ascii "k") = none := by
  refine ⟨oldFile_loaded, by constructor <;> decide +kernel, by decide +kernel,
    [(ascii "a", longValue), (ascii "k", ascii "1")], oldReader_iterates longValue,
    by decide, ?_⟩
  have hfile : (setConfigValue wellDisk oldFile [(ascii "a", longValue), (ascii "k", ascii "1")]
      oldReader (ascii "a") longValue).2.2 =
        ascii "a=" ++ List.replicate 125 120 ++ ascii "k=1\n" := by decide
  have hentries : entries (ascii "a=" ++ List.replicate 125 120 ++ ascii "k=1\n") =
      [(ascii "a", List.replicate 125 120 ++ ascii "k=1")] := by decide
  rw [hfile]
  refine ⟨⟨_, true⟩, by
    rw [loadFile, loadLines_eq (by decide +kernel) (by decide +kernel) (by decide +kernel),
      hentries]
    rfl, ?_, ?_⟩
  · exact (foldl_add_empty _ _).trans (by decide)
  · exact (foldl_add_empty _ _).trans (by decide)

end CConfigFileReader

end FileHub
