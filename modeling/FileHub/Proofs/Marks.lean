import FileHub.Base.Util

/-!
# Replacing the marks one by one

`begin_pos` moves past what was inserted, so at any time the string is what is
finished followed by the rest of the template, and the search goes through the
rest only.
-/

namespace FileHub

open Lib

/-- How a value stands in the text. -/
def MarkValue.text : MarkValue → Bytes
  | .string s => [39] ++ s ++ [39]
  | .number n => decimal n.toNat

/-- The template with its marks replaced by the values, all at once. -/
def substitute : Bytes → List MarkValue → Bytes
  | [], _ => []
  | b :: template, values =>
      if b = 63 then
        match values with
        | [] => b :: template
        | value :: values => value.text ++ substitute template values
      else b :: substitute template values

theorem replaceMark_eq (value : MarkValue) : replaceMark value = replaceFrom value.text := by
  cases value <;> rfl

theorem substitute_nil (template : Bytes) : substitute template [] = template := by
  induction template with
  | nil => rfl
  | cons b template ih =>
      rw [substitute, ih]
      split <;> rfl

theorem substitute_append {text : Bytes} (h : 63 ∉ text) (rest : Bytes) (values : List MarkValue) :
    substitute (text ++ rest) values = text ++ substitute rest values := by
  induction text with
  | nil => rfl
  | cons b text ih =>
      rw [List.mem_cons, not_or] at h
      rw [List.cons_append, substitute.eq_def]
      dsimp only
      rw [if_neg fun hb => h.1 hb.symm, ih h.2, List.cons_append]

theorem substitute_of_not_mem {text : Bytes} (h : 63 ∉ text) (values : List MarkValue) :
    substitute text values = text := by
  have happ := substitute_append h [] values
  rwa [List.append_nil, show substitute [] values = [] from rfl, List.append_nil] at happ

theorem findMark_append {text : Bytes} (h : 63 ∉ text) (done rest : Bytes) :
    findMark (done ++ (text ++ 63 :: rest)) done.length = some (done ++ text).length := by
  have hidx : (text ++ 63 :: rest).idxOf? 63 = some text.length := by
    induction text with
    | nil => rfl
    | cons b text ih =>
        rw [List.mem_cons, not_or] at h
        rw [List.cons_append, List.idxOf?_cons, if_neg (by simpa using fun hb => h.1 hb.symm),
          ih h.2]
        rfl
  rw [findMark, List.drop_left, hidx, Option.map_some, List.length_append]

theorem findMark_none {text : Bytes} (h : 63 ∉ text) (done : Bytes) :
    findMark (done ++ text) done.length = none := by
  rw [findMark, List.drop_left, List.idxOf?_eq_none_iff.mpr h]
  rfl

/-- The first mark of a template, if it has one. -/
theorem mark_cases (template : Bytes) :
    63 ∉ template ∨ ∃ text rest, template = text ++ 63 :: rest ∧ 63 ∉ text := by
  by_cases h : 63 ∈ template
  · obtain ⟨text, rest, htemplate, htext⟩ := List.eq_append_cons_of_mem h
    exact .inr ⟨text, rest, htemplate, htext⟩
  · exact .inl h

/-- One value: it goes to the first mark of the rest, and `begin_pos` behind it. -/
theorem replaceFrom_append {text value : Bytes} (htext : 63 ∉ text) (done rest : Bytes)
    (hsize : (done ++ text ++ value).length < 2 ^ 32) :
    replaceFrom value (done ++ (text ++ 63 :: rest), done.length) =
      ((done ++ text ++ value) ++ rest, (done ++ text ++ value).length) := by
  rw [replaceFrom, findMark_append htext]
  dsimp only
  rw [← List.length_append, Nat.mod_eq_of_lt hsize, ← List.append_assoc, List.take_left,
    List.append_cons]
  have hmark : (done ++ text).length + 1 = (done ++ text ++ [63]).length := by
    rw [@List.length_append _ (done ++ text)]
    rfl
  rw [hmark, List.drop_left]

/-- `done` is finished and `template` is left. -/
theorem foldl_replaceMark (values : List MarkValue) (done template : Bytes)
    (hsize : (done ++ substitute template values).length < 2 ^ 32) :
    (values.foldl (fun x v => replaceMark v x) (done ++ template, done.length)).1 =
      done ++ substitute template values := by
  induction values generalizing done template with
  | nil => rw [List.foldl_nil, substitute_nil]
  | cons value values ih =>
      rw [List.foldl_cons, replaceMark_eq]
      rcases mark_cases template with hnone | ⟨text, rest, rfl, htext⟩
      · rw [replaceFrom, findMark_none hnone]
        rw [substitute_of_not_mem hnone] at hsize ⊢
        have hrest := ih done template (by rwa [substitute_of_not_mem hnone])
        rwa [substitute_of_not_mem hnone] at hrest
      · have hsubst : substitute (text ++ 63 :: rest) (value :: values) =
            text ++ value.text ++ substitute rest values := by
          rw [substitute_append htext, substitute, if_pos rfl, List.append_assoc]
        rw [hsubst, ← List.append_assoc, ← List.append_assoc] at hsize
        rw [replaceFrom_append htext, ih _ _ hsize, hsubst]
        · simp only [List.append_assoc]
        · rw [List.length_append] at hsize
          omega

/-- The marks are replaced by the values in order, the text and the values themselves left alone. -/
theorem replaceMarks_eq (template : Bytes) (values : List MarkValue)
    (hsize : (substitute template values).length < 2 ^ 32) :
    replaceMarks template values = substitute template values :=
  foldl_replaceMark values [] template hsize

theorem replaceMarks_sample :
    replaceMarks (ascii "a=? b=? c=?") [.string (ascii "x?y"), .number 7] =
      ascii "a='x?y' b=7 c=?" := by
  rw [replaceMarks_eq _ _ (by decide)]
  decide

end FileHub
