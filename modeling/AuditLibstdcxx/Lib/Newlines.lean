import Mathlib.Data.List.Basic

/-!
# Line Endings

Text read with universal newlines: `\r`, `\n` and the two in this order all come
out as `\n`. It is not a change of single characters, but nothing other than a
`\r` at the end of what is in front has to do with what is behind.

## Main definitions

* `universalNewlines`: Every line ending becomes `\n`.

## Theorems

* `universalNewlines_eq_self`: Without `\r` nothing changes.
* `universalNewlines_append_cons`: No line ending goes on over another character.
* `takeWhile_universalNewlines`: Up to the first line ending nothing changes.
-/

namespace Newlines

/-- Every kind of line ending is read as `\n`. -/
def universalNewlines : List Char → List Char
  | [] => []
  | '\r' :: '\n' :: rest => '\n' :: universalNewlines rest
  | '\r' :: rest => '\n' :: universalNewlines rest
  | c :: rest => c :: universalNewlines rest

theorem length_universalNewlines_le (text : List Char) :
    (universalNewlines text).length ≤ text.length := by
  fun_induction universalNewlines text with
  | case1 => exact Nat.le_refl 0
  | case2 rest ih => exact Nat.succ_le_succ (Nat.le_succ_of_le ih)
  | case3 rest _ ih => exact Nat.succ_le_succ ih
  | case4 c rest _ _ ih => exact Nat.succ_le_succ ih

theorem universalNewlines_ne_nil {text : List Char} (h : text ≠ []) :
    universalNewlines text ≠ [] := by
  fun_cases universalNewlines text with
  | case1 => exact absurd rfl h
  | case2 rest => exact List.cons_ne_nil _ _
  | case3 rest => exact List.cons_ne_nil _ _
  | case4 c rest => exact List.cons_ne_nil _ _

theorem not_mem_universalNewlines (text : List Char) : '\r' ∉ universalNewlines text := by
  fun_induction universalNewlines text with
  | case1 => exact List.not_mem_nil
  | case2 rest ih => simp [ih]
  | case3 rest _ ih => simp [ih]
  | case4 c rest _ hreturn ih =>
      rw [List.mem_cons, not_or]
      exact ⟨fun h => hreturn h.symm, ih⟩

theorem mem_of_mem_universalNewlines {c : Char} (hc : c ≠ '\n') (text : List Char)
    (h : c ∈ universalNewlines text) : c ∈ text := by
  fun_induction universalNewlines text with
  | case1 => exact h
  | case2 rest ih =>
      rcases List.mem_cons.mp h with h | h
      · exact absurd h hc
      · exact List.mem_cons_of_mem _ (List.mem_cons_of_mem _ (ih h))
  | case3 rest _ ih =>
      rcases List.mem_cons.mp h with h | h
      · exact absurd h hc
      · exact List.mem_cons_of_mem _ (ih h)
  | case4 d rest _ _ ih =>
      rcases List.mem_cons.mp h with h | h
      · exact List.mem_cons.mpr (Or.inl h)
      · exact List.mem_cons_of_mem _ (ih h)

theorem universalNewlines_cons_of_ne {c : Char} (h : c ≠ '\r') (rest : List Char) :
    universalNewlines (c :: rest) = c :: universalNewlines rest := by
  rw [universalNewlines]
  · rintro _ rfl _
    exact h rfl
  · rintro rfl
    exact h rfl

/-- Without `\r` nothing changes. -/
theorem universalNewlines_append {text : List Char} (h : '\r' ∉ text) (rest : List Char) :
    universalNewlines (text ++ rest) = text ++ universalNewlines rest := by
  induction text with
  | nil => rfl
  | cons c text ih =>
      rw [List.mem_cons, not_or] at h
      rw [List.cons_append, universalNewlines_cons_of_ne (Ne.symm h.1), ih h.2, List.cons_append]

/-- A line ending does not go on over any other character. -/
theorem universalNewlines_append_cons (text : List Char) {c : Char} (hr : c ≠ '\r') (hn : c ≠ '\n')
    (rest : List Char) : universalNewlines (text ++ c :: rest) =
      universalNewlines text ++ c :: universalNewlines rest := by
  fun_induction universalNewlines text with
  | case1 => exact universalNewlines_cons_of_ne hr rest
  | case2 text ih => simp [universalNewlines, ih]
  | case3 text hnext ih =>
      rw [List.cons_append, List.cons_append, ← ih]
      refine universalNewlines.eq_3 _ ?_
      rintro after hafter
      -- What follows is not the second half of a line ending.
      cases text with
      | nil => exact hn (List.cons.inj hafter).1
      | cons d text => exact hnext text (by rw [(List.cons.inj hafter).1])
  | case4 d text _ hreturn ih =>
      rw [List.cons_append, universalNewlines_cons_of_ne hreturn, ih, List.cons_append]

theorem universalNewlines_eq_self {text : List Char} (h : '\r' ∉ text) :
    universalNewlines text = text := by
  have happend := universalNewlines_append h []
  rwa [List.append_nil, universalNewlines, List.append_nil] at happend

/-- Up to the first line ending nothing changes. -/
theorem takeWhile_universalNewlines (p : Char → Bool) (hr : p '\r' = false) (hn : p '\n' = false)
    (text : List Char) : (universalNewlines text).takeWhile p = text.takeWhile p := by
  fun_induction universalNewlines text with
  | case1 => rfl
  | case2 rest ih =>
      rw [List.takeWhile_cons_of_neg (by simp [hn]), List.takeWhile_cons_of_neg (by simp [hr])]
  | case3 rest _ ih =>
      rw [List.takeWhile_cons_of_neg (by simp [hn]), List.takeWhile_cons_of_neg (by simp [hr])]
  | case4 c rest _ _ ih => rw [List.takeWhile_cons, List.takeWhile_cons, ih]

end Newlines
