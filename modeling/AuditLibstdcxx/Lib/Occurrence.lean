import AuditLibstdcxx.Lib.Checked

/-!
# First and Last Occurrences

A program that goes through a list for an item that fits takes the first one if
it stops there, and the last one if it goes on and writes over what it had. The
two are told apart by where the other items that fit stand, so both are defined
by a split of the list.

When no more than one item fits, the last one is the same in any order. That is
what a program relies on whose result should not depend on the order of a table.

## Main definitions

* `IsFirst`, `IsLast`: The first and the last item that fits.

## Theorems

* `find?_eq_some_iff`: A search that stops takes the first.
* `reverse_find?_eq_some_iff`: A search from the end takes the last.
* `foldl_overwrite`: So does a loop that writes over what it had.
* `reverse_find?_perm`: The last is the same in any order if only one fits.
-/

namespace Occurrence

variable {α β : Type} {p : α → Prop} {xs ys : List α} {x : α}

/-- The first item that fits. -/
def IsFirst (p : α → Prop) (xs : List α) (x : α) : Prop :=
  ∃ before behind, xs = before ++ x :: behind ∧ p x ∧ ∀ y ∈ before, ¬ p y

/-- The last item that fits. -/
def IsLast (p : α → Prop) (xs : List α) (x : α) : Prop :=
  ∃ before behind, xs = before ++ x :: behind ∧ p x ∧ ∀ y ∈ behind, ¬ p y

/-- Seen from the end, the last item is the first. -/
theorem isFirst_reverse : IsFirst p xs.reverse x ↔ IsLast p xs x := by
  constructor
  · rintro ⟨before, behind, hsplit, hx, hbefore⟩
    refine ⟨behind.reverse, before.reverse, ?_, hx, fun y hy => ?_⟩
    · rw [← List.reverse_reverse xs, hsplit, List.reverse_append, List.reverse_cons,
        List.append_assoc, List.singleton_append]
    · exact hbefore y (List.mem_reverse.mp hy)
  · rintro ⟨before, behind, hsplit, hx, hbehind⟩
    refine ⟨behind.reverse, before.reverse, ?_, hx, fun y hy => ?_⟩
    · rw [hsplit, List.reverse_append, List.reverse_cons, List.append_assoc,
        List.singleton_append]
    · exact hbehind y (List.mem_reverse.mp hy)

variable [DecidablePred p]

/-- A search that stops takes the first item that fits. -/
theorem find?_eq_some_iff : xs.find? (fun y => p y) = some x ↔ IsFirst p xs x := by
  rw [List.find?_eq_some_iff_append, decide_eq_true_eq]
  constructor
  · rintro ⟨hx, before, behind, hsplit, hbefore⟩
    exact ⟨before, behind, hsplit, hx, fun y hy => by simpa using hbefore y hy⟩
  · rintro ⟨before, behind, hsplit, hx, hbefore⟩
    exact ⟨hx, before, behind, hsplit, fun y hy => by simpa using hbefore y hy⟩

/-- A search from the end takes the last one. -/
theorem reverse_find?_eq_some_iff :
    xs.reverse.find? (fun y => p y) = some x ↔ IsLast p xs x :=
  find?_eq_some_iff.trans isFirst_reverse

/-- So does a loop that writes over what it had. -/
theorem foldl_overwrite (value : α → β) (xs : List α) (b : β) :
    xs.foldl (fun b y => if p y then value y else b) b =
      ((xs.reverse.find? fun y => p y).map value).getD b := by
  induction xs using List.reverseRecOn with
  | nil => rfl
  | append_singleton xs y ih =>
      rw [List.foldl_concat, ih, List.reverse_append, List.reverse_singleton,
        List.singleton_append, List.find?_cons]
      by_cases hy : p y
      · simp only [hy, decide_true, if_true, Option.map_some, Option.getD_some]
      · simp only [hy, decide_false, if_false]

/-- The last item is the same in any order if only one fits. -/
theorem reverse_find?_perm (hperm : ys.Perm xs) (honce : xs.countP (fun y => p y) ≤ 1) :
    ys.reverse.find? (fun y => p y) = xs.reverse.find? (fun y => p y) := by
  rw [List.countP_eq_length_filter] at honce
  have hfilter := hperm.filter (fun y => p y)
  rw [← List.getLast?_filter, ← List.getLast?_filter]
  -- What is left of the list has at most one item, so there is no order in it.
  cases hxs : xs.filter (fun y => p y) with
  | nil =>
      rw [hxs] at hfilter
      rw [hfilter.eq_nil]
  | cons x rest =>
      rw [hxs] at hfilter honce
      have hrest : rest = [] := List.eq_nil_of_length_eq_zero (by
        rw [List.length_cons] at honce
        omega)
      rw [hrest] at hfilter ⊢
      rw [List.perm_singleton.mp hfilter]

end Occurrence
