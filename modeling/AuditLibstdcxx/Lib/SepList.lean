import AuditLibstdcxx.Lib.Checked

/-!
# Lists Written as Text

A language without lists of its own writes them as text, the elements one after
the other with a separator between them. Reading such a text back gives the
list that was written, as long as no element has a separator in it, with one
exception: the empty text is read as the empty list, and a list whose only
element is empty is written as the empty text. So an element that is empty is
kept in the company of others and is lost when it is the last one left.

The operations read the text, work on the elements and write the result. The
rules below say what an operation on a written list is in terms of the list, so
that a program of such operations is followed on lists, with `kept` standing at
the places where an element can be lost.

## Main definitions

* `encode`, `elems`: A list written as text, and read back.
* `kept`: What is left of a list that is written and read back.
* `append`, `appendAll`, `expand`, `find`, `removeAt`, `removeItem`: The
  operations.

## Theorems

* `elems_encode`: Reading back what was written.
* `append_encode`, `removeAt_encode`, `removeItem_encode`: The operations on a
  list that was written.
* `eraseIdx_eq_filter`: Removing the only occurrence of an element.
-/

namespace SepList

section Writing

variable {α : Type}

/-- A list written as text. -/
def encode (sep : α) (xs : List (List α)) : List α :=
  [sep].intercalate xs

variable {sep : α} {xs : List (List α)}

@[simp] theorem encode_nil : encode sep [] = [] := rfl

@[simp] theorem encode_singleton (x : List α) : encode sep [x] = x := by
  simp [encode]

/-- Two lists are written one after the other, with a separator between them. -/
theorem encode_append {ys : List (List α)} (hxs : xs ≠ []) (hys : ys ≠ []) :
    encode sep (xs ++ ys) = encode sep xs ++ sep :: encode sep ys := by
  induction xs with
  | nil => exact absurd rfl hxs
  | cons x xs ih =>
      cases xs with
      | nil => simp [encode, List.intercalate_cons_of_ne_nil hys]
      | cons z zs =>
          have htail := ih (List.cons_ne_nil z zs)
          simp only [encode, List.cons_append, List.intercalate_cons_cons] at htail ⊢
          rw [htail]
          simp

end Writing

variable {α : Type} [DecidableEq α] (sep : α)

/-- The elements of a text. The empty text has none. -/
def elems (s : List α) : List (List α) :=
  if s = [] then [] else s.splitOn sep

/-- Appending an element. In front of the first one there is no separator. -/
def append (s x : List α) : List α :=
  if s = [] then x else s ++ sep :: x

/-- Appending the elements of a list. -/
def appendAll (s : List α) (xs : List (List α)) : List α :=
  if xs = [] then s else append sep s (encode sep xs)

/-- The elements of a text that are not empty. -/
def expand (s : List α) : List (List α) :=
  (elems sep s).filter (· ≠ [])

/-- Where an element is first found. -/
def find (s x : List α) : Option Nat :=
  (elems sep s).idxOf? x

/-- Removing the element at a place. -/
def removeAt (s : List α) (i : Nat) : List α :=
  encode sep ((elems sep s).eraseIdx i)

/-- Removing an element wherever it occurs. -/
def removeItem (s x : List α) : List α :=
  encode sep ((elems sep s).filter (· ≠ x))

/-- What is left of a list that is written and read back. -/
def kept (xs : List (List α)) : List (List α) :=
  if xs = [[]] then [] else xs

theorem kept_of_ne {xs : List (List α)} (h : xs ≠ [[]]) : kept xs = xs :=
  if_neg h

@[simp] theorem kept_lost : kept [([] : List α)] = [] :=
  if_pos rfl

/-- An element that does not occur is removed without a change. -/
theorem filter_ne_of_notMem {β : Type} [DecidableEq β] {ys : List β} {y : β} (h : y ∉ ys) :
    ys.filter (· ≠ y) = ys :=
  List.filter_eq_self.mpr fun _ hx => decide_eq_true fun hxy => h (hxy ▸ hx)

/-- Without empty elements nothing is lost. -/
theorem kept_of_notMem {xs : List (List α)} (h : [] ∉ xs) : kept xs = xs := by
  refine kept_of_ne fun hlost => h ?_
  rw [hlost]
  exact List.mem_singleton_self []

theorem mem_of_mem_kept {xs : List (List α)} {x : List α} (h : x ∈ kept xs) : x ∈ xs := by
  by_cases hlost : xs = [[]]
  · simp [hlost] at h
  · rwa [kept_of_ne hlost] at h

variable {sep} {xs : List (List α)}

/-- The empty text is that of the empty list, and of the empty element alone. -/
theorem encode_eq_nil_iff : encode sep xs = [] ↔ kept xs = [] := by
  cases xs with
  | nil => simp [kept]
  | cons y ys =>
      cases ys with
      | nil =>
          by_cases hy : y = []
          · simp [hy]
          · simp [kept, hy]
      | cons z zs => simp [encode, kept, List.intercalate_cons_cons]

/-- Reading back what was written. -/
theorem elems_encode (h : ∀ x ∈ xs, sep ∉ x) : elems sep (encode sep xs) = kept xs := by
  unfold elems
  by_cases hempty : encode sep xs = []
  · rw [if_pos hempty, encode_eq_nil_iff.mp hempty]
  · have hkept : kept xs = xs := by
      refine kept_of_ne fun hlost => hempty ?_
      rw [encode_eq_nil_iff, hlost, kept_lost]
    have hne : xs ≠ [] := by
      intro hnil
      rw [hnil] at hempty
      exact hempty encode_nil
    rw [if_neg hempty, hkept]
    exact List.splitOn_intercalate sep h hne

/-- Appending to a list that was written. -/
theorem append_encode (x : List α) :
    append sep (encode sep xs) x = encode sep (kept xs ++ [x]) := by
  unfold append
  by_cases hempty : encode sep xs = []
  · rw [if_pos hempty, encode_eq_nil_iff.mp hempty, List.nil_append, encode_singleton]
  · have hkept : kept xs ≠ [] := fun hc => hempty (encode_eq_nil_iff.mpr hc)
    have hsame : kept xs = xs := by
      refine kept_of_ne fun hlost => hkept ?_
      rw [hlost, kept_lost]
    rw [hsame] at hkept
    rw [if_neg hempty, hsame, encode_append hkept (List.cons_ne_nil x []), encode_singleton]

/-- A list without empty elements is continued by appending to its text. -/
theorem appendAll_encode (h : [] ∉ xs) (ys : List (List α)) :
    appendAll sep (encode sep xs) ys = encode sep (xs ++ ys) := by
  unfold appendAll append
  by_cases hys : ys = []
  · rw [if_pos hys, hys, List.append_nil]
  · rw [if_neg hys]
    by_cases hempty : encode sep xs = []
    · have hxs : xs = [] := by rw [← kept_of_notMem h, encode_eq_nil_iff.mp hempty]
      rw [if_pos hempty, hxs, List.nil_append]
    · have hxs : xs ≠ [] := by
        intro hnil
        rw [hnil] at hempty
        exact hempty encode_nil
      rw [if_neg hempty, encode_append hxs hys]

/-- Such a list is read back as it is. -/
theorem expand_encode (hsep : ∀ x ∈ xs, sep ∉ x) (h : [] ∉ xs) :
    expand sep (encode sep xs) = xs := by
  rw [expand, elems_encode hsep, kept_of_notMem h]
  exact filter_ne_of_notMem h

/-- What an element was appended to can be read off the result. -/
theorem append_left_inj {s t x : List α} : append sep s x = append sep t x ↔ s = t := by
  refine ⟨fun h => ?_, fun h => by rw [h]⟩
  have hlen := congrArg List.length h
  unfold append at h hlen
  by_cases hs : s = []
  · by_cases ht : t = []
    · rw [hs, ht]
    · simp only [hs, if_true, if_neg ht, List.length_append, List.length_cons] at hlen
      omega
  · by_cases ht : t = []
    · simp only [ht, if_true, if_neg hs, List.length_append, List.length_cons] at hlen
      omega
    · rw [if_neg hs, if_neg ht] at h
      exact List.append_cancel_right h

theorem find_encode (h : ∀ x ∈ xs, sep ∉ x) (x : List α) :
    find sep (encode sep xs) x = (kept xs).idxOf? x := by
  rw [find, elems_encode h]

theorem removeAt_encode (h : ∀ x ∈ xs, sep ∉ x) (i : Nat) :
    removeAt sep (encode sep xs) i = encode sep ((kept xs).eraseIdx i) := by
  rw [removeAt, elems_encode h]

theorem removeItem_encode (h : ∀ x ∈ xs, sep ∉ x) (x : List α) :
    removeItem sep (encode sep xs) x = encode sep ((kept xs).filter (· ≠ x)) := by
  rw [removeItem, elems_encode h]

/-- Removing the only occurrence of an element removes it wherever it occurs. -/
theorem eraseIdx_eq_filter {β : Type} [BEq β] [LawfulBEq β] [DecidableEq β] {ys : List β} {y : β}
    {i : Nat} (hfind : ys.idxOf? y = some i) (hcount : ys.count y ≤ 1) :
    ys.eraseIdx i = ys.filter (· ≠ y) := by
  induction ys generalizing i with
  | nil => cases hfind
  | cons z zs ih =>
      rw [List.idxOf?_cons] at hfind
      by_cases hz : z = y
      · -- This is the occurrence, and there is none behind it.
        have hnot : y ∉ zs := by
          rw [hz, List.count_cons_self] at hcount
          exact List.count_eq_zero.mp (by omega)
        have hi : i = 0 := by simpa [hz, eq_comm] using hfind
        rw [hi, List.eraseIdx_cons_zero, List.filter_cons_of_neg (by simp [hz]),
          filter_ne_of_notMem hnot]
      · have hcount' : zs.count y ≤ 1 := by rwa [List.count_cons_of_ne hz] at hcount
        rcases Option.map_eq_some_iff.mp (by simpa [hz] using hfind) with ⟨j, hj, rfl⟩
        rw [List.eraseIdx_cons_succ, List.filter_cons_of_pos (by simp [hz]), ih hj hcount']

end SepList
