import Mathlib.Data.List.Basic

/-!
# Records of Fixed-Size Members

A record of a binary format is a sequence of members of known sizes, stored one
after the other. A reader that takes them off a stream in turn, as much as each
needs, does not know where a member is; a reader that knows the whole layout
goes straight there. The two find the same values, and the first fails exactly
when the data is shorter than the record.

The items of the data, the names of the members and what a run of items stands
for are parameters.

## Main definitions

* `Layout`: The members of a record, in order, with their sizes.
* `size`, `offset`, `width`: The length of a record, and where a member is.
* `parse`: Reading the members in turn.

## Theorems

* `parse_eq_none_iff`: Reading fails on data that is too short.
* `lookup_parse`: A member is what is stored at its offset.
* `offset_add_width_le`: A member is inside the record.
-/

namespace Record

variable {κ β ν : Type}

/-- The members of a record, in order, with their sizes. -/
abbrev Layout (κ : Type) : Type := List (κ × Nat)

/-- The length of a record. -/
def size : Layout κ → Nat
  | [] => 0
  | (_, n) :: rest => n + size rest

/-- Reading the members in turn, unless the data ends before the last one does. -/
def parse (decode : List β → ν) : Layout κ → List β → Option (List (κ × ν))
  | [], _ => some []
  | (k, n) :: rest, data =>
    if data.length < n then none
    else (parse decode rest (data.drop n)).map fun members => (k, decode (data.take n)) :: members

section Lookup

variable [DecidableEq κ]

/-- Where a member is. -/
def offset : Layout κ → κ → Nat
  | [], _ => 0
  | (k', n) :: rest, k => if k = k' then 0 else n + offset rest k

/-- The size of a member. -/
def width : Layout κ → κ → Nat
  | [], _ => 0
  | (k', n) :: rest, k => if k = k' then n else width rest k

end Lookup

@[simp] theorem size_nil : size ([] : Layout κ) = 0 := rfl

@[simp] theorem size_cons (k : κ) (n : Nat) (rest : Layout κ) :
    size ((k, n) :: rest) = n + size rest := rfl

/-- Reading fails on data that is too short, and only there. -/
theorem parse_eq_none_iff (decode : List β → ν) (l : Layout κ) (data : List β) :
    parse decode l data = none ↔ data.length < size l := by
  induction l generalizing data with
  | nil => simp [parse]
  | cons member rest ih =>
      rcases member with ⟨k, n⟩
      rw [size_cons, parse]
      by_cases hshort : data.length < n
      · rw [if_pos hshort]
        exact iff_of_true rfl (by omega)
      · rw [if_neg hshort, Option.map_eq_none_iff, ih, List.length_drop]
        omega

/-- A record that is there is read. -/
theorem exists_parse (decode : List β → ν) {l : Layout κ} {data : List β}
    (h : size l ≤ data.length) : ∃ members, parse decode l data = some members := by
  rw [← Option.isSome_iff_exists, Option.isSome_iff_ne_none, ne_eq, parse_eq_none_iff]
  omega

/-- A member is what is stored at its offset. -/
theorem lookup_parse [DecidableEq κ] {decode : List β → ν} {l : Layout κ} {data : List β}
    {members : List (κ × ν)} (h : parse decode l data = some members) {k : κ}
    (hk : k ∈ l.map Prod.fst) :
    members.lookup k = some (decode ((data.drop (offset l k)).take (width l k))) := by
  induction l generalizing data members with
  | nil => exact absurd hk List.not_mem_nil
  | cons member rest ih =>
      rcases member with ⟨k', n⟩
      rw [parse] at h
      by_cases hshort : data.length < n
      · rw [if_pos hshort] at h
        cases h
      · rw [if_neg hshort, Option.map_eq_some_iff] at h
        rcases h with ⟨members', hrest, rfl⟩
        unfold offset width
        by_cases heq : k = k'
        · rw [if_pos heq, if_pos heq, List.drop_zero, heq, List.lookup_cons_self]
        · rw [if_neg heq, if_neg heq, List.lookup_cons, beq_false_of_ne heq]
          -- The member is in the rest of the record, behind the first one.
          have hmem : k ∈ rest.map Prod.fst :=
            (List.mem_cons.mp hk).resolve_left heq
          simp only
          rw [ih hrest hmem, List.drop_drop]

/-- A member is inside the record. -/
theorem offset_add_width_le [DecidableEq κ] {l : Layout κ} {k : κ} (hk : k ∈ l.map Prod.fst) :
    offset l k + width l k ≤ size l := by
  induction l with
  | nil => exact absurd hk List.not_mem_nil
  | cons member rest ih =>
      rcases member with ⟨k', n⟩
      unfold offset width
      rw [size_cons]
      by_cases heq : k = k'
      · rw [if_pos heq, if_pos heq]
        omega
      · have hrest := ih ((List.mem_cons.mp hk).resolve_left heq)
        rw [if_neg heq, if_neg heq]
        omega

end Record
