import AuditLibstdcxx.Lib.Checked

/-!
# Ledgers of Resources

What a program holds, followed through the calls that acquire and release
resources. A call that releases a resource has to name one that is held, and
nothing is released twice: a resource that was released is gone.

A ledger that balances is composed of ledgers that do. The rules below follow
the parts of a program: what the first part leaves held is what the second
part starts from.

## Main definitions

* `Entry`: A resource acquired or released.
* `settle`: What is held after a list of entries.
* `AtMost`: Never more than so many resources are held.

## Theorems

* `settle_append`: A ledger in two parts.
* `settle_release`: Releasing something that is held.
* `AtMost.concat`: A bound on what is held, one entry further.
-/

namespace Ledger

variable {α : Type}

/-- A resource acquired or released. -/
inductive Entry (α : Type) where
  | acquire (a : α)
  | release (a : α)
  deriving DecidableEq, Repr

variable [DecidableEq α]

/-- What is held after a list of entries, if each of them releases something
    that is held. -/
def settle : List α → List (Entry α) → Option (List α)
  | held, [] => some held
  | held, .acquire a :: entries => settle (a :: held) entries
  | held, .release a :: entries => if a ∈ held then settle (held.erase a) entries else none

@[simp] theorem settle_nil (held : List α) : settle held [] = some held := rfl

@[simp] theorem settle_acquire (held : List α) (a : α) (entries : List (Entry α)) :
    settle held (.acquire a :: entries) = settle (a :: held) entries := rfl

/-- Releasing something that is held. -/
theorem settle_release {held : List α} {a : α} (h : a ∈ held) (entries : List (Entry α)) :
    settle held (.release a :: entries) = settle (held.erase a) entries := by
  rw [settle, if_pos h]

/-- Releasing what was acquired last. -/
@[simp] theorem settle_release_head (held : List α) (a : α) (entries : List (Entry α)) :
    settle (a :: held) (.release a :: entries) = settle held entries := by
  rw [settle_release List.mem_cons_self, List.erase_cons_head]

/-- Releasing something that is not held. -/
theorem settle_release_foreign {held : List α} {a : α} (h : a ∉ held)
    (entries : List (Entry α)) : settle held (.release a :: entries) = none := by
  rw [settle, if_neg h]

/-- A ledger in two parts. -/
theorem settle_append (before behind : List (Entry α)) (held : List α) :
    settle held (before ++ behind) = (settle held before).bind fun l => settle l behind := by
  induction before generalizing held with
  | nil => rfl
  | cons entry before ih =>
      cases entry with
      | acquire a => exact ih (a :: held)
      | release a =>
          rw [List.cons_append]
          -- A release that fails fails in both, whatever is behind it.
          by_cases h : a ∈ held
          · rw [settle_release h, settle_release h, ih]
          · rw [settle_release_foreign h, settle_release_foreign h]
            rfl

theorem settle_append_of_some {before : List (Entry α)} {held l : List α}
    (h : settle held before = some l) (behind : List (Entry α)) :
    settle held (before ++ behind) = settle l behind := by
  rw [settle_append, h, Option.bind_some]

/-- At no time more than so many resources are held. -/
def AtMost (n : Nat) (held : List α) (entries : List (Entry α)) : Prop :=
  ∀ before, before <+: entries → ∃ l, settle held before = some l ∧ l.length ≤ n

theorem atMost_nil {n : Nat} {held : List α} (h : held.length ≤ n) : AtMost n held [] := by
  intro before hbefore
  rw [List.prefix_nil.mp hbefore]
  exact ⟨held, rfl, h⟩

/-- One more entry, after which no more are held than may be. -/
theorem AtMost.concat {n : Nat} {held l : List α} {entries : List (Entry α)} {entry : Entry α}
    (h : AtMost n held entries) (hl : settle held (entries ++ [entry]) = some l)
    (hlen : l.length ≤ n) : AtMost n held (entries ++ [entry]) := by
  intro before hbefore
  -- A part of the ledger is all of it, or stops before the new entry.
  rcases List.prefix_concat_iff.mp hbefore with rfl | hbefore
  · exact ⟨l, hl, hlen⟩
  · exact h before hbefore

end Ledger
