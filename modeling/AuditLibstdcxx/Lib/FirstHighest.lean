import AuditLibstdcxx.Lib.Checked

/-!
# The First of the Highest

A search for the item of a list with the highest value, where values of zero do
not count and the first item wins a tie. A loop that keeps the highest value so
far and replaces it by one that is greater finds that item, and `Scanned` is
what such a loop knows on the way.

## Main definitions

* `IsFirstHighest`: The first item with the highest value of a list.
* `Scanned`: What is known once a part of a list has been gone through.

## Theorems

* `Scanned.higher`, `Scanned.lower`: One item more.
* `Scanned.found`: What is known at the end.
-/

namespace FirstHighest

variable {β : Type} {value : β → Nat} {xs : List β} {x y : β} {highest : Nat} {best : Option β}

/-- The first item with the highest value, which is not zero. -/
def IsFirstHighest (value : β → Nat) (xs : List β) (x : β) : Prop :=
  ∃ before behind, xs = before ++ x :: behind ∧ 0 < value x ∧
    (∀ y ∈ before, value y < value x) ∧ ∀ y ∈ behind, value y ≤ value x

/-- What is known once a part of a list has been gone through: the highest
    value, and the first item that has it unless all values are zero. -/
def Scanned (value : β → Nat) (xs : List β) (highest : Nat) : Option β → Prop
  | none => highest = 0 ∧ ∀ y ∈ xs, value y = 0
  | some x => highest = value x ∧ IsFirstHighest value xs x

theorem scanned_nil : Scanned value [] 0 none :=
  ⟨rfl, fun _ hy => absurd hy List.not_mem_nil⟩

/-- No value is greater than the highest. -/
theorem Scanned.le (h : Scanned value xs highest best) (hy : y ∈ xs) : value y ≤ highest := by
  cases best with
  | none => exact (h.2 y hy).le.trans (Nat.zero_le highest)
  | some x =>
      rcases h with ⟨rfl, before, behind, rfl, _, hbefore, hbehind⟩
      rcases List.mem_append.mp hy with hy | hy
      · exact (hbefore y hy).le
      · rcases List.mem_cons.mp hy with rfl | hy
        · exact le_rfl
        · exact hbehind y hy

/-- An item that is higher takes the place of the best one. -/
theorem Scanned.higher (h : Scanned value xs highest best) (hy : highest < value y) :
    Scanned value (xs ++ [y]) (value y) (some y) := by
  -- Everything so far is before the new item, and nothing behind it.
  refine ⟨rfl, xs, [], rfl, by omega, fun z hz => ?_, fun z hz => absurd hz List.not_mem_nil⟩
  have hle := h.le hz
  omega

/-- An item that is not leaves it where it is. -/
theorem Scanned.lower (h : Scanned value xs highest best) (hy : value y ≤ highest) :
    Scanned value (xs ++ [y]) highest best := by
  cases best with
  | none =>
      refine ⟨h.1, fun z hz => ?_⟩
      rcases List.mem_append.mp hz with hz | hz
      · exact h.2 z hz
      · rw [List.mem_singleton.mp hz]
        have hzero := h.1
        omega
  | some x =>
      -- The new item goes behind the best one, which it does not exceed.
      rcases h with ⟨rfl, before, behind, rfl, hpos, hbefore, hbehind⟩
      refine ⟨rfl, before, behind ++ [y], by simp, hpos, hbefore, fun z hz => ?_⟩
      rcases List.mem_append.mp hz with hz | hz
      · exact hbehind z hz
      · rw [List.mem_singleton.mp hz]
        exact hy

/-- The best item is the first of the highest. -/
theorem Scanned.found (h : Scanned value xs highest (some x)) : IsFirstHighest value xs x :=
  h.2

end FirstHighest
