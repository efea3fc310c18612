import AuditLibstdcxx.Lib.Loop

/-!
# Loops that Come Round

When a loop that nothing counts comes to an end.

A loop driven by a position goes on for as long as the position lets it. When
the positions it can go on from are drawn from a finite stock, it can only go
on for longer than the stock lasts by taking one of them a second time, and
from then on it repeats itself: what lies between the two visits is all it will
ever see. So such a loop either ends within as many passes as there are
positions, or it never does, and which of the two it is can be told from one
run of positions that leads back to where it began.

The stock is given by a numbering: `slot` tells the positions of the loop
apart and stays below `stock` wherever the loop goes on.

## Main definitions

* `ComesRound`: The loop goes on until it is back at a position it was at.

## Theorems

* `ComesRound.always`: A loop that comes round goes on for ever.
* `comesRound_of_stock`: One that outlives its stock of positions comes round.
* `whileLoop_outOfFuel_iff`: When a loop is cut short.
* `whileLoop_endless`: A loop that comes round is cut short by any fuel.
* `whileLoop_halts`: One that does not is done within its stock.
-/

namespace Checked

section Positions

variable {ρ : Type} (next : ρ → ρ) (C : ρ → Prop)

/-- From `p` on, the loop goes on until it is back at a position it was at. -/
def ComesRound (p : ρ) : Prop :=
  ∃ j n, 0 < n ∧ (∀ l < j + n, C (next^[l] p)) ∧ next^[j + n] p = next^[j] p

variable {next C} {p : ρ}

/-- Going on from a position is all that decides what follows. -/
theorem iterate_shift {j n : Nat} (h : next^[j + n] p = next^[j] p) (l : Nat) :
    next^[l + (j + n)] p = next^[l + j] p := by
  rw [Function.iterate_add_apply, h, ← Function.iterate_add_apply]

/-- A loop that comes round goes on for ever. -/
theorem ComesRound.always (h : ComesRound next C p) (l : Nat) : C (next^[l] p) := by
  rcases h with ⟨j, n, hn, hgoes, hround⟩
  induction l using Nat.strong_induction_on with
  | _ l ih =>
      by_cases hl : l < j + n
      · exact hgoes l hl
      · -- Past the first round, the position is the one of a round before.
        have hback := iterate_shift hround (l - (j + n))
        rw [show l - (j + n) + (j + n) = l by omega] at hback
        rw [hback]
        exact ih _ (by omega)

variable (slot : ρ → Nat) (stock : Nat)

/-- A loop that goes on for more passes than there are positions comes round. -/
theorem comesRound_of_stock (hslot : ∀ q, C q → slot q < stock)
    (hapart : ∀ j k, slot (next^[j] p) = slot (next^[k] p) → next^[j] p = next^[k] p)
    (hgoes : ∀ l ≤ stock, C (next^[l] p)) : ComesRound next C p := by
  -- There are more passes than slots, so two of them share one.
  have hmaps : Set.MapsTo (fun l => slot (next^[l] p)) (Finset.range (stock + 1))
      (Finset.range stock) := by
    intro l hl
    simp only [Finset.coe_range, Set.mem_Iio] at hl ⊢
    exact hslot _ (hgoes l (by omega))
  have hcard : (Finset.range stock).card < (Finset.range (stock + 1)).card := by
    simp only [Finset.card_range]
    exact Nat.lt_succ_self stock
  rcases Finset.exists_ne_map_eq_of_card_lt_of_maps_to hcard hmaps with ⟨j, hj, k, hk, hne, heq⟩
  simp only [Finset.mem_range] at hj hk
  have hsame := hapart j k heq
  -- The earlier of the two is where the round begins.
  rcases Nat.lt_or_gt_of_ne hne with hlt | hgt
  · refine ⟨j, k - j, by omega, fun l hl => hgoes l (by omega), ?_⟩
    rw [show j + (k - j) = k by omega, hsame]
  · refine ⟨k, j - k, by omega, fun l hl => hgoes l (by omega), ?_⟩
    rw [show k + (j - k) = j by omega, hsame]

end Positions

section Fuel

variable {σ β ρ : Type} (step : σ → Run (σ ⊕ β)) (pos : σ → ρ) (next : ρ → ρ) (C : ρ → Prop)
  (hnext : ∀ s s', step s = .ok (.inl s') → pos s' = next (pos s))
  (hcont : ∀ s, (∃ s', step s = .ok (.inl s')) ↔ C (pos s))
  (hfuel : ∀ s, step s ≠ .error .outOfFuel)

include hnext hcont hfuel

/-- A loop is cut short exactly when every pass it was granted led to another. -/
theorem whileLoop_outOfFuel_iff : ∀ (n : Nat) (s : σ),
    whileLoop step n s = .error .outOfFuel ↔ ∀ l < n, C (next^[l] (pos s)) := by
  intro n
  induction n with
  | zero =>
      intro s
      exact ⟨fun _ l hl => absurd hl (Nat.not_lt_zero l), fun _ => rfl⟩
  | succ n ih =>
      intro s
      constructor
      · intro h l hl
        rcases (bind_eq_error _ _ _).mp h with hstop | ⟨r, hr, hrest⟩
        · exact absurd hstop (hfuel s)
        · cases r with
          | inr b => cases hrest
          | inl t =>
              cases l with
              | zero => exact (hcont s).mp ⟨t, hr⟩
              | succ l =>
                  -- A later pass of the loop is a pass of the rest.
                  have hl' := (ih t).mp hrest l (by omega)
                  rwa [hnext s t hr] at hl'
      · intro h
        rcases (hcont s).mpr (h 0 (Nat.succ_pos n)) with ⟨t, ht⟩
        refine (bind_eq_error _ _ _).mpr (Or.inr ⟨_, ht, (ih t).mpr fun l hl => ?_⟩)
        rw [hnext s t ht]
        exact h (l + 1) (by omega)

/-- A loop that comes round is cut short, whatever it is granted. -/
theorem whileLoop_endless {s : σ} (h : ComesRound next C (pos s)) (n : Nat) :
    whileLoop step n s = .error .outOfFuel :=
  (whileLoop_outOfFuel_iff step pos next C hnext hcont hfuel n s).mpr fun l _ => h.always l

/-- One that does not is done when every position had its pass. -/
theorem whileLoop_halts (slot : ρ → Nat) (stock : Nat) {s : σ}
    (hslot : ∀ q, C q → slot q < stock)
    (hapart : ∀ j k, slot (next^[j] (pos s)) = slot (next^[k] (pos s)) →
      next^[j] (pos s) = next^[k] (pos s))
    (hround : ¬ ComesRound next C (pos s)) {n : Nat} (hn : stock < n) :
    whileLoop step n s ≠ .error .outOfFuel := by
  intro hcut
  have hgoes := (whileLoop_outOfFuel_iff step pos next C hnext hcont hfuel n s).mp hcut
  exact hround (comesRound_of_stock slot stock hslot hapart fun l hl => hgoes l (by omega))

end Fuel

end Checked
