import Mathlib.Data.List.DropRight
import Mathlib.Data.UInt
import Mathlib.Data.Prod.Lex
import Mathlib.Logic.Function.Iterate
import Mathlib.Order.Bounds.Basic

/-!
# Checked Computations

Computations that may be stopped from outside: by an assertion that fails, by
a read outside the memory they are given, or by a loop that is not granted
enough iterations. The three causes are kept apart because the questions
asked of a program keep them apart: a memory safety argument lets assertions
fire but no read escape, a robustness argument forbids both.

A loop whose length the program does not bound is given a fuel, so what the
program computes is not one `Run` but a family of them. `Settled` says that
more fuel never changes an answer, which makes the family behave like a
single computation: `Yields` is its value, `AlwaysAvoids` says that some
cause never stops it, and each has one rule for sequencing. A property of a
long computation is then taken apart in the order its steps run.

## Main definitions

* `Stop`: Why a computation ended without a value.
* `Run`: A computation that yields a value or stops.
* `require`: Stop unless a condition holds.
* `Settled`: A family that more fuel does not change once it has answered.
* `Yields`: The value of a family, for some amount of fuel.
* `AlwaysAvoids`: No amount of fuel makes a cause stop the family.

## Theorems

* `bind_eq_ok`: A sequence yields a value through an intermediate one.
* `bind_eq_error`: A sequence stops in its first or in its second part.
* `require_eq_ok`: A requirement passes exactly when its condition holds.
* `require_bind_eq_ok`: A requirement in front of more work.
* `require_bind_ne_outOfRange`: A requirement guards the reads behind it.
* `require_bind_eq_outOfFuel`: It uses no fuel of its own.
* `Settled.bind`: Sequencing settled families gives a settled family.
* `Settled.yields_unique`: A settled family has at most one value.
* `yields_bind`: The value of a sequence of families.
* `alwaysAvoids_bind`: Avoiding a cause, taken apart at a sequence.
-/

namespace Checked

/-- Why a computation ended without a value. -/
inductive Stop where
  | assert
  | outOfRange
  | outOfFuel
  deriving DecidableEq, Repr

/-- A computation that yields a value or stops. -/
abbrev Run (α : Type) : Type := Except Stop α

/-- Stop unless the condition holds. -/
def require (c : Prop) [Decidable c] : Run Unit :=
  if c then .ok () else .error .assert

section Sequencing

variable {ε α β : Type}

theorem ok_bind (a : α) (f : α → Except ε β) : (Except.ok a : Except ε α) >>= f = f a :=
  rfl

theorem error_bind (e : ε) (f : α → Except ε β) :
    (Except.error e : Except ε α) >>= f = .error e :=
  rfl

theorem bind_eq_ok (x : Except ε α) (f : α → Except ε β) (b : β) :
    x >>= f = .ok b ↔ ∃ a, x = .ok a ∧ f a = .ok b := by
  cases x with
  | error e =>
      constructor
      · intro h
        cases h
      · rintro ⟨_, h, _⟩
        cases h
  | ok a =>
      constructor
      · intro h
        exact ⟨a, rfl, h⟩
      · rintro ⟨a', ha, hb⟩
        cases ha
        exact hb

theorem bind_eq_error (x : Except ε α) (f : α → Except ε β) (e : ε) :
    x >>= f = .error e ↔ x = .error e ∨ ∃ a, x = .ok a ∧ f a = .error e := by
  cases x with
  | error e' =>
      constructor
      · intro h
        cases h
        exact Or.inl rfl
      · rintro (h | ⟨a, ha, _⟩)
        · cases h
          rfl
        · cases ha
  | ok a =>
      constructor
      · intro h
        exact Or.inr ⟨a, rfl, h⟩
      · rintro (h | ⟨a', ha, h⟩)
        · cases h
        · cases ha
          exact h

theorem ok_ne_error (a : α) (e : Stop) : (Except.ok a : Run α) ≠ .error e := by
  intro h
  cases h

theorem error_ne_ok (e : Stop) (a : α) : (Except.error e : Run α) ≠ .ok a := by
  intro h
  cases h

theorem error_ne_error {e e' : Stop} (h : e ≠ e') : (Except.error e : Run α) ≠ .error e' := by
  intro hc
  exact h (Except.error.inj hc)

theorem pure_ne_error (a : α) (e : Stop) : (pure a : Run α) ≠ .error e := by
  intro h
  cases h

theorem require_eq_ok (c : Prop) [Decidable c] (u : Unit) : require c = .ok u ↔ c := by
  unfold require
  by_cases hc : c
  · rw [if_pos hc]
    exact ⟨fun _ => hc, fun _ => rfl⟩
  · rw [if_neg hc]
    exact iff_of_false (error_ne_ok _ _) hc

theorem require_eq_assert (c : Prop) [Decidable c] : require c = .error .assert ↔ ¬ c := by
  unfold require
  by_cases hc : c
  · rw [if_pos hc]
    exact iff_of_false (ok_ne_error _ _) (fun h => h hc)
  · rw [if_neg hc]
    exact ⟨fun _ => hc, fun _ => rfl⟩

theorem require_ne_outOfRange (c : Prop) [Decidable c] : require c ≠ .error .outOfRange := by
  unfold require
  by_cases hc : c
  · rw [if_pos hc]
    exact ok_ne_error _ _
  · rw [if_neg hc]
    exact error_ne_error (by decide)

theorem require_ne_outOfFuel (c : Prop) [Decidable c] : require c ≠ .error .outOfFuel := by
  unfold require
  by_cases hc : c
  · rw [if_pos hc]
    exact ok_ne_error _ _
  · rw [if_neg hc]
    exact error_ne_error (by decide)

/-- A requirement in front of more work. -/
theorem require_bind_eq_ok (c : Prop) [Decidable c] (k : Unit → Run β) (b : β) :
    require c >>= k = .ok b ↔ c ∧ k () = .ok b := by
  rw [bind_eq_ok]
  constructor
  · rintro ⟨u, hu, hk⟩
    exact ⟨(require_eq_ok c u).mp hu, hk⟩
  · rintro ⟨hc, hk⟩
    exact ⟨(), (require_eq_ok c ()).mpr hc, hk⟩

/-- A requirement guards the reads of the work behind it. -/
theorem require_bind_ne_outOfRange (c : Prop) [Decidable c] (k : Unit → Run β) :
    require c >>= k ≠ .error .outOfRange ↔ (c → k () ≠ .error .outOfRange) := by
  rw [ne_eq, bind_eq_error, not_or]
  constructor
  · rintro ⟨_, h⟩ hc hk
    exact h ⟨(), (require_eq_ok c ()).mpr hc, hk⟩
  · intro h
    refine ⟨require_ne_outOfRange c, ?_⟩
    rintro ⟨u, hu, hk⟩
    exact h ((require_eq_ok c u).mp hu) hk

/-- A requirement uses no fuel of its own. -/
theorem require_bind_eq_outOfFuel (c : Prop) [Decidable c] (k : Unit → Run β) :
    require c >>= k = .error .outOfFuel ↔ c ∧ k () = .error .outOfFuel := by
  rw [bind_eq_error, or_iff_right (require_ne_outOfFuel c)]
  constructor
  · rintro ⟨u, hu, hk⟩
    exact ⟨(require_eq_ok c u).mp hu, hk⟩
  · rintro ⟨hc, hk⟩
    exact ⟨(), (require_eq_ok c ()).mpr hc, hk⟩

end Sequencing

section Families

variable {α β : Type}

/-- A family of computations, indexed by fuel, that more fuel does not change
    once it has answered. -/
def Settled (f : Nat → Run α) : Prop :=
  ∀ n m, n ≤ m → f n ≠ .error .outOfFuel → f m = f n

/-- The value of a family, for some amount of fuel. -/
def Yields (f : Nat → Run α) (a : α) : Prop :=
  ∃ n, f n = .ok a

/-- No amount of fuel makes the given cause stop the family. -/
def AlwaysAvoids (e : Stop) (f : Nat → Run α) : Prop :=
  ∀ n, f n ≠ .error e

theorem settled_const (x : Run α) : Settled (fun _ => x) :=
  fun _ _ _ _ => rfl

theorem yields_const (x : Run α) (a : α) : Yields (fun _ => x) a ↔ x = .ok a :=
  ⟨fun ⟨_, h⟩ => h, fun h => ⟨0, h⟩⟩

theorem alwaysAvoids_const (e : Stop) (x : Run α) :
    AlwaysAvoids e (fun _ => x) ↔ x ≠ .error e :=
  ⟨fun h => h 0, fun h _ => h⟩

theorem Settled.bind {f : Nat → Run α} {g : α → Nat → Run β} (hf : Settled f)
    (hg : ∀ a, Settled (g a)) : Settled (fun n => f n >>= fun a => g a n) := by
  intro n m hnm hne
  have hfn : f n ≠ .error .outOfFuel := fun h => hne ((bind_eq_error _ _ _).mpr (Or.inl h))
  have hfm : f m = f n := hf n m hnm hfn
  change f m >>= _ = f n >>= _
  rw [hfm]
  cases hx : f n with
  | error e => rfl
  | ok a =>
      have hga : g a n ≠ .error .outOfFuel := fun h =>
        hne ((bind_eq_error _ _ _).mpr (Or.inr ⟨a, hx, h⟩))
      exact hg a n m hnm hga

/-- A value found with some fuel is found with any larger one. -/
theorem Settled.eq_ok_of_le {f : Nat → Run α} (hf : Settled f) {n m : Nat} {a : α}
    (h : f n = .ok a) (hnm : n ≤ m) : f m = .ok a := by
  rw [hf n m hnm (by rw [h]; exact ok_ne_error _ _), h]

theorem Settled.yields_unique {f : Nat → Run α} (hf : Settled f) {a b : α}
    (ha : Yields f a) (hb : Yields f b) : a = b := by
  rcases ha with ⟨n, hn⟩
  rcases hb with ⟨m, hm⟩
  have h1 := hf.eq_ok_of_le hn (Nat.le_max_left n m)
  have h2 := hf.eq_ok_of_le hm (Nat.le_max_right n m)
  rw [h1] at h2
  exact Except.ok.inj h2

/-- A family that has a value is not stopped by anything but fuel. -/
theorem Settled.ne_error_of_yields {f : Nat → Run α} (hf : Settled f) {a : α}
    (ha : Yields f a) {e : Stop} (he : e ≠ .outOfFuel) : AlwaysAvoids e f := by
  rcases ha with ⟨n, hn⟩
  intro m hm
  have h1 := hf.eq_ok_of_le hn (Nat.le_max_left n m)
  have h2 := hf m (max n m) (Nat.le_max_right n m)
    (by rw [hm]; exact fun hc => he (Except.error.inj hc))
  rw [h1, hm] at h2
  cases h2

theorem yields_bind {f : Nat → Run α} {g : α → Nat → Run β} (hf : Settled f)
    (hg : ∀ a, Settled (g a)) (b : β) :
    Yields (fun n => f n >>= fun a => g a n) b ↔ ∃ a, Yields f a ∧ Yields (g a) b := by
  constructor
  · rintro ⟨n, hn⟩
    rcases (bind_eq_ok _ _ _).mp hn with ⟨a, ha, hb⟩
    exact ⟨a, ⟨n, ha⟩, n, hb⟩
  · rintro ⟨a, ⟨n, hn⟩, m, hm⟩
    -- Both halves answer under the larger of their two fuels.
    refine ⟨max n m, (bind_eq_ok _ _ _).mpr ⟨a, ?_, ?_⟩⟩
    · exact hf.eq_ok_of_le hn (Nat.le_max_left n m)
    · exact (hg a).eq_ok_of_le hm (Nat.le_max_right n m)

theorem alwaysAvoids_bind {f : Nat → Run α} {g : α → Nat → Run β} (hf : Settled f)
    (hg : ∀ a, Settled (g a)) {e : Stop} (he : e ≠ .outOfFuel) :
    AlwaysAvoids e (fun n => f n >>= fun a => g a n) ↔
      AlwaysAvoids e f ∧ ∀ a, Yields f a → AlwaysAvoids e (g a) := by
  constructor
  · intro h
    refine ⟨fun n hn => h n ((bind_eq_error _ _ _).mpr (Or.inl hn)), ?_⟩
    rintro a ⟨n, hn⟩ m hm
    -- Raise the fuel until both halves have it, then the stop is the sequence's own.
    have h1 := hf.eq_ok_of_le hn (Nat.le_max_left n m)
    have h2 := hg a m (max n m) (Nat.le_max_right n m)
      (by rw [hm]; exact fun hc => he (Except.error.inj hc))
    exact h (max n m) ((bind_eq_error _ _ _).mpr (Or.inr ⟨a, h1, h2.trans hm⟩))
  · rintro ⟨h1, h2⟩ n hn
    rcases (bind_eq_error _ _ _).mp hn with hx | ⟨a, ha, hb⟩
    · exact h1 n hx
    · exact h2 a ⟨n, ha⟩ n hb

end Families

end Checked
