import AuditLibstdcxx.Lib.Checked

/-!
# Runs of a State Machine

A machine takes inputs one at a time, and a step may be stopped from outside.
A run is a list of inputs that the machine gets through.

An invariant of a run may speak about the inputs taken so far, so that what a
state holds can be compared with what the machine was given on the way.

## Main definitions

* `Runs`: The machine gets from one state to another on a list of inputs.

## Theorems

* `runs_append`: A run in two parts.
* `Runs.unique`: A run has one end.
* `Runs.invariant`: What every step keeps holds at the end of a run.
* `Runs.stays`: A state that no input changes is never left.
-/

namespace Checked

variable {σ ι : Type} {step : σ → ι → Run σ}

/-- The machine gets from one state to another on a list of inputs. -/
def Runs (step : σ → ι → Run σ) (inputs : List ι) (s t : σ) : Prop :=
  inputs.foldlM step s = .ok t

theorem runs_nil (s t : σ) : Runs step [] s t ↔ s = t :=
  ⟨fun h => Except.ok.inj h, fun h => congrArg Except.ok h⟩

theorem runs_cons (i : ι) (inputs : List ι) (s t : σ) :
    Runs step (i :: inputs) s t ↔ ∃ u, step s i = .ok u ∧ Runs step inputs u t := by
  unfold Runs
  rw [List.foldlM_cons, bind_eq_ok]

/-- A run in two parts. -/
theorem runs_append (before behind : List ι) (s t : σ) :
    Runs step (before ++ behind) s t ↔ ∃ u, Runs step before s u ∧ Runs step behind u t := by
  unfold Runs
  rw [List.foldlM_append, bind_eq_ok]

/-- A run has one end. -/
theorem Runs.unique {inputs : List ι} {s t u : σ} (ht : Runs step inputs s t)
    (hu : Runs step inputs s u) : t = u :=
  Except.ok.inj (ht.symm.trans hu)

/-- What every step keeps, in view of the inputs taken so far, holds at the end
    of a run. -/
theorem Runs.invariant (I : List ι → σ → Prop)
    (hstep : ∀ before s i s', I before s → step s i = .ok s' → I (before ++ [i]) s')
    {inputs : List ι} {s t : σ} (hinit : I [] s) (h : Runs step inputs s t) : I inputs t := by
  have hall : ∀ (inputs before : List ι) (s : σ), I before s → Runs step inputs s t →
      I (before ++ inputs) t := by
    intro inputs
    induction inputs with
    | nil =>
        intro before s hI hrun
        rw [← (runs_nil s t).mp hrun, List.append_nil]
        exact hI
    | cons i inputs ih =>
        intro before s hI hrun
        rcases (runs_cons i inputs s t).mp hrun with ⟨u, hu, hrest⟩
        have hnext := ih (before ++ [i]) u (hstep before s i u hI hu) hrest
        rwa [List.append_assoc, List.singleton_append] at hnext
  exact hall inputs [] s hinit h

/-- A state that no input changes is never left. -/
theorem Runs.stays {s : σ} (hstep : ∀ i, step s i = .ok s) {inputs : List ι} {t : σ}
    (h : Runs step inputs s t) : t = s := by
  induction inputs with
  | nil => exact ((runs_nil s t).mp h).symm
  | cons i inputs ih =>
      rcases (runs_cons i inputs s t).mp h with ⟨u, hu, hrest⟩
      rw [hstep i] at hu
      rw [← Except.ok.inj hu] at hrest
      exact ih hrest

end Checked
