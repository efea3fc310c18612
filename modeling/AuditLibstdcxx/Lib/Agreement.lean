import AuditLibstdcxx.Lib.Loop

/-!
# Programs That Agree

Two programs agree when they come to the same result wherever both come to one.
Either may be stopped where the other goes on, so this is weaker than equality:
a program with a check left out agrees with the one that has it, and a program
agrees with itself on less fuel.

Agreement is kept by all ways of putting programs together. In a sequence the
second programs only have to agree on what both of the first ones came to, and
in a loop only the bodies have to agree, on one state at a time.

## Main definitions

* `Agree`: Two programs come to the same result, if both come to one.

## Theorems

* `Agree.bind`: Agreement in sequence.
* `Agree.countedLoop`, `Agree.whileLoop`: Agreement of loops.
-/

namespace Checked

variable {α β σ : Type}

/-- Two programs come to the same result, if both come to one. -/
def Agree (x y : Run α) : Prop :=
  ∀ a b, x = .ok a → y = .ok b → a = b

@[simp] theorem Agree.refl (x : Run α) : Agree x x :=
  fun _ _ ha hb => Except.ok.inj (ha.symm.trans hb)

/-- Agreement in sequence. -/
theorem Agree.bind {x y : Run α} {f g : α → Run β} (h : Agree x y)
    (hf : ∀ a, x = .ok a → y = .ok a → Agree (f a) (g a)) : Agree (x >>= f) (y >>= g) := by
  intro a b ha hb
  rcases (bind_eq_ok _ _ _).mp ha with ⟨u, hu, ha⟩
  rcases (bind_eq_ok _ _ _).mp hb with ⟨v, hv, hb⟩
  -- Both sequences go on with the same result of the first programs.
  have hsame := h u v hu hv
  rw [← hsame] at hv hb
  exact hf u hu hv a b ha hb

/-- Checks are no matter to agreement. -/
theorem Agree.require {P Q : Prop} [Decidable P] [Decidable Q] {x y : Run β} (h : Agree x y) :
    Agree (require P >>= fun _ => x) (require Q >>= fun _ => y) :=
  Agree.bind (fun _ _ _ _ => rfl) fun _ _ _ => h

theorem Agree.countedLoop {step step' : σ → Run σ} (h : ∀ s, Agree (step s) (step' s)) (n : Nat) :
    ∀ s, Agree (countedLoop step n s) (countedLoop step' n s) := by
  induction n with
  | zero => exact fun s => Agree.refl _
  | succ n ih => exact fun s => (h s).bind fun t _ _ => ih t

/-- Loops agree whatever fuel they have. -/
theorem Agree.whileLoop {step step' : σ → Run (σ ⊕ β)} (h : ∀ s, Agree (step s) (step' s))
    (n n' : Nat) : ∀ s, Agree (whileLoop step n s) (whileLoop step' n' s) := by
  induction n generalizing n' with
  | zero => exact fun s a b ha _ => absurd ha (error_ne_ok _ _)
  | succ n ih =>
      intro s
      cases n' with
      | zero => exact fun a b _ hb => absurd hb (error_ne_ok _ _)
      | succ n' =>
          refine (h s).bind fun r _ _ => ?_
          cases r with
          | inl t => exact ih n' t
          | inr b => exact Agree.refl _

end Checked
