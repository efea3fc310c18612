import AuditLibstdcxx.Lib.Checked

/-!
# Exceptions

Programs of a language that raises and catches exceptions, as values of
`Except`. A handler names the exceptions it catches by a test; every other
exception passes through it.

What matters of such a program is often only whether it returns at all. The
rules below say so for each way of putting programs together, so that the
exceptions of a large program are found by going through its parts.

## Main definitions

* `Returns`: The program raises nothing.
* `RaisesOnly`: Every exception raised passes a test.
* `catching`: A program under a handler.

## Theorems

* `returns_bind`, `returns_bind_of_iff`, `returns_map`, `bind_eq_error_or`: Programs in sequence.
* `catching_eq_ok`: What a program under a handler returns.
* `returns_catching_of_handler`: With a handler that never fails.
* `bind_ne_error`: An exception that neither of two programs raises.
* `returns_mapM`, `mapM_eq_map`, `mapM_range_eq_error`: A program for every item of a list.
* `mapM_settled`: Items that only differ in one exception.
* `foldlM_eq_error`: What a loop raises, and in which round.
-/

namespace Exceptions

open Checked

variable {ε α β : Type}

/-- The program raises nothing. -/
def Returns (x : Except ε α) : Prop :=
  ∃ a, x = .ok a

/-- Every exception raised passes a test. -/
def RaisesOnly (p : ε → Bool) (x : Except ε α) : Prop :=
  ∀ e, x = .error e → p e = true

/-- A program under a handler for the exceptions that pass a test. -/
def catching (p : ε → Bool) (x : Except ε α) (handler : ε → Except ε α) : Except ε α :=
  match x with
  | .ok a => .ok a
  | .error e => if p e then handler e else .error e

@[simp] theorem returns_ok (a : α) : Returns (.ok a : Except ε α) :=
  ⟨a, rfl⟩

@[simp] theorem returns_pure (a : α) : Returns (pure a : Except ε α) :=
  ⟨a, rfl⟩

@[simp] theorem not_returns_error (e : ε) : ¬ Returns (.error e : Except ε α) := by
  intro h
  rcases h with ⟨a, ha⟩
  cases ha

/-- A program returns unless it raises something. -/
theorem returns_iff (x : Except ε α) : Returns x ↔ ∀ e, x ≠ .error e := by
  cases x with
  | error e => simp
  | ok a => simp

/-- Programs in sequence. -/
theorem returns_bind (x : Except ε α) (f : α → Except ε β) :
    Returns (x >>= f) ↔ ∃ a, x = .ok a ∧ Returns (f a) := by
  cases x with
  | error e =>
      refine ⟨fun h => absurd h (not_returns_error e), fun h => ?_⟩
      rcases h with ⟨a, ha, _⟩
      cases ha
  | ok a =>
      refine ⟨fun h => ⟨a, rfl, h⟩, fun h => ?_⟩
      rcases h with ⟨b, hb, hf⟩
      cases hb
      exact hf

/-- Programs in sequence where it does not matter to the second what the first
    returns. -/
theorem returns_bind_of_iff {x : Except ε α} {f : α → Except ε β} {P : Prop}
    (hf : ∀ a, Returns (f a) ↔ P) : Returns (x >>= f) ↔ Returns x ∧ P := by
  rw [returns_bind]
  simp only [hf]
  exact exists_and_right

theorem returns_bind_const (x : Except ε α) (y : Except ε β) :
    Returns (x >>= fun _ => y) ↔ Returns x ∧ Returns y :=
  returns_bind_of_iff fun _ => Iff.rfl

theorem returns_map (f : α → β) (x : Except ε α) : Returns (x.map f) ↔ Returns x := by
  cases x with
  | error e => simp only [Except.map, not_returns_error]
  | ok a => simp only [Except.map, returns_ok]

@[simp] theorem catching_ok (p : ε → Bool) (a : α) (handler : ε → Except ε α) :
    catching p (.ok a) handler = .ok a := rfl

@[simp] theorem catching_error (p : ε → Bool) (e : ε) (handler : ε → Except ε α) :
    catching p (.error e) handler = if p e then handler e else .error e := rfl

/-- What a program under a handler returns comes from the program, or from the
    handler of an exception it catches. -/
theorem catching_eq_ok (p : ε → Bool) (x : Except ε α) (handler : ε → Except ε α) (a : α) :
    catching p x handler = .ok a ↔
      x = .ok a ∨ ∃ e, x = .error e ∧ p e = true ∧ handler e = .ok a := by
  cases x with
  | ok b => simp
  | error e =>
      by_cases hp : p e = true
      · simp [hp]
      · simp [hp]

/-- Under a handler that never fails, only what it does not catch matters. -/
theorem returns_catching_of_handler (p : ε → Bool) (x : Except ε α) (handler : ε → Except ε α)
    (hhandler : ∀ e, Returns (handler e)) :
    Returns (catching p x handler) ↔ RaisesOnly p x := by
  cases x with
  | ok a =>
      refine ⟨fun _ e he => ?_, fun _ => returns_ok a⟩
      cases he
  | error e =>
      by_cases hp : p e = true
      · rw [catching_error, if_pos hp]
        refine ⟨fun _ e' he' => ?_, fun _ => hhandler e⟩
        rw [← Except.error.inj he']
        exact hp
      · rw [catching_error, if_neg hp]
        exact ⟨fun h => absurd h (not_returns_error e), fun h => absurd (h e rfl) hp⟩

/-- Programs in sequence of which only one exception is asked: the sequence
    raises it if one of them does, whichever comes first. -/
theorem bind_eq_error_or (x : Except ε α) (f : α → Except ε β) (e : ε) {P Q : Prop}
    (hx : x = .error e ↔ P) (hreturns : ¬ P → Returns x) (hf : ∀ a, f a = .error e ↔ Q) :
    x >>= f = .error e ↔ P ∨ Q := by
  rw [bind_eq_error, hx]
  refine ⟨fun h => ?_, fun h => ?_⟩
  · rcases h with hp | ⟨a, _, hq⟩
    · exact Or.inl hp
    · exact Or.inr ((hf a).mp hq)
  · by_cases hp : P
    · exact Or.inl hp
    · rcases hreturns hp with ⟨a, ha⟩
      exact Or.inr ⟨a, ha, (hf a).mpr (h.resolve_left hp)⟩

@[simp] theorem pure_ne (a : α) (e : ε) : (pure a : Except ε α) ≠ .error e := by
  intro h
  cases h

/-- An exception that neither of two programs raises. -/
theorem bind_ne_error {x : Except ε α} {f : α → Except ε β} {e : ε} (hx : x ≠ .error e)
    (hf : ∀ a, f a ≠ .error e) : x >>= f ≠ .error e := by
  rw [ne_eq, bind_eq_error, not_or]
  exact ⟨hx, fun ⟨a, _, ha⟩ => hf a ha⟩

/-- A program for every item of a list returns when it does for each. -/
theorem returns_mapM (f : α → Except ε β) (as : List α) :
    Returns (as.mapM f) ↔ ∀ a ∈ as, Returns (f a) := by
  induction as with
  | nil => simp
  | cons a as ih =>
      rw [List.mapM_cons, List.forall_mem_cons, ← ih]
      refine returns_bind_of_iff fun b => ?_
      rw [returns_bind_of_iff fun bs => iff_of_true (returns_pure (b :: bs)) trivial, and_true]

theorem mapM_eq_map {f : α → Except ε β} {g : α → β} {as : List α}
    (h : ∀ a ∈ as, f a = .ok (g a)) : as.mapM f = .ok (as.map g) := by
  induction as with
  | nil => rfl
  | cons a as ih =>
      rw [List.mapM_cons, h a List.mem_cons_self, ok_bind,
        ih fun b hb => h b (List.mem_cons_of_mem a hb), ok_bind, List.map_cons]
      rfl

/-- For the numbers below a bound, it raises what it does for the first that it
    does not return for. -/
theorem mapM_range_eq_error (f : Nat → Except ε β) (n : Nat) (e : ε) :
    (List.range n).mapM f = .error e ↔
      ∃ i < n, (∀ j < i, Returns (f j)) ∧ f i = .error e := by
  induction n with
  | zero => simp
  | succ n ih =>
      have hlast : (∃ bs, (List.range n).mapM f = .ok bs ∧ (do
          let b ← [n].mapM f
          pure (bs ++ b)) = .error e) ↔ (∀ j < n, Returns (f j)) ∧ f n = .error e := by
        have hitems := returns_mapM f (List.range n)
        simp only [List.mem_range] at hitems
        rw [← hitems]
        simp only [List.mapM_cons, List.mapM_nil, bind_eq_error, pure_ne, and_false, exists_false,
          or_false]
        exact exists_and_right
      rw [List.range_succ, List.mapM_append, bind_eq_error, ih, hlast]
      constructor
      · rintro (⟨i, hi, hbefore, hraises⟩ | ⟨hbefore, hraises⟩)
        · exact ⟨i, by omega, hbefore, hraises⟩
        · exact ⟨n, by omega, hbefore, hraises⟩
      · rintro ⟨i, hi, hbefore, hraises⟩
        rcases Nat.lt_succ_iff_lt_or_eq.mp hi with hlt | rfl
        · exact Or.inl ⟨i, hlt, hbefore, hraises⟩
        · exact Or.inr ⟨hbefore, hraises⟩

theorem length_of_mapM {f : α → Except ε β} {as : List α} {bs : List β}
    (h : as.mapM f = .ok bs) : bs.length = as.length := by
  induction as generalizing bs with
  | nil =>
      rw [← Except.ok.inj h]
      rfl
  | cons a as ih =>
      rw [List.mapM_cons] at h
      rcases (bind_eq_ok _ _ _).mp h with ⟨b, _, hrest⟩
      rcases (bind_eq_ok _ _ _).mp hrest with ⟨bs', hbs', hreturn⟩
      rw [← Except.ok.inj hreturn, List.length_cons, List.length_cons, ih hbs']

/-- Two programs that only differ for items where the first raises one
    exception do not differ for a list, unless it raises that exception. -/
theorem mapM_settled {f f' : α → Except ε β} {as : List α} {e : ε}
    (h : ∀ a ∈ as, f a ≠ .error e → f' a = f a) (hne : as.mapM f ≠ .error e) :
    as.mapM f' = as.mapM f := by
  induction as with
  | nil => rfl
  | cons a as ih =>
      rw [List.mapM_cons] at hne
      rw [List.mapM_cons, List.mapM_cons]
      cases ha : f a with
      | error e' =>
          rw [ha, error_bind] at hne
          have hother : f a ≠ .error e := by
            rw [ha]
            exact fun hc => hne (by rw [Except.error.inj hc])
          rw [h a List.mem_cons_self hother, ha]
          rfl
      | ok b =>
          rw [ha, ok_bind] at hne
          have hrest : as.mapM f ≠ .error e := fun hc => hne (by rw [hc]; rfl)
          rw [h a List.mem_cons_self (by rw [ha]; simp), ha, ok_bind, ok_bind,
            ih (fun b hb => h b (List.mem_cons_of_mem a hb)) hrest]

/-- A loop whose rounds raise what their items decide, whatever the rounds
    before have computed, raises what the first item does that decides on an
    exception. -/
theorem foldlM_eq_error {ι : Type} (f : β → ι → Except ε β) (raises : ι → ε → Prop)
    (hf : ∀ b i e, f b i = .error e ↔ raises i e) (items : List ι) (b : β) (e : ε) :
    items.foldlM f b = .error e ↔ ∃ before i behind, items = before ++ i :: behind ∧
      (∀ j ∈ before, ∀ e', ¬ raises j e') ∧ raises i e := by
  induction items generalizing b with
  | nil =>
      refine ⟨fun h => ?_, fun h => ?_⟩
      · cases h
      · rcases h with ⟨before, i, behind, hsplit, _⟩
        simp at hsplit
  | cons item items ih =>
      rw [List.foldlM_cons, bind_eq_error]
      refine ⟨fun h => ?_, fun h => ?_⟩
      · rcases h with hitem | ⟨b', hitem, hrest⟩
        · exact ⟨[], item, items, rfl, by simp, (hf b item e).mp hitem⟩
        · rcases (ih b').mp hrest with ⟨before, i, behind, hsplit, hbefore, hi⟩
          refine ⟨item :: before, i, behind, by rw [hsplit, List.cons_append], ?_, hi⟩
          intro j hj e' hraises
          rcases List.mem_cons.mp hj with rfl | hj
          · rw [(hf b j e').mpr hraises] at hitem
            cases hitem
          · exact hbefore j hj e' hraises
      · rcases h with ⟨before, i, behind, hsplit, hbefore, hi⟩
        cases before with
        | nil =>
            rw [List.nil_append, List.cons.injEq] at hsplit
            rw [hsplit.1]
            exact Or.inl ((hf b i e).mpr hi)
        | cons j before =>
            rw [List.cons_append, List.cons.injEq] at hsplit
            -- The first round returns, so the exception is that of the rest.
            have hreturns : Returns (f b item) := by
              rw [returns_iff]
              intro e' he'
              rw [hsplit.1] at he'
              exact hbefore j List.mem_cons_self e' ((hf b j e').mp he')
            rcases hreturns with ⟨b', hb'⟩
            have hrest := (ih b').mpr ⟨before, i, behind, hsplit.2,
              fun j' hj' => hbefore j' (List.mem_cons_of_mem j hj'), hi⟩
            exact Or.inr ⟨b', hb', hrest⟩

end Exceptions
