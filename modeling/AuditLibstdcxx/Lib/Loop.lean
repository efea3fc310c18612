import AuditLibstdcxx.Lib.Checked

/-!
# Loops over Checked Computations

The two loops of an imperative program: one that runs its body a given number
of times, and one that runs its body until the body says to leave.

What such a loop does is rarely decided by its whole state. An accumulator
rides along and a *position* drives it: a cursor, an address, an index. The
rules here take the position apart from the rest. When the body moves the
position by a function `next` and the position alone decides whether the body
returns, the positions the loop visits are the iterates of `next`, and both
questions about the loop become statements about those iterates. The body is
run at the `k`-th iterate exactly when it came through at all the earlier
ones, which is why every rule guards iterate `k` by the iterates before it.

`countedLoop_invariant` and `whileLoop_exit` carry the accumulator: what each
pass preserves, the loop preserves.

## Main definitions

* `countedLoop`: Run a body a given number of times.
* `whileLoop`: Run a body until it leaves.
* `Reached`: The states in which the loop begins a pass.

## Theorems

* `settled_countedLoop`: A counted loop over a settled body is settled.
* `settled_whileLoop`: Granting a loop more passes does not change its answer.
* `countedLoop_stop`, `countedLoop_stopped`: A counted loop stops where its
  body stops, and nowhere else.
* `countedLoop_yields_iff`: When a counted loop comes through.
* `countedLoop_avoids_iff`: When a counted loop avoids a cause.
* `before_congr`, `guarded_congr`, `guarded_congr_all`: Guarding the passes by
  less.
* `countedLoop_invariant`: An invariant of the body is one of the loop.
* `whileLoop_yields_iff`: When a loop comes through.
* `whileLoop_avoids_iff`: When a loop avoids a cause.
* `whileLoop_exit`: A loop that comes through left from an invariant state.
* `Reached.invariant`: What each pass preserves holds at every pass.
-/

namespace Checked

variable {σ β ρ : Type}

/-- Run a body a given number of times. -/
def countedLoop (step : σ → Run σ) : Nat → σ → Run σ
  | 0, s => .ok s
  | n + 1, s => step s >>= countedLoop step n

/-- Run a body until it leaves the loop with a result, for at most the given
    number of passes. -/
def whileLoop (step : σ → Run (σ ⊕ β)) : Nat → σ → Run β
  | 0, _ => .error .outOfFuel
  | n + 1, s => step s >>= fun r => match r with
    | .inl s' => whileLoop step n s'
    | .inr b => .ok b

/-- A counted loop that reaches a state its body stops in, stops there. -/
theorem countedLoop_stop (step : σ → Run σ) (e : Stop) : ∀ (j n : Nat) (s s' : σ),
    j < n → countedLoop step j s = .ok s' → step s' = .error e →
      countedLoop step n s = .error e := by
  intro j
  induction j with
  | zero =>
      intro n s s' hn hs hstop
      cases hs
      cases n with
      | zero => omega
      | succ n => exact (bind_eq_error _ _ _).mpr (Or.inl hstop)
  | succ j ih =>
      intro n s s' hn hs hstop
      rcases (bind_eq_ok _ _ _).mp hs with ⟨t, ht, hrest⟩
      cases n with
      | zero => omega
      | succ n =>
          exact (bind_eq_error _ _ _).mpr (Or.inr ⟨t, ht, ih n t s' (by omega) hrest hstop⟩)

/-- A counted loop that stops got to a state its body stops in. -/
theorem countedLoop_stopped (step : σ → Run σ) (e : Stop) : ∀ (n : Nat) (s : σ),
    countedLoop step n s = .error e →
      ∃ j < n, ∃ s', countedLoop step j s = .ok s' ∧ step s' = .error e := by
  intro n
  induction n with
  | zero =>
      intro s h
      cases h
  | succ n ih =>
      intro s h
      rcases (bind_eq_error _ _ _).mp h with hstop | ⟨t, ht, hrest⟩
      · exact ⟨0, Nat.succ_pos n, s, rfl, hstop⟩
      · rcases ih t hrest with ⟨j, hj, s', hs', hstop⟩
        exact ⟨j + 1, by omega, s', (bind_eq_ok _ _ _).mpr ⟨t, ht, hs'⟩, hstop⟩

section Counted

variable (step : Nat → σ → Run σ) (hset : ∀ s, Settled (fun n => step n s))

include hset

theorem settled_countedLoop (k : Nat) :
    ∀ (s : σ), Settled (fun n => countedLoop (step n) k s) := by
  induction k with
  | zero => exact fun s => settled_const _
  | succ k ih => exact fun s => (hset s).bind ih

theorem countedLoop_invariant (I : Nat → σ → Prop)
    (hstep : ∀ k s s', I k s → Yields (fun n => step n s) s' → I (k + 1) s') :
    ∀ (n k : Nat) (s s' : σ), I k s → Yields (fun f => countedLoop (step f) n s) s' →
      I (k + n) s' := by
  intro n
  induction n with
  | zero =>
      intro k s s' hI hy
      cases (yields_const _ _).mp hy
      exact hI
  | succ n ih =>
      intro k s s' hI hy
      rcases (yields_bind (hset s) (settled_countedLoop step hset n) s').mp hy with ⟨t, ht, hrest⟩
      -- The first pass moves the count on by one, and the rest starts from there.
      have h := ih (k + 1) t s' (hstep k s t hI ht) hrest
      rwa [show k + (n + 1) = k + 1 + n by omega]

variable (pos : σ → ρ) (next : ρ → ρ) (R : ρ → Prop)
  (hnext : ∀ s s', Yields (fun n => step n s) s' → pos s' = next (pos s))
  (hret : ∀ s, (∃ s', Yields (fun n => step n s) s') ↔ R (pos s))

include hnext hret

theorem countedLoop_yields_iff : ∀ (k : Nat) (s : σ),
    (∃ s', Yields (fun n => countedLoop (step n) k s) s') ↔ ∀ j < k, R (next^[j] (pos s)) := by
  intro k
  induction k with
  | zero =>
      intro s
      exact ⟨fun _ j hj => absurd hj (Nat.not_lt_zero j), fun _ => ⟨s, 0, rfl⟩⟩
  | succ k ih =>
      intro s
      constructor
      · rintro ⟨s', hs'⟩ j hj
        rcases (yields_bind (hset s) (settled_countedLoop step hset k) s').mp hs' with
          ⟨t, ht, hrest⟩
        -- The first pass is the one at `pos s`; later ones belong to the rest.
        cases j with
        | zero => exact (hret s).mp ⟨t, ht⟩
        | succ i =>
            have h := (ih t).mp ⟨s', hrest⟩ i (by omega)
            rwa [hnext s t ht] at h
      · intro h
        rcases (hret s).mpr (h 0 (Nat.succ_pos k)) with ⟨t, ht⟩
        -- The rest meets the positions that come after the first.
        have hrest : ∃ s', Yields (fun n => countedLoop (step n) k t) s' := by
          refine (ih t).mpr fun j hj => ?_
          rw [hnext s t ht]
          exact h (j + 1) (by omega)
        rcases hrest with ⟨s', hs'⟩
        exact ⟨s', (yields_bind (hset s) (settled_countedLoop step hset k) s').mpr ⟨t, ht, hs'⟩⟩

theorem countedLoop_avoids_iff {e : Stop} (he : e ≠ .outOfFuel) (S : ρ → Prop)
    (havoid : ∀ s, AlwaysAvoids e (fun n => step n s) ↔ S (pos s)) : ∀ (k : Nat) (s : σ),
    AlwaysAvoids e (fun n => countedLoop (step n) k s) ↔
      ∀ j < k, (∀ i < j, R (next^[i] (pos s))) → S (next^[j] (pos s)) := by
  intro k
  induction k with
  | zero =>
      intro s
      exact ⟨fun _ j hj => absurd hj (Nat.not_lt_zero j), fun _ _ => ok_ne_error _ _⟩
  | succ k ih =>
      intro s
      have hbind := alwaysAvoids_bind (hset s) (settled_countedLoop step hset k) he
      constructor
      · intro h j hj hbefore
        cases j with
        | zero => exact (havoid s).mp (hbind.mp h).1
        | succ i =>
            -- The first pass came through, so the remaining loop runs from its result.
            rcases (hret s).mpr (hbefore 0 (Nat.succ_pos i)) with ⟨t, ht⟩
            have hrest := (ih t).mp ((hbind.mp h).2 t ht) i (by omega)
            rw [hnext s t ht] at hrest
            exact hrest fun l hl => hbefore (l + 1) (by omega)
      · intro h
        have hfirst := h 0 (Nat.succ_pos k) fun i hi => absurd hi (Nat.not_lt_zero i)
        refine hbind.mpr ⟨(havoid s).mpr hfirst, ?_⟩
        intro t ht
        refine (ih t).mpr fun j hj hbefore => ?_
        rw [hnext s t ht] at hbefore ⊢
        refine h (j + 1) (by omega) fun i hi => ?_
        cases i with
        | zero => exact (hret s).mp ⟨t, ht⟩
        | succ l => exact hbefore l (by omega)

end Counted

section Guards

variable {P C R : Nat → Prop}

/-- Two conditions that say the same of every pass that is made properly say the
    same of all passes before one, when each pass so guarded is. -/
theorem before_congr : ∀ n, (∀ k < n, R k → (P k ↔ C k)) → (∀ k < n, (∀ j < k, C j) → R k) →
    ((∀ j < n, P j) ↔ ∀ j < n, C j) := by
  intro n
  induction n with
  | zero =>
      intro _ _
      exact iff_of_true (fun j hj => absurd hj (Nat.not_lt_zero j))
        (fun j hj => absurd hj (Nat.not_lt_zero j))
  | succ n ih =>
      intro hpass h
      rw [Nat.forall_lt_succ_right, Nat.forall_lt_succ_right,
        ih (fun k hk => hpass k (Nat.lt_succ_of_lt hk)) fun k hk => h k (Nat.lt_succ_of_lt hk)]
      refine and_congr_right fun hbefore => ?_
      exact hpass n (Nat.lt_succ_self n) (h n (Nat.lt_succ_self n) hbefore)

/-- So either of them can guard the passes. -/
theorem guarded_congr (n : Nat) (hpass : ∀ k < n, R k → (P k ↔ C k)) :
    (∀ k < n, (∀ j < k, P j) → R k) ↔ ∀ k < n, (∀ j < k, C j) → R k := by
  constructor
  · intro h k hk hC
    have hback := before_congr k (fun j hj hR => (hpass j (Nat.lt_trans hj hk) hR).symm)
      fun j hj => h j (Nat.lt_trans hj hk)
    exact h k hk (hback.mp hC)
  · intro h k hk hP
    have hback := before_congr k (fun j hj => hpass j (Nat.lt_trans hj hk))
      fun j hj => h j (Nat.lt_trans hj hk)
    exact h k hk (hback.mp hP)

/-- The same for passes without end. -/
theorem guarded_congr_all (hpass : ∀ k, R k → (P k ↔ C k)) :
    (∀ k, (∀ j < k, P j) → R k) ↔ ∀ k, (∀ j < k, C j) → R k := by
  have hupto := fun k => guarded_congr (k + 1) fun j _ => hpass j
  constructor
  · exact fun h k => (hupto k).mp (fun j _ => h j) k (Nat.lt_succ_self k)
  · exact fun h k => (hupto k).mpr (fun j _ => h j) k (Nat.lt_succ_self k)

end Guards

section While

variable (step : σ → Run (σ ⊕ β))

theorem settled_whileLoop : ∀ (s : σ), Settled (fun n => whileLoop step n s) := by
  intro s n
  induction n generalizing s with
  | zero => exact fun m _ h => absurd rfl h
  | succ n ih =>
      intro m hnm hne
      cases m with
      | zero => omega
      | succ m =>
          change step s >>= _ = step s >>= _
          cases hx : step s with
          | error e => rfl
          | ok r =>
              cases r with
              | inr b => rfl
              | inl t =>
                  -- Both loops made this pass, so they differ only in what is left to them.
                  refine ih t m (by omega) fun h => hne ?_
                  change step s >>= _ = _
                  rw [hx]
                  exact h

/-- The states in which the loop begins a pass. -/
inductive Reached (s : σ) : σ → Prop where
  | start : Reached s s
  | pass {t u : σ} (ht : Reached s t) (hstep : step t = .ok (.inl u)) : Reached s u

variable {step} in
/-- What each pass preserves holds at the beginning of every pass. -/
theorem Reached.invariant (I : σ → Prop) (hstep : ∀ t u, I t → step t = .ok (.inl u) → I u)
    {s t : σ} (hs : I s) (h : Reached step s t) : I t := by
  induction h with
  | start => exact hs
  | pass _ hpass ih => exact hstep _ _ ih hpass

/-- A loop that comes through left from a state its invariant holds of. -/
theorem whileLoop_exit (I : Nat → σ → Prop)
    (hstep : ∀ k s s', I k s → step s = .ok (.inl s') → I (k + 1) s') :
    ∀ (n k : Nat) (s : σ) (b : β), I k s → whileLoop step n s = .ok b →
      ∃ l t, k ≤ l ∧ I l t ∧ step t = .ok (.inr b) := by
  intro n
  induction n with
  | zero =>
      intro k s b _ h
      cases h
  | succ n ih =>
      intro k s b hI h
      rcases (bind_eq_ok _ _ _).mp h with ⟨r, hr, hrest⟩
      cases r with
      | inl t =>
          -- The pass went on, so the exit is the one of the rest.
          rcases ih (k + 1) t b (hstep k s t hI hr) hrest with ⟨l, u, hkl, hu, hex⟩
          exact ⟨l, u, by omega, hu, hex⟩
      | inr b' =>
          cases hrest
          exact ⟨k, s, Nat.le_refl k, hI, hr⟩

variable (pos : σ → ρ) (next : ρ → ρ) (C E : ρ → Prop)
  (hnext : ∀ s s', step s = .ok (.inl s') → pos s' = next (pos s))
  (hcont : ∀ s, (∃ s', step s = .ok (.inl s')) ↔ C (pos s))

include hnext hcont

theorem whileLoop_yields_iff (hexit : ∀ s, (∃ b, step s = .ok (.inr b)) ↔ E (pos s)) (s : σ) :
    (∃ b, Yields (fun n => whileLoop step n s) b) ↔
      ∃ k, (∀ j < k, C (next^[j] (pos s))) ∧ E (next^[k] (pos s)) := by
  constructor
  · rintro ⟨b, n, hn⟩
    induction n generalizing s with
    | zero => cases hn
    | succ n ih =>
        rcases (bind_eq_ok _ _ _).mp hn with ⟨r, hr, hrest⟩
        cases r with
        | inr b' => exact ⟨0, fun j hj => absurd hj (Nat.not_lt_zero j), (hexit s).mp ⟨b', hr⟩⟩
        | inl t =>
            -- The rest leaves after `k` positions, so the whole loop after one more.
            rcases ih t hrest with ⟨k, hbefore, hk⟩
            rw [hnext s t hr] at hbefore hk
            refine ⟨k + 1, fun j hj => ?_, hk⟩
            cases j with
            | zero => exact (hcont s).mp ⟨t, hr⟩
            | succ i => exact hbefore i (by omega)
  · rintro ⟨k, hbefore, hk⟩
    induction k generalizing s with
    | zero =>
        rcases (hexit s).mpr hk with ⟨b, hb⟩
        exact ⟨b, 1, (bind_eq_ok _ _ _).mpr ⟨_, hb, rfl⟩⟩
    | succ k ih =>
        rcases (hcont s).mpr (hbefore 0 (Nat.succ_pos k)) with ⟨t, ht⟩
        -- The pass at the first position goes on, and the rest leaves a pass earlier.
        have hrest := ih t (by rw [hnext s t ht]; exact fun j hj => hbefore (j + 1) (by omega))
          (by rw [hnext s t ht]; exact hk)
        rcases hrest with ⟨b, n, hn⟩
        exact ⟨b, n + 1, (bind_eq_ok _ _ _).mpr ⟨_, ht, hn⟩⟩

theorem whileLoop_avoids_iff {e : Stop} (he : e ≠ .outOfFuel) (S : ρ → Prop)
    (havoid : ∀ s, step s ≠ .error e ↔ S (pos s)) (s : σ) :
    AlwaysAvoids e (fun n => whileLoop step n s) ↔
      ∀ k, (∀ j < k, C (next^[j] (pos s))) → S (next^[k] (pos s)) := by
  constructor
  · intro h k
    induction k generalizing s with
    | zero =>
        intro _
        exact (havoid s).mp fun hs => h 1 ((bind_eq_error _ _ _).mpr (Or.inl hs))
    | succ k ih =>
        intro hbefore
        rcases (hcont s).mpr (hbefore 0 (Nat.succ_pos k)) with ⟨t, ht⟩
        -- Whatever stops the rest stops the loop, with one pass more.
        have hrest : AlwaysAvoids e (fun n => whileLoop step n t) := fun n hn =>
          h (n + 1) ((bind_eq_error _ _ _).mpr (Or.inr ⟨_, ht, hn⟩))
        have hk := ih t hrest
        rw [hnext s t ht] at hk
        exact hk fun j hj => hbefore (j + 1) (by omega)
  · intro h n
    induction n generalizing s with
    | zero => exact fun hc => he (Except.error.inj hc).symm
    | succ n ih =>
        intro hn
        rcases (bind_eq_error _ _ _).mp hn with hs | ⟨r, hr, hrest⟩
        · exact (havoid s).mpr (h 0 fun j hj => absurd hj (Nat.not_lt_zero j)) hs
        · cases r with
          | inr b => cases hrest
          | inl t =>
              -- The cause stopped the rest, whose positions are the later ones.
              refine ih t (fun k hbefore => ?_) hrest
              rw [hnext s t hr] at hbefore ⊢
              refine h (k + 1) fun j hj => ?_
              cases j with
              | zero => exact (hcont s).mp ⟨t, hr⟩
              | succ i => exact hbefore i (by omega)

end While

end Checked
