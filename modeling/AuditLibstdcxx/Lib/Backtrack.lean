import AuditLibstdcxx.Lib.Checked

/-!
# Backtracking Matchers

Regular expressions as a backtracking engine runs them. A matcher is given a
piece of text and what to do afterwards with the part it took and the part it
left. It tries its ways of matching in order of preference and answers with
the first that is carried through to the end; a repetition prefers to take
more, and an optional part prefers to be there.

Two rules are enough for patterns whose parts cannot run into each other.
`plus_sound` takes an answer apart: whatever was answered, the text splits
accordingly. `plus_longest` puts one together: taking as much as possible is
the first way tried, so if that is carried through it is the answer.

## Main definitions

* `plus`: One or more characters of a class.
* `after`: A matcher behind a fixed character.
* `optionally`: A matcher that may be left out.
* `atEnd`: The end of the text.

## Theorems

* `plus_sound`: An answer of a repetition comes from a split of the text.
* `plus_longest`: A repetition takes as much as it can.
* `after_sound`, `optionally_sound`: The same for the other two.
* `optionally_of_some`, `optionally_of_none`: An optional part is tried first.
-/

namespace Backtrack

variable {α β : Type}

/-- One or more characters of a class, as many as possible. -/
def plus (p : Char → Bool) (k : List Char → List Char → Option β) : List Char → Option β
  | [] => none
  | c :: cs =>
    if p c then (plus p (fun taken rest => k (c :: taken) rest) cs).or (k [c] cs)
    else none

/-- A matcher behind a fixed character. -/
def after (sep : Char) (m : (α → List Char → Option β) → List Char → Option β)
    (k : α → List Char → Option β) : List Char → Option β
  | [] => none
  | c :: cs => if c = sep then m k cs else none

/-- A matcher that may be left out, tried first. -/
def optionally (m : (α → List Char → Option β) → List Char → Option β)
    (k : Option α → List Char → Option β) (text : List Char) : Option β :=
  (m (fun taken => k (some taken)) text).or (k none text)

/-- The end of the text. -/
def atEnd (b : β) : List Char → Option β
  | [] => some b
  | _ :: _ => none

theorem atEnd_eq_some (b b' : β) (text : List Char) :
    atEnd b text = some b' ↔ text = [] ∧ b = b' := by
  cases text with
  | nil => simp only [atEnd, Option.some.injEq, true_and]
  | cons c cs => simp only [atEnd, reduceCtorEq, false_and]

/-- An answer of a repetition comes from a split of the text. -/
theorem plus_sound (p : Char → Bool) (b : β) : ∀ (text : List Char)
    (k : List Char → List Char → Option β), plus p k text = some b →
      ∃ taken rest, taken ≠ [] ∧ (∀ c ∈ taken, p c = true) ∧ text = taken ++ rest ∧
        k taken rest = some b := by
  intro text
  induction text with
  | nil =>
      intro k h
      simp only [plus, reduceCtorEq] at h
  | cons c cs ih =>
      intro k h
      simp only [plus] at h
      by_cases hc : p c = true
      · rw [if_pos hc, Option.or_eq_some_iff] at h
        rcases h with hmore | ⟨_, hone⟩
        · rcases ih _ hmore with ⟨taken, rest, _, hall, htext, hk⟩
          refine ⟨c :: taken, rest, List.cons_ne_nil _ _, ?_, by rw [htext, List.cons_append], hk⟩
          exact List.forall_mem_cons.mpr ⟨hc, hall⟩
        · refine ⟨[c], cs, List.cons_ne_nil _ _, ?_, List.singleton_append.symm, hone⟩
          exact List.forall_mem_singleton.mpr hc
      · rw [if_neg hc] at h
        simp only [reduceCtorEq] at h

/-- A repetition stops before a character that is not of its class. -/
theorem plus_stop (p : Char → Bool) (k : List Char → List Char → Option β) (text : List Char)
    (h : ∀ c ∈ text.head?, p c = false) : plus p k text = none := by
  cases text with
  | nil => rfl
  | cons c cs =>
      have hc : p c = false := h c (by rw [List.head?_cons]; exact rfl)
      simp only [plus, hc, Bool.false_eq_true, if_false]

/-- A repetition takes as much as it can. -/
theorem plus_longest (p : Char → Bool) (b : β) : ∀ (taken rest : List Char)
    (k : List Char → List Char → Option β), taken ≠ [] → (∀ c ∈ taken, p c = true) →
      (∀ c ∈ rest.head?, p c = false) → k taken rest = some b →
        plus p k (taken ++ rest) = some b := by
  intro taken
  induction taken with
  | nil => exact fun rest k h => absurd rfl h
  | cons c cs ih =>
      intro rest k _ hall hstop hk
      have hc : p c = true := hall c List.mem_cons_self
      have hcs : ∀ x ∈ cs, p x = true := fun x hx => hall x (List.mem_cons_of_mem _ hx)
      simp only [List.cons_append, plus, hc, if_true]
      by_cases hnil : cs = []
      · -- Nothing more can be taken, so the character alone is what is left to try.
        rw [hnil] at hk ⊢
        rw [List.nil_append, plus_stop p _ rest hstop, Option.none_or]
        exact hk
      · rw [ih rest _ hnil hcs hstop hk, Option.some_or]

theorem after_sound (sep : Char) (m : (α → List Char → Option β) → List Char → Option β)
    (k : α → List Char → Option β) (text : List Char) (b : β) (h : after sep m k text = some b) :
    ∃ rest, text = sep :: rest ∧ m k rest = some b := by
  cases text with
  | nil => simp only [after, reduceCtorEq] at h
  | cons c cs =>
      simp only [after] at h
      by_cases hc : c = sep
      · rw [if_pos hc] at h
        exact ⟨cs, by rw [hc], h⟩
      · rw [if_neg hc] at h
        simp only [reduceCtorEq] at h

theorem after_sep (sep : Char) (m : (α → List Char → Option β) → List Char → Option β)
    (k : α → List Char → Option β) (text : List Char) :
    after sep m k (sep :: text) = m k text := by
  simp only [after, if_true]

theorem optionally_sound (m : (α → List Char → Option β) → List Char → Option β)
    (k : Option α → List Char → Option β) (text : List Char) (b : β)
    (h : optionally m k text = some b) :
    m (fun taken => k (some taken)) text = some b ∨ k none text = some b := by
  unfold optionally at h
  rw [Option.or_eq_some_iff] at h
  rcases h with hthere | ⟨_, hleft⟩
  · exact Or.inl hthere
  · exact Or.inr hleft

theorem optionally_of_some (m : (α → List Char → Option β) → List Char → Option β)
    (k : Option α → List Char → Option β) (text : List Char) (b : β)
    (h : m (fun taken => k (some taken)) text = some b) : optionally m k text = some b := by
  unfold optionally
  rw [h, Option.some_or]

theorem optionally_of_none (m : (α → List Char → Option β) → List Char → Option β)
    (k : Option α → List Char → Option β) (text : List Char)
    (h : m (fun taken => k (some taken)) text = none) : optionally m k text = k none text := by
  unfold optionally
  rw [h, Option.none_or]

end Backtrack
