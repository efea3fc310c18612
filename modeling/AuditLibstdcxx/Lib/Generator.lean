import Mathlib.Data.List.Basic

/-!
# Generators

A program that yields items one at a time, to a loop that asks for the next one
when it is done with the last. An exception may end the generator in between:
then the loop has had the items before it, and the exception reaches the loop in
place of the next item.

So a generator is what it yields and what it raises at the end, if anything.
Whether an exception of the loop's own comes first is decided by the loop.

## Main definitions

* `Gen`: A generator.
* `Gen.finished`, `Gen.raise`, `Gen.cons`, `Gen.append`: Putting generators together.
* `Gen.items`: What a loop over the generator is handed.

## Theorems

* `append_finished`: Behind a generator that comes to its end, the next one starts.
* `items_finished`: A loop over it is handed what it yields.
-/

namespace Generator

variable {ε α : Type}

/-- What a generator yields, and what it raises then. -/
structure Gen (ε α : Type) where
  yielded : List α
  raised : Option ε

namespace Gen

/-- A generator that comes to its end. -/
def finished (as : List α) : Gen ε α := ⟨as, none⟩

/-- A generator that raises an exception. -/
def raise (e : ε) : Gen ε α := ⟨[], some e⟩

/-- One item in front. -/
def cons (a : α) (g : Gen ε α) : Gen ε α := ⟨a :: g.yielded, g.raised⟩

/-- One generator and then another, unless the first raises an exception. -/
def append (g h : Gen ε α) : Gen ε α :=
  match g.raised with
  | none => ⟨g.yielded ++ h.yielded, h.raised⟩
  | some e => ⟨g.yielded, some e⟩

/-- What a loop over the generator is handed. -/
def items (g : Gen ε α) : List (Except ε α) :=
  g.yielded.map .ok ++ g.raised.toList.map .error

@[simp] theorem cons_finished (a : α) (as : List α) :
    (finished as : Gen ε α).cons a = finished (a :: as) := rfl

/-- Behind a generator that comes to its end, the next one starts. -/
@[simp] theorem append_finished (as bs : List α) :
    (finished as : Gen ε α).append (finished bs) = finished (as ++ bs) := rfl

@[simp] theorem items_finished (as : List α) :
    (finished as : Gen ε α).items = as.map .ok := by
  simp [finished, items]

end Gen

end Generator
