import AuditLibstdcxx.Lib.Checked

/-!
# Version Strings

The encoder behind every version comparison the C library makes.
`version_string_to_int` reads a name such as `3.4.30` character by character
and packs three components into `0x00AABBCC`.

A `char*` is modelled by the memory that starts where it points: the list of
bytes up to the end of what may be read. Strings inside a mapped file need
not be terminated, so a scan that reaches the end of that list has left the
memory it was given and stops with `outOfRange`. A proper C string is a list
without zeros followed by a zero.

The accumulators of the source are `uint32_t`, so appending a digit is taken
modulo `2 ^ 32`; the clamp to 255 happens once, after the scan.

## Main definitions

* `uintMin`, `uintMax`: The two comparisons of the source.
* `MajorMinorRevision`: The array of three accumulators.
* `scanVersion`: The character loop.
* `packVersion`: The packing loop.
* `versionStringToInt`: The encoder.
* `strncmpEq`: `strncmp` against a literal of full length, as a test for zero.

## Theorems

* `packVersion_eq`: The packed value as a sum of its three bytes.
* `packVersion_lt`: A packed version fits in 24 bits.
* `versionStringToInt_lt`: An encoded version fits in 24 bits.
* `strncmpEq_eq_true_iff`: Comparing with a literal is testing for a prefix.
* `strncmpEq_ne_outOfRange`: Where a comparison that stays inside stops.
* `strncmpEq_of_terminated`: Comparing a terminated string stays inside it.
-/

namespace AuditLibstdcxx

open Checked

/-- `uint_min` -/
def uintMin (a b : Nat) : Nat :=
  if a < b then a else b

/-- `uint_max` -/
def uintMax (a b : Nat) : Nat :=
  if a > b then a else b

theorem uintMin_eq (a b : Nat) : uintMin a b = min a b := by
  unfold uintMin
  by_cases h : a < b
  · rw [if_pos h, min_eq_left (Nat.le_of_lt h)]
  · rw [if_neg h, min_eq_right (Nat.le_of_not_lt h)]

theorem uintMax_eq (a b : Nat) : uintMax a b = max a b := by
  unfold uintMax
  by_cases h : a > b
  · rw [if_pos h, max_eq_left (Nat.le_of_lt h)]
  · rw [if_neg h, max_eq_right (Nat.le_of_not_lt h)]

/-- The accumulators `major_minor_revision[3]`. -/
structure MajorMinorRevision where
  major : Nat
  minor : Nat
  revision : Nat
  deriving DecidableEq, Repr

namespace MajorMinorRevision

/-- `major_minor_revision[v] = major_minor_revision[v] * 10 + d`, in 32 bits. -/
def appendDigit (m : MajorMinorRevision) (v : Fin 3) (d : Nat) : MajorMinorRevision :=
  match v with
  | 0 => { m with major := (m.major * 10 + d) % 2 ^ 32 }
  | 1 => { m with minor := (m.minor * 10 + d) % 2 ^ 32 }
  | 2 => { m with revision := (m.revision * 10 + d) % 2 ^ 32 }

end MajorMinorRevision

/-- The loop over the characters of a version string. -/
def scanVersion (m : MajorMinorRevision) (v : Fin 3) : List UInt8 → Run MajorMinorRevision
  | [] => .error .outOfRange
  | c :: cs =>
    if c = 0 then .ok m
    else if c = '.'.toUInt8 ∧ v < 2 then scanVersion m (v + 1) cs
    else if '0'.toUInt8 ≤ c ∧ c ≤ '9'.toUInt8 then
      scanVersion (m.appendDigit v (c.toNat - '0'.toNat)) v cs
    else .ok m

/-- The loop `version = (version << 8) | uint_min(component, 255)`. -/
def packVersion (m : MajorMinorRevision) : Nat :=
  [m.major, m.minor, m.revision].foldl
    (fun version c => version <<< 8 % 2 ^ 32 ||| uintMin c 255) 0

/-- `version_string_to_int` -/
def versionStringToInt (str : List UInt8) : Run Nat := do
  let m ← scanVersion ⟨0, 0, 0⟩ 0 str
  return packVersion m

theorem shift_or_byte (x c : Nat) (hx : x < 2 ^ 24) (hc : c < 2 ^ 8) :
    x <<< 8 % 2 ^ 32 ||| c = x * 2 ^ 8 + c := by
  rw [Nat.shiftLeft_eq, Nat.mod_eq_of_lt (by omega), Nat.mul_comm]
  exact (Nat.two_pow_add_eq_or_of_lt hc x).symm

theorem packVersion_eq (m : MajorMinorRevision) :
    packVersion m = min m.major 255 * 65536 + min m.minor 255 * 256 + min m.revision 255 := by
  have h1 : min m.major 255 ≤ 255 := Nat.min_le_right _ _
  have h2 : min m.minor 255 ≤ 255 := Nat.min_le_right _ _
  have h3 : min m.revision 255 ≤ 255 := Nat.min_le_right _ _
  unfold packVersion
  simp only [List.foldl_cons, List.foldl_nil, uintMin_eq]
  rw [shift_or_byte 0 (min m.major 255) (by omega) (by omega),
    shift_or_byte (0 * 2 ^ 8 + min m.major 255) (min m.minor 255) (by omega) (by omega),
    shift_or_byte ((0 * 2 ^ 8 + min m.major 255) * 2 ^ 8 + min m.minor 255) _ (by omega) (by omega)]
  omega

theorem packVersion_lt (m : MajorMinorRevision) : packVersion m < 2 ^ 24 := by
  rw [packVersion_eq]
  omega

theorem versionStringToInt_lt (str : List UInt8) (v : Nat) (h : versionStringToInt str = .ok v) :
    v < 2 ^ 24 := by
  rcases (bind_eq_ok _ _ _).mp h with ⟨m, _, hm⟩
  cases hm
  exact packVersion_lt m

/-- Whether `strncmp(str, literal, n)` is zero, for a literal of exactly `n`
    characters. Memory is read up to the first difference. -/
def strncmpEq : List UInt8 → List UInt8 → Run Bool
  | _, [] => .ok true
  | [], _ :: _ => .error .outOfRange
  | c :: cs, l :: ls => if c = l then strncmpEq cs ls else .ok false

theorem strncmpEq_append (lit rest : List UInt8) : strncmpEq (lit ++ rest) lit = .ok true := by
  induction lit with
  | nil => cases rest <;> rfl
  | cons l ls ih =>
      simp only [List.cons_append, strncmpEq, if_true]
      exact ih

/-- A comparison that succeeds has read the whole literal. -/
theorem prefix_of_strncmpEq : ∀ (lit str : List UInt8), strncmpEq str lit = .ok true →
    ∃ rest, str = lit ++ rest := by
  intro lit
  induction lit with
  | nil => exact fun str _ => ⟨str, rfl⟩
  | cons l ls ih =>
      intro str h
      cases str with
      | nil => cases h
      | cons c cs =>
          simp only [strncmpEq] at h
          by_cases hc : c = l
          · rw [if_pos hc] at h
            rcases ih cs h with ⟨rest, hrest⟩
            exact ⟨rest, by rw [hc, hrest, List.cons_append]⟩
          · rw [if_neg hc] at h
            cases h

/-- Comparing for equality with a literal is testing for a prefix. -/
theorem strncmpEq_eq_true_iff (lit str : List UInt8) :
    strncmpEq str lit = .ok true ↔ lit <+: str := by
  constructor
  · intro h
    rcases prefix_of_strncmpEq lit str h with ⟨rest, rfl⟩
    exact List.prefix_append lit rest
  · rintro ⟨rest, rfl⟩
    exact strncmpEq_append lit rest

theorem strncmpEq_cases : ∀ (str lit : List UInt8),
    strncmpEq str lit = .error .outOfRange ∨ ∃ b, strncmpEq str lit = .ok b := by
  intro str
  induction str with
  | nil =>
      intro lit
      cases lit with
      | nil => exact Or.inr ⟨true, rfl⟩
      | cons l ls => exact Or.inl rfl
  | cons x xs ih =>
      intro lit
      cases lit with
      | nil => exact Or.inr ⟨true, rfl⟩
      | cons l ls =>
          simp only [strncmpEq]
          by_cases hx : x = l
          · rw [if_pos hx]
            exact ih ls
          · rw [if_neg hx]
            exact Or.inr ⟨false, rfl⟩

/-- A comparison stays inside memory that holds as many bytes as the literal,
    or a byte the literal does not have in that place. -/
theorem strncmpEq_ne_outOfRange : ∀ (lit str : List UInt8),
    strncmpEq str lit ≠ .error .outOfRange ↔
      lit.length ≤ str.length ∨ ∃ k < lit.length, ∃ c, str[k]? = some c ∧ lit[k]? ≠ some c := by
  intro lit
  induction lit with
  | nil =>
      intro str
      refine iff_of_true ?_ (Or.inl (Nat.zero_le _))
      cases str <;> exact ok_ne_error _ _
  | cons l ls ih =>
      intro str
      cases str with
      | nil =>
          refine iff_of_false (fun h => h rfl) ?_
          rintro (hlen | ⟨k, _, c, hc, _⟩)
          · exact Nat.not_succ_le_zero _ hlen
          · rw [List.getElem?_nil] at hc
            cases hc
      | cons x xs =>
          simp only [strncmpEq]
          by_cases hx : x = l
          · -- A byte that differs is behind the first one.
            rw [if_pos hx, ih xs, List.length_cons, List.length_cons, Nat.succ_le_succ_iff]
            refine or_congr_right ⟨?_, ?_⟩
            · rintro ⟨k, hk, c, hc, hdiffers⟩
              exact ⟨k + 1, Nat.succ_lt_succ hk, c, hc, hdiffers⟩
            · rintro ⟨k, hk, c, hc, hdiffers⟩
              cases k with
              | zero => exact absurd (hx ▸ hc) hdiffers
              | succ k => exact ⟨k, Nat.lt_of_succ_lt_succ hk, c, hc, hdiffers⟩
          · rw [if_neg hx]
            refine iff_of_true (ok_ne_error _ _) (Or.inr ⟨0, Nat.succ_pos _, x, rfl, ?_⟩)
            exact fun h => hx (Option.some.inj h).symm

/-- Comparing a terminated string stays inside it: the terminator is not a
    character of the literal. -/
theorem strncmpEq_of_terminated (lit str : List UInt8) (hlit : 0 ∉ lit) (hstr : 0 ∈ str) :
    strncmpEq str lit ≠ .error .outOfRange := by
  rw [strncmpEq_ne_outOfRange]
  rcases List.mem_iff_getElem?.mp hstr with ⟨k, hk⟩
  by_cases hlen : lit.length ≤ k
  · exact Or.inl (Nat.le_trans hlen (Nat.le_of_lt (List.getElem?_eq_some_iff.mp hk).1))
  · exact Or.inr ⟨k, by omega, 0, hk, fun h => hlit (List.mem_of_getElem? h)⟩

/-- On a terminated string the comparison always has an answer. -/
theorem strncmpEq_eq_decide {lit str : List UInt8} (hlit : 0 ∉ lit) (hstr : 0 ∈ str) :
    strncmpEq str lit = .ok (decide (lit <+: str)) := by
  rcases strncmpEq_cases str lit with h | ⟨b, h⟩
  · exact absurd h (strncmpEq_of_terminated lit str hlit hstr)
  · cases b with
    | true => rw [h, decide_eq_true ((strncmpEq_eq_true_iff lit str).mp h)]
    | false =>
        have hnot : ¬ lit <+: str := by
          intro hc
          rw [(strncmpEq_eq_true_iff lit str).mpr hc] at h
          exact Bool.false_ne_true (Except.ok.inj h).symm
        rw [h, decide_eq_false hnot]

/-- The bytes of `"GLIBCXX_"`. -/
def glibcxxPrefix : List UInt8 :=
  ['G', 'L', 'I', 'B', 'C', 'X', 'X', '_'].map Char.toUInt8

/-- The bytes of `".gnu.version_d"`. -/
def gnuVersionD : List UInt8 :=
  ['.', 'g', 'n', 'u', '.', 'v', 'e', 'r', 's', 'i', 'o', 'n', '_', 'd'].map Char.toUInt8

end AuditLibstdcxx
