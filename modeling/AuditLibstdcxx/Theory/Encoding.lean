import AuditLibstdcxx.Core.GetVersion
import AuditLibstdcxx.Core.PyVersion

/-!
# What the Encoder Makes of a String

The C side of version names, on proper C strings: characters followed by a
zero. The character loop is followed run of digits by run of digits. Each run
adds its digits to one accumulator, whatever comes behind it, so a dotted
version is read one component at a time.

## Main definitions

* `cString`: The bytes of a C string.
* `Numeral`, `Dotted`: Version strings and the versions they spell.
* `stringVersion`: The version a name carries, on a C string.

## Theorems

* `scanVersion_run`: A run of digits is read as a number modulo `2 ^ 32`.
* `versionStringToInt_dotted`: What a dotted version encodes to.
* `strncmpEq_cString`: The test for `GLIBCXX_` is a test for a prefix.
* `nameVersion_eq`: The reader treats a name in a file as a C string.
-/

namespace AuditLibstdcxx

open Checked

section Characters

/-- The bytes of a C string. -/
def cString (s : List Char) : List UInt8 :=
  s.map Char.toUInt8 ++ [0]

/-- A string of ASCII characters. -/
def Ascii (s : List Char) : Prop :=
  ∀ c ∈ s, c.toNat < 128

instance (s : List Char) : Decidable (Ascii s) :=
  decidable_of_iff (s.all (fun c => decide (c.toNat < 128)) = true)
    (by simp only [List.all_eq_true, decide_eq_true_eq, Ascii])

theorem toNat_toUInt8 {c : Char} (h : c.toNat < 128) : c.toUInt8.toNat = c.toNat := by
  have hmod : c.toUInt8.toNat = c.toNat % 256 := rfl
  rw [hmod, Nat.mod_eq_of_lt (by omega)]

theorem toUInt8_eq_iff {c d : Char} (hc : c.toNat < 128) (hd : d.toNat < 128) :
    c.toUInt8 = d.toUInt8 ↔ c = d := by
  constructor
  · intro h
    have hnat := congrArg UInt8.toNat h
    rw [toNat_toUInt8 hc, toNat_toUInt8 hd] at hnat
    exact Char.ext (UInt32.toNat_inj.mp hnat)
  · exact congrArg Char.toUInt8

theorem isDigit_iff (c : Char) : c.isDigit = true ↔ '0'.toNat ≤ c.toNat ∧ c.toNat ≤ '9'.toNat := by
  unfold Char.isDigit
  simp only [Bool.and_eq_true, decide_eq_true_eq, ge_iff_le, UInt32.le_iff_toNat_le]
  rfl

theorem isDigit_lt {c : Char} (h : c.isDigit = true) : c.toNat < 128 := by
  have hle := ((isDigit_iff c).mp h).2
  exact Nat.lt_of_le_of_lt hle (by decide)

/-- The byte of a decimal digit. -/
def IsDigitByte (c : UInt8) : Prop :=
  '0'.toUInt8 ≤ c ∧ c ≤ '9'.toUInt8

instance : DecidablePred IsDigitByte :=
  fun _ => inferInstanceAs (Decidable (_ ∧ _))

/-- The two tests for a digit agree on ASCII. -/
theorem isDigit_toUInt8 {c : Char} (h : c.toNat < 128) :
    IsDigitByte c.toUInt8 ↔ c.isDigit = true := by
  rw [IsDigitByte, isDigit_iff, UInt8.le_iff_toNat_le, UInt8.le_iff_toNat_le, toNat_toUInt8 h]
  rfl

/-- On ASCII the decimal digits are `0` to `9`. The other zeros of Unicode are
    all behind it. -/
theorem decimalValue_ascii {c : Char} (h : c.toNat < 128) :
    decimalValue c = if c.isDigit then some (c.toNat - '0'.toNat) else none := by
  have hothers : decimalZeros.tail.find? (fun low => low ≤ c.toNat && c.toNat < low + 10) =
      none := by
    rw [List.find?_eq_none]
    intro low hlow
    have hbehind : decimalZeros.tail.all (fun low => 128 ≤ low) = true := by decide
    have hle := of_decide_eq_true (List.all_eq_true.mp hbehind low hlow)
    rw [Bool.and_eq_true, decide_eq_true_eq]
    omega
  have hzeros : decimalZeros = '0'.toNat :: decimalZeros.tail := rfl
  unfold decimalValue
  rw [hzeros, List.find?_cons]
  by_cases hdigit : c.isDigit = true
  · have hrange := (isDigit_iff c).mp hdigit
    have hfirst : ('0'.toNat ≤ c.toNat && c.toNat < '0'.toNat + 10) = true := by
      rw [Bool.and_eq_true, decide_eq_true_eq, decide_eq_true_eq]
      exact ⟨hrange.1, Nat.lt_succ_of_le hrange.2⟩
    rw [if_pos hdigit, hfirst, Option.map_some]
  · have hfirst : ('0'.toNat ≤ c.toNat && c.toNat < '0'.toNat + 10) = false := by
      rw [Bool.eq_false_iff, ne_eq, Bool.and_eq_true, decide_eq_true_eq, decide_eq_true_eq]
      exact fun hrange => hdigit ((isDigit_iff c).mpr ⟨hrange.1, Nat.le_of_lt_succ hrange.2⟩)
    rw [if_neg hdigit, hfirst, hothers]
    rfl

theorem isDecimal_ascii {c : Char} (h : c.toNat < 128) : isDecimal c = c.isDigit := by
  unfold isDecimal
  rw [decimalValue_ascii h]
  cases c.isDigit <;> rfl

theorem isDecimal_of_isDigit {c : Char} (h : c.isDigit = true) : isDecimal c = true := by
  rw [isDecimal_ascii (isDigit_lt h), h]

theorem dot_not_isDecimal : isDecimal '.' = false :=
  isDecimal_ascii (by decide)

end Characters

namespace MajorMinorRevision

/-- `major_minor_revision[v]` -/
def get (m : MajorMinorRevision) : Fin 3 → Nat
  | 0 => m.major
  | 1 => m.minor
  | 2 => m.revision

def set (m : MajorMinorRevision) (v : Fin 3) (x : Nat) : MajorMinorRevision :=
  match v with
  | 0 => { m with major := x }
  | 1 => { m with minor := x }
  | 2 => { m with revision := x }

@[simp]
theorem get_set_self (m : MajorMinorRevision) (v : Fin 3) (x : Nat) : (m.set v x).get v = x := by
  match v with
  | 0 => rfl
  | 1 => rfl
  | 2 => rfl

@[simp]
theorem set_set (m : MajorMinorRevision) (v : Fin 3) (x y : Nat) :
    (m.set v x).set v y = m.set v y := by
  match v with
  | 0 => rfl
  | 1 => rfl
  | 2 => rfl

@[simp]
theorem set_get (m : MajorMinorRevision) (v : Fin 3) : m.set v (m.get v) = m := by
  match v with
  | 0 => rfl
  | 1 => rfl
  | 2 => rfl

theorem appendDigit_eq (m : MajorMinorRevision) (v : Fin 3) (d : Nat) :
    m.appendDigit v d = m.set v ((m.get v * 10 + d) % 2 ^ 32) := by
  match v with
  | 0 => rfl
  | 1 => rfl
  | 2 => rfl

end MajorMinorRevision

section Scan

/-- The value of a run of digits. -/
def decimal (digits : List UInt8) : Nat :=
  digits.foldl (fun n c => n * 10 + (c.toNat - '0'.toNat)) 0

/-- Appending digits modulo a number is appending them and reducing at the end. -/
theorem foldl_digits_mod (M : Nat) : ∀ (digits : List UInt8) (n : Nat),
    digits.foldl (fun n c => (n * 10 + (c.toNat - '0'.toNat)) % M) (n % M) =
      digits.foldl (fun n c => n * 10 + (c.toNat - '0'.toNat)) n % M := by
  intro digits
  induction digits with
  | nil => exact fun n => rfl
  | cons c cs ih =>
      intro n
      simp only [List.foldl_cons]
      rw [← ih, Nat.add_mod (n % M * 10), Nat.mul_mod (n % M), Nat.mod_mod, ← Nat.mul_mod,
        ← Nat.add_mod]

/-- One pass of the loop, at a digit. -/
theorem scanVersion_digit {c : UInt8} (hc : IsDigitByte c) (m : MajorMinorRevision) (v : Fin 3)
    (rest : List UInt8) : scanVersion m v (c :: rest) =
      scanVersion (m.set v ((m.get v * 10 + (c.toNat - '0'.toNat)) % 2 ^ 32)) v rest := by
  have hzero : c ≠ 0 := by
    intro h
    rw [h] at hc
    exact absurd hc (by decide)
  have hdot : c ≠ '.'.toUInt8 := by
    intro h
    rw [h] at hc
    exact absurd hc (by decide)
  rw [scanVersion, if_neg hzero, if_neg (fun h => hdot h.1),
    if_pos (show '0'.toUInt8 ≤ c ∧ c ≤ '9'.toUInt8 from hc), MajorMinorRevision.appendDigit_eq]

/-- A run of digits is read as a number modulo `2 ^ 32`, whatever is behind it. -/
theorem scanVersion_run (v : Fin 3) (rest : List UInt8) : ∀ (digits : List UInt8)
    (m : MajorMinorRevision), (∀ c ∈ digits, IsDigitByte c) → m.get v < 2 ^ 32 →
      scanVersion m v (digits ++ rest) = scanVersion (m.set v
        (digits.foldl (fun n c => n * 10 + (c.toNat - '0'.toNat)) (m.get v) % 2 ^ 32)) v rest := by
  intro digits
  induction digits with
  | nil =>
      intro m _ hm
      simp only [List.nil_append, List.foldl_nil, Nat.mod_eq_of_lt hm, MajorMinorRevision.set_get]
  | cons c cs ih =>
      intro m hall hm
      have hc : IsDigitByte c := hall c List.mem_cons_self
      have hcs : ∀ x ∈ cs, IsDigitByte x := fun x hx => hall x (List.mem_cons_of_mem _ hx)
      have hlt : (m.set v ((m.get v * 10 + (c.toNat - '0'.toNat)) % 2 ^ 32)).get v < 2 ^ 32 := by
        rw [MajorMinorRevision.get_set_self]
        exact Nat.mod_lt _ (Nat.two_pow_pos 32)
      simp only [List.cons_append, List.foldl_cons]
      rw [scanVersion_digit hc, ih _ hcs hlt, MajorMinorRevision.set_set,
        MajorMinorRevision.get_set_self]
      -- The reduction after the first digit is absorbed by the one at the end.
      rw [← foldl_digits_mod (2 ^ 32) cs, Nat.mod_mod, foldl_digits_mod]

/-- A run of digits is read into an accumulator that is still zero. -/
theorem scanVersion_component {digits : List UInt8} (hdigits : ∀ c ∈ digits, IsDigitByte c)
    (m : MajorMinorRevision) (v : Fin 3) (hm : m.get v = 0) (rest : List UInt8) :
    scanVersion m v (digits ++ rest) =
      scanVersion (m.set v (decimal digits % 2 ^ 32)) v rest := by
  rw [scanVersion_run v rest digits m hdigits (by rw [hm]; exact Nat.two_pow_pos 32), hm]
  rfl

/-- A dot moves on to the next component, if there is one. -/
theorem scanVersion_dot (m : MajorMinorRevision) {v : Fin 3} (hv : v < 2) (rest : List UInt8) :
    scanVersion m v ('.'.toUInt8 :: rest) = scanVersion m (v + 1) rest := by
  rw [scanVersion, if_neg (by decide), if_pos ⟨rfl, hv⟩]

/-- The terminator ends the loop. -/
theorem scanVersion_zero (m : MajorMinorRevision) (v : Fin 3) (rest : List UInt8) :
    scanVersion m v (0 :: rest) = .ok m := by
  rw [scanVersion, if_pos rfl]

/-- So does any character that is no digit and, as long as dots count, no dot. -/
theorem scanVersion_stop {c : UInt8} (hdigit : ¬ IsDigitByte c) (m : MajorMinorRevision)
    {v : Fin 3} (hdot : ¬ (c = '.'.toUInt8 ∧ v < 2)) (rest : List UInt8) :
    scanVersion m v (c :: rest) = .ok m := by
  rw [scanVersion]
  by_cases hzero : c = 0
  · rw [if_pos hzero]
  · rw [if_neg hzero, if_neg hdot,
      if_neg (show ¬ ('0'.toUInt8 ≤ c ∧ c ≤ '9'.toUInt8) from hdigit)]

/-- A character that is neither a digit nor a dot ends it anywhere. -/
theorem scanVersion_other {c : Char} (hascii : c.toNat < 128) (hdigit : c.isDigit = false)
    (hdot : c ≠ '.') (m : MajorMinorRevision) (v : Fin 3) (rest : List UInt8) :
    scanVersion m v (c.toUInt8 :: rest) = .ok m := by
  have hdigit' : ¬ IsDigitByte c.toUInt8 := by
    rw [isDigit_toUInt8 hascii, hdigit]
    exact Bool.false_ne_true
  have hdot' : c.toUInt8 ≠ '.'.toUInt8 := by
    rwa [ne_eq, toUInt8_eq_iff hascii (by decide)]
  exact scanVersion_stop hdigit' m (fun h => hdot' h.1) rest

end Scan

section Dotted

/-- A run of digits that is not empty. -/
structure Numeral (s : List Char) : Prop where
  nonempty : s ≠ []
  digits : ∀ c ∈ s, c.isDigit = true

instance (s : List Char) : Decidable (Numeral s) :=
  decidable_of_iff (s ≠ [] ∧ s.all Char.isDigit = true)
    ⟨fun h => ⟨h.1, List.all_eq_true.mp h.2⟩, fun h => ⟨h.nonempty, List.all_eq_true.mpr h.digits⟩⟩

/-- The version strings `A`, `A.B` and `A.B.C`, with the versions they spell. -/
inductive Dotted : List Char → VersionTuple → Prop
  | major {a : List Char} (ha : Numeral a) : Dotted a (versionTuple (pyInt a) 0 0)
  | minor {a b : List Char} (ha : Numeral a) (hb : Numeral b) :
      Dotted (a ++ '.' :: b) (versionTuple (pyInt a) (pyInt b) 0)
  | patch {a b c : List Char} (ha : Numeral a) (hb : Numeral b) (hc : Numeral c) :
      Dotted (a ++ '.' :: (b ++ '.' :: c)) (versionTuple (pyInt a) (pyInt b) (pyInt c))

/-- What the accumulators hold after a dotted version. -/
def accumulated (t : VersionTuple) : MajorMinorRevision :=
  ⟨(ofLex t).1 % 2 ^ 32, (ofLex (ofLex t).2).1 % 2 ^ 32, (ofLex (ofLex t).2).2 % 2 ^ 32⟩

/-- Its bytes are those of digits. -/
theorem Numeral.isDigitByte {a : List Char} (ha : Numeral a) :
    ∀ c ∈ a.map Char.toUInt8, IsDigitByte c := by
  intro c hc
  rcases List.mem_map.mp hc with ⟨d, hd, rfl⟩
  have hdigit := ha.digits d hd
  exact (isDigit_toUInt8 (isDigit_lt hdigit)).mpr hdigit

/-- The two readings of a run of digits agree. -/
theorem decimal_map {a : List Char} (ha : Numeral a) : decimal (a.map Char.toUInt8) = pyInt a := by
  unfold decimal pyInt
  rw [List.foldl_map]
  refine List.foldl_ext _ _ _ fun n c hc => ?_
  have hdigit := ha.digits c hc
  rw [toNat_toUInt8 (isDigit_lt hdigit), decimalValue_ascii (isDigit_lt hdigit), if_pos hdigit]
  rfl

/-- Reading a component into an accumulator that is still zero. -/
theorem scanVersion_numeral {a : List Char} (ha : Numeral a) (m : MajorMinorRevision) (v : Fin 3)
    (hm : m.get v = 0) (rest : List UInt8) :
    scanVersion m v (a.map Char.toUInt8 ++ rest) =
      scanVersion (m.set v (pyInt a % 2 ^ 32)) v rest := by
  rw [scanVersion_component ha.isDigitByte m v hm, decimal_map ha]

theorem scanVersion_dotted {s : List Char} {t : VersionTuple} (h : Dotted s t) :
    scanVersion ⟨0, 0, 0⟩ 0 (cString s) = .ok (accumulated t) := by
  unfold cString
  cases h with
  | major ha =>
      rw [scanVersion_numeral ha _ 0 rfl, scanVersion_zero]
      rfl
  | minor ha hb =>
      simp only [List.map_append, List.map_cons, List.append_assoc, List.cons_append]
      rw [scanVersion_numeral ha _ 0 rfl, scanVersion_dot _ (by decide),
        scanVersion_numeral hb _ (0 + 1) rfl, scanVersion_zero]
      rfl
  | patch ha hb hc =>
      simp only [List.map_append, List.map_cons, List.append_assoc, List.cons_append]
      rw [scanVersion_numeral ha _ 0 rfl, scanVersion_dot _ (by decide),
        scanVersion_numeral hb _ (0 + 1) rfl, scanVersion_dot _ (by decide),
        scanVersion_numeral hc _ (0 + 1 + 1) rfl, scanVersion_zero]
      rfl

/-- What a dotted version encodes to. -/
theorem versionStringToInt_dotted {s : List Char} {t : VersionTuple} (h : Dotted s t) :
    versionStringToInt (cString s) = .ok (packVersion (accumulated t)) := by
  unfold versionStringToInt
  rw [scanVersion_dotted h]
  rfl

/-- A suffix that does not begin like a version encodes to zero. -/
theorem versionStringToInt_other {c : Char} {s : List Char} (hascii : c.toNat < 128)
    (hdigit : c.isDigit = false) (hdot : c ≠ '.') :
    versionStringToInt (cString (c :: s)) = .ok 0 := by
  unfold versionStringToInt cString
  rw [List.map_cons, List.cons_append, scanVersion_other hascii hdigit hdot]
  rfl

end Dotted

section Names

/-- Comparing a C string with a literal is testing for a prefix. -/
theorem strncmpEq_cString : ∀ (lit s : List Char), (∀ c ∈ lit, c.toNat < 128 ∧ c ≠ '\x00') →
    Ascii s → strncmpEq (cString s) (lit.map Char.toUInt8) = .ok (decide (lit <+: s)) := by
  intro lit
  induction lit with
  | nil =>
      intro s _ _
      simp only [List.map_nil, List.nil_prefix, decide_true]
      cases s <;> rfl
  | cons l ls ih =>
      intro s hlit hs
      have hl := hlit l List.mem_cons_self
      cases s with
      | nil =>
          have hzero : (0 : UInt8) ≠ l.toUInt8 := by
            rw [show (0 : UInt8) = '\x00'.toUInt8 from rfl, ne_eq, toUInt8_eq_iff (by decide) hl.1]
            exact Ne.symm hl.2
          simp only [cString, List.map_nil, List.nil_append, List.map_cons, strncmpEq, hzero,
            if_false, List.prefix_nil, reduceCtorEq, decide_false]
      | cons c cs =>
          have hc := hs c List.mem_cons_self
          have hrest := ih cs (fun x hx => hlit x (List.mem_cons_of_mem _ hx))
            (fun x hx => hs x (List.mem_cons_of_mem _ hx))
          unfold cString at hrest ⊢
          simp only [List.map_cons, List.cons_append, strncmpEq, toUInt8_eq_iff hc hl.1,
            List.cons_prefix_cons]
          by_cases heq : c = l
          · simp only [heq, if_true, true_and]
            exact hrest
          · simp only [heq, if_false, Ne.symm heq, false_and, decide_false]

theorem glibcxx_chars : ∀ c ∈ glibcxx, c.toNat < 128 ∧ c ≠ '\x00' := by
  have hascii : Ascii glibcxx := by decide
  have hzero : '\x00' ∉ glibcxx := by decide
  exact fun c hc => ⟨hascii c hc, fun h => hzero (h ▸ hc)⟩

/-- The version a name carries, if it starts with `GLIBCXX_`. -/
def stringVersion (str : List UInt8) : Run (Option Nat) := do
  if ← strncmpEq str glibcxxPrefix then
    let version ← versionStringToInt (str.drop 8)
    return some version
  else
    return none

/-- The reader treats a name in a file as the C string that starts there. -/
theorem nameVersion_eq (m : Image) (p : Nat) : nameVersion m p = stringVersion (m.tail p) := by
  unfold nameVersion stringVersion
  cases h : strncmpEq (m.tail p) glibcxxPrefix with
  | error e => rfl
  | ok b =>
      cases b with
      | false => rfl
      | true =>
          -- Eight characters were compared, and the version is what follows them.
          rcases prefix_of_strncmpEq _ _ h with ⟨rest, hrest⟩
          have hversion : m.tail (m.ptrAdd p 8) = rest :=
            Image.tail_ptrAdd_of_prefix (by decide) hrest
          have hdrop : (m.tail p).drop 8 = rest := by
            rw [hrest, List.drop_left' (show glibcxxPrefix.length = 8 from rfl)]
          rw [hversion, hdrop]

/-- A name on a C string: its version is that of what follows the prefix. -/
theorem stringVersion_cString {s : List Char} (hs : Ascii s) : stringVersion (cString s) =
    if glibcxx <+: s then (versionStringToInt (cString (s.drop 8)) >>= fun v => pure (some v))
    else .ok none := by
  have hdrop : 8 ≤ s.length → (cString s).drop 8 = cString (s.drop 8) := by
    intro hlen
    unfold cString
    rw [List.drop_append_of_le_length (by rw [List.length_map]; exact hlen), List.map_drop]
  unfold stringVersion
  rw [show glibcxxPrefix = glibcxx.map Char.toUInt8 from rfl,
    strncmpEq_cString glibcxx s glibcxx_chars hs, ok_bind]
  by_cases hstarts : glibcxx <+: s
  · simp only [hstarts, decide_true, if_true]
    rw [hdrop hstarts.length_le]
  · simp only [hstarts, decide_false, Bool.false_eq_true, if_false]
    rfl

end Names

end AuditLibstdcxx
