import Mathlib.Data.List.Basic

/-!
# Decoding UTF-8

A decoder that never fails: what is not UTF-8 is replaced. A byte that cannot
begin a character, and the bytes of a character that is broken off, count for
one replacement character each time. Decoding goes on at the byte that broke
the character off.

After a leading byte the decoder waits for continuation bytes. How many, and in
which range the next one has to be, depends on the leading byte only: the range
is narrower than that of all continuation bytes where a wider one would let
through overlong forms, surrogates or numbers behind the last code point.

ASCII text stands for itself, and nothing else decodes to it.

## Main definitions

* `Pending`: A character of which continuation bytes are missing.
* `decode`: The decoder.

## Theorems

* `decode_ascii`: ASCII text decodes to itself.
* `eq_of_decode_ascii`: What decodes to ASCII text is that text.
-/

namespace Utf8

/-- A character of which `missing` continuation bytes are missing, the next of
    them between `low` and `high`, with the number the bytes so far stand for. -/
structure Pending where
  missing : Nat
  low : Nat
  high : Nat
  number : Nat
  deriving DecidableEq, Repr

/-- `U+FFFD` -/
def replacement : Char := Char.ofNat 0xFFFD

/-- A leading byte: a character of its own, a character to be continued, or
    none. -/
inductive Lead where
  | char (c : Char)
  | open (p : Pending)
  | invalid
  deriving DecidableEq, Repr

/-- What a leading byte begins. -/
def lead (b : Nat) : Lead :=
  if b < 0x80 then .char (Char.ofNat b)
  else if 0xC2 ≤ b ∧ b ≤ 0xDF then .open ⟨1, 0x80, 0xBF, b - 0xC0⟩
  else if b = 0xE0 then .open ⟨2, 0xA0, 0xBF, 0⟩
  else if b = 0xED then .open ⟨2, 0x80, 0x9F, 0xD⟩
  else if 0xE1 ≤ b ∧ b ≤ 0xEF then .open ⟨2, 0x80, 0xBF, b - 0xE0⟩
  else if b = 0xF0 then .open ⟨3, 0x90, 0xBF, 0⟩
  else if 0xF1 ≤ b ∧ b ≤ 0xF3 then .open ⟨3, 0x80, 0xBF, b - 0xF0⟩
  else if b = 0xF4 then .open ⟨3, 0x80, 0x8F, 4⟩
  else .invalid

/-- The number after one more continuation byte. -/
def Pending.extend (p : Pending) (b : Nat) : Nat :=
  p.number * 64 + (b - 0x80)

/-- A byte where a character may begin: what it decodes to, and the character in
    the middle behind it. -/
def begins (b : Nat) : List Char × Option Pending :=
  match lead b with
  | .char c => ([c], none)
  | .open p => ([], some p)
  | .invalid => ([replacement], none)

/-- One byte, in the middle of a character or between two. -/
def step : Option Pending → Nat → List Char × Option Pending
  | none, b => begins b
  | some p, b =>
    if p.low ≤ b ∧ b ≤ p.high then
      if p.missing ≤ 1 then ([Char.ofNat (p.extend b)], none)
      else ([], some ⟨p.missing - 1, 0x80, 0xBF, p.extend b⟩)
    -- The byte does not belong to the character, and may begin the next one.
    else (replacement :: (begins b).1, (begins b).2)

/-- The decoder, in the middle of a character or between two. -/
def decodeFrom : Option Pending → List UInt8 → List Char
  | none, [] => []
  | some _, [] => [replacement]
  | p, b :: bs => (step p b.toNat).1 ++ decodeFrom (step p b.toNat).2 bs

/-- `bytes.decode('utf-8', errors='replace')` -/
def decode (bytes : List UInt8) : List Char :=
  decodeFrom none bytes

/-! ### ASCII -/

/-- What the bytes behind the next one add room for. -/
def Pending.room (p : Pending) : Nat :=
  match p.missing with
  | 3 => 4096
  | 2 => 64
  | _ => 1

/-- The least number a character in the middle can still come to. -/
def Pending.least (p : Pending) : Nat :=
  p.extend p.low * p.room

/-- The first number past those it can still come to. -/
def Pending.bound (p : Pending) : Nat :=
  (p.extend p.high + 1) * p.room

/-- Whatever continuation bytes follow, the character is one, and not ASCII. -/
def Pending.Valid (p : Pending) : Prop :=
  (1 ≤ p.missing ∧ p.missing ≤ 3) ∧ (0x80 ≤ p.low ∧ p.high ≤ 0xBF) ∧ 0x80 ≤ p.least ∧
    (p.bound ≤ 0xD800 ∨ 0xE000 ≤ p.least ∧ p.bound ≤ 0x110000)

theorem toNat_ofNat {n : Nat} (h : n < 0xD800 ∨ 0xE000 ≤ n ∧ n < 0x110000) :
    (Char.ofNat n).toNat = n := by
  have hvalid : n.isValidChar := by
    rcases h with h | h
    · exact Or.inl h
    · exact Or.inr ⟨by omega, h.2⟩
  unfold Char.ofNat
  rw [dif_pos hvalid]
  rfl

/-- A leading byte asks for continuation bytes that lead to a character. -/
theorem valid_of_lead {b : Nat} {p : Pending} (h : lead b = .open p) : p.Valid := by
  unfold lead at h
  split_ifs at h
  all_goals
    cases h
    -- Each leading byte has its own ranges, and they leave out the surrogates.
    unfold Pending.Valid Pending.least Pending.bound Pending.extend Pending.room
    simp only
    omega

/-- A continuation byte in the range leaves a character in the middle that can
    still come to fewer numbers. -/
theorem Pending.Valid.extend {p : Pending} (h : p.Valid) {b : Nat} (hlow : p.low ≤ b)
    (hhigh : b ≤ p.high) (hmissing : ¬ p.missing ≤ 1) :
    (⟨p.missing - 1, 0x80, 0xBF, p.extend b⟩ : Pending).Valid := by
  rcases p with ⟨missing, low, high, number⟩
  unfold Pending.Valid Pending.least Pending.bound Pending.extend Pending.room at h
  simp only at h hlow hhigh hmissing
  have hcases : missing = 2 ∨ missing = 3 := by omega
  rcases hcases with rfl | rfl
  all_goals
    simp only at h
    unfold Pending.Valid Pending.least Pending.bound Pending.extend Pending.room
    simp only
    omega

/-- The last continuation byte makes a character that is not ASCII. -/
theorem Pending.Valid.last {p : Pending} (h : p.Valid) {b : Nat} (hlow : p.low ≤ b)
    (hhigh : b ≤ p.high) (hmissing : p.missing ≤ 1) :
    128 ≤ (Char.ofNat (p.extend b)).toNat := by
  rcases p with ⟨missing, low, high, number⟩
  unfold Pending.Valid Pending.least Pending.bound Pending.extend Pending.room at h
  simp only at h hlow hhigh hmissing
  obtain rfl : missing = 1 := by omega
  simp only at h
  change 128 ≤ (Char.ofNat (number * 64 + (b - 0x80))).toNat
  rw [toNat_ofNat (by omega)]
  omega

theorem replacement_not_ascii : 128 ≤ replacement.toNat := by
  decide

/-- A character in the middle does not come to ASCII text. -/
theorem decodeFrom_pending (bs : List UInt8) {p : Pending} (h : p.Valid) :
    ∃ c ∈ decodeFrom (some p) bs, 128 ≤ c.toNat := by
  induction bs generalizing p with
  | nil => exact ⟨replacement, List.mem_singleton_self _, replacement_not_ascii⟩
  | cons b bs ih =>
      unfold decodeFrom step
      by_cases hrange : p.low ≤ b.toNat ∧ b.toNat ≤ p.high
      · by_cases hmissing : p.missing ≤ 1
        · simp only [if_pos hrange, if_pos hmissing]
          exact ⟨_, List.mem_cons_self, h.last hrange.1 hrange.2 hmissing⟩
        · simp only [if_pos hrange, if_neg hmissing, List.nil_append]
          exact ih (h.extend hrange.1 hrange.2 hmissing)
      · simp only [if_neg hrange]
        exact ⟨replacement, List.mem_cons_self, replacement_not_ascii⟩

/-- ASCII text decodes to itself. -/
theorem decode_ascii {bytes : List UInt8} (h : ∀ b ∈ bytes, b.toNat < 128) :
    decode bytes = bytes.map fun b => Char.ofNat b.toNat := by
  unfold decode
  induction bytes with
  | nil => rfl
  | cons b bs ih =>
      have hb : b.toNat < 0x80 := h b List.mem_cons_self
      unfold decodeFrom step begins lead
      simp only [if_pos hb, List.map_cons, List.singleton_append]
      rw [ih fun c hc => h c (List.mem_cons_of_mem b hc)]

/-- What decodes to ASCII text is that text. -/
theorem eq_of_decode_ascii (bytes : List UInt8) (h : ∀ c ∈ decode bytes, c.toNat < 128) :
    (decode bytes).map Char.toNat = bytes.map UInt8.toNat := by
  unfold decode at *
  induction bytes with
  | nil => rfl
  | cons b bs ih =>
      unfold decodeFrom step begins at h ⊢
      cases hlead : lead b.toNat with
      | char c =>
          simp only [hlead, List.singleton_append] at h ⊢
          -- Only a byte below `0x80` is a character of its own.
          have hc : c.toNat = b.toNat := by
            unfold lead at hlead
            by_cases hb : b.toNat < 0x80
            · rw [if_pos hb] at hlead
              rw [← Lead.char.inj hlead, toNat_ofNat (by omega)]
            · rw [if_neg hb] at hlead
              split_ifs at hlead
          rw [List.map_cons, List.map_cons, hc, ih fun d hd => h d (List.mem_cons_of_mem c hd)]
      | «open» p =>
          simp only [hlead, List.nil_append] at h
          rcases decodeFrom_pending bs (valid_of_lead hlead) with ⟨c, hc, hnot⟩
          exact absurd (h c hc) (by omega)
      | invalid =>
          simp only [hlead, List.singleton_append] at h
          exact absurd (h replacement List.mem_cons_self) (by decide)

end Utf8
