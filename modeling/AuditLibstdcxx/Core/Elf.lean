import AuditLibstdcxx.Lib.Checked

/-!
# Mapped ELF Files

The memory the ELF reader works on: a file mapped read-only, seen through the
structures of `elf.h` for the class the library is built for.

A pointer into the mapping is the distance from its start, modulo the word
size. Distances below the file size are the bytes of the file; every other
distance is memory the library was not given, and a load that touches it
stops with `outOfRange`. The start address itself matters in one place only:
pointer *comparisons* are made on absolute addresses, and an address that has
wrapped past the end of the address space compares below the mapping.
`Image.addr` is that absolute address.

The structure layouts differ between the two classes, and the library is
compiled for one of them (`__ELF_NATIVE_CLASS`), in the byte order of its
machine. Both are fields of `Target`.

## Main definitions

* `ElfClass`, `Target`: What the library is compiled for.
* `Field`: Where a structure member sits and how many bytes it has.
* `Image`: A file mapped at an address.
* `Image.value`: The number a member holds, read from the file's bytes.
* `Image.Has`: A member lies inside the file.
* `Image.load`: Reading a member, or stopping outside the file.

## Theorems

* `decode_lt`: A decoded number fits in its bytes.
* `load_eq_ok`: A load yields the value of a member inside the file.
* `load_bind_eq_ok`: A load in front of more work.
* `load_bind_ne_outOfRange`: A load that has to stay inside the file.
* `load_bind_eq_outOfFuel`: A load uses no fuel of its own.
* `ptrAdd_eq`: Pointer steps inside the file do not wrap.
* `addr_eq`: Inside the file, addresses do not wrap.
-/

namespace AuditLibstdcxx

open Checked

/-- `__ELF_NATIVE_CLASS` -/
inductive ElfClass where
  | elf32
  | elf64
  deriving DecidableEq, Repr

/-- What the library is compiled for: the class, and the machine's byte order. -/
structure Target where
  cls : ElfClass
  bigEndian : Bool
  deriving DecidableEq, Repr

/-- Where a structure member sits and how many bytes it has. -/
structure Field where
  off : Nat
  size : Nat
  deriving DecidableEq, Repr

namespace ElfClass

/-- The number of bits in a pointer and in `size_t`. -/
def wordBits : ElfClass → Nat
  | elf32 => 32
  | elf64 => 64

/-- `EXPECTED_ELFCLASS` -/
def expectedElfclass : ElfClass → Nat
  | elf32 => 1
  | elf64 => 2

def sizeofEhdr : ElfClass → Nat
  | elf32 => 52
  | elf64 => 64

def sizeofShdr : ElfClass → Nat
  | elf32 => 40
  | elf64 => 64

def eShoff : ElfClass → Field
  | elf32 => ⟨32, 4⟩
  | elf64 => ⟨40, 8⟩

def eShnum : ElfClass → Field
  | elf32 => ⟨48, 2⟩
  | elf64 => ⟨60, 2⟩

def eShstrndx : ElfClass → Field
  | elf32 => ⟨50, 2⟩
  | elf64 => ⟨62, 2⟩

def shName : ElfClass → Field
  | _ => ⟨0, 4⟩

def shType : ElfClass → Field
  | _ => ⟨4, 4⟩

def shOffset : ElfClass → Field
  | elf32 => ⟨16, 4⟩
  | elf64 => ⟨24, 8⟩

def shSize : ElfClass → Field
  | elf32 => ⟨20, 4⟩
  | elf64 => ⟨32, 8⟩

def shLink : ElfClass → Field
  | elf32 => ⟨24, 4⟩
  | elf64 => ⟨40, 4⟩

def shInfo : ElfClass → Field
  | elf32 => ⟨28, 4⟩
  | elf64 => ⟨44, 4⟩

end ElfClass

/-- The first four bytes of `e_ident`. -/
def eiMag : Field := ⟨0, 4⟩

/-- `e_ident[EI_CLASS]` -/
def eiClass : Field := ⟨4, 1⟩

def vdCnt : Field := ⟨6, 2⟩

def vdAux : Field := ⟨12, 4⟩

def vdNext : Field := ⟨16, 4⟩

def vdaName : Field := ⟨0, 4⟩

def vdaNext : Field := ⟨4, 4⟩

/-- `sizeof(ElfW(Verdef))` -/
def sizeofVerdef : Nat := 20

/-- `sizeof(ElfW(Verdaux))` -/
def sizeofVerdaux : Nat := 8

/-- `ELFMAG` -/
def elfMag : List UInt8 := [0x7f, 'E'.toUInt8, 'L'.toUInt8, 'F'.toUInt8]

/-- The number stored in a run of bytes. -/
def decode (bigEndian : Bool) (bytes : List UInt8) : Nat :=
  (if bigEndian then bytes.reverse else bytes).foldr (fun b acc => b.toNat + 256 * acc) 0

theorem foldr_byte_lt (bytes : List UInt8) :
    bytes.foldr (fun b acc => b.toNat + 256 * acc) 0 < 256 ^ bytes.length := by
  induction bytes with
  | nil => decide
  | cons b bs ih =>
      have hb : b.toNat < 256 := b.toNat_lt
      simp only [List.foldr_cons, List.length_cons, Nat.pow_succ]
      omega

theorem decode_lt (bigEndian : Bool) (bytes : List UInt8) :
    decode bigEndian bytes < 256 ^ bytes.length := by
  unfold decode
  cases bigEndian with
  | false => exact foldr_byte_lt bytes
  | true => simpa only [if_true, List.length_reverse] using foldr_byte_lt bytes.reverse

/-- A file mapped at an address. A mapping is never empty, it lies inside the
    address space, and its length is one that `off_t` can carry. -/
structure Image where
  target : Target
  mapped : Nat
  bytes : List UInt8
  nonempty : 0 < bytes.length
  fits : mapped + bytes.length < 2 ^ target.cls.wordBits
  offT : bytes.length < 2 ^ (target.cls.wordBits - 1)

namespace Image

variable (m : Image)

abbrev cls : ElfClass := m.target.cls

/-- `file_size` -/
def size : Nat := m.bytes.length

/-- Moving a pointer, modulo the word size. -/
def ptrAdd (p : Nat) (k : Nat) : Nat :=
  (p + k) % 2 ^ m.cls.wordBits

/-- The absolute address of a pointer. -/
def addr (p : Nat) : Nat :=
  (m.mapped + p) % 2 ^ m.cls.wordBits

/-- The address one past the file, `mapped + file_size`. -/
def endAddr : Nat :=
  m.mapped + m.size

/-- The distance between two pointers as `ElfW(Xword)`: a `ptrdiff_t`, so a
    distance of half the address space or more is negative, and an `Xword` of
    64 bits in both classes. The first address is not below the second. -/
def distance (p q : Nat) : Nat :=
  if m.addr p - m.addr q < 2 ^ (m.cls.wordBits - 1) then m.addr p - m.addr q
  else m.addr p - m.addr q + (2 ^ 64 - 2 ^ m.cls.wordBits)

/-- The memory from a pointer to the end of the file. -/
def tail (p : Nat) : List UInt8 :=
  m.bytes.drop p

/-- The number a structure member holds, read from the file's bytes. -/
def value (p : Nat) (f : Field) : Nat :=
  decode m.target.bigEndian ((m.tail (m.ptrAdd p f.off)).take f.size)

/-- A structure member lies inside the file. -/
def Has (p : Nat) (f : Field) : Prop :=
  m.ptrAdd p f.off + f.size ≤ m.size

instance (p : Nat) (f : Field) : Decidable (m.Has p f) :=
  inferInstanceAs (Decidable (_ ≤ _))

/-- Reading a structure member. -/
def load (p : Nat) (f : Field) : Run Nat :=
  if m.Has p f then .ok (m.value p f) else .error .outOfRange

variable {m}

theorem load_eq_ok (p : Nat) (f : Field) (v : Nat) :
    m.load p f = .ok v ↔ m.Has p f ∧ v = m.value p f := by
  unfold load
  by_cases h : m.Has p f
  · rw [if_pos h]
    exact ⟨fun hv => ⟨h, (Except.ok.inj hv).symm⟩, fun hv => by rw [hv.2]⟩
  · rw [if_neg h]
    exact iff_of_false (error_ne_ok _ _) (fun hv => h hv.1)

theorem load_of_has {p : Nat} {f : Field} (h : m.Has p f) : m.load p f = .ok (m.value p f) :=
  (load_eq_ok p f _).mpr ⟨h, rfl⟩

theorem load_eq_outOfRange (p : Nat) (f : Field) :
    m.load p f = .error .outOfRange ↔ ¬ m.Has p f := by
  unfold load
  by_cases h : m.Has p f
  · rw [if_pos h]
    exact iff_of_false (ok_ne_error _ _) (fun hv => hv h)
  · rw [if_neg h]
    exact iff_of_true rfl h

theorem load_ne_outOfFuel (p : Nat) (f : Field) : m.load p f ≠ .error .outOfFuel := by
  unfold load
  by_cases h : m.Has p f
  · rw [if_pos h]
    exact ok_ne_error _ _
  · rw [if_neg h]
    exact error_ne_error (by decide)

/-- A load in front of more work. -/
theorem load_bind_eq_ok {β : Type} (p : Nat) (f : Field) (k : Nat → Run β) (b : β) :
    m.load p f >>= k = .ok b ↔ m.Has p f ∧ k (m.value p f) = .ok b := by
  rw [bind_eq_ok]
  constructor
  · rintro ⟨v, hv, hk⟩
    rcases (load_eq_ok p f v).mp hv with ⟨hp, rfl⟩
    exact ⟨hp, hk⟩
  · rintro ⟨hp, hk⟩
    exact ⟨_, load_of_has hp, hk⟩

/-- A load that has to stay inside the file, with the work behind it. -/
theorem load_bind_ne_outOfRange {β : Type} (p : Nat) (f : Field) (k : Nat → Run β) :
    m.load p f >>= k ≠ .error .outOfRange ↔
      m.Has p f ∧ k (m.value p f) ≠ .error .outOfRange := by
  rw [ne_eq, bind_eq_error, not_or, load_eq_outOfRange, not_not]
  constructor
  · rintro ⟨hp, h⟩
    exact ⟨hp, fun hk => h ⟨_, load_of_has hp, hk⟩⟩
  · rintro ⟨hp, h⟩
    refine ⟨hp, ?_⟩
    rintro ⟨v, hv, hk⟩
    rcases (load_eq_ok p f v).mp hv with ⟨_, rfl⟩
    exact h hk

/-- A load uses no fuel of its own. -/
theorem load_bind_eq_outOfFuel {β : Type} (p : Nat) (f : Field) (k : Nat → Run β) :
    m.load p f >>= k = .error .outOfFuel ↔
      m.Has p f ∧ k (m.value p f) = .error .outOfFuel := by
  rw [bind_eq_error, or_iff_right (load_ne_outOfFuel p f)]
  constructor
  · rintro ⟨v, hv, hk⟩
    rcases (load_eq_ok p f v).mp hv with ⟨hp, rfl⟩
    exact ⟨hp, hk⟩
  · rintro ⟨hp, hk⟩
    exact ⟨_, load_of_has hp, hk⟩

theorem value_lt (p : Nat) (f : Field) : m.value p f < 256 ^ f.size := by
  refine Nat.lt_of_lt_of_le (decode_lt _ _) (Nat.pow_le_pow_right (by decide) ?_)
  exact List.length_take_le _ _

theorem size_lt : m.size < 2 ^ m.cls.wordBits :=
  Nat.lt_of_le_of_lt (Nat.le_add_left _ _) m.fits

/-- Pointer steps that stay inside the file do not wrap. -/
theorem ptrAdd_eq {p k : Nat} (h : p + k ≤ m.size) : m.ptrAdd p k = p + k :=
  Nat.mod_eq_of_lt (Nat.lt_of_le_of_lt h size_lt)

theorem ptrAdd_zero {p : Nat} (h : p < 2 ^ m.cls.wordBits) : m.ptrAdd p 0 = p :=
  Nat.mod_eq_of_lt h

theorem ptrAdd_lt (p : Nat) (k : Nat) : m.ptrAdd p k < 2 ^ m.cls.wordBits :=
  Nat.mod_lt _ (Nat.two_pow_pos _)

/-- Addresses of pointers into the file, or just past it, do not wrap. -/
theorem addr_eq {p : Nat} (h : p ≤ m.size) : m.addr p = m.mapped + p :=
  Nat.mod_eq_of_lt (Nat.lt_of_le_of_lt (Nat.add_le_add_left h _) m.fits)

theorem addr_lt_endAddr {p : Nat} (h : p < m.size) : m.addr p < m.endAddr := by
  rw [addr_eq (Nat.le_of_lt h)]
  exact Nat.add_lt_add_left h _

/-- What is behind a text in the file. -/
theorem tail_add_of_prefix {p : Nat} {text rest : List UInt8} (h : m.tail p = text ++ rest) :
    m.tail (p + text.length) = rest := by
  have hdrop := congrArg (List.drop text.length) h
  rwa [List.drop_left, tail, List.drop_drop] at hdrop

/-- Some of the text is in the file, so the pointer behind it does not wrap. -/
theorem tail_ptrAdd_of_prefix {p : Nat} {text rest : List UInt8} (htext : text ≠ [])
    (h : m.tail p = text ++ rest) : m.tail (m.ptrAdd p text.length) = rest := by
  have hpos := List.length_pos_of_ne_nil htext
  have hlen := congrArg List.length h
  simp only [tail, List.length_drop, List.length_append] at hlen
  rw [ptrAdd_eq (by unfold size; omega), tail_add_of_prefix h]

/-- A member whose structure starts inside the file and whose end does not
    leave it. -/
theorem has_of_le {p : Nat} {f : Field} (h : p + (f.off + f.size) ≤ m.size) : m.Has p f := by
  unfold Has
  rw [ptrAdd_eq (by omega)]
  omega

end Image

end AuditLibstdcxx
