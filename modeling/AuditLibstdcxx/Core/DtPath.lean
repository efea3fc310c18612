import AuditLibstdcxx.Core.System
import AuditLibstdcxx.Core.Version
import AuditLibstdcxx.Lib.CString
import AuditLibstdcxx.Lib.Loop

/-!
# Searching a Run Path

`find_libstdcxx_from_dt_path`: go through the colon-separated sections of a
`DT_RUNPATH` or `DT_RPATH` string, build the path of `libstdc++.so.6` in each,
and stop at the first one a callback accepts.

The function allocates with `mmap` and hands its paths to a callback with data
of its own, so it is generic in the state these act on. The path is built in a
buffer that is kept from section to section and replaced when a longer one is
needed. Lengths are `size_t`, so sums and differences are taken modulo the
word size.

## Main definitions

* `libstdcxxRelPath`: The path of the library below a directory.
* `PathBuffer`: The buffer a path is built in.
* `PathOps`: The calls the function makes.
* `reserve`: Getting a buffer that is large enough.
* `appendSection`: Appending what is left of a section.
* `buildFromOrigin`, `buildFromSection`: The two ways a path is built.
* `neededLen`, `buildPath`: The choice between them.
* `dtPathStep`: One pass of the loop over sections.
* `findLibstdcxxFromDtPath`: The function.
-/

namespace AuditLibstdcxx

open Checked CString

/-- `libstdcxx_rel_path` -/
def libstdcxxRelPath : Path :=
  "/libstdc++.so.6".toList.map Char.toUInt8

/-- `len_libstdcxx_rel_path` -/
def lenLibstdcxxRelPath : Nat := 15

/-- The bytes of `"$ORIGIN"`. -/
def originToken : List UInt8 :=
  "$ORIGIN".toList.map Char.toUInt8

/-- `size_t_min` -/
def sizeTMin (a b : Nat) : Nat :=
  if a < b then a else b

theorem sizeTMin_eq (a b : Nat) : sizeTMin a b = min a b := by
  unfold sizeTMin
  by_cases h : a < b
  · rw [if_pos h, min_eq_left (Nat.le_of_lt h)]
  · rw [if_neg h, min_eq_right (Nat.le_of_not_lt h)]

/-- The difference of two `size_t`. -/
def sizeSub (w a b : Nat) : Nat :=
  (a + 2 ^ w - b) % 2 ^ w

theorem sizeSub_eq {w a b : Nat} (hb : b ≤ a) (ha : a < 2 ^ w) : sizeSub w a b = a - b := by
  unfold sizeSub
  rw [show a + 2 ^ w - b = a - b + 2 ^ w by omega, Nat.add_mod_right, Nat.mod_eq_of_lt (by omega)]

/-- A mapped buffer with a path in it. -/
structure PathBuffer where
  addr : Nat
  bytes : List UInt8
  deriving DecidableEq, Repr

namespace PathBuffer

/-- The length the buffer was mapped with. -/
def len (b : PathBuffer) : Nat :=
  b.bytes.length

/-- The path in the buffer. -/
def path (b : PathBuffer) : Path :=
  text b.bytes

end PathBuffer

/-- The calls the function makes, on a state of the caller's. -/
structure PathOps (σ : Type) where
  mmap : Nat → σ → Option Nat × σ
  munmap : Nat → Nat → σ → σ
  trypath : Path → σ → ErrorCode × σ

/-- What the function hands back: its error code and the buffer the caller now
    owns, if any, in the state it leaves behind. -/
structure DtPathResult (σ : Type) where
  error : ErrorCode
  buffer : Option PathBuffer
  world : σ

/-- `dt_path_cursor`, the buffer and the state of the caller's. -/
structure DtPathState (σ : Type) where
  cursor : Nat
  buffer : Option PathBuffer
  world : σ

section Find

variable {σ : Type} (w : Nat) (ops : PathOps σ)

/-- `len_path_buffer`, zero as long as there is no buffer. -/
def lenPathBuffer : Option PathBuffer → Nat
  | none => 0
  | some b => b.len

/-- Giving a buffer back, if there is one. -/
def release : Option PathBuffer → σ → σ
  | none, world => world
  | some b, world => ops.munmap b.addr b.len world

/-- Getting a buffer of at least `needed` bytes: the one at hand, or a fresh
    one, which is filled with zeros. -/
def reserve (needed : Nat) (buffer : Option PathBuffer) (world : σ) : Option PathBuffer × σ :=
  if needed > lenPathBuffer buffer then
    let (addr, world) := ops.mmap needed (release ops buffer world)
    (addr.map fun a => ⟨a, List.replicate needed 0⟩, world)
  else (buffer, world)

/-- The characters of this section, up to the next `:`. -/
def lenSection : List UInt8 → Nat
  | [] => 0
  | c :: cs => if c ≠ ':'.toUInt8 ∧ c ≠ 0 then lenSection cs + 1 else 0

/-- Appending what is left of the section behind `$ORIGIN`, if there is any. -/
def appendSection (bytes rest : List UInt8) (lenOrigin len : Nat) : Run (List UInt8) := do
  let last := sizeSub w bytes.length 1
  if len > 0 then
    let bytes ← strncat bytes rest (sizeTMin len (sizeSub w last lenOrigin))
    storeNul bytes last
  else
    return bytes

/-- Building a path from `ORIGIN`, the section behind `$ORIGIN` and the name
    of the library. -/
def buildFromOrigin (bytes origin rest : List UInt8) (len : Nat) : Run (List UInt8) := do
  let last := sizeSub w bytes.length 1
  let bytes ← storeNul bytes 0
  let bytes ← strncat bytes origin last
  let bytes ← storeNul bytes last
  let bytes ← appendSection w bytes rest origin.length len
  let bytes ← strncat bytes libstdcxxRelPath (sizeSub w (sizeSub w last origin.length) len)
  storeNul bytes last

/-- Building a path from the section and the name of the library. -/
def buildFromSection (bytes rest : List UInt8) (len : Nat) : Run (List UInt8) := do
  let last := sizeSub w bytes.length 1
  let bytes ← storeNul bytes 0
  let bytes ← strncat bytes rest (sizeTMin len last)
  let bytes ← storeNul bytes last
  let bytes ← strncat bytes libstdcxxRelPath (sizeSub w last len)
  storeNul bytes last

/-- `needed_len`, for a section of `len` characters. -/
def neededLen (atOrigin : Bool) (lenOrigin len : Nat) : Nat :=
  if atOrigin then (lenOrigin + sizeSub w len 7 + lenLibstdcxxRelPath + 1) % 2 ^ w
  else (len + lenLibstdcxxRelPath + 1) % 2 ^ w

/-- Building the path of a section of `len` characters. -/
def buildPath (atOrigin : Bool) (bytes origin rest : List UInt8) (len : Nat) :
    Run (List UInt8) :=
  if atOrigin then buildFromOrigin w bytes origin (rest.drop 7) (sizeSub w len 7)
  else buildFromSection w bytes rest len

/-- One pass of the loop over the sections of `dt_path`. -/
def dtPathStep (dtPath origin : List UInt8) (s : DtPathState σ) :
    Run (DtPathState σ ⊕ DtPathResult σ) := do
  if ¬ s.cursor < dtPath.length then
    return .inr ⟨.fatalError, none, release ops s.buffer s.world⟩
  let rest := dtPath.drop s.cursor
  let len := lenSection rest
  if len = 0 then
    return .inl { s with cursor := s.cursor + 1 }
  let atOrigin ← strncmpEq (rest ++ [0]) originToken
  let needed := neededLen w atOrigin origin.length len
  match reserve ops needed s.buffer s.world with
  | (none, world) =>
    -- A length that wrapped to zero asks for no buffer, and the null pointer is written to.
    if needed > 0 then return .inr ⟨.fatalError, none, world⟩
    else .error .outOfRange
  | (some b, world) =>
    let bytes ← buildPath w atOrigin b.bytes origin rest len
    let b := { b with bytes := bytes }
    let (error, world) := ops.trypath b.path world
    if error = .success then
      return .inr ⟨.success, some b, world⟩
    return .inl ⟨s.cursor + len + 1, some b, world⟩

/-- `find_libstdcxx_from_dt_path`. Every pass moves the cursor on, so there are
    no more passes than characters, and one that leaves. -/
def findLibstdcxxFromDtPath (dtPath origin : List UInt8) (world : σ) : Run (DtPathResult σ) :=
  whileLoop (dtPathStep w ops dtPath origin) (dtPath.length + 1) ⟨0, none, world⟩

end Find

end AuditLibstdcxx
