import AuditLibstdcxx.Core.Elf
import AuditLibstdcxx.Core.PyAudit
import AuditLibstdcxx.Lib.Generator
import AuditLibstdcxx.Lib.Record
import AuditLibstdcxx.Lib.Utf8

/-!
# Streams and Structures of pyelftools

What the reader of pyelftools is made of: a stream of the file's bytes that is
sought to an offset before every read, and structures whose members are taken
off the stream one after the other.

A structure that the stream ends in is an `ELFParseError`, which is a subclass
of `ELFError`. Seeking has errors of its own. Python hands an offset of 63 bits
on to the file system, which has a largest offset it knows, and refuses a larger
one by `ValueError`. Seeking behind the end of the file is no error.

The members of a structure are looked up by name, so structures are records over
an enumeration of all names.

## Main definitions

* `Stream`, `seek`: A file opened for reading.
* `Member`, `Container`: The members of structures, and a structure that was read.
* `elfEhdr`, `elfShdr`, ...: The structures.
* `structParse`: `struct_parse`.
* `parseCstringFromStream`: `parse_cstring_from_stream`.
-/

namespace AuditLibstdcxx

namespace ElfTools

open Record

/-- A file opened for reading, on a file system with a largest offset. -/
structure Stream where
  bytes : List UInt8
  maxOffset : Nat
  fits : bytes.length ≤ maxOffset
  offT : maxOffset < 2 ^ 63

/-- `stream_len` -/
def Stream.len (s : Stream) : Nat :=
  s.bytes.length

/-- `stream.seek(pos)` -/
def Stream.seek (s : Stream) (pos : Nat) : Except PyException Unit :=
  -- `lseek` refuses an offset that the file system has no room for. One that is no
  -- `off_t` does not get that far.
  if pos ≤ s.maxOffset then .ok ()
  else if pos < 2 ^ 63 then .error .osError
  else .error .valueError

/-- The members of the structures. -/
inductive Member where
  | eiMag | eiClass | eiData | eiVersion | eiOsabi | eiAbiversion | eiPadding
  | eType | eMachine | eVersion | eEntry | ePhoff | eShoff | eFlags | eEhsize | ePhentsize
  | ePhnum | eShentsize | eShnum | eShstrndx
  | shName | shType | shFlags | shAddr | shOffset | shSize | shLink | shInfo | shAddralign
  | shEntsize
  | chType | chReserved | chSize | chAddralign
  | vdVersion | vdFlags | vdNdx | vdCnt | vdHash | vdAux | vdNext
  | vdaName | vdaNext
  | vnVersion | vnCnt | vnFile | vnAux | vnNext
  | vnaHash | vnaFlags | vnaOther | vnaName | vnaNext
  | nbuckets | nchains | symoffset | bloomSize | bloomShift
  | rOffset | rInfo | rAddend
  | formatVersion
  deriving DecidableEq, Repr

/-- A structure that was read. -/
structure Container where
  members : List (Member × Nat)
  deriving DecidableEq, Repr

/-- `container[name]` -/
def Container.get (c : Container) (name : Member) : Nat :=
  (c.members.lookup name).getD 0

/-! ### The Structures -/

/-- The size of `Elf_addr`, `Elf_offset`, `Elf_xword` and `Elf_sxword`. -/
def xwordSize : ElfClass → Nat
  | .elf32 => 4
  | .elf64 => 8

/-- `Elf_Ehdr`, with its `e_ident`. -/
def elfEhdr (cls : ElfClass) : Layout Member :=
  [(.eiMag, 4), (.eiClass, 1), (.eiData, 1), (.eiVersion, 1), (.eiOsabi, 1), (.eiAbiversion, 1),
    (.eiPadding, 7), (.eType, 2), (.eMachine, 2), (.eVersion, 4), (.eEntry, xwordSize cls),
    (.ePhoff, xwordSize cls), (.eShoff, xwordSize cls), (.eFlags, 4), (.eEhsize, 2),
    (.ePhentsize, 2), (.ePhnum, 2), (.eShentsize, 2), (.eShnum, 2), (.eShstrndx, 2)]

/-- `Elf_Shdr` -/
def elfShdr (cls : ElfClass) : Layout Member :=
  [(.shName, 4), (.shType, 4), (.shFlags, xwordSize cls), (.shAddr, xwordSize cls),
    (.shOffset, xwordSize cls), (.shSize, xwordSize cls), (.shLink, 4), (.shInfo, 4),
    (.shAddralign, xwordSize cls), (.shEntsize, xwordSize cls)]

/-- `Elf_Chdr` -/
def elfChdr : ElfClass → Layout Member
  | .elf32 => [(.chType, 4), (.chSize, 4), (.chAddralign, 4)]
  | .elf64 => [(.chType, 4), (.chReserved, 4), (.chSize, 8), (.chAddralign, 8)]

/-- `Elf_Verdef` -/
def elfVerdef : Layout Member :=
  [(.vdVersion, 2), (.vdFlags, 2), (.vdNdx, 2), (.vdCnt, 2), (.vdHash, 4), (.vdAux, 4),
    (.vdNext, 4)]

/-- `Elf_Verdaux` -/
def elfVerdaux : Layout Member :=
  [(.vdaName, 4), (.vdaNext, 4)]

/-- `Elf_Verneed` -/
def elfVerneed : Layout Member :=
  [(.vnVersion, 2), (.vnCnt, 2), (.vnFile, 4), (.vnAux, 4), (.vnNext, 4)]

/-- `Elf_Vernaux` -/
def elfVernaux : Layout Member :=
  [(.vnaHash, 4), (.vnaFlags, 2), (.vnaOther, 2), (.vnaName, 4), (.vnaNext, 4)]

/-- `Elf_Rel`. The structure of 64-bit MIPS has other members in the place of
    `r_info`, of the same size. -/
def elfRel (cls : ElfClass) : Layout Member :=
  [(.rOffset, xwordSize cls), (.rInfo, xwordSize cls)]

/-- `Elf_Rela` -/
def elfRela (cls : ElfClass) : Layout Member :=
  elfRel cls ++ [(.rAddend, xwordSize cls)]

/-- `Elf_Relr` -/
def elfRelr (cls : ElfClass) : Layout Member :=
  [(.rOffset, xwordSize cls)]

/-- `Elf_Hash` in front of its two arrays of words. -/
def elfHash : Layout Member :=
  [(.nbuckets, 4), (.nchains, 4)]

/-- `Gnu_Hash` in front of its arrays. -/
def gnuHash : Layout Member :=
  [(.nbuckets, 4), (.symoffset, 4), (.bloomSize, 4), (.bloomShift, 4)]

/-- The one byte in front of an attributes section. -/
def attributesVersion : Layout Member :=
  [(.formatVersion, 1)]

/-! ### Reading -/

/-- `struct_parse` -/
def structParse (s : Stream) (bigEndian : Bool) (l : Layout Member) (pos : Nat) :
    Except PyException Container := do
  s.seek pos
  match parse (decode bigEndian) l (s.bytes.drop pos) with
  | none => .error .elfError
  | some members => return ⟨members⟩

/-- An array behind a structure that was just read: `count` items of `size`
    bytes from `pos` on. -/
def parseArray (s : Stream) (pos count size : Nat) : Except PyException Unit :=
  -- An array without items reads nothing, wherever it would be.
  if count = 0 ∨ pos + count * size ≤ s.len then .ok () else .error .elfError

/-- `CHUNKSIZE` -/
def chunkSize : Nat := 64

/-- The loop of `parse_cstring_from_stream` over the data from the start of the
    string on, with the chunks read so far. -/
def readChunks : Nat → List UInt8 → List UInt8 → Option (List UInt8)
  | 0, _, _ => none
  | n + 1, data, chunks =>
    let chunk := data.take chunkSize
    if 0 ∈ chunk then some (chunks ++ chunk.takeWhile (fun b => decide (b ≠ 0)))
    -- A string that is cut off by the end of the file is none.
    else if chunk.length < chunkSize then none
    else readChunks n (data.drop chunkSize) (chunks ++ chunk)

/-- `parse_cstring_from_stream`. The file has no more chunks than the loop is
    given rounds, with the one it ends in. -/
def parseCstringFromStream (s : Stream) (pos : Nat) : Except PyException (Option (List UInt8)) := do
  s.seek pos
  let data := s.bytes.drop pos
  return readChunks (data.length / chunkSize + 1) data []

/-- `elf_assert` -/
def elfAssert (cond : Prop) [Decidable cond] : Except PyException Unit :=
  if cond then .ok () else .error .elfError

end ElfTools

end AuditLibstdcxx
