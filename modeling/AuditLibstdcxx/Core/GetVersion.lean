import AuditLibstdcxx.Core.System
import AuditLibstdcxx.Core.Version
import AuditLibstdcxx.Lib.Loop

/-!
# Reading the Version of a Library

`get_libstdcxx_version`: find the highest `GLIBCXX_` version a shared library
defines, by walking its `.gnu.version_d` section.

Three loops are nested. The outer one counts through the section headers, the
middle one follows `vd_next` through the version definitions of a section
until it is zero or the section is left, and the inner one counts through the
auxiliary entries of a definition. Only the middle loop is not bounded by a
count, so it is the one that is given fuel.

Every comparison is the source's own, in its order, since a check that comes
after a read does not guard it. In particular the inner loop advances by
`(ElfW(Verdaux)*)(char*)verdaux + verdaux->vda_next`, where the cast binds
tighter than the sum: the step is `vda_next` entries, not `vda_next` bytes.

## Main definitions

* `Found`: The two accumulators of the walk.
* `nameVersion`: The version a name carries, if it starts with `GLIBCXX_`.
* `verdauxStep`: One pass of the loop over auxiliary entries.
* `SectionTable`: Where the section headers and their names are.
* `verdefBody`: What is done with one version definition.
* `verdefStep`: One pass of the loop over version definitions.
* `sectionStep`: One pass of the loop over section headers.
* `readHeader`: The checks on the ELF header.
* `scanSections`: The walk over the sections, and the answer drawn from it.
* `scanImage`: The walk over a mapped file.
* `getLibstdcxxVersion`: The function, with the calls it makes.
-/

namespace AuditLibstdcxx

open Checked

/-- `at_least_one_glibcxx_version_found` and `*glibcxx_version`. -/
structure Found where
  atLeastOne : Bool
  version : Nat
  deriving DecidableEq, Repr

namespace Found

/-- Taking a name's version into account, if it has one. -/
def record (s : Found) : Option Nat → Found
  | none => s
  | some version =>
    if s.atLeastOne then { s with version := uintMax s.version version }
    else { atLeastOne := true, version := version }

@[simp]
theorem record_none (s : Found) : s.record none = s :=
  rfl

/-- The first version found is taken as it is. -/
@[simp]
theorem record_first {s : Found} (h : s.atLeastOne = false) (version : Nat) :
    s.record (some version) = ⟨true, version⟩ := by
  simp only [record, h, Bool.false_eq_true, if_false]

/-- Later ones are compared with it. -/
@[simp]
theorem record_later {s : Found} (h : s.atLeastOne = true) (version : Nat) :
    s.record (some version) = ⟨true, max s.version version⟩ := by
  simp only [record, h, if_true, uintMax_eq]

@[simp]
theorem record_atLeastOne (s : Found) (version : Nat) :
    (s.record (some version)).atLeastOne = true := by
  cases h : s.atLeastOne with
  | false => rw [record_first h]
  | true => rw [record_later h]

end Found

/-- The version a name carries, if it starts with `GLIBCXX_`. -/
def nameVersion (m : Image) (vdauxName : Nat) : Run (Option Nat) := do
  if ← strncmpEq (m.tail vdauxName) glibcxxPrefix then
    let version ← versionStringToInt (m.tail (m.ptrAdd vdauxName 8))
    return some version
  else
    return none

/-- One pass of the loop over the auxiliary entries of a definition. -/
def verdauxStep (m : Image) (stringTable : Nat) (s : Nat × Found) : Run (Nat × Found) := do
  let name ← m.load s.1 vdaName
  let vdauxName := m.ptrAdd stringTable name
  require (m.addr vdauxName < m.endAddr)
  let version ← nameVersion m vdauxName
  -- The step is scaled by the size of an entry.
  let next ← m.load s.1 vdaNext
  return (m.ptrAdd s.1 (next * sizeofVerdaux), s.2.record version)

/-- Where the section headers and their names are. -/
structure SectionTable where
  shdr : Nat
  shnum : Nat
  shstrtab : Nat
  sizeSectionHeaderStringTable : Nat
  deriving DecidableEq, Repr

/-- `&shdr[i]` -/
def SectionTable.header (m : Image) (t : SectionTable) (i : Nat) : Nat :=
  m.ptrAdd t.shdr (i * m.cls.sizeofShdr)

/-- What a pass of the loop over version definitions does with one of them:
    find its auxiliary entries and the string table, and go through them. -/
def verdefBody (m : Image) (t : SectionTable) (i verdef : Nat) (found : Found) : Run Found := do
  let aux ← m.load verdef vdAux
  let verdaux := m.ptrAdd verdef aux
  require (m.addr verdaux < m.endAddr)
  let offset ← m.load (t.header m i) m.cls.shOffset
  require (offset < m.size)
  let link ← m.load (t.header m i) m.cls.shLink
  let stringTableOffset ← m.load (t.header m link) m.cls.shOffset
  let stringTable := m.ptrAdd 0 stringTableOffset
  let cnt ← m.load verdef vdCnt
  let (_, found) ← countedLoop (verdauxStep m stringTable) cnt (verdaux, found)
  return found

/-- One pass of the loop over the version definitions of section `i`. -/
def verdefStep (m : Image) (t : SectionTable) (i verdefBase : Nat) (s : Nat × Found) :
    Run ((Nat × Found) ⊕ Found) := do
  if ¬ m.addr verdefBase ≤ m.addr s.1 then
    return .inr s.2
  let size ← m.load (t.header m i) m.cls.shSize
  if ¬ m.distance s.1 verdefBase < size then
    return .inr s.2
  let found ← verdefBody m t i s.1 s.2
  let next ← m.load s.1 vdNext
  if next = 0 then
    return .inr found
  return .inl (m.ptrAdd s.1 next, found)

/-- One pass of the loop over the section headers. -/
def sectionStep (m : Image) (t : SectionTable) (fuel : Nat) (s : Nat × Found) :
    Run (Nat × Found) := do
  let name ← m.load (t.header m s.1) m.cls.shName
  require (name < t.sizeSectionHeaderStringTable)
  if ← strncmpEq (m.tail (m.ptrAdd t.shstrtab name)) gnuVersionD then
    let offset ← m.load (t.header m s.1) m.cls.shOffset
    require (offset < m.size)
    let verdefBase := m.ptrAdd 0 offset
    let found ← whileLoop (verdefStep m t s.1 verdefBase) fuel (verdefBase, s.2)
    return (s.1 + 1, found)
  else
    return (s.1 + 1, s.2)

/-- The checks on the ELF header, and the tables they lead to. -/
def readHeader (m : Image) : Run SectionTable := do
  let shoff ← m.load 0 m.cls.eShoff
  require (shoff < m.size)
  let shdr := m.ptrAdd 0 shoff
  let shstrndx ← m.load 0 m.cls.eShstrndx
  require (shstrndx < m.size - shoff)
  let shnum ← m.load 0 m.cls.eShnum
  require (shstrndx < shnum)
  let namesHeader := m.ptrAdd shdr (shstrndx * m.cls.sizeofShdr)
  let namesOffset ← m.load namesHeader m.cls.shOffset
  require (namesOffset < m.size)
  require (shnum ≤ m.size / m.cls.sizeofShdr)
  let namesSize ← m.load namesHeader m.cls.shSize
  require (namesSize < m.size - namesOffset)
  return ⟨shdr, shnum, m.ptrAdd 0 namesOffset, namesSize⟩

/-- The file starts with `ELFMAG`. -/
def Image.IsElf (m : Image) : Prop :=
  m.bytes.take 4 = elfMag

instance (m : Image) : Decidable m.IsElf :=
  inferInstanceAs (Decidable (_ = _))

/-- The file is of the class the library is compiled for. -/
def Image.IsNative (m : Image) : Prop :=
  m.value 0 eiClass = m.cls.expectedElfclass

instance (m : Image) : Decidable m.IsNative :=
  inferInstanceAs (Decidable (_ = _))

/-- The loop over the section headers, and the answer drawn from it. -/
def scanSections (fuel : Nat) (m : Image) (t : SectionTable) (glibcxxVersion : Nat) :
    Run (ErrorCode × Nat) := do
  let s ← countedLoop (sectionStep m t fuel) t.shnum (0, ⟨false, glibcxxVersion⟩)
  if ¬ s.2.atLeastOne then
    return (.fatalError, s.2.version)
  return (.success, s.2.version)

/-- The walk over a mapped file. -/
def scanImage (fuel : Nat) (m : Image) (glibcxxVersion : Nat) : Run (ErrorCode × Nat) := do
  -- `memcmp` is given four bytes of `e_ident`.
  let _ ← m.load 0 eiMag
  if ¬ m.IsElf then
    return (.fatalError, glibcxxVersion)
  let _ ← m.load 0 eiClass
  if ¬ m.IsNative then
    return (.nonFatalError, glibcxxVersion)
  let t ← readHeader m
  scanSections fuel m t glibcxxVersion

/-- What `get_libstdcxx_version` hands back: its error code, the value left in
    `*glibcxx_version`, and the system calls it made. -/
structure VersionResult where
  error : ErrorCode
  glibcxxVersion : Nat
  calls : List SysCall
  deriving DecidableEq, Repr

/-- `get_libstdcxx_version`, on a descriptor and the file behind it. -/
def getLibstdcxxVersion (fuel fd : Nat) (file : OpenFile) (glibcxxVersion : Nat) :
    Run VersionResult :=
  match file with
  | .noStat => return ⟨.fatalError, glibcxxVersion, [.close fd]⟩
  | .noMap => return ⟨.fatalError, glibcxxVersion, [.close fd]⟩
  | .mapped m => do
    let (error, version) ← scanImage fuel m glibcxxVersion
    return ⟨error, version,
      [.mmap m.mapped m.size, .close fd, .munmap m.mapped m.size]⟩

end AuditLibstdcxx
