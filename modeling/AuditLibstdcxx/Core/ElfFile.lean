import AuditLibstdcxx.Core.ElfTools

/-!
# Reading Versions in Python

How pyelftools gets from an open file to the version names in it, as the hook
uses it: `ELFFile(f)`, `get_section_by_name(".gnu.version_d")`, and
`iter_versions()` on the section.

To find one section by its name, the reader first makes a section object of
every header in the file. Objects of most types read more of the file, and make
further objects for the sections they are linked to; so the file is turned down
for what is wrong with a section nobody asked for. The object of a `versym`
section makes whatever section it is linked to, again a `versym` section
perhaps. How deep this may go is up to the interpreter, which ends it by a
`RecursionError`.

A header that would start behind the end of the file is `None`, and the code
that goes on with it raises a `TypeError`.

## Main definitions

* `ElfFile`, `elfFile`: `ELFFile`.
* `getSectionHeader`: `_get_section_header`.
* `makeSection`, `getSection`: `_make_section` and `get_section`.
* `getSectionByName`: `get_section_by_name`.
* `iterVersions`: `iter_versions`, with the names of the versions.
* `readVersionNames`: What the hook gets to see of a file.
-/

namespace AuditLibstdcxx

namespace ElfTools

open Record Generator

/-- `ELFFile`, with the header of the section name table, if there is one. -/
structure ElfFile where
  stream : Stream
  elfclass : ElfClass
  bigEndian : Bool
  header : Container
  stringtable : Option Container

/-- The values of `sh_type` that are told apart. -/
inductive SecType where
  | null | progbits | symtab | strtab | rela | hash | dynamic | note | nobits | rel | dynsym
  | symtabShndx | relr | gnuHash | gnuVerdef | gnuVerneed | gnuVersym | sunwLdynsym | sunwSyminfo
  | armAttributes | riscvAttributes
  | other (n : Nat)
  deriving DecidableEq, Repr

/-- `EM_ARM` -/
def emArm : Nat := 40

/-- `EM_RISCV` -/
def emRiscv : Nat := 243

/-- `ENUM_SH_TYPE_BASE`, with what some machines add to it. -/
def shTypeOf (eMachine n : Nat) : SecType :=
  match n with
  | 0 => .null
  | 1 => .progbits
  | 2 => .symtab
  | 3 => .strtab
  | 4 => .rela
  | 5 => .hash
  | 6 => .dynamic
  | 7 => .note
  | 8 => .nobits
  | 9 => .rel
  | 0xb => .dynsym
  | 0x12 => .symtabShndx
  | 0x13 => .relr
  | 0x6ffffff3 => .sunwLdynsym
  | 0x6ffffff6 => .gnuHash
  | 0x6ffffffc => .sunwSyminfo
  | 0x6ffffffd => .gnuVerdef
  | 0x6ffffffe => .gnuVerneed
  | 0x6fffffff => .gnuVersym
  | 0x70000003 =>
    if eMachine = emArm then .armAttributes
    else if eMachine = emRiscv then .riscvAttributes
    else .other 0x70000003
  | n => .other n

/-- `SHN_XINDEX` in `e_shstrndx`. -/
def shnXindexHalf : Nat := 0xffff

/-- `SHF_COMPRESSED` -/
def shfCompressed : Nat := 0x800

namespace ElfFile

variable (f : ElfFile)

/-- `struct_parse`, on the stream of the file. -/
def parse (l : Layout Member) (pos : Nat) : Except PyException Container :=
  structParse f.stream f.bigEndian l pos

/-- `header['sh_type']` -/
def shType (header : Container) : SecType :=
  shTypeOf (f.header.get .eMachine) (header.get .shType)

/-- `_section_offset` -/
def sectionOffset (n : Nat) : Except PyException Nat :=
  -- Headers that are too small for their structure are refused where there is a table.
  if 0 < f.header.get .eShoff ∧ f.header.get .eShentsize < size (elfShdr f.elfclass) then
    .error .elfError
  else .ok (f.header.get .eShoff + n * f.header.get .eShentsize)

/-- `_get_section_header` -/
def getSectionHeader (n : Nat) : Except PyException (Option Container) := do
  let streamPos ← f.sectionOffset n
  -- Behind the end of the file there is no header. One across the end raises.
  if streamPos > f.stream.len then return none
  else return some (← f.parse (elfShdr f.elfclass) streamPos)

/-- `_get_section_header(n)[name]` -/
def getSectionHeaderMember (n : Nat) (name : Member) : Except PyException Nat := do
  match ← f.getSectionHeader n with
  | none => .error .typeError
  | some header => return header.get name

/-- `get_shstrndx` -/
def getShstrndx : Except PyException Nat :=
  if f.header.get .eShstrndx ≠ shnXindexHalf then .ok (f.header.get .eShstrndx)
  else f.getSectionHeaderMember 0 .shLink

/-- `num_sections` -/
def numSections : Except PyException Nat :=
  if f.header.get .eShoff = 0 then .ok 0
  else if f.header.get .eShnum = 0 then f.getSectionHeaderMember 0 .shSize
  else .ok (f.header.get .eShnum)

/-! ### Section Objects -/

/-- `Section.__init__` -/
def initSection (header : Container) : Except PyException Unit :=
  -- The header of a compressed section is read for its size, even if nothing asks for it.
  if header.get .shFlags &&& shfCompressed ≠ 0 then do
    let _ ← f.parse (elfChdr f.elfclass) (header.get .shOffset)
  else .ok ()

/-- `StringTableSection.get_string` -/
def getString (stringtable : Container) (offset : Nat) : Except PyException PyStr := do
  -- A string that is not terminated counts as an empty one.
  match ← parseCstringFromStream f.stream (stringtable.get .shOffset + offset) with
  | none => return []
  | some s => return Utf8.decode s

/-- `_get_section_name` -/
def getSectionName (header : Container) : Except PyException PyStr :=
  match f.stringtable with
  | none => .error .elfError
  | some stringtable => f.getString stringtable (header.get .shName)

/-- `_make_section(None)`, which ends in `_get_section_name`. -/
def noSection : PyException :=
  if f.stringtable.isNone then .elfError else .typeError

/-- `_get_linked_strtab_section` -/
def getLinkedStrtabSection (n : Nat) : Except PyException Container := do
  match ← f.getSectionHeader n with
  | none => .error .typeError
  | some header =>
    if f.shType header ≠ .strtab then .error .elfError
    else do
      let _ ← f.getSectionName header
      f.initSection header
      return header

/-- `_make_symbol_table_section` -/
def makeSymbolTableSection (header : Container) : Except PyException Unit := do
  let _ ← f.getLinkedStrtabSection (header.get .shLink)
  f.initSection header
  -- The object divides the size of the section by that of an entry.
  elfAssert (0 < header.get .shEntsize)
  elfAssert (header.get .shSize % header.get .shEntsize = 0)

/-- `_get_linked_symtab_section` -/
def getLinkedSymtabSection (n : Nat) : Except PyException Unit := do
  match ← f.getSectionHeader n with
  | none => .error .typeError
  | some header =>
    if f.shType header ≠ .symtab ∧ f.shType header ≠ .dynsym then .error .elfError
    else do
      let _ ← f.getSectionName header
      f.makeSymbolTableSection header

/-- `DynamicSection.__init__` -/
def makeDynamicSection (header : Container) : Except PyException Unit := do
  f.initSection header
  match ← f.getSectionHeader (header.get .shLink) with
  | none => .error .attributeError
  | some linked =>
    if f.shType linked ≠ .strtab ∧ f.shType linked ≠ .nobits then .error .elfError
    else do
      let _ ← f.getSectionName linked
      f.initSection linked

/-- `RelocationSection.__init__` -/
def makeRelocationSection (entry : Layout Member) (header : Container) :
    Except PyException Unit := do
  f.initSection header
  elfAssert (header.get .shEntsize = size entry)

/-- `AttributesSection.__init__` -/
def makeAttributesSection (header : Container) : Except PyException Unit := do
  f.initSection header
  let fv ← f.parse attributesVersion (header.get .shOffset)
  elfAssert (fv.get .formatVersion = 'A'.toNat)

/-- `_make_elf_hash_section` -/
def makeElfHashSection (header : Container) : Except PyException Unit := do
  f.getLinkedSymtabSection (header.get .shLink)
  f.initSection header
  let params ← f.parse elfHash (header.get .shOffset)
  parseArray f.stream (header.get .shOffset + size elfHash)
    (params.get .nbuckets + params.get .nchains) 4

/-- `_make_gnu_hash_section` -/
def makeGnuHashSection (header : Container) : Except PyException Unit := do
  f.getLinkedSymtabSection (header.get .shLink)
  f.initSection header
  let params ← f.parse gnuHash (header.get .shOffset)
  let bloom := header.get .shOffset + size gnuHash
  parseArray f.stream bloom (params.get .bloomSize) (xwordSize f.elfclass)
  parseArray f.stream (bloom + params.get .bloomSize * xwordSize f.elfclass)
    (params.get .nbuckets) 4

/-- The two kinds of `GNUVersionSection`. -/
inductive VersionKind where
  | verdef
  | verneed
  deriving DecidableEq, Repr

/-- `GNUVersionSection` -/
structure VersionSection where
  kind : VersionKind
  header : Container
  stringtable : Container
  deriving DecidableEq, Repr

/-- A section object: its name, and what is needed to go through its versions
    where it has any. -/
structure Section where
  name : PyStr
  versions : Option VersionSection
  deriving DecidableEq, Repr

/-- `_make_gnu_verdef_section` and `_make_gnu_verneed_section` -/
def makeVersionSection (kind : VersionKind) (header : Container) :
    Except PyException (Option VersionSection) := do
  let stringtable ← f.getLinkedStrtabSection (header.get .shLink)
  f.initSection header
  return some ⟨kind, header, stringtable⟩

/-- What `_make_section` makes of each type of section, with `get_section` for
    the section another one is linked to. -/
def makeSectionByType (getLinked : Nat → Except PyException Unit) (header : Container) :
    Except PyException (Option VersionSection) :=
  match f.shType header with
  | .symtab | .dynsym | .sunwLdynsym => do
    f.makeSymbolTableSection header
    return none
  | .sunwSyminfo => do
    f.getLinkedSymtabSection (header.get .shLink)
    f.initSection header
    return none
  | .gnuVerneed => f.makeVersionSection .verneed header
  | .gnuVerdef => f.makeVersionSection .verdef header
  -- The only object that needs an object of any type, its own included.
  | .gnuVersym => do
    getLinked (header.get .shLink)
    f.initSection header
    return none
  | .rel => do
    f.makeRelocationSection (elfRel f.elfclass) header
    return none
  | .rela => do
    f.makeRelocationSection (elfRela f.elfclass) header
    return none
  | .relr => do
    f.makeRelocationSection (elfRelr f.elfclass) header
    return none
  | .dynamic => do
    f.makeDynamicSection header
    return none
  | .armAttributes | .riscvAttributes => do
    f.makeAttributesSection header
    return none
  | .hash => do
    f.makeElfHashSection header
    return none
  | .gnuHash => do
    f.makeGnuHashSection header
    return none
  | .null | .progbits | .strtab | .note | .nobits | .symtabShndx | .other _ => do
    f.initSection header
    return none

/-- `_make_section`, with as many calls of it inside one another as the
    interpreter lets there be. -/
def makeSection : Nat → Container → Except PyException Section
  | 0, _ => .error .other
  | depth + 1, header => do
    let name ← f.getSectionName header
    let versions ← f.makeSectionByType
      (fun n => do
        match ← f.getSectionHeader n with
        | none => .error f.noSection
        | some linked => do
          let _ ← makeSection depth linked)
      header
    return ⟨name, versions⟩

/-- `get_section` -/
def getSection (depth n : Nat) : Except PyException Section := do
  match ← f.getSectionHeader n with
  | none => .error f.noSection
  | some header => f.makeSection depth header

/-- `_make_section_name_map`, as far as one name is concerned: a later section
    takes the place of an earlier one of the same name. -/
def sectionNameMap (name : PyStr) (sections : List Section) : Option Nat :=
  sections.zipIdx.foldl (fun secnum sec => if sec.1.name = name then some sec.2 else secnum) none

/-- `get_section_by_name` -/
def getSectionByName (depth : Nat) (name : PyStr) : Except PyException (Option Section) := do
  -- The map takes the names of all sections, so all their objects are made.
  let sections ← (List.range (← f.numSections)).mapM (f.getSection depth)
  match sectionNameMap name sections with
  | none => return none
  | some secnum => return some (← f.getSection depth secnum)

/-! ### Versions -/

namespace VersionKind

/-- `version_struct` -/
def versionStruct : VersionKind → Layout Member
  | verdef => elfVerdef
  | verneed => elfVerneed

/-- `version_auxiliaries_struct` -/
def versionAuxiliariesStruct : VersionKind → Layout Member
  | verdef => elfVerdaux
  | verneed => elfVernaux

/-- `_field_name('cnt')` -/
def cnt : VersionKind → Member
  | verdef => .vdCnt
  | verneed => .vnCnt

/-- `_field_name('aux')` -/
def aux : VersionKind → Member
  | verdef => .vdAux
  | verneed => .vnAux

/-- `_field_name('next')` -/
def next : VersionKind → Member
  | verdef => .vdNext
  | verneed => .vnNext

/-- `_field_name('name', auxiliary=True)` -/
def auxName : VersionKind → Member
  | verdef => .vdaName
  | verneed => .vnaName

/-- `_field_name('next', auxiliary=True)` -/
def auxNext : VersionKind → Member
  | verdef => .vdaNext
  | verneed => .vnaNext

end VersionKind

/-- `_iter_version_auxiliaries`, by the names of the entries. -/
def iterVersionAuxiliaries (v : VersionSection) : Nat → Nat → Gen PyException PyStr
  | 0, _ => .finished []
  | count + 1, entryOffset =>
    match f.parse v.kind.versionAuxiliariesStruct entryOffset with
    | .error e => .raise e
    | .ok entry =>
      match f.getString v.stringtable (entry.get v.kind.auxName) with
      | .error e => .raise e
      | .ok name =>
        (iterVersionAuxiliaries v count (entryOffset + entry.get v.kind.auxNext)).cons name

/-- What `GNUVerNeedSection.iter_versions` looks up before it yields an entry. -/
def getVersionFile (v : VersionSection) (entry : Container) : Except PyException Unit :=
  match v.kind with
  | .verdef => .ok ()
  | .verneed => do
    let _ ← f.getString v.stringtable (entry.get .vnFile)

/-- The loop of `iter_versions`, with the names of the auxiliary entries it
    leads to. -/
def iterVersionsFrom (v : VersionSection) : Nat → Nat → Gen PyException PyStr
  | 0, _ => .finished []
  | count + 1, entryOffset =>
    let version : Except PyException Container := do
      let entry ← f.parse v.kind.versionStruct entryOffset
      -- A definition without a name ends the loop with an exception.
      elfAssert (0 < entry.get v.kind.cnt)
      f.getVersionFile v entry
      return entry
    match version with
    | .error e => .raise e
    | .ok entry =>
      (f.iterVersionAuxiliaries v (entry.get v.kind.cnt)
        (entryOffset + entry.get v.kind.aux)).append
        (iterVersionsFrom v count (entryOffset + entry.get v.kind.next))

/-- `iter_versions` -/
def iterVersions (v : VersionSection) : Gen PyException PyStr :=
  f.iterVersionsFrom v (v.header.get .shInfo) (v.header.get .shOffset)

end ElfFile

/-! ### The File -/

/-- `_identify_file` -/
def identifyFile (s : Stream) : Except PyException (ElfClass × Bool) := do
  elfAssert (s.bytes.take 4 = elfMag)
  -- Where the file ends before it, the byte is empty and belongs to no class.
  let elfclass ← match (s.bytes.drop 4).take 1 with
    | [1] => .ok ElfClass.elf32
    | [2] => .ok ElfClass.elf64
    | _ => .error .elfError
  let bigEndian ← match (s.bytes.drop 5).take 1 with
    | [1] => .ok false
    | [2] => .ok true
    | _ => .error .elfError
  return (elfclass, bigEndian)

/-- `_get_section_header_stringtable`, on a file that has no table yet. -/
def getSectionHeaderStringtable (f : ElfFile) : Except PyException (Option Container) := do
  -- `_make_section` would need the table itself for its name.
  match ← f.getSectionHeader (← f.getShstrndx) with
  | none => return none
  | some header => do
    f.initSection header
    return some header

/-- `ELFFile(stream)` -/
def elfFile (s : Stream) : Except PyException ElfFile := do
  let (elfclass, bigEndian) ← identifyFile s
  let header ← structParse s bigEndian (elfEhdr elfclass) 0
  let f : ElfFile := ⟨s, elfclass, bigEndian, header, none⟩
  return { f with stringtable := ← getSectionHeaderStringtable f }

/-- `".gnu.version_d"` -/
def gnuVersionDName : PyStr := ".gnu.version_d".toList

/-- What the hook gets to see of a file that was opened: the section, if there
    is one, by what going through its versions yields. -/
def readVersionNames (depth : Nat) (s : Stream) :
    Except PyException (Option (List (Except PyException PyStr))) := do
  let f ← elfFile s
  match ← f.getSectionByName depth gnuVersionDName with
  | none => return none
  | some sec =>
    match sec.versions with
    | none => .error .attributeError
    | some v => return some (f.iterVersions v).items

end ElfTools

end AuditLibstdcxx
