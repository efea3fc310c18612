import AuditLibstdcxx.Theory.PyRecursion
import AuditLibstdcxx.Theory.Validity
import Mathlib.Data.List.Find

/-!
# The Python Reader against the Format

What pyelftools reads of a valid file: it finds the section headers, the name
table and the sections where the format has them, also in files with so many
sections that their number is kept in the first header, and it goes through the
version definitions by byte offsets. So where the objects of all sections can be
made, the names the hook gets to see are the names of the file.

`OpenedAs` has what the format leaves to the file and the reader relies on: the
byte order and the size of section headers that the ELF header announces, a name
table that is not compressed, and sections called `.gnu.version_d` of the type
that goes with the name. Of several such sections it is the last that is read.

## Main definitions

* `OpenedAs`: A valid file, as it is opened on the Python side.
* `lastNamed`: The section that is read.
* `verdefNames`: The names in the version definitions of a section.

## Theorems

* `elfFile_eq`: The file is opened.
* `OpenedAs.getSection_eq_ok`: The object of a section.
* `OpenedAs.iterVersions_eq`: Going through the definitions of a section.
* `readVersionNames_iff`: When the names of the file are read.
-/

namespace AuditLibstdcxx

open Checked Exceptions

/-- `e_ident[EI_DATA]` -/
def eiData : Field := ⟨5, 1⟩

/-- `e_shentsize` -/
def ElfClass.eShentsize : ElfClass → Field
  | .elf32 => ⟨46, 2⟩
  | .elf64 => ⟨58, 2⟩

/-- `sh_flags` -/
def ElfClass.shFlags : ElfClass → Field
  | .elf32 => ⟨8, 4⟩
  | .elf64 => ⟨8, 8⟩

namespace ElfTools

open Record Generator ElfFile

/-- A valid file with section headers, as it is opened on the Python side. -/
structure OpenedAs (m : Image) (s : Stream) : Prop where
  bytes : s.bytes = m.bytes
  valid : GabiValid m
  table : m.value 0 m.cls.eShoff ≠ 0
  encoding : m.value 0 eiData = if m.target.bigEndian then 2 else 1
  entrySize : m.value 0 m.cls.eShentsize = m.cls.sizeofShdr
  plain : m.value (headerOffset m (namesIndex m)) m.cls.shFlags &&& shfCompressed = 0
  typed : ∀ i < sectionCount m, IsGnuVersionD m i → secType m i = shtGnuVerdef

section Opening

variable {m : Image} {s : Stream} (h : OpenedAs m s)

/-- A byte of a file, as a structure member. -/
theorem value_byte {p : Nat} (hp : p < m.size) :
    ∃ b, (m.bytes.drop p).take 1 = [b] ∧ m.value 0 ⟨p, 1⟩ = b.toNat := by
  have hlen : p < m.bytes.length := hp
  refine ⟨m.bytes[p], ?_, ?_⟩
  · rw [List.drop_eq_getElem_cons hlen]
    rfl
  · unfold Image.value Image.tail
    rw [Image.ptrAdd_eq (by change 0 + p ≤ m.size; omega), Nat.zero_add,
      List.drop_eq_getElem_cons hlen]
    cases m.target.bigEndian <;> rfl

theorem stores_ehdr_entsize (cls : ElfClass) :
    Stores (elfEhdr cls) .eShentsize cls.eShentsize := by
  cases cls <;> decide

theorem stores_shdr_flags (cls : ElfClass) : Stores (elfShdr cls) .shFlags cls.shFlags := by
  cases cls <;> decide

include h

theorem OpenedAs.len : s.len = m.size :=
  congrArg List.length h.bytes

theorem OpenedAs.ehdr_size : 52 ≤ m.size := by
  have hheader := h.valid.header
  have hsize : 52 ≤ m.cls.sizeofEhdr := by
    cases m.cls <;> decide
  omega

/-- The class and the byte order of the file are those of the C library. -/
theorem OpenedAs.identify : identifyFile s = .ok (m.cls, m.target.bigEndian) := by
  have hsize := h.ehdr_size
  have helf : elfAssert (s.bytes.take 4 = elfMag) = .ok () := by
    rw [h.bytes]
    exact if_pos h.valid.elf
  rcases value_byte (m := m) (p := 4) (by omega) with ⟨cls, hcls, hclass⟩
  rcases value_byte (m := m) (p := 5) (by omega) with ⟨data, hdata, hencoding⟩
  have hnative : cls.toNat = m.cls.expectedElfclass := hclass.symm.trans h.valid.native
  have horder : data.toNat = if m.target.bigEndian then 2 else 1 := hencoding.symm.trans h.encoding
  unfold identifyFile
  rw [helf, ok_bind, h.bytes, hcls, hdata]
  -- Both bytes are known from their values, so the two matches are decided.
  have hclsOf : cls = if m.cls = .elf32 then 1 else 2 := by
    refine UInt8.toNat_inj.mp ?_
    rw [hnative]
    cases m.cls <;> rfl
  have hdataOf : data = if m.target.bigEndian then 2 else 1 := by
    refine UInt8.toNat_inj.mp ?_
    rw [horder]
    cases m.target.bigEndian <;> rfl
  rw [hclsOf, hdataOf]
  cases m.cls <;> cases m.target.bigEndian <;> rfl

omit h in
/-- What opening the file finds out about it. -/
structure IsFileOf (m : Image) (s : Stream) (f : ElfFile) : Prop where
  stream : f.stream = s
  elfclass : f.elfclass = m.cls
  order : f.bigEndian = m.target.bigEndian
  shoff : f.header.get .eShoff = m.value 0 m.cls.eShoff
  shnum : f.header.get .eShnum = m.value 0 m.cls.eShnum
  shstrndx : f.header.get .eShstrndx = m.value 0 m.cls.eShstrndx
  shentsize : f.header.get .eShentsize = m.value 0 m.cls.eShentsize

omit h in
/-- A section header has what the file has. -/
def IsHeaderOf (m : Image) (n : Nat) (header : Container) : Prop :=
  ∀ k fld, Stores (elfShdr m.cls) k fld → header.get k = m.value (headerOffset m n) fld

theorem OpenedAs.inside : headerOffset m (sectionCount m) ≤ m.size :=
  (h.valid.table h.table).2

theorem OpenedAs.namesIndex_lt : namesIndex m < sectionCount m := by
  rcases Nat.eq_zero_or_pos (namesIndex m) with hzero | hpos
  · rw [hzero]
    exact (h.valid.table h.table).1
  · exact (h.valid.namesTable (by omega)).1

section Headers

variable {f : ElfFile} (hf : IsFileOf m s f)

include hf

/-- Section headers are where the format has them. -/
theorem OpenedAs.headerAt {n : Nat} (hn : n < sectionCount m) :
    ∃ header, HeaderAt f n header ∧ IsHeaderOf m n header := by
  have hlen := h.len
  have hle := headerOffset_le h.inside hn
  have hshdr := (stores_shdr m.cls).1
  have hpos : f.sectionOffset n = .ok (headerOffset m n) := by
    unfold ElfFile.sectionOffset
    rw [hf.shoff, hf.shentsize, h.entrySize, hf.elfclass, hshdr, if_neg (by omega)]
    rfl
  rcases exists_structParse s m.target.bigEndian (elfShdr m.cls) (headerOffset m n)
    (by omega) with ⟨header, hheader⟩
  refine ⟨header, ?_, fun k fld hk => get_eq_value h.bytes hheader hk (by omega)⟩
  unfold HeaderAt ElfFile.getSectionHeader ElfFile.parse
  rw [hpos, ok_bind, hf.stream, hf.order, hf.elfclass, hheader, if_neg (by omega)]
  rfl

/-- A member of a header that is looked up by its index. -/
theorem OpenedAs.headerMember {n : Nat} (hn : n < sectionCount m) {k : Member} {fld : Field}
    (hk : Stores (elfShdr m.cls) k fld) :
    f.getSectionHeaderMember n k = .ok (m.value (headerOffset m n) fld) := by
  rcases h.headerAt hf hn with ⟨header, hthere, hheader⟩
  unfold ElfFile.getSectionHeaderMember
  rw [show f.getSectionHeader n = .ok (some header) from hthere, ← hheader k fld hk]
  rfl

/-- The number of sections is that of the format, wherever it is kept. -/
theorem OpenedAs.numSections_eq : f.numSections = .ok (sectionCount m) := by
  unfold ElfFile.numSections sectionCount
  rw [hf.shoff, hf.shnum, if_neg h.table]
  by_cases hzero : m.value 0 m.cls.eShnum = 0
  -- The count is in the first header, since it does not fit into the file header.
  · rw [if_pos hzero, if_neg (not_not.mpr hzero)]
    exact h.headerMember hf (h.valid.table h.table).1 (stores_shdr m.cls).2.2.2.2.1
  · rw [if_neg hzero, if_pos hzero]

/-- So is the index of the name table. -/
theorem OpenedAs.getShstrndx_eq : f.getShstrndx = .ok (namesIndex m) := by
  have hsame : shnXindexHalf = shnXindex := rfl
  unfold ElfFile.getShstrndx namesIndex
  rw [hf.shstrndx, hsame]
  by_cases hescape : m.value 0 m.cls.eShstrndx = shnXindex
  · rw [if_neg (not_not.mpr hescape), if_neg (not_not.mpr hescape)]
    exact h.headerMember hf (h.valid.table h.table).1 (stores_shdr m.cls).2.2.2.2.2.1
  · rw [if_pos hescape, if_pos hescape]

end Headers

/-- The file is opened, with the name table of the format. -/
theorem elfFile_eq : ∃ f stringtable, elfFile s = .ok f ∧ IsFileOf m s f ∧
    f.stringtable = some stringtable ∧ IsHeaderOf m (namesIndex m) stringtable := by
  have hlen := h.len
  have hheader := h.valid.header
  rcases stores_ehdr m.cls with ⟨hsize, hshoff, hshnum, hshstrndx⟩
  rcases exists_structParse s m.target.bigEndian (elfEhdr m.cls) 0 (by omega) with ⟨ehdr, hehdr⟩
  have hget : ∀ k fld, Stores (elfEhdr m.cls) k fld → ehdr.get k = m.value 0 fld :=
    fun k fld hk => get_eq_value h.bytes hehdr hk (Nat.zero_le _)
  -- The file before its name table is known.
  have hf : IsFileOf m s ⟨s, m.cls, m.target.bigEndian, ehdr, none⟩ :=
    ⟨rfl, rfl, rfl, hget _ _ hshoff, hget _ _ hshnum, hget _ _ hshstrndx,
      hget _ _ (stores_ehdr_entsize m.cls)⟩
  rcases h.headerAt hf h.namesIndex_lt with ⟨stringtable, hthere, hnames⟩
  have hplain : stringtable.get .shFlags &&& shfCompressed = 0 := by
    rw [hnames _ _ (stores_shdr_flags m.cls)]
    exact h.plain
  refine ⟨⟨s, m.cls, m.target.bigEndian, ehdr, some stringtable⟩, stringtable, ?_,
    ⟨hf.stream, hf.elfclass, hf.order, hf.shoff, hf.shnum, hf.shstrndx, hf.shentsize⟩, rfl, hnames⟩
  have hfound : getSectionHeaderStringtable ⟨s, m.cls, m.target.bigEndian, ehdr, none⟩ =
      .ok (some stringtable) := by
    unfold getSectionHeaderStringtable ElfFile.initSection
    rw [h.getShstrndx_eq hf, ok_bind, show ElfFile.getSectionHeader _ _ = _ from hthere, ok_bind]
    simp only [hplain, ne_eq, not_true_eq_false, if_false]
    rfl
  unfold elfFile
  rw [h.identify, ok_bind]
  simp only [hehdr, ok_bind, hfound]
  rfl

end Opening

section Objects

variable {m : Image} {s : Stream} (h : OpenedAs m s) {f : ElfFile} (hf : IsFileOf m s f)
  {stringtable : Container} (htable : f.stringtable = some stringtable)
  (hnames : IsHeaderOf m (namesIndex m) stringtable)

include h hf

/-- A header that is looked up has what the file has. -/
theorem OpenedAs.isHeaderOf {n : Nat} (hn : n < sectionCount m) {header : Container}
    (hthere : HeaderAt f n header) : IsHeaderOf m n header := by
  rcases h.headerAt hf hn with ⟨header', hthere', hheader⟩
  have hsame := Option.some.inj (Except.ok.inj (hthere.symm.trans hthere'))
  rwa [hsame]

include htable hnames

/-- The name of a section is where the format has it. -/
theorem OpenedAs.getSectionName_eq {n : Nat} {header : Container} (hheader : IsHeaderOf m n header)
    {name : PyStr} (hname : f.getSectionName header = .ok name) :
    name = stringAt (m.tail (secName m n)) := by
  have hnamed := getSectionName_returns_iff.mp ⟨name, hname⟩
  rcases hnamed with ⟨stringtable', htable', hseek⟩
  have hsame := Option.some.inj (htable.symm.trans htable')
  rw [← hsame] at hseek
  have hoffset := hnames _ _ (stores_shdr m.cls).2.2.2.1
  have hshName := hheader _ _ (stores_shdr m.cls).2.1
  unfold ElfFile.getSectionName at hname
  rw [htable] at hname
  rw [← Except.ok.inj ((getString_eq hseek).symm.trans hname), hf.stream, h.bytes, hoffset, hshName]
  rfl

/-- The object of a section: its name, and in a section of version definitions
    the headers of the section and of its string table. -/
theorem OpenedAs.getSection_eq_ok {n : Nat} (hn : n < sectionCount m) {depth : Nat}
    {sec : ElfFile.Section} (hsec : f.getSection depth n = .ok sec) :
    sec.name = stringAt (m.tail (secName m n)) ∧ (secType m n = shtGnuVerdef →
      ∃ header strings, sec.versions = some ⟨.verdef, header, strings⟩ ∧ IsHeaderOf m n header ∧
        IsHeaderOf m (secLink m n) strings) := by
  rcases (bind_eq_ok _ _ _).mp hsec with ⟨found, hfound, hmake⟩
  cases found with
  | none => cases hmake
  | some header =>
      have hheader := h.isHeaderOf hf hn hfound
      cases depth with
      | zero => cases hmake
      | succ depth =>
          simp only at hmake
          rw [makeSection_succ] at hmake
          rcases (bind_eq_ok _ _ _).mp hmake with ⟨name, hname, hrest⟩
          rcases (bind_eq_ok _ _ _).mp hrest with ⟨versions, hversions, hreturn⟩
          rw [← Except.ok.inj hreturn]
          refine ⟨h.getSectionName_eq hf htable hnames hheader hname, fun htype => ?_⟩
          have hverdef : f.shType header = .gnuVerdef := by
            unfold ElfFile.shType
            rw [hheader _ _ (stores_shdr m.cls).2.2.1, show m.value _ _ = _ from htype]
            rfl
          unfold ElfFile.makeSectionByType at hversions
          rw [hverdef] at hversions
          rcases (bind_eq_ok _ _ _).mp hversions with ⟨strings, hstrings, hinit⟩
          rcases (bind_eq_ok _ _ _).mp hinit with ⟨_, _, hpure⟩
          have hlink := (h.valid.versions h.table n hn htype).link
          have hthere := getLinkedStrtabSection_eq_ok hstrings
          rw [hheader _ _ (stores_shdr m.cls).2.2.2.2.2.1] at hthere
          exact ⟨header, strings, (Except.ok.inj hpure).symm, hheader,
            h.isHeaderOf hf hlink hthere⟩

end Objects

section Versions

/-- The offset of the name of an auxiliary entry. -/
def verdauxName (m : Image) (i k l : Nat) : Nat :=
  secOffset m (secLink m i) + m.value (verdauxOffset m (verdefOffset m i k) l) vdaName

/-- The names in the version definitions of section `i`, in the order of the
    chains. -/
def verdefNames (m : Image) (i : Nat) : List PyStr :=
  (List.range (secInfo m i)).flatMap fun k =>
    (List.range (m.value (verdefOffset m i k) vdCnt)).map fun l =>
      stringAt (m.tail (verdauxName m i k l))

theorem verdauxOffset_succ {m : Image} (p l : Nat) : verdauxOffset m p (l + 1) =
    verdauxOffset m p l + m.value (verdauxOffset m p l) vdaNext := by
  unfold verdauxOffset
  rw [Function.iterate_succ_apply']

variable {m : Image} {s : Stream} (h : OpenedAs m s) {f : ElfFile} (hf : IsFileOf m s f)
  {i : Nat} {header strings : Container} (hi : i < sectionCount m)
  (htype : secType m i = shtGnuVerdef) (hheader : IsHeaderOf m i header)
  (hstrings : IsHeaderOf m (secLink m i) strings)

include h hi htype

/-- The definitions of the section are in the file. -/
theorem OpenedAs.chain : secOffset m i + secSize m i ≤ m.size ∧ VersionDefs m i (secInfo m i) := by
  refine ⟨h.valid.sections h.table i hi ⟨?_, ?_⟩, h.valid.versions h.table i hi htype⟩
  · rw [htype]
    decide
  · rw [htype]
    decide

include hf hstrings

/-- Going through the auxiliary entries of a definition, from one of them on. -/
theorem OpenedAs.iterVersionAuxiliaries_eq (header : Container) {k : Nat}
    (hk : k < secInfo m i) (count l : Nat) (hl : l + count ≤ m.value (verdefOffset m i k) vdCnt) :
    f.iterVersionAuxiliaries ⟨.verdef, header, strings⟩ count
      (verdauxOffset m (verdefOffset m i k) l) =
      .finished ((List.range' l count).map fun l => stringAt (m.tail (verdauxName m i k l))) := by
  rcases h.chain hi htype with ⟨hinside, hdefs⟩
  have hlen := h.len
  induction count generalizing l with
  | zero => rfl
  | succ count ih =>
      have hentry := hdefs.entries k hk l (by omega)
      have hname := hdefs.names k hk l (by omega)
      have hstrtab := hdefs.strings.inside
      have hverdaux := stores_verdaux
      rcases exists_structParse s m.target.bigEndian elfVerdaux
        (verdauxOffset m (verdefOffset m i k) l) (by omega) with ⟨entry, hparse⟩
      have hget := fun k fld hk => get_eq_value (k := k) (f := fld) h.bytes hparse hk (by omega)
      have hread : f.parse elfVerdaux (verdauxOffset m (verdefOffset m i k) l) = .ok entry := by
        unfold ElfFile.parse
        rw [hf.stream, hf.order]
        exact hparse
      -- The name is where the format has it, so seeking gets there.
      have hoffset := hstrings _ _ (stores_shdr m.cls).2.2.2.1
      have hvdaName := hget _ _ hverdaux.2.1
      have hposition : strings.get .shOffset + entry.get .vdaName = verdauxName m i k l := by
        rw [hoffset, hvdaName]
        rfl
      have hseek : strings.get .shOffset + entry.get .vdaName ≤ f.stream.maxOffset := by
        have hfits := s.fits
        change s.len ≤ s.maxOffset at hfits
        rw [hposition, hf.stream]
        unfold verdauxName
        omega
      have hstring := getString_eq hseek
      rw [hposition, hf.stream, h.bytes] at hstring
      change f.getString strings (entry.get .vdaName) =
        .ok (stringAt (m.tail (verdauxName m i k l))) at hstring
      -- The next entry is one step further along the chain.
      have hnext : verdauxOffset m (verdefOffset m i k) l + entry.get .vdaNext =
          verdauxOffset m (verdefOffset m i k) (l + 1) := by
        rw [hget _ _ hverdaux.2.2, verdauxOffset_succ]
      unfold ElfFile.iterVersionAuxiliaries
      simp only [VersionKind.versionAuxiliariesStruct, VersionKind.auxName, VersionKind.auxNext,
        hread, hstring, hnext, ih (l + 1) (by omega), Gen.cons_finished, List.range'_succ,
        List.map_cons]

/-- Going through the definitions of a section, from one of them on. -/
theorem OpenedAs.iterVersionsFrom_eq (count k : Nat) (hk : k + count ≤ secInfo m i) :
    f.iterVersionsFrom ⟨.verdef, header, strings⟩ count (verdefOffset m i k) =
      .finished ((List.range' k count).flatMap fun k =>
        (List.range (m.value (verdefOffset m i k) vdCnt)).map fun l =>
          stringAt (m.tail (verdauxName m i k l))) := by
  rcases h.chain hi htype with ⟨hinside, hdefs⟩
  have hlen := h.len
  induction count generalizing k with
  | zero => rfl
  | succ count ih =>
      have hdefinition := hdefs.definitions k (by omega)
      have hnamed := hdefs.named k (by omega)
      have hverdef := stores_verdef
      rcases exists_structParse s m.target.bigEndian elfVerdef (verdefOffset m i k)
        (by omega) with ⟨entry, hparse⟩
      have hget := fun k fld hk => get_eq_value (k := k) (f := fld) h.bytes hparse hk (by omega)
      have hread : f.parse elfVerdef (verdefOffset m i k) = .ok entry := by
        unfold ElfFile.parse
        rw [hf.stream, hf.order]
        exact hparse
      have hcnt := hget _ _ hverdef.2.1
      -- The chain of auxiliary entries begins where the format has it.
      have hfirst : verdefOffset m i k + entry.get .vdAux =
          verdauxOffset m (verdefOffset m i k) 0 := by
        rw [hget _ _ hverdef.2.2.1]
        rfl
      have hnext : verdefOffset m i k + entry.get .vdNext = verdefOffset m i (k + 1) := by
        rw [hget _ _ hverdef.2.2.2, verdefOffset_succ]
      have hauxiliaries := h.iterVersionAuxiliaries_eq hf hi htype hstrings header
        (show k < secInfo m i by omega) (m.value (verdefOffset m i k) vdCnt) 0 (by omega)
      rw [← List.range_eq_range'] at hauxiliaries
      unfold ElfFile.iterVersionsFrom
      simp only [VersionKind.versionStruct, VersionKind.cnt, VersionKind.aux, VersionKind.next,
        ElfFile.getVersionFile, hread, ok_bind, elfAssert, hcnt, hnamed, if_true, pure, Except.pure,
        hfirst, hauxiliaries, hnext, ih (k + 1) (by omega), Gen.append_finished, List.range'_succ,
        List.flatMap_cons]

include hheader

/-- Going through the versions of a section finds the names of its definitions. -/
theorem OpenedAs.iterVersions_eq :
    f.iterVersions ⟨.verdef, header, strings⟩ = .finished (verdefNames m i) := by
  have hinfo : header.get .shInfo = secInfo m i := hheader _ _ (stores_shdr m.cls).2.2.2.2.2.2
  have hoffset : header.get .shOffset = verdefOffset m i 0 :=
    hheader _ _ (stores_shdr m.cls).2.2.2.1
  unfold ElfFile.iterVersions verdefNames
  simp only [hinfo, hoffset]
  rw [h.iterVersionsFrom_eq hf hi htype hstrings _ 0 (by omega), ← List.range_eq_range']

end Versions

section Names

/-- The section that is read: the last one called `.gnu.version_d`. -/
def lastNamed (m : Image) : Option Nat :=
  (List.range (sectionCount m)).reverse.find? fun i => decide (IsGnuVersionD m i)

/-- The names in a file, as the hook gets to see them. -/
def fileNames (m : Image) : Option (List (Except PyException PyStr)) :=
  (lastNamed m).map fun i => (verdefNames m i).map .ok

/-- The two sides agree on what is called `.gnu.version_d`. -/
theorem isGnuVersionD_iff (m : Image) (i : Nat) :
    IsGnuVersionD m i ↔ stringAt (m.tail (secName m i)) = gnuVersionDName := by
  rw [stringAt_eq_iff (by decide) (by decide) (by decide), List.prefix_iff_eq_take, eq_comm]
  rfl

theorem lastNamed_eq_some {m : Image} {i : Nat} (h : lastNamed m = some i) :
    i < sectionCount m ∧ IsGnuVersionD m i := by
  have hmem := List.mem_of_find?_eq_some h
  rw [List.mem_reverse, List.mem_range] at hmem
  exact ⟨hmem, of_decide_eq_true (List.find?_some (p := fun i => decide (IsGnuVersionD m i)) h)⟩

variable {m : Image} {s : Stream} (h : OpenedAs m s)

include h

/-- Where all objects are made, the names of the file are read. -/
theorem OpenedAs.readVersionNames_eq {f : ElfFile} {stringtable : Container}
    (hopen : elfFile s = .ok f) (hf : IsFileOf m s f) (htable : f.stringtable = some stringtable)
    (hnames : IsHeaderOf m (namesIndex m) stringtable) {depth : Nat}
    (hmade : ∀ i < sectionCount m, Returns (f.getSection depth i)) :
    readVersionNames depth s = .ok (fileNames m) := by
  have hinhabited : Nonempty ElfFile.Section := ⟨⟨[], none⟩⟩
  -- The objects, one for every section of the file.
  choose! g hg using hmade
  have hsections : (List.range (sectionCount m)).mapM (f.getSection depth) =
      .ok ((List.range (sectionCount m)).map g) :=
    mapM_eq_map fun i hi => hg i (List.mem_range.mp hi)
  -- The section that is found is the last of the name.
  have hmap : ElfFile.sectionNameMap gnuVersionDName ((List.range (sectionCount m)).map g) =
      lastNamed m := by
    rw [sectionNameMap_range]
    unfold lastNamed
    refine List.find?_congr fun i hi => ?_
    rw [List.mem_reverse, List.mem_range] at hi
    have hname := (h.getSection_eq_ok hf htable hnames hi (hg i hi)).1
    rw [decide_eq_decide, isGnuVersionD_iff, hname]
  unfold readVersionNames fileNames
  rw [hopen, ok_bind, getSectionByName_eq (h.numSections_eq hf), hsections, ok_bind]
  unfold lookupIn
  rw [hmap]
  cases hlast : lastNamed m with
  | none => rfl
  | some i =>
      rcases lastNamed_eq_some hlast with ⟨hi, hname⟩
      have htype := h.typed i hi hname
      rcases (h.getSection_eq_ok hf htable hnames hi (hg i hi)).2 htype with
        ⟨header, strings, hversions, hheader, hstrings⟩
      have hiter := h.iterVersions_eq hf hi htype hheader hstrings
      simp only [hg i hi, ok_bind, pure_bind, hversions, hiter, Gen.items_finished, Option.map_some]
      rfl

/-- The names of the file are read, with any limit from some on, exactly when the
    objects of all its sections can be made. -/
theorem readVersionNames_iff : ∃ f, elfFile s = .ok f ∧
    ((∃ depth₀, ∀ depth, depth₀ ≤ depth → readVersionNames depth s = .ok (fileNames m)) ↔
      ∀ i < sectionCount m, Builds f i) := by
  rcases elfFile_eq h with ⟨f, stringtable, hopen, hf, htable, hnames⟩
  have hnum := h.numSections_eq hf
  refine ⟨f, hopen, ?_, fun hbuilds => ?_⟩
  · rintro ⟨depth, hread⟩ i hi
    -- At its own limit the file was read, so every object was made for the map.
    have hnow := hread depth (Nat.le_refl depth)
    unfold readVersionNames at hnow
    rw [hopen, ok_bind] at hnow
    rcases (bind_eq_ok _ _ _).mp hnow with ⟨sec, hsec, _⟩
    exact exists_getSection_returns_iff.mp
      ⟨depth, (getSectionByName_returns_of_depth hnum).mp ⟨sec, hsec⟩ i hi⟩
  · refine ⟨stock f + 1, fun depth hdepth => ?_⟩
    refine h.readVersionNames_eq hopen hf htable hnames fun i hi => ?_
    exact (hbuilds i hi).returns_of_ne (getSection_done (eShoff_pos hnum (by omega))
      (hbuilds i hi).not_comesRound hdepth)

end Names

section Sample

/-- The sample library, opened for reading. -/
def sampleStream : Stream where
  bytes := sampleBytes 19 1
  maxOffset := 2 ^ 63 - 1
  fits := by decide +kernel
  offT := lastOffset_lt

/-- The library that defines `GLIBCXX_3.5`, opened for reading. -/
def newerStream : Stream where
  bytes := sampleBytes 31 1
  maxOffset := 2 ^ 63 - 1
  fits := by decide +kernel
  offT := lastOffset_lt

theorem sampleStream_opened : OpenedAs (sampleLibrary false) sampleStream where
  bytes := rfl
  valid := singleLibrary_valid
  table := by decide +kernel
  encoding := by decide +kernel
  entrySize := by decide +kernel
  plain := by decide +kernel
  typed := by decide +kernel

/-- All sections of either library can be made, and the links of none go far. -/
theorem sampleStreams_made : ∀ s ∈ [sampleStream, newerStream], ∀ f, elfFile s = .ok f →
    stock f < 1000 ∧ ∀ i < 3, Builds f i := by
  have hmade : ∀ s ∈ [sampleStream, newerStream], ∀ f ∈ (elfFile s).toOption,
      stock f < 1000 ∧ ∀ i < 3, (f.getSection 1 i).toOption.isSome := by
    decide +kernel
  intro s hs f hf
  rcases hmade s hs f (by rw [hf]; rfl) with ⟨hstock, hsections⟩
  refine ⟨hstock, fun i hi => exists_getSection_returns_iff.mp ⟨1, ?_⟩⟩
  cases hsec : f.getSection 1 i with
  | ok sec => exact returns_ok sec
  | error e =>
      have hsome := hsections i hi
      rw [hsec] at hsome
      cases hsome

/-- The name of the version in the sample library is read. -/
theorem sampleStream_names : ∃ depth₀, ∀ depth, depth₀ ≤ depth →
    readVersionNames depth sampleStream = .ok (some [.ok "GLIBCXX_3.4".toList]) := by
  have hcount : sectionCount (sampleLibrary false) = 3 := by
    decide +kernel
  have hnames : fileNames (sampleLibrary false) = some [.ok "GLIBCXX_3.4".toList] := by
    decide +kernel
  rcases readVersionNames_iff sampleStream_opened with ⟨f, hopen, hiff⟩
  rw [hnames, hcount] at hiff
  exact hiff.mpr (sampleStreams_made sampleStream (by simp) f hopen).2

end Sample

end ElfTools

end AuditLibstdcxx
