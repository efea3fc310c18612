import AuditLibstdcxx.Theory.Validity

/-!
# Files of Any Content

Where the reader looks in a file nobody vouches for. Every offset, count and
index it follows comes from the file, and its checks are meant to keep it
inside. They do so only in part: the members of the ELF header are read before
the length of the file is compared with anything, the index of the section
name table is compared with a number of bytes, the length of a name with
nothing, and the places a version definition leads to are checked for where
they start, if at all.

`StaysInside` puts this as a condition on the file. What the `ASSERT`s compare
is apart from it, in `HeaderChecks`, `VerdefChecks` and `SectionChecks`: these
are about the numbers in the file and say how far they lead. The conditions
proper are about lengths: a member the numbers lead to has to end before the
file does, and a name there has to show in the file where it ends.

## Main definitions

* `ReadsInside`: No read of the reader leaves the file.
* `ShdrInside`: A member of a section header is in the file.
* `HeaderChecks`, `VerdefChecks`, `SectionChecks`: What the checks compare.
* `verdefPlace`, `InVerdefs`, `GoesOn`: The definitions of a section.
* `HeaderFits`, `EntryFits`, `VerdefFits`, `SectionFits`: What has to be in the
  file.
* `StaysInside`: All of that, for the whole file.

## Theorems

* `headerReads_iff`: The ELF header and the header of the section names.
* `verdefReads_iff`: A version definition.
* `walkReads_iff`: The definitions of a section.
* `sectionReads_iff`: A section.
* `scanReads_iff`: The whole file.
* `readsInside_iff`: When the reader stays inside a file.
-/

namespace AuditLibstdcxx

open Checked

/-- No read of the reader leaves the file, whatever the fuel. -/
def ReadsInside (file : OpenFile) : Prop :=
  ∀ fuel fd out, getLibstdcxxVersion fuel fd file out ≠ .error .outOfRange

section Places

variable (m : Image)

/-- The member `f` of section header `i` is in the file. -/
def ShdrInside (i : Nat) (f : Field) : Prop :=
  headerOffset m i + (f.off + f.size) ≤ m.size

/-- What the checks on the header compare. -/
structure HeaderChecks : Prop where
  shoff : m.value 0 m.cls.eShoff < m.size
  shstrndx : m.value 0 m.cls.eShstrndx < m.size - m.value 0 m.cls.eShoff
  below : m.value 0 m.cls.eShstrndx < m.value 0 m.cls.eShnum
  namesOffset : secOffset m (m.value 0 m.cls.eShstrndx) < m.size
  shnum : m.value 0 m.cls.eShnum ≤ m.size / m.cls.sizeofShdr
  namesSize : secSize m (m.value 0 m.cls.eShstrndx) <
    m.size - secOffset m (m.value 0 m.cls.eShstrndx)

/-- What the checks compare for the definition at `p` of section `i`: where
    its entries start, and where their names do. -/
structure VerdefChecks (i p : Nat) : Prop where
  below : m.addr (verdefAux m p) < m.endAddr
  names : ∀ l < m.value p vdCnt,
    m.addr (auxName m (stringTableOf m m.table i) (auxAt m p l)) < m.endAddr

/-- The `k`-th definition of section `i`, by the chain of `vd_next`. -/
def verdefPlace (i k : Nat) : Nat :=
  (verdefNext m)^[k] (secOffset m i)

/-- A definition at `p` is one of section `i`. -/
def InVerdefs (i p : Nat) : Prop :=
  m.addr (secOffset m i) ≤ m.addr p ∧ m.distance p (secOffset m i) < secSize m i

/-- The definition at `p` of section `i` leads to another one. -/
structure GoesOn (i p : Nat) : Prop where
  within : InVerdefs m i p
  checks : VerdefChecks m i p
  more : m.value p vdNext ≠ 0

/-- The chain of section `i` comes to an end: it leaves the section, or the
    last definition is there. -/
def ChainEnds (i : Nat) : Prop :=
  ∃ k, (∀ j < k, GoesOn m i (verdefPlace m i j)) ∧
    (InVerdefs m i (verdefPlace m i k) →
      VerdefChecks m i (verdefPlace m i k) ∧ m.value (verdefPlace m i k) vdNext = 0)

/-- The name of section `i` starts in the name table. -/
def NameBelow (i : Nat) : Prop :=
  m.value (headerOffset m i) m.cls.shName < secSize m (m.value 0 m.cls.eShstrndx)

/-- Section `i` is looked through for definitions. -/
def HoldsVerdefs (i : Nat) : Prop :=
  NameBelow m i ∧ BeginsGnuVersionD m i

/-- What the checks compare for section `i`. -/
structure SectionChecks (i : Nat) : Prop where
  name : NameBelow m i
  offset : HoldsVerdefs m i → secOffset m i < m.size
  chain : HoldsVerdefs m i → ChainEnds m i

/-- The ELF header is in the file as far as it is looked at, and so is the
    header of the section that holds the names. Its index is compared with the
    number of *bytes* behind `e_shoff`, so that one does not follow. -/
structure HeaderFits : Prop where
  shoff : m.cls.eShoff.off + m.cls.eShoff.size ≤ m.size
  ehdr : m.value 0 m.cls.eShoff < m.size → m.cls.sizeofEhdr ≤ m.size
  namesOffset : m.value 0 m.cls.eShoff < m.size →
    m.value 0 m.cls.eShstrndx < m.size - m.value 0 m.cls.eShoff →
    m.value 0 m.cls.eShstrndx < m.value 0 m.cls.eShnum →
      ShdrInside m (m.value 0 m.cls.eShstrndx) m.cls.shOffset
  namesSize : m.value 0 m.cls.eShoff < m.size →
    m.value 0 m.cls.eShstrndx < m.size - m.value 0 m.cls.eShoff →
    m.value 0 m.cls.eShstrndx < m.value 0 m.cls.eShnum →
    secOffset m (m.value 0 m.cls.eShstrndx) < m.size →
    m.value 0 m.cls.eShnum ≤ m.size / m.cls.sizeofShdr →
      ShdrInside m (m.value 0 m.cls.eShstrndx) m.cls.shSize

/-- The entry at `p` is in the file, and its name can be told from `GLIBCXX_`
    and read there, unless it starts behind the file. -/
structure EntryFits (stringTable p : Nat) : Prop where
  name : m.Has p vdaName
  readable : m.addr (auxName m stringTable p) < m.endAddr →
    NameReadable m (auxName m stringTable p)
  next : m.addr (auxName m stringTable p) < m.endAddr → m.Has p vdaNext

/-- The definition at `p` of section `i` is in the file, with the header of its
    string table, and so is each of its entries up to the first whose name
    starts behind the file. -/
structure VerdefFits (i p : Nat) : Prop where
  aux : m.Has p vdAux
  link : m.addr (verdefAux m p) < m.endAddr → ShdrInside m i m.cls.shLink
  strings : m.addr (verdefAux m p) < m.endAddr →
    m.Has (stringTableHeader m m.table i) m.cls.shOffset
  cnt : m.addr (verdefAux m p) < m.endAddr → m.Has p vdCnt
  entries : m.addr (verdefAux m p) < m.endAddr → ∀ l < m.value p vdCnt,
    (∀ j < l, m.addr (auxName m (stringTableOf m m.table i) (auxAt m p j)) < m.endAddr) →
      EntryFits m (stringTableOf m m.table i) (auxAt m p l)
  next : VerdefChecks m i p → m.Has p vdNext

/-- The header of section `i` is in the file, its name can be told from
    `.gnu.version_d` there, and its definitions are in the file, if it is
    looked through for any. -/
structure SectionFits (i : Nat) : Prop where
  name : ShdrInside m i m.cls.shName
  compares : NameBelow m i → Compares m (secName m i) gnuVersionD
  offset : HoldsVerdefs m i → ShdrInside m i m.cls.shOffset
  size : HoldsVerdefs m i → secOffset m i < m.size → ShdrInside m i m.cls.shSize
  verdefs : HoldsVerdefs m i → secOffset m i < m.size →
    ∀ k, (∀ j < k, GoesOn m i (verdefPlace m i j)) → InVerdefs m i (verdefPlace m i k) →
      VerdefFits m i (verdefPlace m i k)

/-- What the file leads to is in the file. A file that is not ELF, or of the
    other class, is not looked at any further, and neither is what comes
    behind a check that fails. -/
structure StaysInside : Prop where
  mag : eiMag.off + eiMag.size ≤ m.size
  cls : m.IsElf → eiClass.off + eiClass.size ≤ m.size
  header : m.IsElf → m.IsNative → HeaderFits m
  sections : m.IsElf → m.IsNative → HeaderChecks m → ∀ i < m.value 0 m.cls.eShnum,
    (∀ j < i, SectionChecks m j) → SectionFits m i

end Places

section Bounds

variable {m : Image}

theorem wordBits_ge (c : ElfClass) : 2 ^ 32 ≤ 2 ^ c.wordBits := by
  cases c <;> decide

/-- Low in the address space a member is in the file when its end is. -/
theorem has_iff_of_lt {p : Nat} {f : Field} (h : p + f.off < 2 ^ m.cls.wordBits) :
    m.Has p f ↔ p + (f.off + f.size) ≤ m.size := by
  unfold Image.Has Image.ptrAdd
  rw [Nat.mod_eq_of_lt h, Nat.add_assoc]

theorem has_zero_iff {f : Field} (hf : f.off < 2 ^ 32) : m.Has 0 f ↔ f.off + f.size ≤ m.size := by
  have hword := wordBits_ge m.cls
  rw [has_iff_of_lt (by omega), Nat.zero_add]

/-- A table that starts in the file has its headers low in the address space,
    since there are not many. -/
theorem headerOffset_add_lt (hshoff : m.value 0 m.cls.eShoff < m.size) {i : Nat} (hi : i < 2 ^ 16)
    {k : Nat} (hk : k < 2 ^ 16) : headerOffset m i + k < 2 ^ m.cls.wordBits := by
  have hoffT := m.offT
  have hsize : m.size = m.bytes.length := rfl
  unfold headerOffset
  rw [← hsize] at hoffT
  generalize m.value 0 m.cls.eShoff = shoff at hshoff ⊢
  change m.size < 2 ^ (m.cls.wordBits - 1) at hoffT
  cases hcls : m.cls with
  | elf32 =>
      rw [hcls] at hoffT
      simp only [ElfClass.wordBits, ElfClass.sizeofShdr] at hoffT ⊢
      omega
  | elf64 =>
      rw [hcls] at hoffT
      simp only [ElfClass.wordBits, ElfClass.sizeofShdr] at hoffT ⊢
      omega

theorem index_lt (m : Image) :
    m.value 0 m.cls.eShstrndx < 2 ^ 16 ∧ m.value 0 m.cls.eShnum < 2 ^ 16 := by
  have hndx := Image.value_lt (m := m) 0 m.cls.eShstrndx
  have hnum := Image.value_lt (m := m) 0 m.cls.eShnum
  have hsizes : m.cls.eShstrndx.size = 2 ∧ m.cls.eShnum.size = 2 := by
    cases m.cls <;> exact ⟨rfl, rfl⟩
  rw [hsizes.1] at hndx
  rw [hsizes.2] at hnum
  exact ⟨hndx, hnum⟩

theorem ehdr_off_lt (c : ElfClass) : c.eShoff.off < 2 ^ 32 ∧ c.eShstrndx.off < 2 ^ 32 := by
  cases c <;> decide

theorem shdr_off_lt (c : ElfClass) : c.shName.off < 2 ^ 16 ∧ c.shOffset.off < 2 ^ 16 ∧
    c.shSize.off < 2 ^ 16 ∧ c.shLink.off < 2 ^ 16 := by
  cases c <;> decide

section Table

variable (hshoff : m.value 0 m.cls.eShoff < m.size) {i : Nat} (hi : i < 2 ^ 16)

include hshoff hi

theorem tableHeader_eq : m.table.header m i = headerOffset m i := by
  have hshdr : m.ptrAdd 0 (m.value 0 m.cls.eShoff) = m.value 0 m.cls.eShoff := by
    rw [Image.ptrAdd_eq (by omega), Nat.zero_add]
  unfold SectionTable.header Image.table
  simp only [hshdr]
  exact Nat.mod_eq_of_lt (headerOffset_add_lt hshoff hi (by decide : 0 < 2 ^ 16))

theorem has_tableHeader_iff {f : Field} (hf : f.off < 2 ^ 16) :
    m.Has (m.table.header m i) f ↔ ShdrInside m i f := by
  rw [tableHeader_eq hshoff hi, has_iff_of_lt (headerOffset_add_lt hshoff hi hf)]
  rfl

theorem tableHeader_shOffset : m.value (m.table.header m i) m.cls.shOffset = secOffset m i := by
  rw [tableHeader_eq hshoff hi]
  rfl

end Table

theorem namesHeader_eq_of_lt (hshoff : m.value 0 m.cls.eShoff < m.size) :
    namesHeader m = headerOffset m (m.value 0 m.cls.eShstrndx) :=
  tableHeader_eq hshoff (index_lt m).1

/-- The checks on the header, told apart from where its members are. -/
theorem headerPasses_iff (hfits : HeaderFits m) : HeaderPasses m ↔ HeaderChecks m := by
  constructor
  · intro h
    have hnames := namesHeader_eq_of_lt h.shoffInside
    have hinside := h.namesInside
    have hend := h.namesEnd
    rw [hnames] at hinside hend
    exact ⟨h.shoffInside, h.shstrndxInside, h.shstrndxBelow, hinside, h.shnumInside, hend⟩
  · intro h
    have hehdr := hfits.ehdr h.shoff
    have hfields := sizeofEhdr_fields m.cls
    have hnames := namesHeader_eq_of_lt h.shoff
    have hhas := fun f hf => (has_tableHeader_iff (f := f) h.shoff (index_lt m).1 hf).mpr
    refine ⟨has_ehdr hehdr _ hfields.2.2.1, h.shoff, has_ehdr hehdr _ hfields.2.2.2.2,
      h.shstrndx, has_ehdr hehdr _ hfields.2.2.2.1, h.below, ?_, ?_, h.shnum, ?_, ?_⟩
    · exact hhas _ (shdr_off_lt m.cls).2.1 (hfits.namesOffset h.shoff h.shstrndx h.below)
    · rw [hnames]
      exact h.namesOffset
    · exact hhas _ (shdr_off_lt m.cls).2.2.1
        (hfits.namesSize h.shoff h.shstrndx h.below h.namesOffset h.shnum)
    · rw [hnames]
      exact h.namesSize

/-- What the header checks read, put as lengths. -/
theorem headerReads_iff : HeaderReads m ↔ HeaderFits m := by
  have hfields := sizeofEhdr_fields m.cls
  have hlast : m.cls.eShstrndx.off + m.cls.eShstrndx.size = m.cls.sizeofEhdr := by
    cases m.cls <;> rfl
  have hoffs := ehdr_off_lt m.cls
  constructor
  · rintro ⟨hshoff, hrest⟩
    refine ⟨(has_zero_iff hoffs.1).mp hshoff, fun hin => ?_, fun hin hndx hbelow => ?_,
      fun hin hndx hbelow hoffset hnum => ?_⟩
    · rw [← hlast]
      exact (has_zero_iff hoffs.2).mp (hrest hin).1
    · exact (has_tableHeader_iff hin (index_lt m).1 (shdr_off_lt m.cls).2.1).mp
        (((hrest hin).2 hndx).2 hbelow).1
    · have hread := (((hrest hin).2 hndx).2 hbelow).2
      rw [namesHeader_eq_of_lt hin] at hread
      rw [← has_tableHeader_iff hin (index_lt m).1 (shdr_off_lt m.cls).2.2.1,
        tableHeader_eq hin (index_lt m).1]
      exact hread hoffset hnum
  · intro h
    refine ⟨(has_zero_iff hoffs.1).mpr h.shoff, fun hin => ⟨has_ehdr (h.ehdr hin) _ hfields.2.2.2.2,
      fun hndx => ⟨has_ehdr (h.ehdr hin) _ hfields.2.2.2.1, fun hbelow => ?_⟩⟩⟩
    rw [namesHeader_eq_of_lt hin, ← tableHeader_eq hin (index_lt m).1,
      has_tableHeader_iff hin (index_lt m).1 (shdr_off_lt m.cls).2.1,
      has_tableHeader_iff hin (index_lt m).1 (shdr_off_lt m.cls).2.2.1,
      tableHeader_eq hin (index_lt m).1]
    exact ⟨h.namesOffset hin hndx hbelow, h.namesSize hin hndx hbelow⟩

/-- An entry that is in the file is gone through when its name starts there. -/
theorem auxPasses_iff {stringTable p : Nat} (h : EntryFits m stringTable p) :
    AuxPasses m stringTable p ↔ m.addr (auxName m stringTable p) < m.endAddr :=
  ⟨fun hpasses => hpasses.below, fun hbelow => ⟨h.name, hbelow, h.readable hbelow, h.next hbelow⟩⟩

theorem auxReads_iff (stringTable p : Nat) :
    AuxReads m stringTable p ↔ EntryFits m stringTable p :=
  ⟨fun h => ⟨h.1, fun hbelow => (h.2 hbelow).1, fun hbelow => (h.2 hbelow).2⟩,
    fun h => ⟨h.name, fun hbelow => ⟨h.readable hbelow, h.next hbelow⟩⟩⟩

section Verdef

variable {i : Nat} (hshoff : m.value 0 m.cls.eShoff < m.size) (hi : i < 2 ^ 16)
  (hoffset : ShdrInside m i m.cls.shOffset) (hinside : secOffset m i < m.size)

include hshoff hi hoffset hinside

/-- The checks on a definition, told apart from where its members are. -/
theorem bodyPasses_iff {p : Nat} (hfits : VerdefFits m i p) :
    BodyPasses m m.table i p ↔ VerdefChecks m i p := by
  have hin : m.value (m.table.header m i) m.cls.shOffset < m.size := by
    rwa [tableHeader_shOffset hshoff hi]
  have hentries := fun hbelow => before_congr (m.value p vdCnt) (fun l _ => auxPasses_iff)
    (hfits.entries hbelow)
  constructor
  · exact fun h => ⟨h.below, (hentries h.below).mp h.entries⟩
  · intro h
    exact ⟨hfits.aux, h.below, (has_tableHeader_iff hshoff hi (shdr_off_lt m.cls).2.1).mpr hoffset,
      hin, (has_tableHeader_iff hshoff hi (shdr_off_lt m.cls).2.2.2).mpr (hfits.link h.below),
      hfits.strings h.below, hfits.cnt h.below, (hentries h.below).mpr h.names⟩

theorem verdefPasses_iff {p : Nat} (hfits : VerdefFits m i p) :
    VerdefPasses m m.table i p ↔ VerdefChecks m i p := by
  rw [← bodyPasses_iff hshoff hi hoffset hinside hfits]
  refine ⟨fun h => h.toBodyPasses, fun h => ⟨h, hfits.next ?_⟩⟩
  exact (bodyPasses_iff hshoff hi hoffset hinside hfits).mp h

/-- What a pass over a definition reads, put as lengths. -/
theorem verdefReads_iff (p : Nat) : VerdefReads m m.table i p ↔ VerdefFits m i p := by
  have hin : m.value (m.table.header m i) m.cls.shOffset < m.size := by
    rwa [tableHeader_shOffset hshoff hi]
  have hhas : m.Has (m.table.header m i) m.cls.shOffset :=
    (has_tableHeader_iff hshoff hi (shdr_off_lt m.cls).2.1).mpr hoffset
  have hlink := has_tableHeader_iff hshoff hi (shdr_off_lt m.cls).2.2.2
  have hguard := guarded_congr (m.value p vdCnt) fun l _ =>
    @auxPasses_iff m (stringTableOf m m.table i) (auxAt m p l)
  unfold VerdefReads BodyReads
  simp only [auxReads_iff]
  constructor
  · rintro ⟨⟨haux, hrest⟩, hnext⟩
    have hbody := fun hbelow => (hrest hbelow).2 hin
    have hentries := fun hbelow => hguard.mp (hbody hbelow).2.2.2
    refine ⟨haux, fun hbelow => hlink.mp (hbody hbelow).1, fun hbelow => (hbody hbelow).2.1,
      fun hbelow => (hbody hbelow).2.2.1, hentries, fun hchecks => hnext ?_⟩
    -- With the checks, every entry is gone through.
    have hall := (before_congr (m.value p vdCnt) (fun l _ => auxPasses_iff)
      (hentries hchecks.below)).mpr hchecks.names
    have hplaces := hbody hchecks.below
    exact ⟨haux, hchecks.below, hhas, hin, hplaces.1, hplaces.2.1, hplaces.2.2.1, hall⟩
  · intro h
    refine ⟨⟨h.aux, fun hbelow => ⟨hhas, fun _ => ⟨hlink.mpr (h.link hbelow), h.strings hbelow,
      h.cnt hbelow, hguard.mpr (h.entries hbelow)⟩⟩⟩, fun hpasses => h.next ?_⟩
    exact (bodyPasses_iff hshoff hi hoffset hinside h).mp hpasses

/-- What a pass of the loop over definitions reads. -/
theorem passReads_iff (p : Nat) : PassReads m m.table i (secOffset m i) p ↔
    (m.addr (secOffset m i) ≤ m.addr p → ShdrInside m i m.cls.shSize) ∧
      (InVerdefs m i p → VerdefFits m i p) := by
  have hsize := has_tableHeader_iff hshoff hi (shdr_off_lt m.cls).2.2.1
  unfold PassReads InVerdefs
  rw [← verdefReads_iff hshoff hi hoffset hinside, ← hsize, tableHeader_eq hshoff hi]
  constructor
  · exact fun h => ⟨fun habove => (h habove).1, fun hin => (h hin.1).2 hin.2⟩
  · exact fun h habove => ⟨h.1 habove, fun hwithin => h.2 ⟨habove, hwithin⟩⟩

omit hoffset hinside in
/-- The guard of the loop, told apart from where the size is. -/
theorem inSection_iff {p : Nat} (h : PassReads m m.table i (secOffset m i) p) :
    InSection m m.table i (secOffset m i) p ↔ InVerdefs m i p := by
  unfold InVerdefs secSize
  rw [← tableHeader_eq hshoff hi]
  exact ⟨fun hs => ⟨hs.above, hs.within⟩, fun hs => ⟨hs.1, (h hs.1).1, hs.2⟩⟩

theorem continues_iff {p : Nat} (h : PassReads m m.table i (secOffset m i) p) :
    Continues m m.table i (secOffset m i) p ↔ GoesOn m i p := by
  have hguard := inSection_iff hshoff hi h
  have hfits := ((passReads_iff hshoff hi hoffset hinside p).mp h).2
  constructor
  · rintro ⟨hin, hpasses, hmore⟩
    have hwithin := hguard.mp hin
    exact ⟨hwithin, (verdefPasses_iff hshoff hi hoffset hinside (hfits hwithin)).mp hpasses, hmore⟩
  · rintro ⟨hwithin, hchecks, hmore⟩
    exact ⟨hguard.mpr hwithin,
      (verdefPasses_iff hshoff hi hoffset hinside (hfits hwithin)).mpr hchecks, hmore⟩

theorem leaves_iff {p : Nat} (h : PassReads m m.table i (secOffset m i) p) :
    Leaves m m.table i (secOffset m i) p ↔
      (InVerdefs m i p → VerdefChecks m i p ∧ m.value p vdNext = 0) := by
  have hguard := inSection_iff hshoff hi h
  have hfits := ((passReads_iff hshoff hi hoffset hinside p).mp h).2
  constructor
  · rintro (habove | ⟨hsize, hwithin⟩ | ⟨_, hpasses, hzero⟩) hin
    · exact absurd hin.1 habove
    · exact absurd (hguard.mpr hin).within hwithin
    · exact ⟨(verdefPasses_iff hshoff hi hoffset hinside (hfits hin)).mp hpasses, hzero⟩
  · intro hlast
    by_cases hin : InVerdefs m i p
    · rcases hlast hin with ⟨hchecks, hzero⟩
      exact Or.inr (Or.inr ⟨hguard.mpr hin,
        (verdefPasses_iff hshoff hi hoffset hinside (hfits hin)).mpr hchecks, hzero⟩)
    · -- Outside the section the guard lets go.
      by_cases habove : m.addr (secOffset m i) ≤ m.addr p
      · refine Or.inr (Or.inl ⟨(h habove).1, fun hwithin => hin ?_⟩)
        exact hguard.mp ⟨habove, (h habove).1, hwithin⟩
      · exact Or.inl habove

omit hoffset in
theorem verdefAt_eq_place (k : Nat) : verdefAt m m.table i k = verdefPlace m i k := by
  unfold verdefAt verdefPlace verdefBaseOf
  rw [tableHeader_eq hshoff hi]
  change (verdefNext m)^[k] (m.ptrAdd 0 (secOffset m i)) = _
  rw [Image.ptrAdd_eq (by omega), Nat.zero_add]

/-- What the loop over the definitions of a section reads. -/
theorem walkReads_iff : WalkReads m m.table i ↔ ShdrInside m i m.cls.shSize ∧
    ∀ k, (∀ j < k, GoesOn m i (verdefPlace m i j)) → InVerdefs m i (verdefPlace m i k) →
      VerdefFits m i (verdefPlace m i k) := by
  have hbase : verdefBaseOf m m.table i = secOffset m i := verdefAt_eq_place hshoff hi hinside 0
  have hguard := guarded_congr_all fun k =>
    continues_iff (p := verdefPlace m i k) hshoff hi hoffset hinside
  unfold WalkReads Visits
  simp only [hbase, verdefAt_eq_place hshoff hi hinside]
  rw [hguard]
  simp only [passReads_iff hshoff hi hoffset hinside]
  constructor
  · intro h
    -- The first definition is at the start of the section.
    refine ⟨(h 0 fun j hj => absurd hj (Nat.not_lt_zero j)).1 (Nat.le_refl _), ?_⟩
    exact fun k hbefore => (h k hbefore).2
  · exact fun h k hbefore => ⟨fun _ => h.1, h.2 k hbefore⟩

/-- The loop over the definitions of a section ends where the chain does. -/
theorem walkPasses_iff_chainEnds (h : WalkReads m m.table i) :
    WalkPasses m m.table i ↔ ChainEnds m i := by
  have hbase : verdefBaseOf m m.table i = secOffset m i := verdefAt_eq_place hshoff hi hinside 0
  unfold WalkReads Visits at h
  unfold WalkPasses ChainEnds Visits
  simp only [hbase, verdefAt_eq_place hshoff hi hinside] at h ⊢
  have hpass := fun k => continues_iff (p := verdefPlace m i k) hshoff hi hoffset hinside
  have hreads := (guarded_congr_all hpass).mp h
  refine exists_congr fun k => ?_
  rw [before_congr k (fun j _ => hpass j) fun j _ => hreads j]
  exact and_congr_right fun hbefore => leaves_iff hshoff hi hoffset hinside (hreads k hbefore)

end Verdef

section Section

variable (hheader : HeaderChecks m) {i : Nat} (hi : i < m.value 0 m.cls.eShnum)

include hheader hi

theorem nameBelow_iff : NameBelow m i ↔
    m.value (m.table.header m i) m.cls.shName < m.table.sizeSectionHeaderStringTable := by
  have hnames : m.table.sizeSectionHeaderStringTable = secSize m (m.value 0 m.cls.eShstrndx) := by
    unfold Image.table
    simp only
    rw [namesHeader_eq_of_lt hheader.shoff]
    rfl
  rw [hnames, tableHeader_eq hheader.shoff (Nat.lt_trans hi (index_lt m).2)]
  rfl

/-- A name that starts in the name table is looked up where it is. -/
theorem sectionName_eq_of_below (hname : NameBelow m i) :
    sectionName m m.table i = secName m i := by
  have hend := hheader.namesSize
  have hoffset := hheader.namesOffset
  have hshstrtab : m.table.shstrtab = secOffset m (m.value 0 m.cls.eShstrndx) := by
    unfold Image.table
    simp only
    rw [namesHeader_eq_of_lt hheader.shoff]
    change m.ptrAdd 0 (secOffset m _) = _
    rw [Image.ptrAdd_eq (by omega), Nat.zero_add]
  unfold NameBelow at hname
  unfold sectionName secName
  rw [hshstrtab, tableHeader_eq hheader.shoff (Nat.lt_trans hi (index_lt m).2),
    namesIndex_eq hheader.below]
  exact Image.ptrAdd_eq (by omega)

/-- The test on a section, told apart from where its name is. -/
theorem isVersionSection_iff_begins (hname : NameBelow m i) :
    IsVersionSection m m.table i ↔ BeginsGnuVersionD m i := by
  unfold IsVersionSection BeginsGnuVersionD
  rw [sectionName_eq_of_below hheader hi hname]

/-- What a pass over a section reads, put as lengths. -/
theorem sectionReads_iff : SectionReads m m.table i ↔ SectionFits m i := by
  have hlow : i < 2 ^ 16 := Nat.lt_trans hi (index_lt m).2
  have hname := has_tableHeader_iff hheader.shoff hlow (shdr_off_lt m.cls).1
  have hoffset := has_tableHeader_iff hheader.shoff hlow (shdr_off_lt m.cls).2.1
  have hvalue := tableHeader_shOffset hheader.shoff hlow
  unfold SectionReads
  rw [hname, hoffset, ← nameBelow_iff hheader hi, hvalue]
  constructor
  · rintro ⟨hnameIn, hrest⟩
    have hversion := fun h : HoldsVerdefs m i =>
      (hrest h.1).2 ((isVersionSection_iff_begins hheader hi h.1).mpr h.2)
    have hwalk := fun (h : HoldsVerdefs m i) hin =>
      (walkReads_iff hheader.shoff hlow (hversion h).1 hin).mp ((hversion h).2 hin)
    refine ⟨hnameIn, fun hbelow => ?_, fun h => (hversion h).1, fun h hin => (hwalk h hin).1,
      fun h hin => (hwalk h hin).2⟩
    rw [← sectionName_eq_of_below hheader hi hbelow]
    exact (hrest hbelow).1
  · intro h
    refine ⟨h.name, fun hbelow => ⟨?_, fun hversion => ?_⟩⟩
    · rw [sectionName_eq_of_below hheader hi hbelow]
      exact h.compares hbelow
    · have hholds : HoldsVerdefs m i :=
        ⟨hbelow, (isVersionSection_iff_begins hheader hi hbelow).mp hversion⟩
      refine ⟨h.offset hholds, fun hin => ?_⟩
      exact (walkReads_iff hheader.shoff hlow (h.offset hholds) hin).mpr
        ⟨h.size hholds hin, h.verdefs hholds hin⟩

/-- The checks on a section, told apart from where things are. -/
theorem sectionPasses_iff (hreads : SectionReads m m.table i) :
    SectionPasses m m.table i ↔ SectionChecks m i := by
  have hlow : i < 2 ^ 16 := Nat.lt_trans hi (index_lt m).2
  have hfits := (sectionReads_iff hheader hi).mp hreads
  have hname := has_tableHeader_iff hheader.shoff hlow (shdr_off_lt m.cls).1
  have hoffset := has_tableHeader_iff hheader.shoff hlow (shdr_off_lt m.cls).2.1
  have hvalue := tableHeader_shOffset hheader.shoff hlow
  have hbelow := nameBelow_iff hheader hi
  have hversion := isVersionSection_iff_begins hheader hi
  have hwalk := fun (h : HoldsVerdefs m i) hin =>
    walkPasses_iff_chainEnds hheader.shoff hlow (hfits.offset h) hin
      ((walkReads_iff hheader.shoff hlow (hfits.offset h) hin).mpr
        ⟨hfits.size h hin, hfits.verdefs h hin⟩)
  constructor
  · intro h
    have hindex := hbelow.mpr h.index
    have hinside := fun hholds : HoldsVerdefs m i => h.inside ((hversion hindex).mpr hholds.2)
    rw [hvalue] at hinside
    refine ⟨hindex, hinside, fun hholds => ?_⟩
    exact (hwalk hholds (hinside hholds)).mp (h.walk ((hversion hindex).mpr hholds.2))
  · intro h
    have hholds := fun hv => (⟨h.name, (hversion h.name).mp hv⟩ : HoldsVerdefs m i)
    refine ⟨hname.mpr hfits.name, hbelow.mp h.name, ?_, fun hv => ?_, fun hv => ?_, fun hv => ?_⟩
    · rw [sectionName_eq_of_below hheader hi h.name]
      exact hfits.compares h.name
    · exact hoffset.mpr (hfits.offset (hholds hv))
    · rw [hvalue]
      exact h.offset (hholds hv)
    · exact (hwalk (hholds hv) (h.offset (hholds hv))).mpr (h.chain (hholds hv))

end Section

/-- What the reader visits is in place exactly when what the file leads to is. -/
theorem scanReads_iff : ScanReads m ↔ StaysInside m := by
  have hmag := has_zero_iff (m := m) (f := eiMag) (by decide)
  have hclass := has_zero_iff (m := m) (f := eiClass) (by decide)
  have hsections := fun hheader : HeaderChecks m =>
    guarded_congr (m.value 0 m.cls.eShnum) fun i hi => sectionPasses_iff hheader hi
  unfold ScanReads
  rw [hmag, hclass, headerReads_iff]
  constructor
  · rintro ⟨hmagIn, hrest⟩
    refine ⟨hmagIn, fun helf => (hrest helf).1, fun helf hnative => ((hrest helf).2 hnative).1, ?_⟩
    intro helf hnative hheader i hi hbefore
    have hnativeRest := (hrest helf).2 hnative
    have hpasses := (headerPasses_iff hnativeRest.1).mpr hheader
    refine (sectionReads_iff hheader hi).mp ?_
    exact (hsections hheader).mp (hnativeRest.2 hpasses) i hi hbefore
  · intro h
    refine ⟨h.mag, fun helf => ⟨h.cls helf, fun hnative => ⟨h.header helf hnative, ?_⟩⟩⟩
    intro hpasses
    have hheader := (headerPasses_iff (h.header helf hnative)).mp hpasses
    refine (hsections hheader).mpr fun i hi hbefore => ?_
    exact (sectionReads_iff hheader hi).mpr (h.sections helf hnative hheader i hi hbefore)

/-- The reader stays inside a file exactly when what the file leads to is in
    it. A file that cannot be mapped is not read. -/
theorem readsInside_iff (file : OpenFile) :
    ReadsInside file ↔ ∀ m, file = .mapped m → StaysInside m := by
  cases file with
  | noStat => exact iff_of_true (fun _ _ _ => pure_ne_error _ _) (fun _ h => by cases h)
  | noMap => exact iff_of_true (fun _ _ _ => pure_ne_error _ _) (fun _ h => by cases h)
  | mapped m =>
      constructor
      · intro hreads m' hm
        -- A read that leaves the file is one of the walk over it.
        cases hm
        refine scanReads_iff.mp ((scanImage_inBounds_iff 0).mp fun fuel hscan => ?_)
        exact hreads fuel 0 0 ((getLibstdcxxVersion_eq_error fuel 0 0 _).mpr hscan)
      · intro hstays fuel fd out hread
        have hinside := (scanImage_inBounds_iff out).mpr (scanReads_iff.mpr (hstays m rfl))
        exact hinside fuel ((getLibstdcxxVersion_eq_error fuel fd out _).mp hread)

end Bounds

section Sample

/-- An ELF header and nothing else. It claims one section header, which would
    start at its last byte. -/
def hostileFile : Image where
  target := ⟨.elf32, false⟩
  mapped := 0x10000
  bytes := ehdr32 51 1 0
  nonempty := by decide +kernel
  fits := by decide +kernel
  offT := by decide +kernel

/-- The index of the section name table passes for a number of bytes, and the
    section header behind it is read past the end of the file. -/
theorem hostileFile_not_readsInside : ¬ ReadsInside (.mapped hostileFile) := by
  have hoff : scanImage 0 hostileFile 0 = .error .outOfRange := by
    decide +kernel
  exact fun h => h 0 3 0 ((getLibstdcxxVersion_eq_error 0 3 0 _).mpr hoff)

end Sample

end AuditLibstdcxx
