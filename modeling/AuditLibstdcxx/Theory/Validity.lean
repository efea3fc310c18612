import AuditLibstdcxx.Theory.Reference

/-!
# Valid Files and the Assertions

Which valid files the reader survives. An `ASSERT` that fires takes down the
program being started, so on a valid file of the native class the reader
should come back with one of its two answers.

It does so on most of them. The checks ask for more than the format does in a
few places, and `AssertsHold` names them: there has to be a section name table
with an ordinary index, it must not be the last thing in the file, even unused
section headers need a name inside it, and the auxiliary entries are looked
for at the wrong distance.

## Main definitions

* `Survives`: The reader comes back with an answer.
* `BeginsGnuVersionD`: A section's name begins with `.gnu.version_d`.
* `AssertsHold`: What the checks ask for beyond validity.

## Theorems

* `survives_iff_scanPasses`: Surviving is getting through everything visited.
* `GabiValid.headerPasses_iff`: What the header checks ask for.
* `GabiValid.sectionPasses_iff`: What the checks ask of a section.
* `survives_iff_assertsHold`: When the reader survives a valid file.
-/

namespace AuditLibstdcxx

open Checked

section Validity

variable (m : Image)

/-- The reader comes back with one of its two answers on a native file. -/
def Survives : Prop :=
  ∀ fd out, ∃ fuel r, getLibstdcxxVersion fuel fd (.mapped m) out = .ok r ∧
    (r.error = .success ∨ r.error = .fatalError)

/-- The name of section `i` begins with `.gnu.version_d`. -/
def BeginsGnuVersionD (i : Nat) : Prop :=
  gnuVersionD <+: m.tail (secName m i)

/-- What the checks ask of section `i` beyond validity. -/
structure SectionHolds (i : Nat) : Prop where
  inactive : secType m i = shtNull →
    m.value (headerOffset m i) m.cls.shName < secSize m (m.value 0 m.cls.eShstrndx)
  inside : BeginsGnuVersionD m i → secOffset m i < m.size
  entries : BeginsGnuVersionD m i → secType m i = shtGnuVerdef → ∀ k < secInfo m i, ∀ l, 0 < l →
    l < m.value (verdefOffset m i k) vdCnt →
      AuxPasses m (secOffset m (secLink m i)) (auxAt m (verdefOffset m i k) l)
  others : BeginsGnuVersionD m i → secType m i ≠ shtGnuVerdef → WalkPasses m m.table i

/-- What the checks ask for beyond validity: an ordinary section name table,
    not empty and not at the end of the file, and sections that meet their
    part. -/
structure AssertsHold : Prop where
  below : m.value 0 m.cls.eShstrndx < m.value 0 m.cls.eShnum
  notEmpty : 0 < secSize m (m.value 0 m.cls.eShstrndx)
  notLast : secOffset m (m.value 0 m.cls.eShstrndx) +
    secSize m (m.value 0 m.cls.eShstrndx) < m.size
  sections : ∀ i < m.value 0 m.cls.eShnum, SectionHolds m i

variable {m}

/-- Surviving a native file is getting through everything the reader visits. -/
theorem survives_iff_scanPasses (helf : m.IsElf) (hnative : m.IsNative) :
    Survives m ↔ ScanPasses m := by
  constructor
  · intro hsurvives
    rcases hsurvives 0 0 with ⟨n, r, hr, _⟩
    exact (scanImage_yields_iff 0).mp ⟨_, n, ((getLibstdcxxVersion_eq_ok n 0 0 r).mp hr).1⟩
  · intro hpasses fd out
    rcases (scanImage_yields_iff out).mpr hpasses with ⟨⟨error, version⟩, n, hscan⟩
    refine ⟨n, ⟨error, version, _⟩, (getLibstdcxxVersion_eq_ok n fd out _).mpr ⟨hscan, rfl⟩, ?_⟩
    rcases scanImage_value ⟨n, hscan⟩ with ⟨_, _, herror, _⟩ | ⟨_, _, herror, _⟩ | ⟨hc, _⟩ |
      ⟨_, hc, _⟩
    · exact Or.inl herror
    · exact Or.inr herror
    · exact absurd helf hc
    · exact absurd hnative hc

section GabiValid

variable (h : GabiValid m)

include h

/-- With an index below the count, the section headers are an ordinary table. -/
theorem GabiValid.table_inside (hbelow : m.value 0 m.cls.eShstrndx < m.value 0 m.cls.eShnum) :
    sectionCount m = m.value 0 m.cls.eShnum ∧ m.value 0 m.cls.eShoff ≠ 0 ∧
      headerOffset m (m.value 0 m.cls.eShnum) ≤ m.size := by
  have hcount : sectionCount m = m.value 0 m.cls.eShnum := by
    unfold sectionCount
    rw [if_pos (by omega)]
  have hshoff : m.value 0 m.cls.eShoff ≠ 0 := by
    intro hzero
    have hnone := (h.noTable hzero).1
    omega
  have htable := (h.table hshoff).2
  rw [hcount] at htable
  exact ⟨hcount, hshoff, htable⟩

/-- What the header checks ask for beyond validity. A name table may be empty
    here: the sections rule that out. -/
theorem GabiValid.headerPasses_iff : HeaderPasses m ↔
    m.value 0 m.cls.eShstrndx < m.value 0 m.cls.eShnum ∧
      secOffset m (m.value 0 m.cls.eShstrndx) + secSize m (m.value 0 m.cls.eShstrndx) < m.size := by
  have hshdr : 0 < m.cls.sizeofShdr := by
    cases m.cls <;> decide
  constructor
  · intro hpasses
    have hbelow := hpasses.shstrndxBelow
    rcases h.table_inside hbelow with ⟨_, _, htable⟩
    -- The header checks come through, and they compare more than the format does.
    have hheader := headerOffset_le htable hbelow
    have hnames := namesHeader_eq (m := m) (by omega)
    have hinside := hpasses.namesInside
    have hend := hpasses.namesEnd
    rw [hnames] at hinside hend
    change secOffset m _ < m.size at hinside
    change secSize m _ < m.size - secOffset m _ at hend
    exact ⟨hbelow, by omega⟩
  · rintro ⟨hbelow, hend⟩
    rcases h.table_inside hbelow with ⟨_, _, htable⟩
    have hheader := headerOffset_le htable hbelow
    have hnames := namesHeader_eq (m := m) (by omega)
    have hfields := sizeofEhdr_fields m.cls
    -- Every member is inside the file, since the table is.
    have hshnum : m.value 0 m.cls.eShnum ≤ m.value 0 m.cls.eShnum * m.cls.sizeofShdr :=
      Nat.le_mul_of_pos_right _ hshdr
    unfold headerOffset at htable hheader
    refine ⟨has_ehdr h.header _ hfields.2.2.1, by omega, has_ehdr h.header _ hfields.2.2.2.2,
      by omega, has_ehdr h.header _ hfields.2.2.2.1, hbelow, ?_, ?_, ?_, ?_, ?_⟩
    · rw [hnames]
      exact has_header htable hbelow _ (sizeofShdr_fields m.cls).2.2.1
    · rw [hnames]
      change secOffset m _ < m.size
      omega
    · exact (Nat.le_div_iff_mul_le hshdr).mpr (by omega)
    · rw [hnames]
      exact has_header htable hbelow _ (sizeofShdr_fields m.cls).2.2.2.1
    · rw [hnames]
      change secSize m _ < m.size - secOffset m _
      omega

section Named

variable (hbelow : m.value 0 m.cls.eShstrndx < m.value 0 m.cls.eShnum)
  (hnotEmpty : 0 < secSize m (m.value 0 m.cls.eShstrndx))

include hbelow hnotEmpty

/-- A name table that is not empty is a string table of the file. -/
theorem GabiValid.names_strings : StringTable m (m.value 0 m.cls.eShstrndx) := by
  have hindex := namesIndex_eq hbelow
  have hne : namesIndex m ≠ 0 := by
    intro hzero
    -- Index zero stands for no name table, and section zero is empty.
    have hnull := h.null (by omega)
    rw [← hindex, hzero] at hnotEmpty
    omega
  have hstrings := (h.namesTable hne).2
  rwa [hindex] at hstrings

/-- Every section header in use has its name in the name table. -/
theorem GabiValid.name_below {i : Nat} (hi : i < m.value 0 m.cls.eShnum)
    (hactive : secType m i ≠ shtNull) :
    m.value (headerOffset m i) m.cls.shName < secSize m (m.value 0 m.cls.eShstrndx) := by
  rcases h.table_inside hbelow with ⟨hcount, hshoff, _⟩
  have hname := h.names hshoff i (by omega) hactive
  rw [namesIndex_eq hbelow] at hname
  exact hname hnotEmpty

/-- With its name in the name table, a section is looked up where its name is. -/
theorem GabiValid.sectionName_eq {i : Nat} (hi : i < m.value 0 m.cls.eShnum)
    (hname : m.value (headerOffset m i) m.cls.shName < secSize m (m.value 0 m.cls.eShstrndx)) :
    sectionName m m.table i = secName m i ∧ 0 ∈ m.tail (secName m i) := by
  rcases h.table_inside hbelow with ⟨_, _, htable⟩
  have hstrings := h.names_strings hbelow hnotEmpty
  have hinside := hstrings.inside
  have hsec : secName m i = secOffset m (m.value 0 m.cls.eShstrndx) +
      m.value (headerOffset m i) m.cls.shName := by
    unfold secName
    rw [namesIndex_eq hbelow]
  refine ⟨AuditLibstdcxx.sectionName_eq htable hbelow hi (by omega), ?_⟩
  rw [hsec]
  exact hstrings.terminated_at hname

/-- So the test on a section is a test of its name. -/
theorem GabiValid.isVersionSection_iff {i : Nat} (hi : i < m.value 0 m.cls.eShnum)
    (hname : m.value (headerOffset m i) m.cls.shName < secSize m (m.value 0 m.cls.eShstrndx)) :
    IsVersionSection m m.table i ↔ BeginsGnuVersionD m i := by
  unfold IsVersionSection BeginsGnuVersionD
  rw [(h.sectionName_eq hbelow hnotEmpty hi hname).1]

omit hnotEmpty in
/-- In a section of definitions only the later entries are left to check. -/
theorem GabiValid.walkPasses_iff_entries {i : Nat} (hi : i < m.value 0 m.cls.eShnum)
    (htype : secType m i = shtGnuVerdef) : WalkPasses m m.table i ↔
      ∀ k < secInfo m i, ∀ l, 0 < l → l < m.value (verdefOffset m i k) vdCnt →
        AuxPasses m (secOffset m (secLink m i)) (auxAt m (verdefOffset m i k) l) := by
  rcases h.table_inside hbelow with ⟨hcount, hshoff, htable⟩
  have hdefs := h.versions hshoff i (by omega) htype
  have hlink := hdefs.link
  have hinside := h.sections hshoff i (by omega) ⟨by rw [htype]; decide, by rw [htype]; decide⟩
  rw [hcount] at hlink
  rw [walkPasses_iff htable hi hinside hdefs hlink, stringTableOf_eq htable hi hdefs hlink]

/-- What the checks ask of a section beyond validity. -/
theorem GabiValid.sectionPasses_iff {i : Nat} (hi : i < m.value 0 m.cls.eShnum) :
    SectionPasses m m.table i ↔ SectionHolds m i := by
  rcases h.table_inside hbelow with ⟨_, _, htable⟩
  have hle := headerOffset_le htable hi
  have hheader := header_eq (m := m) (i := i) (by omega)
  have hnamesHeader := headerOffset_le htable hbelow
  have hsize : m.table.sizeSectionHeaderStringTable = secSize m (m.value 0 m.cls.eShstrndx) := by
    unfold Image.table
    simp only
    rw [namesHeader_eq (by omega)]
    rfl
  have hversion := h.isVersionSection_iff hbelow hnotEmpty hi
  have hwalk := h.walkPasses_iff_entries hbelow hi
  constructor
  · intro hpasses
    have hindex := hpasses.index
    rw [hheader, hsize] at hindex
    have hbegins := hversion hindex
    refine ⟨fun _ => hindex, fun hb => ?_, fun hb htype => ?_, fun hb _ => ?_⟩
    · have hinside := hpasses.inside (hbegins.mpr hb)
      rwa [hheader] at hinside
    · exact (hwalk htype).mp (hpasses.walk (hbegins.mpr hb))
    · exact hpasses.walk (hbegins.mpr hb)
  · intro hholds
    -- Unused headers have a name by assumption, all others by validity.
    have hname : m.value (headerOffset m i) m.cls.shName <
        secSize m (m.value 0 m.cls.eShstrndx) := by
      by_cases hnull : secType m i = shtNull
      · exact hholds.inactive hnull
      · exact h.name_below hbelow hnotEmpty hi hnull
    have hbegins := hversion hname
    have hlook := h.sectionName_eq hbelow hnotEmpty hi hname
    refine ⟨?_, ?_, ?_, fun _ => ?_, fun hv => ?_, fun hv => ?_⟩
    · exact has_tableHeader htable hi _ (sizeofShdr_fields m.cls).1
    · rwa [hheader, hsize]
    · rw [hlook.1]
      exact compares_of_terminated (by decide) gnuVersionD_noZero hlook.2
    · exact has_tableHeader htable hi _ (sizeofShdr_fields m.cls).2.2.1
    · rw [hheader]
      exact hholds.inside (hbegins.mp hv)
    · by_cases htype : secType m i = shtGnuVerdef
      · exact (hwalk htype).mpr (hholds.entries (hbegins.mp hv) htype)
      · exact hholds.others (hbegins.mp hv) htype

end Named

end GabiValid

/-- The reader survives a valid file exactly when it has what the checks ask
    for beyond validity. -/
theorem survives_iff_assertsHold (h : GabiValid m) : Survives m ↔ AssertsHold m := by
  have hfields := sizeofEhdr_fields m.cls
  have hmag := has_ehdr h.header _ hfields.1
  have hclass := has_ehdr h.header _ hfields.2.1
  have hshnum : m.table.shnum = m.value 0 m.cls.eShnum := rfl
  rw [survives_iff_scanPasses h.elf h.native]
  constructor
  · intro hpasses
    rcases (hpasses.2 h.elf).2 h.native with ⟨hheader, hsections⟩
    rcases h.headerPasses_iff.mp hheader with ⟨hbelow, hlast⟩
    rw [hshnum] at hsections
    -- The first section has a name, so the name table has room for one.
    have hnotEmpty : 0 < secSize m (m.value 0 m.cls.eShstrndx) := by
      have hindex := (hsections 0 (by omega)).index
      have hnames := headerOffset_le (h.table_inside hbelow).2.2 hbelow
      unfold Image.table at hindex
      simp only at hindex
      rw [namesHeader_eq (by omega)] at hindex
      exact Nat.lt_of_le_of_lt (Nat.zero_le _) hindex
    refine ⟨hbelow, hnotEmpty, hlast, fun i hi => ?_⟩
    exact (h.sectionPasses_iff hbelow hnotEmpty hi).mp (hsections i hi)
  · rintro ⟨hbelow, hnotEmpty, hlast, hsections⟩
    refine ⟨hmag, fun _ => ⟨hclass, fun _ => ⟨h.headerPasses_iff.mpr ⟨hbelow, hlast⟩, ?_⟩⟩⟩
    intro i hi
    exact (h.sectionPasses_iff hbelow hnotEmpty hi).mpr (hsections i hi)

end Validity

section Sample

theorem singleLibrary_valid : GabiValid (sampleLibrary false) where
  header := by decide +kernel
  elf := by decide +kernel
  native := by decide +kernel
  noTable := by decide +kernel
  table := by decide +kernel
  null := by decide +kernel
  sections := by decide +kernel
  namesTable := fun _ =>
    ⟨by decide +kernel, by decide +kernel, by decide +kernel, by decide +kernel⟩
  names := by decide +kernel
  versions := by
    have honly : ∀ i < sectionCount (sampleLibrary false),
        secType (sampleLibrary false) i = shtGnuVerdef → i = 1 := by
      decide +kernel
    have hinfo : secInfo (sampleLibrary false) 1 = 1 := by
      decide +kernel
    intro _ i hi htype
    rw [honly i hi htype, hinfo]
    exact sampleLibrary_chain false

theorem singleLibrary_holds : AssertsHold (sampleLibrary false) where
  below := by decide +kernel
  notEmpty := by decide +kernel
  notLast := by decide +kernel
  sections := by
    have hentries : ∀ i < (sampleLibrary false).value 0 (sampleLibrary false).cls.eShnum,
        ∀ k < secInfo (sampleLibrary false) i,
          (sampleLibrary false).value (verdefOffset (sampleLibrary false) i k) vdCnt = 1 := by
      decide +kernel
    have hverdef : ∀ i < (sampleLibrary false).value 0 (sampleLibrary false).cls.eShnum,
        gnuVersionD <+: (sampleLibrary false).tail (secName (sampleLibrary false) i) →
          secType (sampleLibrary false) i = shtGnuVerdef ∧
            secOffset (sampleLibrary false) i < (sampleLibrary false).size := by
      decide +kernel
    intro i hi
    refine ⟨?_, fun hb => (hverdef i hi hb).2, fun _ _ k hk l hpos hl => ?_, fun hb htype => ?_⟩
    · decide +kernel +revert
    · rw [hentries i hi k hk] at hl
      omega
    · exact absurd (hverdef i hi hb).1 htype

/-- The sample library with a single name is survived. -/
theorem singleLibrary_survives : Survives (sampleLibrary false) :=
  (survives_iff_assertsHold singleLibrary_valid).mpr singleLibrary_holds

/-- A file without a section header table: an ELF header and nothing else. -/
def strippedFile : Image where
  target := ⟨.elf32, false⟩
  mapped := 0x10000
  bytes := ehdr32 0 0 0
  nonempty := by decide +kernel
  fits := by decide +kernel
  offT := by decide +kernel

theorem strippedFile_valid : GabiValid strippedFile := by
  have hshoff : strippedFile.value 0 strippedFile.cls.eShoff = 0 := by
    decide +kernel
  exact {
    header := by decide +kernel
    elf := by decide +kernel
    native := by decide +kernel
    noTable := by decide +kernel
    table := fun h => absurd hshoff h
    null := by decide +kernel
    sections := fun h => absurd hshoff h
    namesTable := fun h => absurd (by decide +kernel) h
    names := fun h => absurd hshoff h
    versions := fun h => absurd hshoff h }

/-- A valid file without a section header table fails an `ASSERT`, whatever
    the fuel. -/
theorem strippedFile_not_survives : GabiValid strippedFile ∧ ¬ Survives strippedFile := by
  refine ⟨strippedFile_valid, fun hsurvives => ?_⟩
  rcases hsurvives 3 0 with ⟨fuel, r, hr, _⟩
  have hfires : scanImage 0 strippedFile 0 = .error .assert := by
    decide +kernel
  have hscan := ((getLibstdcxxVersion_eq_ok fuel 3 0 r).mp hr).1
  exact (settled_scanImage 0).ne_error_of_yields ⟨fuel, hscan⟩ (by decide) 0 hfires

end Sample

end AuditLibstdcxx
