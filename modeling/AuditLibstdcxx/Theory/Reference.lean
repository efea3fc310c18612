import AuditLibstdcxx.Theory.Gabi

/-!
# The Reader against the Format

How the version the reader hands back compares with the versions a well-formed
file defines.

The two walks part in two places. The reader steps from one auxiliary entry to
the next by `vda_next` entries where the format steps by `vda_next` bytes, and
it takes every section whose name begins with `.gnu.version_d` for the one of
that name. `WalkAgrees` says that neither makes a difference to the file: the
entries the reader goes to are in place, and the versions it meets there are
bounded by the versions the file defines, and the other way round.

## Main definitions

* `ComputesReference`: The reader hands back the greatest version of the file.
* `scaledVersions`: The versions at the entries the reader goes to.
* `longerVersions`: The versions in the sections with longer names.
* `WalkAgrees`: The two walks lead to the same version.

## Theorems

* `walkedVersions_eq`: Where the versions on the reader's path come from.
* `WellFormed.headerPasses`, `WellFormed.sectionPasses`: Short of an `ASSERT`,
  only the walk over definitions can fail on a well-formed file.
* `computesReference_iff_walkAgrees`: When the reader follows the format.
* `walkAgrees_of_single`: It does when definitions have a single name.
-/

namespace AuditLibstdcxx

open Checked

section Reference

variable (m : Image)

/-- The reader hands back the greatest version the file defines, or the
    failure code with the output untouched when it defines none. -/
def ComputesReference (fd out : Nat) : Prop :=
  ∃ fuel r, getLibstdcxxVersion fuel fd (.mapped m) out = .ok r ∧
    ((r.error = .success ∧ IsGreatest (referenceVersions m) r.glibcxxVersion) ∨
      (r.error = .fatalError ∧ referenceVersions m = ∅ ∧ r.glibcxxVersion = out))

/-- The versions at the entries the reader goes to in the sections called
    `.gnu.version_d`, with `vda_next` counting entries. -/
def scaledVersions : Set Nat :=
  {v | ∃ i < m.value 0 m.cls.eShnum, IsGnuVersionD m i ∧
    ∃ k, OnChain m i k ∧ ∃ l < m.value (verdefOffset m i k) vdCnt,
      nameVersion m (auxName m (secOffset m (secLink m i))
        (auxAt m (verdefOffset m i k) l)) = .ok (some v)}

/-- The versions the reader meets in sections whose name only begins with
    `.gnu.version_d`. -/
def longerVersions : Set Nat :=
  {v | ∃ i < m.value 0 m.cls.eShnum, ¬ IsGnuVersionD m i ∧ v ∈ metVersions m m.table i}

/-- The entries the reader goes to after the first of a definition are in
    place, the sections with longer names can be walked, and the versions at
    the places the reader goes to and those of the file bound each other. -/
structure WalkAgrees : Prop where
  entries : ∀ i < m.value 0 m.cls.eShnum, IsGnuVersionD m i → ∀ k, OnChain m i k →
    ∀ l, 0 < l → l < m.value (verdefOffset m i k) vdCnt →
      AuxPasses m (secOffset m (secLink m i)) (auxAt m (verdefOffset m i k) l)
  longer : ∀ i < m.value 0 m.cls.eShnum, IsVersionSection m m.table i → ¬ IsGnuVersionD m i →
    WalkPasses m m.table i
  noStray : IsCofinalFor (scaledVersions m ∪ longerVersions m) (referenceVersions m)
  noneMissed : IsCofinalFor (referenceVersions m) (scaledVersions m ∪ longerVersions m)

variable {m}

/-- Two sets that bound each other have the same greatest element. -/
theorem isGreatest_of_isCofinalFor {S T : Set Nat} (hST : IsCofinalFor S T)
    (hTS : IsCofinalFor T S) {a : Nat} (ha : IsGreatest S a) : IsGreatest T a := by
  have hbound : a ∈ upperBounds T := upperBounds_mono_of_isCofinalFor hTS ha.2
  rcases hST ha.1 with ⟨b, hb, hab⟩
  -- The bound is reached, so it is an element of both.
  have hba : b = a := Nat.le_antisymm (hbound hb) hab
  exact ⟨hba ▸ hb, hbound⟩

/-- Two sets with a common greatest element bound each other. -/
theorem isCofinalFor_of_isGreatest {S T : Set Nat} {a : Nat} (hS : IsGreatest S a)
    (hT : IsGreatest T a) : IsCofinalFor S T :=
  fun _ hv => ⟨a, hT.1, hS.2 hv⟩

section WellFormed

variable (h : WellFormed m)

include h

theorem WellFormed.count : sectionCount m = m.value 0 m.cls.eShnum := by
  have hpos := h.table.1
  unfold sectionCount
  rw [if_pos (by omega)]

theorem WellFormed.has_mag : m.Has 0 eiMag :=
  has_ehdr h.header _ (sizeofEhdr_fields m.cls).1

theorem WellFormed.has_class : m.Has 0 eiClass :=
  has_ehdr h.header _ (sizeofEhdr_fields m.cls).2.1

/-- The reader looks at the name of a section where it is. -/
theorem WellFormed.sectionName_eq {i : Nat} (hi : i < m.value 0 m.cls.eShnum) :
    sectionName m m.table i = secName m i := by
  refine AuditLibstdcxx.sectionName_eq h.table.2 h.namesTable hi ?_
  have hlen := List.length_pos_of_mem (h.names i hi)
  unfold Image.tail at hlen
  rw [List.length_drop] at hlen
  unfold Image.size
  omega

/-- A section called `.gnu.version_d` passes the reader's test. -/
theorem WellFormed.isVersionSection {i : Nat} (hi : i < m.value 0 m.cls.eShnum)
    (hname : IsGnuVersionD m i) : IsVersionSection m m.table i := by
  unfold IsVersionSection
  rw [h.sectionName_eq hi]
  have hstarts : gnuVersionD ++ [0] <+: m.tail (secName m i) := by
    rw [← hname]
    exact List.take_prefix _ _
  exact (List.prefix_append _ _).trans hstarts

/-- What the format says about a section called `.gnu.version_d`. -/
theorem WellFormed.chain {i : Nat} (hi : i < m.value 0 m.cls.eShnum) (hname : IsGnuVersionD m i) :
    secOffset m i + secSize m i ≤ m.size ∧
      ∃ n, VersionDefs m i n ∧ secLink m i < m.value 0 m.cls.eShnum := by
  rcases h.versions i hi hname with ⟨hoccupies, n, hdefs⟩
  have hlink := hdefs.link
  rw [h.count] at hlink
  exact ⟨h.sections i hi hoccupies, n, hdefs, hlink⟩

variable (hassert : ∀ fuel fd out, getLibstdcxxVersion fuel fd (.mapped m) out ≠ .error .assert)

include hassert

/-- Short of an `ASSERT`, the header checks of a well-formed file come through. -/
theorem WellFormed.headerPasses : HeaderPasses m := by
  have hreads := headerReads_of_table h.header h.table.2
  rcases readHeader_cases m with hok | hfires | hoff
  · exact ((readHeader_eq_ok _).mp hok).1
  · -- A check that fails would be an `ASSERT` that fires.
    refine absurd ?_ (hassert 0 0 0)
    rw [getLibstdcxxVersion_eq_error, scanImage_native 0 0 h.has_mag h.elf h.has_class h.native,
      hfires, error_bind]
  · exact absurd hoff (readHeader_ne_outOfRange.mpr hreads)

/-- Short of an `ASSERT`, every section of a well-formed file whose definitions
    can be walked comes through. -/
theorem WellFormed.sectionPasses
    (hwalks : ∀ i < m.value 0 m.cls.eShnum, IsVersionSection m m.table i → WalkPasses m m.table i) :
    ∀ i < m.table.shnum, SectionPasses m m.table i := by
  intro i
  induction i using Nat.strong_induction_on with
  | _ i ih =>
      intro hi
      -- The loop reaches section `i`, and does not stop there at an `ASSERT`.
      rcases (sections_yield i ⟨false, 0⟩).mpr fun j hj => ih j hj (by omega) with ⟨s, n, hs⟩
      have hpos : s.1 = i := sections_position ⟨n, hs⟩
      have hstep : sectionStep m m.table n s ≠ .error .assert := by
        intro hstop
        refine hassert n 0 0 ?_
        rw [getLibstdcxxVersion_eq_error,
          scanImage_native n 0 h.has_mag h.elf h.has_class h.native,
          (readHeader_eq_ok m.table).mpr ⟨h.headerPasses hassert, rfl⟩, ok_bind]
        unfold scanSections
        rw [countedLoop_stop _ .assert i _ _ s hi hs hstop, error_bind]
      have hname : m.Has (m.table.header m s.1) m.cls.shName := by
        rw [hpos]
        exact has_tableHeader h.table.2 hi _ (sizeofShdr_fields m.cls).1
      have hoffset : m.Has (m.table.header m s.1) m.cls.shOffset := by
        rw [hpos]
        exact has_tableHeader h.table.2 hi _ (sizeofShdr_fields m.cls).2.2.1
      -- Each check that failed would stop the step at an `ASSERT`.
      have hindex := by_contra fun hc => hstep (sectionStep_index n s hname hc)
      have hinside := fun hversion => by_contra fun hc =>
        hstep (sectionStep_offset n s hname hindex hversion hoffset hc)
      rw [hpos] at hname hoffset hindex hinside
      refine ⟨hname, hindex, ?_, fun _ => hoffset, hinside, hwalks i hi⟩
      rw [h.sectionName_eq hi]
      exact compares_of_terminated (by decide) gnuVersionD_noZero (h.names i hi)

omit hassert in
/-- The versions the reader meets in a section called `.gnu.version_d`. -/
theorem WellFormed.mem_metVersions {i : Nat} (hi : i < m.value 0 m.cls.eShnum)
    (hname : IsGnuVersionD m i)
    (hentries : ∀ k, OnChain m i k → ∀ l, 0 < l → l < m.value (verdefOffset m i k) vdCnt →
      AuxPasses m (secOffset m (secLink m i)) (auxAt m (verdefOffset m i k) l)) (v : Nat) :
    v ∈ metVersions m m.table i ↔ ∃ k, OnChain m i k ∧
      ∃ l < m.value (verdefOffset m i k) vdCnt,
        nameVersion m (auxName m (secOffset m (secLink m i))
          (auxAt m (verdefOffset m i k) l)) = .ok (some v) := by
  rcases h.chain hi hname with ⟨hinside, n, hdefs, hlink⟩
  have hstrings := stringTableOf_eq h.table.2 hi hdefs hlink
  have hversion := h.isVersionSection hi hname
  simp only [onChain_iff hdefs] at hentries ⊢
  rw [← hstrings] at hentries ⊢
  -- The reader goes to the definitions of the chain and to no others.
  have hvisits := visits_iff h.table.2 hi hinside hdefs hlink hentries
  constructor
  · rintro ⟨_, k, hk, hin, hv⟩
    have hkn := (hvisits k).mp ⟨hk, hin⟩
    rw [verdefAt_eq h.table.2 hi hinside hdefs hkn] at hv
    exact ⟨k, hkn, hv⟩
  · rintro ⟨k, hkn, hv⟩
    have hk := (hvisits k).mpr hkn
    refine ⟨hversion, k, hk.1, hk.2, ?_⟩
    rw [verdefAt_eq h.table.2 hi hinside hdefs hkn]
    exact hv

omit hassert in
/-- Where the versions on the reader's path come from. -/
theorem WellFormed.walkedVersions_eq
    (hentries : ∀ i < m.value 0 m.cls.eShnum, IsGnuVersionD m i → ∀ k, OnChain m i k →
      ∀ l, 0 < l → l < m.value (verdefOffset m i k) vdCnt →
        AuxPasses m (secOffset m (secLink m i)) (auxAt m (verdefOffset m i k) l)) :
    walkedVersions m = scaledVersions m ∪ longerVersions m := by
  ext v
  simp only [walkedVersions, scaledVersions, longerVersions, Set.mem_ofPred_eq, Set.mem_union]
  constructor
  · rintro ⟨i, hi, hv⟩
    -- A section is either of that very name or of a longer one.
    by_cases hname : IsGnuVersionD m i
    · exact Or.inl ⟨i, hi, hname, (h.mem_metVersions hi hname (hentries i hi hname) v).mp hv⟩
    · exact Or.inr ⟨i, hi, hname, hv⟩
  · rintro (⟨i, hi, hname, hv⟩ | ⟨i, hi, _, hv⟩)
    · exact ⟨i, hi, (h.mem_metVersions hi hname (hentries i hi hname) v).mpr hv⟩
    · exact ⟨i, hi, hv⟩

omit hassert in
/-- The sections of a well-formed file can be walked when the later entries of
    definitions are in place, and the sections with longer names can be. -/
theorem WellFormed.walks_iff :
    (∀ i < m.value 0 m.cls.eShnum, IsVersionSection m m.table i → WalkPasses m m.table i) ↔
      (∀ i < m.value 0 m.cls.eShnum, IsGnuVersionD m i → ∀ k, OnChain m i k →
        ∀ l, 0 < l → l < m.value (verdefOffset m i k) vdCnt →
          AuxPasses m (secOffset m (secLink m i)) (auxAt m (verdefOffset m i k) l)) ∧
      (∀ i < m.value 0 m.cls.eShnum, IsVersionSection m m.table i → ¬ IsGnuVersionD m i →
        WalkPasses m m.table i) := by
  have hexact : ∀ i < m.value 0 m.cls.eShnum, IsGnuVersionD m i →
      (WalkPasses m m.table i ↔ ∀ k, OnChain m i k →
        ∀ l, 0 < l → l < m.value (verdefOffset m i k) vdCnt →
          AuxPasses m (secOffset m (secLink m i)) (auxAt m (verdefOffset m i k) l)) := by
    intro i hi hname
    rcases h.chain hi hname with ⟨hinside, n, hdefs, hlink⟩
    rw [walkPasses_iff h.table.2 hi hinside hdefs hlink, stringTableOf_eq h.table.2 hi hdefs hlink]
    simp only [onChain_iff hdefs]
  constructor
  · intro hwalks
    refine ⟨fun i hi hname => ?_, fun i hi hversion _ => hwalks i hi hversion⟩
    exact (hexact i hi hname).mp (hwalks i hi (h.isVersionSection hi hname))
  · rintro ⟨hentries, hlonger⟩ i hi hversion
    by_cases hname : IsGnuVersionD m i
    · exact (hexact i hi hname).mpr (hentries i hi hname)
    · exact hlonger i hi hversion hname

end WellFormed

/-- The reader computes the version of a well-formed file on which no `ASSERT`
    fires exactly when its walk agrees with the format's. -/
theorem computesReference_iff_walkAgrees (h : WellFormed m)
    (hassert : ∀ fuel fd out, getLibstdcxxVersion fuel fd (.mapped m) out ≠ .error .assert) :
    (∀ fd out, ComputesReference m fd out) ↔ WalkAgrees m := by
  constructor
  · intro hcomputes
    rcases hcomputes 0 0 with ⟨n, r, hr, hresult⟩
    have hscan := ((getLibstdcxxVersion_eq_ok n 0 0 r).mp hr).1
    have hpasses := ((scanImage_yields_iff 0).mp ⟨_, n, hscan⟩).2 h.elf
    have hsections := (hpasses.2 h.native).2
    have hwalks := h.walks_iff.mp fun i hi hversion => (hsections i hi).walk hversion
    have hwalked := h.walkedVersions_eq hwalks.1
    -- Both sets have the same greatest element, or are both empty.
    have hbounds : IsCofinalFor (walkedVersions m) (referenceVersions m) ∧
        IsCofinalFor (referenceVersions m) (walkedVersions m) := by
      rcases scanImage_value ⟨n, hscan⟩ with ⟨_, _, herror, hv⟩ | ⟨_, _, herror, hnone, _⟩ |
        ⟨helf, _⟩ | ⟨_, hnative, _⟩
      · rcases hresult with ⟨_, hgreatest⟩ | ⟨hfatal, _⟩
        · exact ⟨isCofinalFor_of_isGreatest hv hgreatest, isCofinalFor_of_isGreatest hgreatest hv⟩
        · exact absurd (herror.symm.trans hfatal) (by decide)
      · rcases hresult with ⟨hsuccess, _⟩ | ⟨_, hempty, _⟩
        · exact absurd (herror.symm.trans hsuccess) (by decide)
        · rw [hnone, hempty]
          exact ⟨IsCofinalFor.rfl, IsCofinalFor.rfl⟩
      · exact absurd h.elf helf
      · exact absurd h.native hnative
    rw [hwalked] at hbounds
    exact ⟨hwalks.1, hwalks.2, hbounds.1, hbounds.2⟩
  · intro hagrees fd out
    have hwalks := h.walks_iff.mpr ⟨hagrees.entries, hagrees.longer⟩
    have hsections := h.sectionPasses hassert hwalks
    -- The reader comes through, and the two sets bound each other.
    have hpasses : ScanPasses m := ⟨h.has_mag, fun _ => ⟨h.has_class, fun _ =>
      ⟨h.headerPasses hassert, hsections⟩⟩⟩
    rcases (scanImage_yields_iff out).mpr hpasses with ⟨⟨error, version⟩, n, hscan⟩
    refine ⟨n, ⟨error, version, _⟩, (getLibstdcxxVersion_eq_ok n fd out _).mpr ⟨hscan, rfl⟩, ?_⟩
    have hnoStray := hagrees.noStray
    have hnoneMissed := hagrees.noneMissed
    rw [← h.walkedVersions_eq hagrees.entries] at hnoStray hnoneMissed
    rcases scanImage_value ⟨n, hscan⟩ with ⟨_, _, herror, hv⟩ | ⟨_, _, herror, hnone, hout⟩ |
      ⟨helf, _⟩ | ⟨_, hnative, _⟩
    · exact Or.inl ⟨herror, isGreatest_of_isCofinalFor hnoStray hnoneMissed hv⟩
    · refine Or.inr ⟨herror, Set.eq_empty_of_forall_notMem fun v hv => ?_, hout⟩
      rcases hnoneMissed hv with ⟨u, hu, _⟩
      rw [hnone] at hu
      exact hu
    · exact absurd h.elf helf
    · exact absurd h.native hnative

/-- The walks agree on a file whose definitions have a single name each and
    none of whose sections has a longer name. -/
theorem walkAgrees_of_single (h : WellFormed m)
    (hsingle : ∀ i < m.value 0 m.cls.eShnum, IsGnuVersionD m i → ∀ k, OnChain m i k →
      m.value (verdefOffset m i k) vdCnt = 1)
    (hexact : ∀ i < m.value 0 m.cls.eShnum, IsVersionSection m m.table i → IsGnuVersionD m i) :
    WalkAgrees m := by
  have hlonger : longerVersions m = ∅ := by
    ext v
    simp only [longerVersions, Set.mem_ofPred_eq, Set.mem_empty_iff_false, iff_false]
    rintro ⟨i, hi, hname, hversion, _⟩
    exact hname (hexact i hi hversion)
  -- The first entry of a definition is the same in both walks.
  have hfirst : ∀ i < m.value 0 m.cls.eShnum, IsGnuVersionD m i → ∀ k, OnChain m i k →
      auxName m (secOffset m (secLink m i)) (auxAt m (verdefOffset m i k) 0) =
        secOffset m (secLink m i) +
          m.value (verdauxOffset m (verdefOffset m i k) 0) vdaName := by
    intro i hi hname k hk
    rcases h.chain hi hname with ⟨hinside, n, hdefs, hlink⟩
    rw [onChain_iff hdefs] at hk
    exact auxName_first hinside hdefs hk
  -- With one entry to a definition the step to the next does not matter.
  have hscaled : scaledVersions m = referenceVersions m := by
    ext v
    simp only [scaledVersions, referenceVersions, Set.mem_ofPred_eq]
    refine exists_congr fun i => and_congr_right fun hi => and_congr_right fun hname =>
      exists_congr fun k => and_congr_right fun hk => ?_
    have hcnt := hsingle i hi hname k hk
    simp only [hcnt, Nat.lt_one_iff, exists_eq_left, hfirst i hi hname k hk]
  refine ⟨fun i hi hname k hk l hpos hl => ?_, fun i hi hversion hname => ?_, ?_, ?_⟩
  · have hcnt := hsingle i hi hname k hk
    omega
  · exact absurd (hexact i hi hversion) hname
  · rw [hlonger, hscaled, Set.union_empty]
  · rw [hlonger, hscaled, Set.union_empty]

end Reference

section Sample

/-- A number in two bytes, the lowest first. -/
def le16 (n : Nat) : List UInt8 :=
  [UInt8.ofNat n, UInt8.ofNat (n / 256)]

/-- A number in four bytes, the lowest first. -/
def le32 (n : Nat) : List UInt8 :=
  le16 n ++ le16 (n / 65536)

/-- The header of a 32-bit shared object. -/
def ehdr32 (shoff shnum shstrndx : Nat) : List UInt8 :=
  elfMag ++ [1, 1, 1] ++ List.replicate 9 0 ++ le16 3 ++ le16 3 ++ le32 1 ++ le32 0 ++ le32 0 ++
    le32 shoff ++ le32 0 ++ le16 52 ++ le16 0 ++ le16 0 ++ le16 40 ++ le16 shnum ++ le16 shstrndx

/-- A section header of a 32-bit file. -/
def shdr32 (name type offset size link info : Nat) : List UInt8 :=
  le32 name ++ le32 type ++ le32 0 ++ le32 0 ++ le32 offset ++ le32 size ++ le32 link ++
    le32 info ++ le32 0 ++ le32 0

def verdefBytes (cnt aux next : Nat) : List UInt8 :=
  le16 1 ++ le16 0 ++ le16 1 ++ le16 cnt ++ le32 0 ++ le32 aux ++ le32 next

def verdauxBytes (name next : Nat) : List UInt8 :=
  le32 name ++ le32 next

/-- The strings of the sample library, with the names of its sections at 1 and
    16 and those of its versions at 19 and 31. -/
def sampleStrings : List UInt8 :=
  [0] ++ gnuVersionD ++ [0] ++ ['.', 's'].map Char.toUInt8 ++ [0] ++
    glibcxxPrefix ++ ['3', '.', '4'].map Char.toUInt8 ++ [0] ++
    glibcxxPrefix ++ ['3', '.', '5'].map Char.toUInt8 ++ [0]

/-- A library with one version definition of up to two names, the first of
    them at `name`. -/
def sampleBytes (name cnt : Nat) : List UInt8 :=
  ehdr32 88 3 2 ++ verdefBytes cnt 20 0 ++ verdauxBytes name 8 ++ verdauxBytes 31 0 ++
    shdr32 0 shtNull 0 0 0 0 ++ shdr32 1 shtGnuVerdef 52 36 2 1 ++
    shdr32 16 shtStrtab 208 43 0 0 ++ sampleStrings ++ [0]

/-- The sample library: it defines `GLIBCXX_3.4`, and with `two` it gives that
    definition the second name `GLIBCXX_3.5`. -/
def sampleLibrary (two : Bool) : Image where
  target := ⟨.elf32, false⟩
  mapped := 0x10000
  bytes := sampleBytes 19 (if two then 2 else 1)
  nonempty := by cases two <;> decide +kernel
  fits := by cases two <;> decide +kernel
  offT := by cases two <;> decide +kernel

instance (m : Image) (i : Nat) : Decidable (IsGnuVersionD m i) :=
  inferInstanceAs (Decidable (_ = _))

instance (m : Image) (t : SectionTable) (i : Nat) : Decidable (IsVersionSection m t i) :=
  inferInstanceAs (Decidable (_ <+: _))

instance (m : Image) (i : Nat) : Decidable (OccupiesFile m i) :=
  inferInstanceAs (Decidable (_ ∧ _))

/-- A file the reader gets through with one output fires no `ASSERT` with any
    other. -/
theorem ne_assert_of_yields {m : Image} {r : ErrorCode × Nat}
    (h : Yields (fun fuel => scanImage fuel m 0) r) (fuel fd out : Nat) :
    getLibstdcxxVersion fuel fd (.mapped m) out ≠ .error .assert := by
  have hpasses := (scanImage_yields_iff 0).mp ⟨r, h⟩
  rcases (scanImage_yields_iff out).mpr hpasses with ⟨r', hr'⟩
  rw [ne_eq, getLibstdcxxVersion_eq_error]
  exact (settled_scanImage out).ne_error_of_yields hr' (by decide) fuel

theorem sampleLibrary_scan : ∀ two,
    scanImage 1 (sampleLibrary two) 0 = .ok (.success, 0x030400) := by
  decide +kernel

theorem sampleLibrary_chain (two : Bool) : VersionDefs (sampleLibrary two) 1 1 where
  link := by decide +kernel +revert
  strings := ⟨by decide +kernel +revert, by decide +kernel +revert,
    by decide +kernel +revert⟩
  empty := fun h => absurd h (by decide)
  named := by decide +kernel +revert
  definitions := by decide +kernel +revert
  more := by decide +kernel +revert
  last := by decide +kernel +revert
  entries := by decide +kernel +revert
  names := by decide +kernel +revert

theorem sampleLibrary_wellFormed (two : Bool) : WellFormed (sampleLibrary two) where
  header := by decide +kernel +revert
  elf := by decide +kernel +revert
  native := by decide +kernel +revert
  table := by decide +kernel +revert
  namesTable := by decide +kernel +revert
  sections := by decide +kernel +revert
  names := by decide +kernel +revert
  versions := by
    have honly : ∀ i < (sampleLibrary two).value 0 (sampleLibrary two).cls.eShnum,
        IsGnuVersionD (sampleLibrary two) i → i = 1 := by
      decide +kernel +revert
    intro i hi hname
    rw [honly i hi hname]
    exact ⟨by decide +kernel +revert, 1, sampleLibrary_chain two⟩

theorem sampleLibrary_noAssert (two : Bool) (fuel fd out : Nat) :
    getLibstdcxxVersion fuel fd (.mapped (sampleLibrary two)) out ≠ .error .assert :=
  ne_assert_of_yields ⟨1, sampleLibrary_scan two⟩ fuel fd out

theorem singleLibrary_agrees : WalkAgrees (sampleLibrary false) := by
  have hversion : ∀ i < (sampleLibrary false).value 0 (sampleLibrary false).cls.eShnum,
      IsVersionSection (sampleLibrary false) (sampleLibrary false).table i → i = 1 := by
    decide +kernel
  have hname : ∀ i < (sampleLibrary false).value 0 (sampleLibrary false).cls.eShnum,
      IsGnuVersionD (sampleLibrary false) i → i = 1 := by
    decide +kernel
  refine walkAgrees_of_single (sampleLibrary_wellFormed false) (fun i hi hi' k hk => ?_)
    fun i hi hi' => ?_
  · rw [hname i hi hi', onChain_iff (sampleLibrary_chain false), Nat.lt_one_iff] at hk
    rw [hname i hi hi', hk]
    decide +kernel
  · rw [hversion i hi hi']
    decide +kernel

/-- A library whose definition has a single name is read as the format has it. -/
theorem singleLibrary_computesReference : ComputesReference (sampleLibrary false) 3 0 :=
  (computesReference_iff_walkAgrees (sampleLibrary_wellFormed false)
    (sampleLibrary_noAssert false)).mpr singleLibrary_agrees 3 0

/-- One whose definition has a second, higher name is not: that name is never
    looked at. -/
theorem doubleLibrary_not_computesReference :
    WellFormed (sampleLibrary true) ∧
    (∀ fuel fd out, getLibstdcxxVersion fuel fd (.mapped (sampleLibrary true)) out ≠
      .error .assert) ∧
    ¬ ComputesReference (sampleLibrary true) 3 0 := by
  refine ⟨sampleLibrary_wellFormed true, sampleLibrary_noAssert true, ?_⟩
  rintro ⟨fuel, r, hr, hresult⟩
  have hscan := ((getLibstdcxxVersion_eq_ok fuel 3 0 r).mp hr).1
  have hvalue := (settled_scanImage 0).yields_unique ⟨fuel, hscan⟩ ⟨1, sampleLibrary_scan true⟩
  have hsecond : 0x030500 ∈ referenceVersions (sampleLibrary true) := by
    refine ⟨1, by decide +kernel, by decide +kernel, 0, ?_, 1, by decide +kernel, by decide +kernel⟩
    exact (onChain_iff (sampleLibrary_chain true) 0).mpr (by decide)
  rcases hresult with ⟨_, _, hbound⟩ | ⟨hfatal, _⟩
  · have hle := hbound hsecond
    rw [(Prod.mk.inj hvalue).2] at hle
    exact absurd hle (by decide)
  · exact absurd ((Prod.mk.inj hvalue).1.symm.trans hfatal) (by decide)

end Sample

end AuditLibstdcxx
