import AuditLibstdcxx.Theory.Steps

/-!
# The Walk over a Mapped File

The ELF reader as a whole, put together from its passes. Three facts come out
of it, for every file and every amount of fuel.

`scanImage_yields_iff` says when the reader comes through: `ScanPasses`, a
statement about where the headers, definitions, entries and names it visits
lie. `scanImage_inBounds_iff` says when it never reads outside the file:
`ScanReads`, the same statement with every part guarded by what comes before
it, since an `ASSERT` that fires stops the reader as well.

`scanImage_value` says what it computes. `walkedVersions` is the set of
versions on the path the reader takes, and the answer is its greatest element,
or the failure code when there is none.

## Main definitions

* `IsVersionSection`: The test on a section's name.
* `verdefAt`: The definitions the reader visits in a section.
* `WalkPasses`, `WalkReads`: What the loop over definitions needs.
* `SectionPasses`, `SectionReads`: What a pass over a section needs.
* `Image.table`: The tables the header leads to.
* `HeaderPasses`, `HeaderReads`: What the header needs.
* `ScanPasses`, `ScanReads`: What the reader needs.
* `metVersions`, `walkedVersions`: The versions on the reader's path.
* `Found.Holds`: The accumulators describe a set of versions.

## Theorems

* `sectionStep_yields`: When a pass over a section comes through.
* `sectionStep_avoids`: When it stays inside the file.
* `readHeader_eq_ok`: When the header checks come through.
* `scanImage_yields_iff`: When the reader comes through.
* `scanImage_inBounds_iff`: When the reader stays inside the file.
* `scanImage_value`: What the reader computes.
-/

namespace AuditLibstdcxx

open Checked

section Section

variable (m : Image) (t : SectionTable) (i : Nat)

/-- Where the name of section `i` starts. -/
def sectionName : Nat :=
  m.ptrAdd t.shstrtab (m.value (t.header m i) m.cls.shName)

/-- The test on a section's name: it *begins* with `.gnu.version_d`. -/
def IsVersionSection : Prop :=
  gnuVersionD <+: m.tail (sectionName m t i)

/-- `verdef_base` of section `i`. -/
def verdefBaseOf : Nat :=
  m.ptrAdd 0 (m.value (t.header m i) m.cls.shOffset)

/-- The `k`-th definition the reader goes to in section `i`. -/
def verdefAt (k : Nat) : Nat :=
  (verdefNext m)^[k] (verdefBaseOf m t i)

/-- The reader goes to the `k`-th definition of section `i`. -/
def Visits (k : Nat) : Prop :=
  ∀ j < k, Continues m t i (verdefBaseOf m t i) (verdefAt m t i j)

/-- The loop over the definitions of section `i` comes through. -/
def WalkPasses : Prop :=
  ∃ k, Visits m t i k ∧ Leaves m t i (verdefBaseOf m t i) (verdefAt m t i k)

/-- The loop over the definitions of section `i` stays inside the file. -/
def WalkReads : Prop :=
  ∀ k, Visits m t i k → PassReads m t i (verdefBaseOf m t i) (verdefAt m t i k)

/-- What a pass over section `i` needs to come through. -/
structure SectionPasses : Prop where
  name : m.Has (t.header m i) m.cls.shName
  index : m.value (t.header m i) m.cls.shName < t.sizeSectionHeaderStringTable
  compared : Compares m (sectionName m t i) gnuVersionD
  offset : IsVersionSection m t i → m.Has (t.header m i) m.cls.shOffset
  inside : IsVersionSection m t i → m.value (t.header m i) m.cls.shOffset < m.size
  walk : IsVersionSection m t i → WalkPasses m t i

/-- What a pass over section `i` needs to stay inside the file. -/
def SectionReads : Prop :=
  m.Has (t.header m i) m.cls.shName ∧
    (m.value (t.header m i) m.cls.shName < t.sizeSectionHeaderStringTable →
      Compares m (sectionName m t i) gnuVersionD ∧
      (IsVersionSection m t i → m.Has (t.header m i) m.cls.shOffset ∧
        (m.value (t.header m i) m.cls.shOffset < m.size → WalkReads m t i)))

variable {m t i}

theorem isVersionSection_iff :
    IsVersionSection m t i ↔ strncmpEq (m.tail (sectionName m t i)) gnuVersionD = .ok true :=
  (strncmpEq_eq_true_iff _ _).symm

theorem compares_sectionName : Compares m (sectionName m t i) gnuVersionD ↔
    strncmpEq (m.tail (sectionName m t i)) gnuVersionD ≠ .error .outOfRange :=
  compares_iff m _ (by decide)

theorem walk_yields (s : Found) :
    (∃ f, Yields (fun n => whileLoop (verdefStep m t i (verdefBaseOf m t i)) n
      (verdefBaseOf m t i, s)) f) ↔ WalkPasses m t i :=
  whileLoop_yields_iff _ Prod.fst (verdefNext m) (Continues m t i (verdefBaseOf m t i))
    (Leaves m t i (verdefBaseOf m t i)) (verdefStep_next _) (verdefStep_continues _)
    (verdefStep_leaves _) _

theorem walk_avoids (s : Found) :
    AlwaysAvoids .outOfRange (fun n => whileLoop (verdefStep m t i (verdefBaseOf m t i)) n
      (verdefBaseOf m t i, s)) ↔ WalkReads m t i :=
  whileLoop_avoids_iff _ Prod.fst (verdefNext m) (Continues m t i (verdefBaseOf m t i))
    (verdefStep_next _) (verdefStep_continues _) (by decide)
    (PassReads m t i (verdefBaseOf m t i)) (verdefStep_ne_outOfRange _) _

theorem settled_sectionStep (s : Nat × Found) : Settled (fun n => sectionStep m t n s) := by
  refine (settled_const _).bind fun name => (settled_const _).bind fun _ =>
    (settled_const _).bind fun b => ?_
  cases b with
  | false => exact settled_const _
  | true =>
      refine (settled_const _).bind fun offset => (settled_const _).bind fun _ => ?_
      exact (settled_whileLoop _ _).bind fun found => settled_const _

/-- A section whose name does not begin with `.gnu.version_d` is skipped. -/
theorem sectionStep_skip (fuel : Nat) (s s' : Nat × Found)
    (hskip : strncmpEq (m.tail (sectionName m t s.1)) gnuVersionD = .ok false) :
    sectionStep m t fuel s = .ok s' ↔ m.Has (t.header m s.1) m.cls.shName ∧
      m.value (t.header m s.1) m.cls.shName < t.sizeSectionHeaderStringTable ∧
      s' = (s.1 + 1, s.2) := by
  unfold sectionStep
  rw [Image.load_bind_eq_ok, require_bind_eq_ok]
  refine and_congr_right fun _ => and_congr_right fun _ => ?_
  unfold sectionName at hskip
  rw [hskip]
  exact ⟨fun h => (Except.ok.inj h).symm, fun h => congrArg Except.ok h.symm⟩

/-- A section whose name begins with `.gnu.version_d` is walked. -/
theorem sectionStep_walk (fuel : Nat) (s s' : Nat × Found) (hwalk : IsVersionSection m t s.1) :
    sectionStep m t fuel s = .ok s' ↔ m.Has (t.header m s.1) m.cls.shName ∧
      m.value (t.header m s.1) m.cls.shName < t.sizeSectionHeaderStringTable ∧
      m.Has (t.header m s.1) m.cls.shOffset ∧
      m.value (t.header m s.1) m.cls.shOffset < m.size ∧
      ∃ found, whileLoop (verdefStep m t s.1 (verdefBaseOf m t s.1)) fuel
        (verdefBaseOf m t s.1, s.2) = .ok found ∧ s' = (s.1 + 1, found) := by
  unfold sectionStep
  rw [Image.load_bind_eq_ok, require_bind_eq_ok]
  refine and_congr_right fun _ => and_congr_right fun _ => ?_
  rw [isVersionSection_iff, sectionName] at hwalk
  rw [hwalk]
  change (m.load _ _ >>= fun _ => _) = _ ↔ _
  rw [Image.load_bind_eq_ok, require_bind_eq_ok, bind_eq_ok]
  refine and_congr_right fun _ => and_congr_right fun _ => exists_congr fun found =>
    and_congr_right fun _ => ?_
  exact ⟨fun h => (Except.ok.inj h).symm, fun h => congrArg Except.ok h.symm⟩

/-- The comparison of a section's name is one of three. -/
theorem sectionName_cases (m : Image) (t : SectionTable) (i : Nat) :
    strncmpEq (m.tail (sectionName m t i)) gnuVersionD = .error .outOfRange ∨
    strncmpEq (m.tail (sectionName m t i)) gnuVersionD = .ok false ∨ IsVersionSection m t i := by
  rcases strncmpEq_cases (m.tail (sectionName m t i)) gnuVersionD with h | ⟨b, h⟩
  · exact Or.inl h
  · cases b with
    | false => exact Or.inr (Or.inl h)
    | true => exact Or.inr (Or.inr (isVersionSection_iff.mpr h))

/-- A name that runs off the file stops the reader. -/
theorem sectionStep_runsOff (fuel : Nat) (s s' : Nat × Found)
    (hoff : strncmpEq (m.tail (sectionName m t s.1)) gnuVersionD = .error .outOfRange) :
    sectionStep m t fuel s ≠ .ok s' := by
  unfold sectionStep
  rw [ne_eq, Image.load_bind_eq_ok, require_bind_eq_ok]
  rintro ⟨_, _, h⟩
  unfold sectionName at hoff
  rw [hoff] at h
  cases h

theorem sectionStep_yields (s : Nat × Found) :
    (∃ s', Yields (fun n => sectionStep m t n s) s') ↔ SectionPasses m t s.1 := by
  rcases sectionName_cases m t s.1 with hoff | hskip | hwalk
  · refine iff_of_false ?_ (fun h => compares_sectionName.mp h.compared hoff)
    rintro ⟨s', n, hn⟩
    exact sectionStep_runsOff n s s' hoff hn
  · -- A section that is skipped needs only its name.
    have hnot : ¬ IsVersionSection m t s.1 := by
      rw [isVersionSection_iff, hskip]
      exact fun hc => Bool.false_ne_true (Except.ok.inj hc)
    constructor
    · rintro ⟨s', n, hn⟩
      rcases (sectionStep_skip n s s' hskip).mp hn with ⟨hname, hindex, _⟩
      refine ⟨hname, hindex, ?_, fun hc => absurd hc hnot, fun hc => absurd hc hnot,
        fun hc => absurd hc hnot⟩
      rw [compares_sectionName, hskip]
      exact ok_ne_error _ _
    · intro h
      exact ⟨_, 0, (sectionStep_skip 0 s _ hskip).mpr ⟨h.name, h.index, rfl⟩⟩
  · -- A section that is walked needs its offset and its walk besides.
    constructor
    · rintro ⟨s', n, hn⟩
      rcases (sectionStep_walk n s s' hwalk).mp hn with
        ⟨hname, hindex, hoffset, hinside, found, hfound, _⟩
      refine ⟨hname, hindex, ?_, fun _ => hoffset, fun _ => hinside,
        fun _ => (walk_yields s.2).mp ⟨found, n, hfound⟩⟩
      rw [compares_sectionName, isVersionSection_iff.mp hwalk]
      exact ok_ne_error _ _
    · intro h
      rcases (walk_yields s.2).mpr (h.walk hwalk) with ⟨found, n, hfound⟩
      exact ⟨_, n, (sectionStep_walk n s _ hwalk).mpr
        ⟨h.name, h.index, h.offset hwalk, h.inside hwalk, found, hfound, rfl⟩⟩

theorem sectionStep_next (s s' : Nat × Found)
    (h : Yields (fun n => sectionStep m t n s) s') : s'.1 = s.1 + 1 := by
  rcases h with ⟨n, hn⟩
  rcases sectionName_cases m t s.1 with hoff | hskip | hwalk
  · exact absurd hn (sectionStep_runsOff n s s' hoff)
  · rw [((sectionStep_skip n s s' hskip).mp hn).2.2]
  · rcases ((sectionStep_walk n s s' hwalk).mp hn).2.2.2.2 with ⟨found, _, rfl⟩
    rfl

/-- A name index past the name table fails an `ASSERT`. -/
theorem sectionStep_index (fuel : Nat) (s : Nat × Found)
    (hname : m.Has (t.header m s.1) m.cls.shName)
    (hindex : ¬ m.value (t.header m s.1) m.cls.shName < t.sizeSectionHeaderStringTable) :
    sectionStep m t fuel s = .error .assert := by
  unfold sectionStep
  rw [Image.load_of_has hname, ok_bind, (require_eq_assert _).mpr hindex, error_bind]

/-- A version section that starts past the file fails an `ASSERT`. -/
theorem sectionStep_offset (fuel : Nat) (s : Nat × Found)
    (hname : m.Has (t.header m s.1) m.cls.shName)
    (hindex : m.value (t.header m s.1) m.cls.shName < t.sizeSectionHeaderStringTable)
    (hversion : IsVersionSection m t s.1) (hoffset : m.Has (t.header m s.1) m.cls.shOffset)
    (hinside : ¬ m.value (t.header m s.1) m.cls.shOffset < m.size) :
    sectionStep m t fuel s = .error .assert := by
  rw [isVersionSection_iff, sectionName] at hversion
  unfold sectionStep
  rw [Image.load_of_has hname, ok_bind, (require_eq_ok _ ()).mpr hindex, ok_bind, hversion, ok_bind,
    if_pos rfl, Image.load_of_has hoffset, ok_bind, (require_eq_assert _).mpr hinside, error_bind]

theorem sectionStep_ne_outOfRange (fuel : Nat) (s : Nat × Found) :
    sectionStep m t fuel s ≠ .error .outOfRange ↔
      m.Has (t.header m s.1) m.cls.shName ∧
      (m.value (t.header m s.1) m.cls.shName < t.sizeSectionHeaderStringTable →
        Compares m (sectionName m t s.1) gnuVersionD ∧
        (IsVersionSection m t s.1 → m.Has (t.header m s.1) m.cls.shOffset ∧
          (m.value (t.header m s.1) m.cls.shOffset < m.size →
            whileLoop (verdefStep m t s.1 (verdefBaseOf m t s.1)) fuel
              (verdefBaseOf m t s.1, s.2) ≠ .error .outOfRange))) := by
  unfold sectionStep
  rw [Image.load_bind_ne_outOfRange, require_bind_ne_outOfRange]
  refine and_congr_right fun _ => imp_congr_right fun _ => ?_
  change (strncmpEq (m.tail (sectionName m t s.1)) gnuVersionD >>= fun b => _) ≠ _ ↔ _
  rw [compares_sectionName]
  rcases sectionName_cases m t s.1 with hoff | hskip | hwalk
  · rw [hoff]
    -- The name runs off the file, which is just what must not be.
    exact iff_of_false (fun h => h rfl) (fun h => h.1 rfl)
  · rw [isVersionSection_iff, hskip]
    exact iff_of_true (pure_ne_error _ _)
      ⟨ok_ne_error _ _, fun hc => absurd (Except.ok.inj hc) Bool.false_ne_true⟩
  · have hread : strncmpEq (m.tail (sectionName m t s.1)) gnuVersionD ≠ .error .outOfRange := by
      rw [isVersionSection_iff.mp hwalk]
      exact ok_ne_error _ _
    simp only [ne_eq, hread, not_false_eq_true, hwalk, true_imp_iff, true_and]
    rw [isVersionSection_iff.mp hwalk]
    change (m.load _ _ >>= fun _ => _) ≠ _ ↔ _
    rw [Image.load_bind_ne_outOfRange, require_bind_ne_outOfRange]
    refine and_congr_right fun _ => imp_congr_right fun _ => ?_
    rw [ne_eq, bind_eq_error, not_or]
    -- Behind the walk nothing is read.
    refine and_iff_left ?_
    rintro ⟨_, _, hc⟩
    exact pure_ne_error _ _ hc

theorem sectionStep_avoids (s : Nat × Found) :
    AlwaysAvoids .outOfRange (fun n => sectionStep m t n s) ↔ SectionReads m t s.1 := by
  constructor
  · intro h
    -- What is read before the walk does not depend on the fuel.
    have h' := fun n => (sectionStep_ne_outOfRange n s).mp (h n)
    refine ⟨(h' 0).1, fun hindex => ⟨((h' 0).2 hindex).1, fun hversion =>
      ⟨(((h' 0).2 hindex).2 hversion).1, fun hinside => ?_⟩⟩⟩
    exact (walk_avoids s.2).mp fun n => (((h' n).2 hindex).2 hversion).2 hinside
  · rintro ⟨hname, hrest⟩ n
    refine (sectionStep_ne_outOfRange n s).mpr ⟨hname, fun hindex => ⟨(hrest hindex).1,
      fun hversion => ⟨((hrest hindex).2 hversion).1, fun hinside => ?_⟩⟩⟩
    exact (walk_avoids s.2).mpr (((hrest hindex).2 hversion).2 hinside) n

end Section

section Header

variable (m : Image)

/-- The header of the section that holds the section names. -/
def namesHeader : Nat :=
  m.ptrAdd (m.ptrAdd 0 (m.value 0 m.cls.eShoff)) (m.value 0 m.cls.eShstrndx * m.cls.sizeofShdr)

/-- The tables the header leads to. -/
def Image.table : SectionTable :=
  ⟨m.ptrAdd 0 (m.value 0 m.cls.eShoff), m.value 0 m.cls.eShnum,
    m.ptrAdd 0 (m.value (namesHeader m) m.cls.shOffset), m.value (namesHeader m) m.cls.shSize⟩

/-- What the header checks need to come through. -/
structure HeaderPasses : Prop where
  shoff : m.Has 0 m.cls.eShoff
  shoffInside : m.value 0 m.cls.eShoff < m.size
  shstrndx : m.Has 0 m.cls.eShstrndx
  shstrndxInside : m.value 0 m.cls.eShstrndx < m.size - m.value 0 m.cls.eShoff
  shnum : m.Has 0 m.cls.eShnum
  shstrndxBelow : m.value 0 m.cls.eShstrndx < m.value 0 m.cls.eShnum
  namesOffset : m.Has (namesHeader m) m.cls.shOffset
  namesInside : m.value (namesHeader m) m.cls.shOffset < m.size
  shnumInside : m.value 0 m.cls.eShnum ≤ m.size / m.cls.sizeofShdr
  namesSize : m.Has (namesHeader m) m.cls.shSize
  namesEnd : m.value (namesHeader m) m.cls.shSize <
    m.size - m.value (namesHeader m) m.cls.shOffset

/-- What the header checks need to stay inside the file. The index of the
    name table is compared with a number of *bytes*, so the last two parts do
    not follow from the checks before them. -/
def HeaderReads : Prop :=
  m.Has 0 m.cls.eShoff ∧ (m.value 0 m.cls.eShoff < m.size →
    m.Has 0 m.cls.eShstrndx ∧
    (m.value 0 m.cls.eShstrndx < m.size - m.value 0 m.cls.eShoff →
      m.Has 0 m.cls.eShnum ∧ (m.value 0 m.cls.eShstrndx < m.value 0 m.cls.eShnum →
        m.Has (namesHeader m) m.cls.shOffset ∧
        (m.value (namesHeader m) m.cls.shOffset < m.size →
          m.value 0 m.cls.eShnum ≤ m.size / m.cls.sizeofShdr →
            m.Has (namesHeader m) m.cls.shSize))))

variable {m}

theorem readHeader_eq_ok (t : SectionTable) :
    readHeader m = .ok t ↔ HeaderPasses m ∧ t = m.table := by
  unfold readHeader
  simp only [Image.load_bind_eq_ok, require_bind_eq_ok]
  constructor
  · rintro ⟨h1, h2, h3, h4, h5, h6, h7, h8, h9, h10, h11, ht⟩
    exact ⟨⟨h1, h2, h3, h4, h5, h6, h7, h8, h9, h10, h11⟩, (Except.ok.inj ht).symm⟩
  · rintro ⟨⟨h1, h2, h3, h4, h5, h6, h7, h8, h9, h10, h11⟩, rfl⟩
    exact ⟨h1, h2, h3, h4, h5, h6, h7, h8, h9, h10, h11, rfl⟩

theorem readHeader_ne_outOfRange : readHeader m ≠ .error .outOfRange ↔ HeaderReads m := by
  unfold readHeader HeaderReads
  simp only [Image.load_bind_ne_outOfRange, require_bind_ne_outOfRange]
  refine and_congr_right fun _ => imp_congr_right fun _ => and_congr_right fun _ =>
    imp_congr_right fun _ => and_congr_right fun _ => imp_congr_right fun _ =>
      and_congr_right fun _ => imp_congr_right fun _ => imp_congr_right fun _ => ?_
  exact and_iff_left fun _ => pure_ne_error _ _

/-- A header whose checks fail stops the reader at an `ASSERT`, unless a read
    of theirs leaves the file. -/
theorem readHeader_cases (m : Image) : readHeader m = .ok m.table ∨
    readHeader m = .error .assert ∨ readHeader m = .error .outOfRange := by
  cases h : readHeader m with
  | ok t => exact Or.inl (by rw [((readHeader_eq_ok t).mp h).2])
  | error e =>
      cases e with
      | assert => exact Or.inr (Or.inl rfl)
      | outOfRange => exact Or.inr (Or.inr rfl)
      | outOfFuel =>
          exfalso
          -- Neither a load nor a requirement uses fuel.
          unfold readHeader at h
          simp only [bind_eq_error, Image.load_ne_outOfFuel, require_ne_outOfFuel, pure_ne_error,
            false_or, and_false, exists_false] at h

/-- What stops the header checks is not a lack of fuel. -/
theorem readHeader_fails (h : ¬ HeaderPasses m) :
    ∃ e, e ≠ .outOfFuel ∧ readHeader m = .error e := by
  rcases readHeader_cases m with hok | hassert | hoff
  · exact absurd ((readHeader_eq_ok _).mp hok).1 h
  · exact ⟨.assert, Stop.noConfusion, hassert⟩
  · exact ⟨.outOfRange, Stop.noConfusion, hoff⟩

end Header

section Scan

variable (m : Image)

/-- What the reader needs to come through. -/
def ScanPasses : Prop :=
  m.Has 0 eiMag ∧ (m.IsElf → m.Has 0 eiClass ∧ (m.IsNative →
    HeaderPasses m ∧ ∀ i < m.table.shnum, SectionPasses m m.table i))

/-- What the reader needs to stay inside the file. -/
def ScanReads : Prop :=
  m.Has 0 eiMag ∧ (m.IsElf → m.Has 0 eiClass ∧ (m.IsNative →
    HeaderReads m ∧ (HeaderPasses m → ∀ i < m.table.shnum,
      (∀ j < i, SectionPasses m m.table j) → SectionReads m m.table i)))

variable {m}

theorem succ_iterate (k : Nat) : (fun i : Nat => i + 1)^[k] 0 = k := by
  induction k with
  | zero => rfl
  | succ k ih => rw [Function.iterate_succ_apply', ih]

theorem sections_yield (n : Nat) (s : Found) :
    (∃ s', Yields (fun fuel => countedLoop (sectionStep m m.table fuel) n (0, s)) s') ↔
      ∀ i < n, SectionPasses m m.table i := by
  have h := countedLoop_yields_iff (sectionStep m m.table) settled_sectionStep Prod.fst
    (fun i => i + 1) (SectionPasses m m.table) sectionStep_next sectionStep_yields n (0, s)
  simpa only [succ_iterate] using h

/-- The loop over the section headers counts them. -/
theorem sections_position {n : Nat} {s : Found} {s' : Nat × Found}
    (h : Yields (fun fuel => countedLoop (sectionStep m m.table fuel) n (0, s)) s') : s'.1 = n := by
  -- Every pass counts one section.
  have hcount := countedLoop_invariant (sectionStep m m.table) settled_sectionStep
    (fun k r => r.1 = k) (fun k r r' hr hstep => by rw [sectionStep_next r r' hstep, hr])
    n 0 _ s' rfl h
  rwa [Nat.zero_add] at hcount

theorem sections_avoid (n : Nat) (s : Found) :
    AlwaysAvoids .outOfRange (fun fuel => countedLoop (sectionStep m m.table fuel) n (0, s)) ↔
      ∀ i < n, (∀ j < i, SectionPasses m m.table j) → SectionReads m m.table i := by
  have h := countedLoop_avoids_iff (sectionStep m m.table) settled_sectionStep Prod.fst
    (fun i => i + 1) (SectionPasses m m.table) sectionStep_next sectionStep_yields
    (e := .outOfRange) (by decide) (SectionReads m m.table) sectionStep_avoids n (0, s)
  simpa only [succ_iterate] using h

/-- A file that is not ELF is refused. -/
theorem scanImage_notElf (fuel out : Nat) (hmag : m.Has 0 eiMag) (helf : ¬ m.IsElf) :
    scanImage fuel m out = .ok (.fatalError, out) := by
  unfold scanImage
  rw [Image.load_bind_eq_ok, if_pos helf]
  exact ⟨hmag, rfl⟩

/-- A file of the other class is set aside. -/
theorem scanImage_notNative (fuel out : Nat) (hmag : m.Has 0 eiMag) (helf : m.IsElf)
    (hclass : m.Has 0 eiClass) (hnative : ¬ m.IsNative) :
    scanImage fuel m out = .ok (.nonFatalError, out) := by
  unfold scanImage
  rw [Image.load_bind_eq_ok, if_neg (not_not_intro helf), Image.load_bind_eq_ok, if_pos hnative]
  exact ⟨hmag, hclass, rfl⟩

/-- A native file gets its headers checked and its sections walked. -/
theorem scanImage_native (fuel out : Nat) (hmag : m.Has 0 eiMag) (helf : m.IsElf)
    (hclass : m.Has 0 eiClass) (hnative : m.IsNative) :
    scanImage fuel m out = readHeader m >>= fun t => scanSections fuel m t out := by
  unfold scanImage
  rw [Image.load_of_has hmag, ok_bind, if_neg (not_not_intro helf), Image.load_of_has hclass,
    ok_bind, if_neg (not_not_intro hnative)]

theorem scanSections_yields (out : Nat) :
    (∃ r, Yields (fun fuel => scanSections fuel m m.table out) r) ↔
      ∀ i < m.table.shnum, SectionPasses m m.table i := by
  rw [← sections_yield m.table.shnum ⟨false, out⟩]
  constructor
  · rintro ⟨r, n, hn⟩
    rcases (bind_eq_ok _ _ _).mp hn with ⟨s, hs, _⟩
    exact ⟨s, n, hs⟩
  · rintro ⟨s, n, hn⟩
    -- The answer is drawn from the findings, whatever they are.
    by_cases hfound : ¬ s.2.atLeastOne
    · exact ⟨_, n, (bind_eq_ok _ _ _).mpr ⟨s, hn, by rw [if_pos hfound]; rfl⟩⟩
    · exact ⟨_, n, (bind_eq_ok _ _ _).mpr ⟨s, hn, by rw [if_neg hfound]; rfl⟩⟩

/-- The walk over the sections stops in its loop, if it does. -/
theorem scanSections_eq_error (fuel out : Nat) (t : SectionTable) (e : Stop) :
    scanSections fuel m t out = .error e ↔
      countedLoop (sectionStep m t fuel) t.shnum (0, ⟨false, out⟩) = .error e := by
  unfold scanSections
  rw [bind_eq_error]
  refine or_iff_left ?_
  -- What comes after the loop only looks at the findings.
  rintro ⟨s, _, hs⟩
  by_cases hfound : ¬ s.2.atLeastOne
  · rw [if_pos hfound] at hs
    exact pure_ne_error _ _ hs
  · rw [if_neg hfound] at hs
    exact pure_ne_error _ _ hs

theorem scanSections_avoids (out : Nat) :
    AlwaysAvoids .outOfRange (fun fuel => scanSections fuel m m.table out) ↔
      ∀ i < m.table.shnum, (∀ j < i, SectionPasses m m.table j) → SectionReads m m.table i := by
  rw [← sections_avoid m.table.shnum ⟨false, out⟩]
  exact forall_congr' fun n => not_congr (scanSections_eq_error n out m.table .outOfRange)

theorem settled_scanImage (out : Nat) : Settled (fun fuel => scanImage fuel m out) := by
  unfold scanImage
  refine (settled_const _).bind fun _ => ?_
  by_cases helf : m.IsElf
  · simp only [if_neg (not_not_intro helf)]
    refine (settled_const _).bind fun _ => ?_
    by_cases hnative : m.IsNative
    · simp only [if_neg (not_not_intro hnative)]
      refine (settled_const _).bind fun t => ?_
      unfold scanSections
      exact (settled_countedLoop _ settled_sectionStep _ _).bind fun s => settled_const _
    · simp only [if_pos hnative]
      exact settled_const _
  · simp only [if_pos helf]
    exact settled_const _

theorem settled_getLibstdcxxVersion (fd out : Nat) (file : OpenFile) :
    Settled (fun fuel => getLibstdcxxVersion fuel fd file out) := by
  cases file with
  | noStat => exact settled_const _
  | noMap => exact settled_const _
  | mapped m => exact (settled_scanImage out).bind fun r => settled_const _

/-- What the function hands back is what the walk found. -/
theorem getLibstdcxxVersion_eq_ok (fuel fd out : Nat) (r : VersionResult) :
    getLibstdcxxVersion fuel fd (.mapped m) out = .ok r ↔
      scanImage fuel m out = .ok (r.error, r.glibcxxVersion) ∧
      r.calls = [.mmap m.mapped m.size, .close fd, .munmap m.mapped m.size] := by
  unfold getLibstdcxxVersion
  simp only
  rw [bind_eq_ok]
  constructor
  · rintro ⟨⟨error, version⟩, hscan, hr⟩
    cases hr
    exact ⟨hscan, rfl⟩
  · rintro ⟨hscan, hcalls⟩
    refine ⟨_, hscan, ?_⟩
    cases r
    simp only at hcalls
    rw [hcalls]
    rfl

theorem getLibstdcxxVersion_eq_error (fuel fd out : Nat) (e : Stop) :
    getLibstdcxxVersion fuel fd (.mapped m) out = .error e ↔ scanImage fuel m out = .error e := by
  unfold getLibstdcxxVersion
  simp only
  rw [bind_eq_error]
  exact or_iff_left fun ⟨_, _, h⟩ => pure_ne_error _ _ h

/-- The reader comes through exactly when everything it visits is in place. -/
theorem scanImage_yields_iff (out : Nat) :
    (∃ r, Yields (fun fuel => scanImage fuel m out) r) ↔ ScanPasses m := by
  unfold ScanPasses
  by_cases hmag : m.Has 0 eiMag
  · by_cases helf : m.IsElf
    · by_cases hclass : m.Has 0 eiClass
      · by_cases hnative : m.IsNative
        · simp only [hmag, helf, hclass, hnative, true_and, true_imp_iff]
          -- A native file: the header checks, then the sections.
          rw [← scanSections_yields out]
          constructor
          · rintro ⟨r, n, hn⟩
            change scanImage n m out = _ at hn
            rw [scanImage_native n out hmag helf hclass hnative] at hn
            rcases (bind_eq_ok _ _ _).mp hn with ⟨t, ht, hr⟩
            rcases (readHeader_eq_ok t).mp ht with ⟨hheader, rfl⟩
            exact ⟨hheader, r, n, hr⟩
          · rintro ⟨hheader, r, n, hr⟩
            refine ⟨r, n, ?_⟩
            change scanImage n m out = _
            rw [scanImage_native n out hmag helf hclass hnative]
            exact (bind_eq_ok _ _ _).mpr ⟨_, (readHeader_eq_ok _).mpr ⟨hheader, rfl⟩, hr⟩
        · exact iff_of_true ⟨_, 0, scanImage_notNative 0 out hmag helf hclass hnative⟩
            ⟨hmag, fun _ => ⟨hclass, fun h => absurd h hnative⟩⟩
      · refine iff_of_false ?_ (fun h => hclass (h.2 helf).1)
        rintro ⟨r, n, hn⟩
        unfold scanImage at hn
        rw [Image.load_bind_eq_ok, if_neg (not_not_intro helf), Image.load_bind_eq_ok] at hn
        exact hclass hn.2.1
    · exact iff_of_true ⟨_, 0, scanImage_notElf 0 out hmag helf⟩
        ⟨hmag, fun h => absurd h helf⟩
  · refine iff_of_false ?_ (fun h => hmag h.1)
    rintro ⟨r, n, hn⟩
    unfold scanImage at hn
    rw [Image.load_bind_eq_ok] at hn
    exact hmag hn.1

/-- The reader never leaves the file exactly when everything it visits before
    an `ASSERT` stops it is in place. -/
theorem scanImage_inBounds_iff (out : Nat) :
    AlwaysAvoids .outOfRange (fun fuel => scanImage fuel m out) ↔ ScanReads m := by
  unfold ScanReads
  by_cases hmag : m.Has 0 eiMag
  · by_cases helf : m.IsElf
    · by_cases hclass : m.Has 0 eiClass
      · by_cases hnative : m.IsNative
        · simp only [hmag, helf, hclass, hnative, true_and, true_imp_iff]
          -- A native file: the header checks, and the sections if they come through.
          rw [← scanSections_avoids out, ← readHeader_ne_outOfRange]
          unfold AlwaysAvoids
          simp only [scanImage_native _ out hmag helf hclass hnative, ne_eq, bind_eq_error, not_or,
            not_exists, not_and]
          constructor
          · intro h
            refine ⟨(h 0).1, fun hheader n => ?_⟩
            exact (h n).2 _ ((readHeader_eq_ok _).mpr ⟨hheader, rfl⟩)
          · rintro ⟨hread, hrest⟩ n
            refine ⟨hread, fun t ht => ?_⟩
            rcases (readHeader_eq_ok t).mp ht with ⟨hheader, rfl⟩
            exact hrest hheader n
        · refine iff_of_true (fun n hn => ?_)
            ⟨hmag, fun _ => ⟨hclass, fun h => absurd h hnative⟩⟩
          change scanImage n m out = _ at hn
          rw [scanImage_notNative n out hmag helf hclass hnative] at hn
          cases hn
      · refine iff_of_false (fun h => h 0 ?_) (fun h => hclass (h.2 helf).1)
        change scanImage 0 m out = _
        unfold scanImage
        rw [Image.load_of_has hmag, ok_bind, if_neg (not_not_intro helf),
          (Image.load_eq_outOfRange _ _).mpr hclass, error_bind]
    · -- A file of the other class is not read any further.
      refine iff_of_true (fun n hn => ?_) ⟨hmag, fun h => absurd h helf⟩
      change scanImage n m out = _ at hn
      rw [scanImage_notElf n out hmag helf] at hn
      cases hn
  · refine iff_of_false (fun h => h 0 ?_) (fun h => hmag h.1)
    change scanImage 0 m out = _
    unfold scanImage
    rw [(Image.load_eq_outOfRange _ _).mpr hmag, error_bind]

end Scan

section Value

/-- The accumulators describe a set of versions: its greatest element, or the
    value that was there before when the set is empty. -/
def Found.Holds (out : Nat) (S : Set Nat) (s : Found) : Prop :=
  (s.atLeastOne = true ∧ IsGreatest S s.version) ∨
  (s.atLeastOne = false ∧ S = ∅ ∧ s.version = out)

theorem Found.holds_record {out : Nat} {S : Set Nat} {s : Found} (h : s.Holds out S)
    (o : Option Nat) : (s.record o).Holds out (S ∪ {v | o = some v}) := by
  cases o with
  | none =>
      have hempty : S ∪ {v | (none : Option Nat) = some v} = S := by
        ext v
        simp only [reduceCtorEq, Set.ofPred_false, Set.union_empty]
      rw [hempty]
      exact h
  | some w =>
      have hset : {v | some w = some v} = ({w} : Set Nat) := by
        ext v
        simp only [Option.some.injEq, Set.mem_ofPred_eq, Set.mem_singleton_iff]
        exact eq_comm
      rw [hset]
      left
      rcases h with ⟨hone, hgreatest⟩ | ⟨hnone, rfl, _⟩
      · -- A later version is compared with the greatest so far.
        rw [Found.record_later hone]
        exact ⟨rfl, hgreatest.union isGreatest_singleton⟩
      · rw [Found.record_first hnone, Set.empty_union]
        exact ⟨rfl, isGreatest_singleton⟩

variable (m : Image) (t : SectionTable)

/-- The versions among the first `n` auxiliary entries from `p`. -/
def auxVersions (stringTable p n : Nat) : Set Nat :=
  {v | ∃ k < n, nameVersion m (auxName m stringTable ((auxNext m)^[k] p)) = .ok (some v)}

/-- The versions among the entries the reader visits for the definition at `p`
    of section `i`. -/
def verdefVersions (i p : Nat) : Set Nat :=
  auxVersions m (stringTableOf m t i) (verdefAux m p) (m.value p vdCnt)

/-- The versions the reader meets in section `i`. -/
def metVersions (i : Nat) : Set Nat :=
  {v | IsVersionSection m t i ∧ ∃ k, Visits m t i k ∧
    InSection m t i (verdefBaseOf m t i) (verdefAt m t i k) ∧
    v ∈ verdefVersions m t i (verdefAt m t i k)}

/-- The versions on the path the reader takes through the file. -/
def walkedVersions : Set Nat :=
  {v | ∃ i < m.table.shnum, v ∈ metVersions m m.table i}

variable {m t}

theorem auxVersions_succ (stringTable p n : Nat) :
    auxVersions m stringTable p (n + 1) = auxVersions m stringTable p n ∪
      {v | nameVersion m (auxName m stringTable ((auxNext m)^[n] p)) = .ok (some v)} := by
  ext v
  simp only [auxVersions, Set.mem_ofPred_eq, Set.mem_union]
  constructor
  · rintro ⟨k, hk, h⟩
    rcases Nat.lt_succ_iff_lt_or_eq.mp hk with hlt | rfl
    · exact Or.inl ⟨k, hlt, h⟩
    · exact Or.inr h
  · rintro (⟨k, hk, h⟩ | h)
    · exact ⟨k, by omega, h⟩
    · exact ⟨n, Nat.lt_succ_self n, h⟩

/-- The loop over auxiliary entries adds the versions of its entries. -/
theorem verdauxLoop_holds {out stringTable : Nat} {S : Set Nat} {s : Found}
    (hs : s.Holds out S) (n p : Nat) (r : Nat × Found)
    (h : countedLoop (verdauxStep m stringTable) n (p, s) = .ok r) :
    r.2.Holds out (S ∪ auxVersions m stringTable p n) := by
  let I : Nat → Nat × Found → Prop := fun k r =>
    r.1 = (auxNext m)^[k] p ∧ r.2.Holds out (S ∪ auxVersions m stringTable p k)
  have hinit : I 0 (p, s) := by
    refine ⟨rfl, ?_⟩
    have hempty : auxVersions m stringTable p 0 = ∅ := by
      ext v
      simp only [auxVersions, Nat.not_lt_zero, false_and, exists_false, Set.ofPred_false]
    rw [hempty, Set.union_empty]
    exact hs
  have hstep : ∀ k r r', I k r → Yields (fun _ => verdauxStep m stringTable r) r' →
      I (k + 1) r' := by
    intro k r r' hI hr
    -- One entry adds the version of its name, if it has one.
    rcases (verdauxStep_eq_ok r r').mp ((yields_const _ _).mp hr) with ⟨_, o, ho, rfl⟩
    refine ⟨by rw [Function.iterate_succ_apply', ← hI.1], ?_⟩
    rw [auxVersions_succ, ← Set.union_assoc, ← hI.1, ho]
    simpa only [Except.ok.injEq] using Found.holds_record hI.2 o
  have hall := countedLoop_invariant (fun _ => verdauxStep m stringTable)
    (fun r => settled_const _) I hstep n 0 (p, s) r hinit ⟨0, h⟩
  rw [Nat.zero_add] at hall
  exact hall.2

theorem verdefBody_holds {out i p : Nat} {S : Set Nat} {s f : Found} (hs : s.Holds out S)
    (h : verdefBody m t i p s = .ok f) : f.Holds out (S ∪ verdefVersions m t i p) := by
  rcases (verdefBody_eq_ok p s f).mp h with ⟨_, q, hloop⟩
  exact verdauxLoop_holds hs _ _ _ hloop

/-- The versions of the definitions before the `k`-th. -/
def versionsBefore (m : Image) (t : SectionTable) (i k : Nat) : Set Nat :=
  {v | ∃ j < k, v ∈ verdefVersions m t i (verdefAt m t i j)}

theorem versionsBefore_succ (i k : Nat) : versionsBefore m t i (k + 1) =
    versionsBefore m t i k ∪ verdefVersions m t i (verdefAt m t i k) := by
  ext v
  simp only [versionsBefore, Set.mem_ofPred_eq, Set.mem_union]
  constructor
  · rintro ⟨j, hj, h⟩
    rcases Nat.lt_succ_iff_lt_or_eq.mp hj with hlt | rfl
    · exact Or.inl ⟨j, hlt, h⟩
    · exact Or.inr h
  · rintro (⟨j, hj, h⟩ | h)
    · exact ⟨j, by omega, h⟩
    · exact ⟨k, Nat.lt_succ_self k, h⟩

/-- A reader that went on from the definitions before the `k`-th, and not from
    that one, has met exactly these and that one if it lies in the section. -/
theorem metVersions_eq {i k : Nat} (hversion : IsVersionSection m t i) (hvisits : Visits m t i k)
    (hstop : ¬ Continues m t i (verdefBaseOf m t i) (verdefAt m t i k)) :
    metVersions m t i = versionsBefore m t i k ∪
      {v | InSection m t i (verdefBaseOf m t i) (verdefAt m t i k) ∧
        v ∈ verdefVersions m t i (verdefAt m t i k)} := by
  ext v
  simp only [metVersions, versionsBefore, Set.mem_ofPred_eq, Set.mem_union]
  constructor
  · rintro ⟨_, j, hj, hin, hv⟩
    -- No definition behind the `k`-th is gone to.
    rcases Nat.lt_trichotomy j k with hlt | rfl | hgt
    · exact Or.inl ⟨j, hlt, hv⟩
    · exact Or.inr ⟨hin, hv⟩
    · exact absurd (hj k hgt) hstop
  · rintro (⟨j, hj, hv⟩ | ⟨hin, hv⟩)
    · exact ⟨hversion, j, fun l hl => hvisits l (by omega), (hvisits j hj).guard, hv⟩
    · exact ⟨hversion, k, hvisits, hin, hv⟩

/-- The loop over the definitions of a section adds the versions it meets. -/
theorem walk_holds {out i : Nat} {S : Set Nat} {s f : Found} (hversion : IsVersionSection m t i)
    (hs : s.Holds out S) (fuel : Nat)
    (h : whileLoop (verdefStep m t i (verdefBaseOf m t i)) fuel (verdefBaseOf m t i, s) = .ok f) :
    f.Holds out (S ∪ metVersions m t i) := by
  let I : Nat → Nat × Found → Prop := fun k r =>
    r.1 = verdefAt m t i k ∧ Visits m t i k ∧ r.2.Holds out (S ∪ versionsBefore m t i k)
  have hinit : I 0 (verdefBaseOf m t i, s) := by
    refine ⟨rfl, fun j hj => absurd hj (Nat.not_lt_zero j), ?_⟩
    have hempty : versionsBefore m t i 0 = ∅ := by
      ext v
      simp only [versionsBefore, Nat.not_lt_zero, false_and, exists_false, Set.ofPred_false]
    rw [hempty, Set.union_empty]
    exact hs
  have hstep : ∀ k r r', I k r → verdefStep m t i (verdefBaseOf m t i) r = .ok (.inl r') →
      I (k + 1) r' := by
    rintro k r r' ⟨hpos, hvisits, hholds⟩ hr
    -- A pass that goes on adds the versions of its definition.
    rcases (verdefStep_continues_iff _ r r').mp hr with ⟨hcont, found, hbody, rfl⟩
    rw [hpos] at hcont hbody
    refine ⟨?_, fun j hj => ?_, ?_⟩
    · rw [hpos]
      unfold verdefAt
      rw [Function.iterate_succ_apply']
    · rcases Nat.lt_succ_iff_lt_or_eq.mp hj with hlt | rfl
      · exact hvisits j hlt
      · exact hcont
    · rw [versionsBefore_succ, ← Set.union_assoc]
      exact verdefBody_holds hholds hbody
  rcases whileLoop_exit _ I hstep fuel 0 _ f hinit h with ⟨k, r, _, ⟨hpos, hvisits, hholds⟩, hexit⟩
  -- The pass at the exit adds a definition only when it ended at its `vd_next`.
  have hstop : ¬ Continues m t i (verdefBaseOf m t i) (verdefAt m t i k) := by
    intro hc
    rw [← hpos] at hc
    rcases (verdefStep_continues _ r).mpr hc with ⟨r', hr'⟩
    rw [hexit] at hr'
    cases hr'
  rw [metVersions_eq hversion hvisits hstop, ← Set.union_assoc]
  rcases (verdefStep_leaves_iff _ r f).mp hexit with
    ⟨habove, rfl⟩ | ⟨_, _, hwithin, rfl⟩ | ⟨hin, _, _, hbody⟩
  · rw [hpos] at habove
    simpa only [show ¬ InSection m t i (verdefBaseOf m t i) (verdefAt m t i k) from
      fun hc => habove hc.above, false_and, Set.ofPred_false, Set.union_empty] using hholds
  · rw [hpos] at hwithin
    simpa only [show ¬ InSection m t i (verdefBaseOf m t i) (verdefAt m t i k) from
      fun hc => hwithin hc.within, false_and, Set.ofPred_false, Set.union_empty] using hholds
  · rw [hpos] at hin hbody
    simpa only [hin, true_and, Set.ofPred_mem_eq] using verdefBody_holds hholds hbody

theorem sectionStep_holds {out : Nat} {S : Set Nat} {s s' : Nat × Found}
    (hs : s.2.Holds out S) (h : Yields (fun n => sectionStep m t n s) s') :
    s'.2.Holds out (S ∪ metVersions m t s.1) := by
  rcases h with ⟨n, hn⟩
  rcases sectionName_cases m t s.1 with hoff | hskip | hwalk
  · exact absurd hn (sectionStep_runsOff n s s' hoff)
  · -- A section that is skipped has no versions.
    have hempty : metVersions m t s.1 = ∅ := by
      ext v
      simp only [metVersions, isVersionSection_iff, hskip, Except.ok.injEq, Bool.false_eq_true,
        false_and, Set.ofPred_false]
    rw [((sectionStep_skip n s s' hskip).mp hn).2.2, hempty, Set.union_empty]
    exact hs
  · rcases ((sectionStep_walk n s s' hwalk).mp hn).2.2.2.2 with ⟨found, hfound, rfl⟩
    exact walk_holds hwalk hs n hfound

/-- What the reader computes: the greatest version on its path, or the failure
    code with the output untouched when there is none. -/
theorem scanSections_value {out : Nat} {r : ErrorCode × Nat}
    (h : Yields (fun fuel => scanSections fuel m m.table out) r) :
    (r.1 = .success ∧ IsGreatest (walkedVersions m) r.2) ∨
    (r.1 = .fatalError ∧ walkedVersions m = ∅ ∧ r.2 = out) := by
  rcases h with ⟨n, hn⟩
  rcases (bind_eq_ok _ _ _).mp hn with ⟨s, hs, hr⟩
  let I : Nat → Nat × Found → Prop := fun k r =>
    r.1 = k ∧ r.2.Holds out {v | ∃ i < k, v ∈ metVersions m m.table i}
  have hinit : I 0 (0, ⟨false, out⟩) := by
    refine ⟨rfl, Or.inr ⟨rfl, ?_, rfl⟩⟩
    ext v
    simp only [Nat.not_lt_zero, false_and, exists_false, Set.ofPred_false]
  have hstep : ∀ k r r', I k r → Yields (fun n => sectionStep m m.table n r) r' →
      I (k + 1) r' := by
    rintro k r r' ⟨rfl, hholds⟩ hr
    refine ⟨sectionStep_next r r' hr, ?_⟩
    -- The versions met up to a section are those before it and its own.
    have hset : {v | ∃ i < r.1 + 1, v ∈ metVersions m m.table i} =
        {v | ∃ i < r.1, v ∈ metVersions m m.table i} ∪ metVersions m m.table r.1 := by
      ext v
      simp only [Set.mem_ofPred_eq, Set.mem_union]
      constructor
      · rintro ⟨i, hi, hv⟩
        rcases Nat.lt_succ_iff_lt_or_eq.mp hi with hlt | rfl
        · exact Or.inl ⟨i, hlt, hv⟩
        · exact Or.inr hv
      · rintro (⟨i, hi, hv⟩ | hv)
        · exact ⟨i, by omega, hv⟩
        · exact ⟨r.1, Nat.lt_succ_self _, hv⟩
    rw [hset]
    exact sectionStep_holds hholds hr
  have hall := countedLoop_invariant (sectionStep m m.table) settled_sectionStep I hstep
    m.table.shnum 0 _ s hinit ⟨n, hs⟩
  rw [Nat.zero_add] at hall
  rcases hall.2 with ⟨hone, hgreatest⟩ | ⟨hnone, hempty, hout⟩
  · -- Something was found, and it is the greatest.
    rw [if_neg (not_not_intro hone)] at hr
    cases hr
    exact Or.inl ⟨rfl, hgreatest⟩
  · rw [if_pos (by rw [hnone]; exact Bool.false_ne_true)] at hr
    cases hr
    exact Or.inr ⟨rfl, hempty, hout⟩

/-- The three answers of the reader: what it computes for a native file, the
    refusal of what is not ELF, and the setting aside of the other class. -/
theorem scanImage_value {out : Nat} {r : ErrorCode × Nat}
    (h : Yields (fun fuel => scanImage fuel m out) r) :
    (m.IsElf ∧ m.IsNative ∧ r.1 = .success ∧ IsGreatest (walkedVersions m) r.2) ∨
    (m.IsElf ∧ m.IsNative ∧ r.1 = .fatalError ∧ walkedVersions m = ∅ ∧ r.2 = out) ∨
    (¬ m.IsElf ∧ r = (.fatalError, out)) ∨
    (m.IsElf ∧ ¬ m.IsNative ∧ r = (.nonFatalError, out)) := by
  have hpasses := (scanImage_yields_iff out).mp ⟨r, h⟩
  rcases h with ⟨n, hn⟩
  change scanImage n m out = _ at hn
  by_cases helf : m.IsElf
  · have hclass := (hpasses.2 helf).1
    by_cases hnative : m.IsNative
    · rw [scanImage_native n out hpasses.1 helf hclass hnative] at hn
      rcases (bind_eq_ok _ _ _).mp hn with ⟨t, ht, hr⟩
      rcases (readHeader_eq_ok t).mp ht with ⟨_, rfl⟩
      rcases scanSections_value ⟨n, hr⟩ with ⟨herr, hv⟩ | ⟨herr, hempty, hout⟩
      · exact Or.inl ⟨helf, hnative, herr, hv⟩
      · exact Or.inr (Or.inl ⟨helf, hnative, herr, hempty, hout⟩)
    · rw [scanImage_notNative n out hpasses.1 helf hclass hnative] at hn
      exact Or.inr (Or.inr (Or.inr ⟨helf, hnative, (Except.ok.inj hn).symm⟩))
  · rw [scanImage_notElf n out hpasses.1 helf] at hn
    exact Or.inr (Or.inr (Or.inl ⟨helf, (Except.ok.inj hn).symm⟩))

/-- Every version on the reader's path fits in 24 bits. -/
theorem walkedVersions_lt {v : Nat} (h : v ∈ walkedVersions m) : v < 2 ^ 24 := by
  rcases h with ⟨i, _, _, k, _, _, l, _, hv⟩
  exact nameVersion_lt hv

end Value

end AuditLibstdcxx
