import AuditLibstdcxx.Lib.Halting
import AuditLibstdcxx.Theory.Reference

/-!
# Where the Walk Ends

Whether the reader comes to an end, on a file nobody vouches for.

Its outer and inner loops are counted. The loop over version definitions is
not: it follows `vd_next` for as long as the definition it arrives at lies in
the section, and that is all that keeps it from going on. The sum
`verdef + vd_next` is taken modulo the word size, so a large `vd_next` leads
backwards, and the comparison with `verdef_base` only notices when it leads to
a place before the section.

In a 64-bit reader it cannot lead anywhere else. A step is below `2^32` and the
file is below `2^63`, so a definition that can be read is followed by a later
one, and what lies past the end of the file cannot be read. In a 32-bit reader
a step can take the loop back to any earlier definition, from where it goes on
as it did before.

## Main definitions

* `HaltsWithinFile`: The reader ends within as many passes as the file has bytes.
* `nextSum`: The steps of a run of definitions, added up.
* `LeadsRound`: The steps of some run make up the address space.
* `ComesTo`: The reader comes to the definitions of a section.

## Theorems

* `verdefAt_add`: A run of definitions moves the reader by its steps.
* `leadsRound_iff`: The loop comes round when its steps do.
* `scanImage_outOfFuel_iff`: Only the loop over sections can be cut short.
* `endless_of_leadsRound`: Definitions that lead round keep the reader for ever.
* `halts_of_not_leadsRound`: If none do, it ends within the file's size.
* `elf64_not_leadsRound`: In a 64-bit reader none do.
* `haltsWithinFile_iff`: When the reader ends.
-/

namespace AuditLibstdcxx

open Checked

section Steps

variable (m : Image) (t : SectionTable) (i : Nat)

/-- The `vd_next` of the `n` definitions from the `j`-th on, added up. -/
def nextSum (j : Nat) : Nat → Nat
  | 0 => 0
  | n + 1 => nextSum j n + m.value (verdefAt m t i (j + n)) vdNext

/-- A run of definitions that the reader goes through, one after the other,
    whose `vd_next` make up the address space, once or several times over. -/
def LeadsRound : Prop :=
  ∃ j n, 0 < n ∧ Visits m t i (j + n) ∧ 2 ^ m.cls.wordBits ∣ nextSum m t i j n

variable {m t i}

/-- The steps of a run come to no less than its first one. -/
theorem le_nextSum (j n : Nat) :
    m.value (verdefAt m t i j) vdNext ≤ nextSum m t i j (n + 1) := by
  induction n with
  | zero => exact Nat.le_add_left _ _
  | succ n ih => exact Nat.le_trans ih (Nat.le_add_right _ _)

theorem verdefAt_succ (k : Nat) : verdefAt m t i (k + 1) = verdefNext m (verdefAt m t i k) :=
  Function.iterate_succ_apply' _ _ _

theorem verdefAt_lt (k : Nat) : verdefAt m t i k < 2 ^ m.cls.wordBits := by
  -- A pointer is a sum modulo the word size, from the first on.
  cases k with
  | zero => exact Image.ptrAdd_lt _ _
  | succ k =>
      rw [verdefAt_succ]
      exact Image.ptrAdd_lt _ _

/-- A run of definitions moves the reader by what its steps add up to. -/
theorem verdefAt_add (j n : Nat) :
    verdefAt m t i (j + n) = m.ptrAdd (verdefAt m t i j) (nextSum m t i j n) := by
  induction n with
  | zero => exact (Image.ptrAdd_zero (verdefAt_lt j)).symm
  | succ n ih =>
      rw [← Nat.add_assoc, verdefAt_succ]
      -- The step is taken from the place `ih` gives; its value is read there too.
      simp only [verdefNext, nextSum, Image.ptrAdd]
      rw [show verdefAt m t i (j + n) = (verdefAt m t i j + nextSum m t i j n) %
        2 ^ m.cls.wordBits from ih, Nat.mod_add_mod, Nat.add_assoc]

/-- The reader is back where it was exactly when the steps between make up the
    address space. -/
theorem verdefAt_back_iff (j n : Nat) : verdefAt m t i (j + n) = verdefAt m t i j ↔
    2 ^ m.cls.wordBits ∣ nextSum m t i j n := by
  have hlt := verdefAt_lt (m := m) (t := t) (i := i) j
  rw [verdefAt_add, Image.ptrAdd]
  constructor
  · intro h
    have hmod : verdefAt m t i j + nextSum m t i j n ≡ verdefAt m t i j + 0
        [MOD 2 ^ m.cls.wordBits] := by
      simpa only [Nat.ModEq, Nat.add_zero, Nat.mod_eq_of_lt hlt] using h
    exact Nat.modEq_zero_iff_dvd.mp (Nat.ModEq.add_left_cancel' _ hmod)
  · rintro ⟨c, hc⟩
    rw [hc, Nat.add_mul_mod_self_left, Nat.mod_eq_of_lt hlt]

/-- The loop over definitions comes round exactly when its steps do. -/
theorem leadsRound_iff : LeadsRound m t i ↔
    ComesRound (verdefNext m) (Continues m t i (verdefBaseOf m t i)) (verdefBaseOf m t i) := by
  refine exists_congr fun j => exists_congr fun n => and_congr_right fun _ =>
    and_congr_right fun _ => ?_
  exact (verdefAt_back_iff j n).symm

end Steps

section Fuel

variable {m : Image} {t : SectionTable} {i : Nat}

/-- The entries of a definition are counted, so going through them needs no
    fuel. -/
theorem verdauxStep_ne_outOfFuel (stringTable : Nat) (s : Nat × Found) :
    verdauxStep m stringTable s ≠ .error .outOfFuel := by
  unfold verdauxStep
  rw [ne_eq, Image.load_bind_eq_outOfFuel, require_bind_eq_outOfFuel, bind_eq_error]
  rintro ⟨_, _, hname | ⟨o, _, hnext⟩⟩
  · -- A name is decoded or runs off the file.
    rcases nameVersion_cases m (m.ptrAdd stringTable (m.value s.1 vdaName)) with hoff | ⟨o, ho⟩
    · rw [hoff] at hname
      exact error_ne_error (by decide) hname
    · rw [ho] at hname
      exact ok_ne_error _ _ hname
  · exact pure_ne_error _ _ ((Image.load_bind_eq_outOfFuel _ _ _).mp hnext).2

theorem verdefBody_ne_outOfFuel (p : Nat) (found : Found) :
    verdefBody m t i p found ≠ .error .outOfFuel := by
  unfold verdefBody
  simp only [ne_eq, Image.load_bind_eq_outOfFuel, require_bind_eq_outOfFuel]
  rw [bind_eq_error]
  rintro ⟨_, _, _, _, _, _, _, hloop | ⟨_, _, hpure⟩⟩
  · rcases countedLoop_stopped _ _ _ _ hloop with ⟨_, _, s, _, hs⟩
    exact verdauxStep_ne_outOfFuel _ s hs
  · exact pure_ne_error _ _ hpure

theorem verdefStep_ne_outOfFuel (base : Nat) (s : Nat × Found) :
    verdefStep m t i base s ≠ .error .outOfFuel := by
  unfold verdefStep
  by_cases habove : m.addr base ≤ m.addr s.1
  · rw [if_neg (not_not_intro habove), ne_eq, Image.load_bind_eq_outOfFuel]
    rintro ⟨_, h⟩
    by_cases hwithin : m.distance s.1 base < m.value (t.header m i) m.cls.shSize
    · rw [if_neg (not_not_intro hwithin), bind_eq_error] at h
      rcases h with hbody | ⟨f, _, hnext⟩
      · exact verdefBody_ne_outOfFuel s.1 s.2 hbody
      · have hlast := ((Image.load_bind_eq_outOfFuel _ _ _).mp hnext).2
        by_cases hzero : m.value s.1 vdNext = 0
        · rw [if_pos hzero] at hlast
          exact pure_ne_error _ _ hlast
        · rw [if_neg hzero] at hlast
          exact pure_ne_error _ _ hlast
    · rw [if_pos hwithin] at h
      exact pure_ne_error _ _ h
  · rw [if_pos habove]
    exact pure_ne_error _ _

/-- Definitions that lead round are walked for ever. -/
theorem walk_endless (h : LeadsRound m t i) (fuel : Nat) (s : Found) :
    whileLoop (verdefStep m t i (verdefBaseOf m t i)) fuel (verdefBaseOf m t i, s) =
      .error .outOfFuel :=
  whileLoop_endless _ Prod.fst (verdefNext m) (Continues m t i (verdefBaseOf m t i))
    (verdefStep_next _) (verdefStep_continues _) (verdefStep_ne_outOfFuel _)
    (leadsRound_iff.mp h) fuel

/-- Pointers are told apart by any one member of what they point to. -/
theorem ptrAdd_right_cancel {p q k : Nat} (hp : p < 2 ^ m.cls.wordBits)
    (hq : q < 2 ^ m.cls.wordBits) (h : m.ptrAdd p k = m.ptrAdd q k) : p = q := by
  have hmod : p ≡ q [MOD 2 ^ m.cls.wordBits] := Nat.ModEq.add_right_cancel' k h
  simpa only [Nat.ModEq, Nat.mod_eq_of_lt hp, Nat.mod_eq_of_lt hq] using hmod

/-- Definitions that do not lead round are walked within the file's size: the
    `vd_next` of each definition the walk goes on from has a place of its own in
    the file. -/
theorem walk_halts (h : ¬ LeadsRound m t i) (s : Found) :
    whileLoop (verdefStep m t i (verdefBaseOf m t i)) m.size (verdefBaseOf m t i, s) ≠
      .error .outOfFuel := by
  -- The number of a definition is the place of its `vd_next`.
  have hslot : ∀ q, Continues m t i (verdefBaseOf m t i) q →
      m.ptrAdd q vdNext.off < m.size - 3 := by
    intro q hq
    have hhas : m.ptrAdd q vdNext.off + 4 ≤ m.size := hq.passes.next
    omega
  have hstock : m.size - 3 < m.size := by
    have hpos : 0 < m.size := m.nonempty
    omega
  have hapart : ∀ j k, m.ptrAdd (verdefAt m t i j) vdNext.off =
      m.ptrAdd (verdefAt m t i k) vdNext.off → verdefAt m t i j = verdefAt m t i k :=
    fun j k => ptrAdd_right_cancel (verdefAt_lt j) (verdefAt_lt k)
  exact whileLoop_halts (s := (verdefBaseOf m t i, s)) _ Prod.fst (verdefNext m)
    (Continues m t i (verdefBaseOf m t i)) (verdefStep_next _) (verdefStep_continues _)
    (verdefStep_ne_outOfFuel _) (fun q => m.ptrAdd q vdNext.off) (m.size - 3) hslot hapart
    (fun hround => h (leadsRound_iff.mpr hround)) hstock

end Fuel

section Sections

variable (m : Image)

/-- The reader comes to the definitions of section `i`: it got through the
    header and the sections before, and the checks on this one. -/
structure ComesTo (i : Nat) : Prop where
  mag : m.Has 0 eiMag
  elf : m.IsElf
  ident : m.Has 0 eiClass
  native : m.IsNative
  header : HeaderPasses m
  counted : i < m.table.shnum
  before : ∀ j < i, SectionPasses m m.table j
  name : m.Has (m.table.header m i) m.cls.shName
  index : m.value (m.table.header m i) m.cls.shName < m.table.sizeSectionHeaderStringTable
  version : IsVersionSection m m.table i
  offset : m.Has (m.table.header m i) m.cls.shOffset
  inside : m.value (m.table.header m i) m.cls.shOffset < m.size

/-- The reader ends, however it ends, with no more passes over the definitions
    of a section than the file has bytes. -/
def HaltsWithinFile : Prop :=
  ∀ fd out, getLibstdcxxVersion m.size fd (.mapped m) out ≠ .error .outOfFuel

variable {m}

/-- A pass over a section is cut short only in its definitions. -/
theorem sectionStep_outOfFuel_iff {t : SectionTable} (fuel : Nat) (s : Nat × Found) :
    sectionStep m t fuel s = .error .outOfFuel ↔ m.Has (t.header m s.1) m.cls.shName ∧
      m.value (t.header m s.1) m.cls.shName < t.sizeSectionHeaderStringTable ∧
      IsVersionSection m t s.1 ∧ m.Has (t.header m s.1) m.cls.shOffset ∧
      m.value (t.header m s.1) m.cls.shOffset < m.size ∧
      whileLoop (verdefStep m t s.1 (verdefBaseOf m t s.1)) fuel (verdefBaseOf m t s.1, s.2) =
        .error .outOfFuel := by
  unfold sectionStep
  rw [Image.load_bind_eq_outOfFuel, require_bind_eq_outOfFuel]
  refine and_congr_right fun _ => and_congr_right fun _ => ?_
  change (strncmpEq (m.tail (sectionName m t s.1)) gnuVersionD >>= fun b => _) = _ ↔ _
  rw [isVersionSection_iff]
  rcases sectionName_cases m t s.1 with hoff | hskip | hwalk
  · -- The name runs off the file, which is another way to stop.
    rw [hoff]
    exact iff_of_false (error_ne_error (by decide)) (fun h => error_ne_ok _ _ h.1)
  · rw [hskip]
    refine iff_of_false (pure_ne_error _ _) fun h => ?_
    exact Bool.false_ne_true (Except.ok.inj h.1)
  · rw [isVersionSection_iff.mp hwalk]
    change (m.load _ _ >>= fun _ => _) = _ ↔ _
    rw [Image.load_bind_eq_outOfFuel, require_bind_eq_outOfFuel, bind_eq_error,
      or_iff_left fun ⟨_, _, h⟩ => pure_ne_error _ _ h]
    exact ⟨fun h => ⟨rfl, h⟩, fun h => h.2⟩

/-- Everything before the loop over the sections ends. -/
theorem scanImage_outOfFuel_iff (fuel out : Nat) :
    scanImage fuel m out = .error .outOfFuel ↔ m.Has 0 eiMag ∧ m.IsElf ∧ m.Has 0 eiClass ∧
      m.IsNative ∧ HeaderPasses m ∧
      countedLoop (sectionStep m m.table fuel) m.table.shnum (0, ⟨false, out⟩) =
        .error .outOfFuel := by
  unfold scanImage
  rw [Image.load_bind_eq_outOfFuel]
  refine and_congr_right fun _ => ?_
  by_cases helf : m.IsElf
  · rw [if_neg (not_not_intro helf), Image.load_bind_eq_outOfFuel]
    simp only [helf, true_and]
    refine and_congr_right fun _ => ?_
    by_cases hnative : m.IsNative
    · rw [if_neg (not_not_intro hnative)]
      simp only [hnative, true_and]
      by_cases hheader : HeaderPasses m
      · rw [(readHeader_eq_ok _).mpr ⟨hheader, rfl⟩, ok_bind, scanSections_eq_error]
        simp only [hheader, true_and]
      · rcases readHeader_fails hheader with ⟨e, he, hread⟩
        rw [hread, error_bind]
        exact iff_of_false (error_ne_error he) (fun h => hheader h.1)
    · rw [if_pos hnative]
      exact iff_of_false (pure_ne_error _ _) (fun h => hnative h.1)
  · rw [if_pos helf]
    exact iff_of_false (pure_ne_error _ _) (fun h => helf h.1)

/-- Definitions that lead round keep the reader for ever. -/
theorem endless_of_leadsRound {i : Nat} (hcomes : ComesTo m i) (hround : LeadsRound m m.table i)
    (fuel out : Nat) : scanImage fuel m out = .error .outOfFuel := by
  rcases (sections_yield i ⟨false, out⟩).mpr hcomes.before with ⟨s, n, hs⟩
  have hpos : s.1 = i := sections_position ⟨n, hs⟩
  -- With enough fuel for the sections before, the reader is cut short in this one.
  have hlater : scanImage (max n fuel) m out = .error .outOfFuel := by
    -- The sections before came through, so they do with this fuel.
    have hbefore : countedLoop (sectionStep m m.table (max n fuel)) i (0, ⟨false, out⟩) = .ok s :=
      (settled_countedLoop _ settled_sectionStep i _).eq_ok_of_le hs (Nat.le_max_left n fuel)
    have hcut : sectionStep m m.table (max n fuel) s = .error .outOfFuel := by
      rw [sectionStep_outOfFuel_iff, hpos]
      exact ⟨hcomes.name, hcomes.index, hcomes.version, hcomes.offset, hcomes.inside,
        walk_endless hround _ _⟩
    exact (scanImage_outOfFuel_iff _ out).mpr ⟨hcomes.mag, hcomes.elf, hcomes.ident, hcomes.native,
      hcomes.header, countedLoop_stop _ _ i _ _ s hcomes.counted hbefore hcut⟩
  -- With less it can only be cut short earlier.
  by_contra hends
  have hsame := settled_scanImage out fuel (max n fuel) (Nat.le_max_right n fuel) hends
  exact hends (hsame.symm.trans hlater)

/-- A reader none of whose definitions lead round ends within the file's size. -/
theorem halts_of_not_leadsRound (h : ∀ i, ComesTo m i → ¬ LeadsRound m m.table i) :
    HaltsWithinFile m := by
  intro fd out hcut
  rw [getLibstdcxxVersion_eq_error, scanImage_outOfFuel_iff] at hcut
  rcases hcut with ⟨hmag, helf, hident, hnative, hheader, hloop⟩
  -- The loop over the sections was cut short in one of them.
  rcases countedLoop_stopped _ _ _ _ hloop with ⟨i, hi, s, hs, hstop⟩
  have hpos : s.1 = i := sections_position ⟨m.size, hs⟩
  rw [sectionStep_outOfFuel_iff, hpos] at hstop
  rcases hstop with ⟨hname, hindex, hversion, hoffset, hinside, hwalk⟩
  have hbefore := (sections_yield i ⟨false, out⟩).mp ⟨s, m.size, hs⟩
  have hcomes : ComesTo m i := ⟨hmag, helf, hident, hnative, hheader, hi, hbefore, hname, hindex,
    hversion, hoffset, hinside⟩
  exact walk_halts (h i hcomes) s.2 hwalk

end Sections

section Ascent

variable {m : Image} {t : SectionTable} {i : Nat} (hclass : m.cls = .elf64)

include hclass

/-- The step from a definition inside the file does not wrap, and stops short
    of the last places of the address space. -/
theorem elf64_verdefNext {p : Nat} (hp : p < m.size) :
    verdefNext m p = p + m.value p vdNext ∧ p + m.value p vdNext + 16 < 2 ^ 64 := by
  have hbits : m.cls.wordBits = 64 := by
    rw [hclass]
    rfl
  have hnext : m.value p vdNext < 2 ^ 32 := m.value_lt p vdNext
  have hsize : m.size < 2 ^ 63 := by
    have hoff := m.offT
    rwa [hbits] at hoff
  refine ⟨?_, by omega⟩
  rw [verdefNext, Image.ptrAdd, hbits]
  omega

variable (hbase : verdefBaseOf m t i < m.size)

include hbase

/-- What a 64-bit reader goes on from lies in the file. Past its end there is
    nothing to read, and the reader cannot step over the end of the address
    space. -/
theorem elf64_inside : ∀ k, Visits m t i (k + 1) → verdefAt m t i k < m.size := by
  intro k
  induction k with
  | zero => exact fun _ => hbase
  | succ k ih =>
      intro hvisits
      have hbefore := ih fun j hj => hvisits j (by omega)
      -- The definition was read, so its `vd_next` lies in the file.
      have hhas : m.ptrAdd (verdefAt m t i (k + 1)) 16 + 4 ≤ m.size :=
        (hvisits (k + 1) (by omega)).passes.next
      rcases elf64_verdefNext hclass hbefore with ⟨hstep, hlow⟩
      rw [verdefAt_succ, hstep] at hhas ⊢
      have hwhole : m.ptrAdd (verdefAt m t i k + m.value (verdefAt m t i k) vdNext) 16 =
          verdefAt m t i k + m.value (verdefAt m t i k) vdNext + 16 := by
        rw [Image.ptrAdd, hclass]
        exact Nat.mod_eq_of_lt hlow
      omega

/-- A run of definitions takes a 64-bit reader forward by its steps. -/
theorem elf64_run (j n : Nat) (hvisits : Visits m t i (j + n)) :
    verdefAt m t i (j + n) = verdefAt m t i j + nextSum m t i j n := by
  induction n with
  | zero => rfl
  | succ n ih =>
      have hrun := ih fun l hl => hvisits l (by omega)
      have hinside := elf64_inside hclass hbase (j + n) hvisits
      rw [← Nat.add_assoc, verdefAt_succ, (elf64_verdefNext hclass hinside).1]
      simp only [nextSum]
      omega

/-- In a 64-bit reader no definitions lead round: each run of them ends further
    on than it began. -/
theorem elf64_not_leadsRound : ¬ LeadsRound m t i := by
  rintro ⟨j, n, hn, hvisits, hdvd⟩
  have hback := (verdefAt_back_iff j n).mpr hdvd
  rw [elf64_run hclass hbase j n hvisits] at hback
  -- The first step of the run is not zero, and it is part of the sum.
  have hmore := (hvisits j (by omega)).more
  have hfirst := le_nextSum (m := m) (t := t) (i := i) j (n - 1)
  rw [show n - 1 + 1 = n by omega] at hfirst
  omega

end Ascent

section Main

variable (m : Image)

/-- The reader ends within the file's size exactly when it is a 64-bit one, or
    none of the definitions it comes to lead round. -/
theorem haltsWithinFile_iff :
    HaltsWithinFile m ↔ (m.cls = .elf32 → ∀ i, ComesTo m i → ¬ LeadsRound m m.table i) := by
  constructor
  · intro h _ i hcomes hround
    refine h 0 0 ((getLibstdcxxVersion_eq_error _ 0 0 _).mpr ?_)
    exact endless_of_leadsRound hcomes hround m.size 0
  · intro h
    cases hclass : m.cls with
    | elf32 => exact halts_of_not_leadsRound (h hclass)
    | elf64 =>
        refine halts_of_not_leadsRound fun i hcomes => ?_
        have hinside := hcomes.inside
        refine elf64_not_leadsRound hclass ?_
        rw [verdefBaseOf, Image.ptrAdd_eq (by omega), Nat.zero_add]
        exact hinside

end Main

section Sample

/-- A library with two definitions. The second one's `vd_next` takes a 32-bit
    reader back to the first. -/
def ringBytes : List UInt8 :=
  ehdr32 108 3 2 ++ verdefBytes 1 20 28 ++ verdauxBytes 19 0 ++
    verdefBytes 1 20 (2 ^ 32 - 28) ++ verdauxBytes 31 0 ++
    shdr32 0 shtNull 0 0 0 0 ++ shdr32 1 shtGnuVerdef 52 56 2 2 ++
    shdr32 16 shtStrtab 228 43 0 0 ++ sampleStrings ++ [0]

def ringFile : Image where
  target := ⟨.elf32, false⟩
  mapped := 0x10000
  bytes := ringBytes
  nonempty := by decide +kernel
  fits := by decide +kernel
  offT := by decide +kernel

/-- Its second definition sends the reader back to the first, for ever. -/
theorem ringFile_not_halts : ¬ HaltsWithinFile ringFile := by
  have hring : scanImage ringFile.size ringFile 0 = .error .outOfFuel := by
    decide +kernel
  exact fun h => h 3 0 ((getLibstdcxxVersion_eq_error _ 3 0 _).mpr hring)

end Sample

end AuditLibstdcxx
