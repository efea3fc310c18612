import AuditLibstdcxx.Lib.Agreement
import AuditLibstdcxx.Theory.ElfTools
import AuditLibstdcxx.Theory.Reading
import AuditLibstdcxx.Theory.Reference

/-!
# The Beginning of a File

What the reader finds does not depend on where the file is mapped, nor on what
is behind the part of it that was read. Two files are compared, mapped at any
two addresses, where the one is the beginning of the other: a file and a copy
of it that was cut off, or a library and one that had something appended. If the
reader comes back with an answer for both, it is the same answer.

The checks of the reader do depend on the address and on the length, and so
does the guard of its loop. But a definition that is read is inside the file,
and inside the file addresses and offsets are in the same order. This takes
mappings that are not at the very bottom of the address space, and room for the
longer file where the shorter one is.

## Main definitions

* `Extends`: A file begins with another one.

## Theorems

* `Extends.value_eq`, `Extends.tail_eq`: What is the same in both files.
* `Extends.guard_eq`: The guard of the loop, on a definition that is read.
* `Extends.scanImage`: The two passes agree where both come through.
* `getLibstdcxxVersion_unique`: The two files have the same answer.
-/

namespace AuditLibstdcxx

open Checked

section Strings

/-- A version that was read from a string is there whatever is behind it. -/
theorem stringVersion_append_of_ok {str : List UInt8} {r : Option Nat} (rest : List UInt8)
    (h : stringVersion str = .ok r) : stringVersion (str ++ rest) = .ok r := by
  rcases (bind_eq_ok _ _ _).mp h with ⟨b, hb, hversion⟩
  have hcompare := strncmpEq_append_of_ne rest (hb ▸ ok_ne_error _ _)
  unfold stringVersion
  rw [hcompare, hb, ok_bind]
  cases b with
  | false => exact hversion
  | true =>
      rcases prefix_of_strncmpEq _ _ hb with ⟨suffix, rfl⟩
      have hlen : glibcxxPrefix.length = 8 := rfl
      simp only [if_true, List.append_assoc, List.drop_left' hlen] at hversion ⊢
      rcases (bind_eq_ok _ _ _).mp hversion with ⟨v, hv, hr⟩
      unfold versionStringToInt at hv ⊢
      rcases (bind_eq_ok _ _ _).mp hv with ⟨c, hc, hpack⟩
      rw [scanVersion_append_of_ne rest (hc ▸ ok_ne_error _ _), hc, ok_bind, hpack, ok_bind]
      exact hr

end Strings

/-- A file that begins with another one, mapped anywhere. -/
structure Extends (m m' : Image) : Prop where
  target : m'.target = m.target
  bytes : m.bytes <+: m'.bytes

section Contents

variable {m m' : Image} (h : Extends m m')

include h

theorem Extends.cls : m'.cls = m.cls :=
  congrArg Target.cls h.target

theorem Extends.size_le : m.size ≤ m'.size :=
  h.bytes.length_le

theorem Extends.ptrAdd_eq (p k : Nat) : m'.ptrAdd p k = m.ptrAdd p k := by
  unfold Image.ptrAdd
  rw [h.cls]

theorem Extends.header_eq (t : SectionTable) (i : Nat) : t.header m' i = t.header m i := by
  unfold SectionTable.header
  rw [h.ptrAdd_eq, h.cls]

/-- The memory behind a pointer goes on where it ended. -/
theorem Extends.tail_eq (p : Nat) : ∃ rest, m'.tail p = m.tail p ++ rest := by
  rcases h.bytes with ⟨rest, hrest⟩
  unfold Image.tail
  rw [← hrest]
  exact ⟨rest.drop (p - m.bytes.length), List.drop_append⟩

/-- What is inside the shorter file is the same in both. -/
theorem Extends.value_eq {p : Nat} {f : Field} (hhas : m.Has p f) : m'.value p f = m.value p f := by
  rcases h.tail_eq (m.ptrAdd p f.off) with ⟨rest, hrest⟩
  unfold Image.Has Image.size at hhas
  unfold Image.value
  -- The member ends inside the shorter file, so taking it does not reach the rest.
  rw [h.target, h.ptrAdd_eq, hrest, List.take_append_of_le_length]
  unfold Image.tail
  rw [List.length_drop]
  omega

theorem Extends.load (p : Nat) (f : Field) : Agree (m.load p f) (m'.load p f) := by
  intro v v' hv hv'
  rcases (Image.load_eq_ok p f v).mp hv with ⟨hhas, rfl⟩
  rcases (Image.load_eq_ok p f v').mp hv' with ⟨_, rfl⟩
  exact (h.value_eq hhas).symm

theorem Extends.nameVersion (p : Nat) : Agree (nameVersion m p) (nameVersion m' p) := by
  intro r r' hr hr'
  rcases h.tail_eq p with ⟨rest, hrest⟩
  rw [nameVersion_eq] at hr hr'
  rw [hrest, stringVersion_append_of_ok rest hr] at hr'
  exact Except.ok.inj hr'

theorem Extends.strncmpEq (p : Nat) (lit : List UInt8) :
    Agree (strncmpEq (m.tail p) lit) (strncmpEq (m'.tail p) lit) := by
  intro b b' hb hb'
  rcases h.tail_eq p with ⟨rest, hrest⟩
  rw [hrest, strncmpEq_append_of_ne rest (hb ▸ ok_ne_error _ _), hb] at hb'
  exact Except.ok.inj hb'

end Contents

section Passes

variable {m m' : Image} (h : Extends m m')

include h

theorem Extends.verdauxStep (stringTable : Nat) (s : Nat × Found) :
    Agree (verdauxStep m stringTable s) (verdauxStep m' stringTable s) := by
  refine (h.load _ _).bind fun name _ _ => ?_
  rw [h.ptrAdd_eq]
  refine Agree.require ((h.nameVersion _).bind fun version _ _ => ?_)
  refine (h.load _ _).bind fun next _ _ => ?_
  rw [h.ptrAdd_eq]
  exact Agree.refl _

theorem Extends.verdefBody (t : SectionTable) (i verdef : Nat) (found : Found) :
    Agree (verdefBody m t i verdef found) (verdefBody m' t i verdef found) := by
  unfold AuditLibstdcxx.verdefBody
  rw [h.cls]
  refine (h.load _ _).bind fun aux _ _ => ?_
  rw [h.ptrAdd_eq, h.header_eq]
  refine Agree.require ((h.load _ _).bind fun offset _ _ => Agree.require ?_)
  refine (h.load _ _).bind fun link _ _ => ?_
  rw [h.header_eq]
  refine (h.load _ _).bind fun stringTableOffset _ _ => ?_
  rw [h.ptrAdd_eq]
  refine (h.load _ _).bind fun cnt _ _ => ?_
  exact (Agree.countedLoop (h.verdauxStep _) cnt _).bind fun r _ _ => Agree.refl _

end Passes

section Guard

variable {m m' : Image} {t : SectionTable} {i base p : Nat}

/-- The address of a pointer into a file of some length, where there is room
    for it. -/
theorem addr_eq_of_room {size : Nat} (hroom : m.mapped + size < 2 ^ m.cls.wordBits)
    (hp : p % 2 ^ m.cls.wordBits ≤ size) : m.addr p = m.mapped + p % 2 ^ m.cls.wordBits := by
  unfold Image.addr
  rw [← Nat.add_mod_mod, Nat.mod_eq_of_lt (by omega)]

/-- A definition that is read is inside the file. -/
theorem inside_of_guard (hnull : sizeofVerdef ≤ m.mapped) (hguard : m.addr base ≤ m.addr p)
    (hbase : base ≤ m.size) (haux : m.Has p vdAux) : p % 2 ^ m.cls.wordBits ≤ m.size := by
  have hmod : m.addr p = (m.mapped + p % 2 ^ m.cls.wordBits) % 2 ^ m.cls.wordBits :=
    (Nat.add_mod_mod _ _ _).symm
  have hfits := m.fits
  rw [Image.addr_eq hbase, hmod] at hguard
  unfold Image.Has Image.ptrAdd vdAux at haux
  unfold sizeofVerdef at hnull
  unfold Image.size at *
  -- A pointer that wraps to its `vd_aux` has an address below that of the file.
  cases hcls : m.cls with
  | elf32 =>
      simp only [hcls, ElfClass.wordBits] at *
      omega
  | elf64 =>
      simp only [hcls, ElfClass.wordBits] at *
      omega

/-- What a pass does at a definition that is not inside the file: it leaves the
    loop with what was found. -/
theorem verdefStep_outside (hnull : sizeofVerdef ≤ m.mapped) (hbase : base ≤ m.size)
    {s : Nat × Found} (hout : ¬ s.1 % 2 ^ m.cls.wordBits ≤ m.size) {r : (Nat × Found) ⊕ Found}
    (hr : verdefStep m t i base s = .ok r) : r = .inr s.2 := by
  have hno : InSection m t i base s.1 → VerdefPasses m t i s.1 → False := fun hguard hpasses =>
    hout (inside_of_guard hnull hguard.above hbase hpasses.aux)
  cases r with
  | inl s' =>
      have hcontinues := ((verdefStep_continues_iff base s s').mp hr).1
      exact absurd (hno hcontinues.guard hcontinues.passes) id
  | inr found =>
      -- Three ways lead out of the loop, and only the last one reads a definition.
      rcases (verdefStep_leaves_iff base s found).mp hr with
        ⟨_, hfound⟩ | ⟨_, _, _, hfound⟩ | ⟨hguard, hpasses, _⟩
      · rw [hfound]
      · rw [hfound]
      · exact absurd (hno hguard hpasses) id

end Guard

/-- Two mappings that can be compared: neither is at the very bottom of the
    address space, and where the shorter file is there is room for the longer. -/
structure Placed (m m' : Image) : Prop where
  short : sizeofVerdef ≤ m.mapped
  long : sizeofVerdef ≤ m'.mapped
  room : m.mapped + m'.size < 2 ^ m.cls.wordBits

section Walk

variable {m m' : Image} (h : Extends m m') (hplaced : Placed m m')

include h hplaced

/-- Inside the longer file the guard of the loop is the same in both mappings. -/
theorem Extends.guard_eq {base p : Nat} (hbase : base ≤ m.size)
    (hp : p % 2 ^ m.cls.wordBits ≤ m'.size) :
    (m'.addr base ≤ m'.addr p ↔ m.addr base ≤ m.addr p) ∧
      m'.distance p base = m.distance p base := by
  have hfits : m'.mapped + m'.size < 2 ^ m'.cls.wordBits := m'.fits
  have hsize := h.size_le
  have haddr := addr_eq_of_room hplaced.room hp
  have haddr' := addr_eq_of_room hfits (by rw [h.cls]; exact hp)
  have hbase' := Image.addr_eq (hbase.trans hsize)
  unfold Image.distance
  rw [haddr, haddr', Image.addr_eq hbase, hbase', h.cls]
  refine ⟨by omega, ?_⟩
  rw [Nat.add_sub_add_left, Nat.add_sub_add_left]

theorem Extends.verdefStep (t : SectionTable) (i : Nat) {base : Nat} (hbase : base ≤ m.size)
    (s : Nat × Found) : Agree (verdefStep m t i base s) (verdefStep m' t i base s) := by
  have hsize := h.size_le
  by_cases hin : s.1 % 2 ^ m.cls.wordBits ≤ m'.size
  -- Inside the longer file both passes take the same branches.
  · rcases h.guard_eq hplaced hbase hin with ⟨habove, hdistance⟩
    unfold AuditLibstdcxx.verdefStep
    rw [h.header_eq, h.cls, hdistance]
    by_cases hguard : m.addr base ≤ m.addr s.1
    · rw [if_neg (not_not_intro hguard), if_neg (not_not_intro (habove.mpr hguard))]
      refine (h.load _ _).bind fun size _ _ => ?_
      by_cases hwithin : m.distance s.1 base < size
      · rw [if_neg (not_not_intro hwithin), if_neg (not_not_intro hwithin)]
        refine (h.verdefBody t i s.1 s.2).bind fun found _ _ => ?_
        refine (h.load _ _).bind fun next _ _ => ?_
        rw [h.ptrAdd_eq]
        exact Agree.refl _
      · rw [if_pos hwithin, if_pos hwithin]
        exact Agree.refl _
    · rw [if_pos hguard, if_pos (fun hc => hguard (habove.mp hc))]
      exact Agree.refl _
  · -- A definition outside both files is read in neither.
    intro r r' hr hr'
    have hout : ¬ s.1 % 2 ^ m'.cls.wordBits ≤ m'.size := by
      rw [h.cls]
      exact hin
    rw [verdefStep_outside hplaced.short hbase (by omega) hr,
      verdefStep_outside hplaced.long (by omega) hout hr']

theorem Extends.sectionStep (t : SectionTable) (fuel fuel' : Nat) (s : Nat × Found) :
    Agree (sectionStep m t fuel s) (sectionStep m' t fuel' s) := by
  unfold AuditLibstdcxx.sectionStep
  rw [h.cls, h.header_eq]
  refine (h.load _ _).bind fun name _ _ => Agree.require ?_
  rw [h.ptrAdd_eq]
  refine (h.strncmpEq _ _).bind fun b _ _ => ?_
  cases b with
  | false => exact Agree.refl _
  | true =>
      simp only [if_true]
      refine (h.load _ _).bind fun offset _ _ => ?_
      refine Agree.bind (fun _ _ _ _ => rfl) fun _ hinside _ => ?_
      -- The section begins inside the shorter file.
      have hoffset := (require_eq_ok _ _).mp hinside
      have hbase := Nat.mod_le (0 + offset) (2 ^ m.cls.wordBits)
      rw [h.ptrAdd_eq]
      refine Agree.bind (Agree.whileLoop (fun s => h.verdefStep hplaced t _ ?_ s) _ _ _)
        fun found _ _ => Agree.refl _
      unfold Image.ptrAdd
      omega

omit hplaced in
theorem Extends.readHeader : Agree (readHeader m) (readHeader m') := by
  unfold AuditLibstdcxx.readHeader
  rw [h.cls]
  refine (h.load _ _).bind fun shoff _ _ => Agree.require ?_
  refine (h.load _ _).bind fun shstrndx _ _ => Agree.require ?_
  refine (h.load _ _).bind fun shnum _ _ => Agree.require ?_
  simp only [h.ptrAdd_eq]
  refine (h.load _ _).bind fun namesOffset _ _ => Agree.require (Agree.require ?_)
  exact (h.load _ _).bind fun namesSize _ _ => Agree.require (Agree.refl _)

theorem Extends.scanImage (fuel fuel' out : Nat) :
    Agree (scanImage fuel m out) (scanImage fuel' m' out) := by
  unfold AuditLibstdcxx.scanImage
  refine Agree.bind (h.load 0 eiMag) fun _ hmag _ => ?_
  -- The identification is inside the shorter file as soon as it was read.
  have helf : m'.IsElf ↔ m.IsElf := by
    rcases h.bytes with ⟨rest, hrest⟩
    have hlen : 4 ≤ m.bytes.length := ((Image.load_eq_ok _ _ _).mp hmag).1
    unfold Image.IsElf
    rw [← hrest, List.take_append_of_le_length hlen]
  by_cases hc : m.IsElf
  · rw [if_neg (not_not_intro hc), if_neg (not_not_intro (helf.mpr hc))]
    refine Agree.bind (h.load 0 eiClass) fun _ hclass _ => ?_
    have hnative : m'.IsNative ↔ m.IsNative := by
      unfold Image.IsNative
      rw [h.cls, h.value_eq ((Image.load_eq_ok _ _ _).mp hclass).1]
    by_cases hn : m.IsNative
    · rw [if_neg (not_not_intro hn), if_neg (not_not_intro (hnative.mpr hn))]
      refine h.readHeader.bind fun t _ _ => ?_
      exact (Agree.countedLoop (h.sectionStep hplaced t fuel fuel') _ _).bind fun _ _ _ =>
        Agree.refl _
    · rw [if_pos hn, if_pos fun hc => hn (hnative.mp hc)]
      exact Agree.refl _
  · rw [if_pos hc, if_pos fun hc' => hc (helf.mp hc')]
    exact Agree.refl _

end Walk

/-- An answer is known by its error code and its value. -/
theorem Reading.eq_of_result {x y : Reading} (herror : x.error = y.error)
    (hvalue : x.value 0 = y.value 0) : x = y := by
  cases x with
  | version v =>
      cases y with
      | version u => exact congrArg Reading.version hvalue
      | unreadable => cases herror
      | otherClass => cases herror
  | unreadable =>
      cases y with
      | version u => cases herror
      | unreadable => rfl
      | otherClass => cases herror
  | otherClass =>
      cases y with
      | version u => cases herror
      | unreadable => cases herror
      | otherClass => rfl

/-- The reader comes to the same answer in both. -/
theorem Extends.reads_unique {m m' : Image} (h : Extends m m') (hplaced : Placed m m')
    {x y : Reading} (hx : Reads (.mapped m) x) (hy : Reads (.mapped m') y) : x = y := by
  rcases hx.yields 0 0 with ⟨calls, fuel, hfuel⟩
  rcases hy.yields 0 0 with ⟨calls', fuel', hfuel'⟩
  have hscan := ((getLibstdcxxVersion_eq_ok _ _ _ _).mp hfuel).1
  have hscan' := ((getLibstdcxxVersion_eq_ok _ _ _ _).mp hfuel').1
  have hsame := Prod.mk.inj (h.scanImage hplaced fuel fuel' 0 _ _ hscan hscan')
  exact Reading.eq_of_result hsame.1 hsame.2

/-- A file and any file that begins with it, mapped at any two places: where the
    reader comes to its end on both, it hands back the same error and leaves the
    same version, whatever fuel and descriptors it has. -/
theorem getLibstdcxxVersion_unique {m m' : Image} (h : Extends m m') (hplaced : Placed m m')
    (fuel fuel' fd fd' out : Nat) (r r' : VersionResult)
    (hr : getLibstdcxxVersion fuel fd (.mapped m) out = .ok r)
    (hr' : getLibstdcxxVersion fuel' fd' (.mapped m') out = .ok r') :
    r.error = r'.error ∧ r.glibcxxVersion = r'.glibcxxVersion := by
  have hscan := ((getLibstdcxxVersion_eq_ok _ _ _ _).mp hr).1
  have hscan' := ((getLibstdcxxVersion_eq_ok _ _ _ _).mp hr').1
  exact Prod.mk.inj (h.scanImage hplaced fuel fuel' out _ _ hscan hscan')

section Sample

/-- The sample library with the newer one appended, mapped somewhere else. -/
def appendedLibrary : Image where
  target := ⟨.elf32, false⟩
  mapped := 0x30000
  bytes := sampleBytes 19 1 ++ sampleBytes 31 1
  nonempty := by decide +kernel
  fits := by decide +kernel
  offT := by decide +kernel

/-- What was appended is not found. -/
theorem appendedLibrary_version : ∃ r, getLibstdcxxVersion 1 3 (.mapped appendedLibrary) 0 = .ok r ∧
    r.glibcxxVersion = 0x030400 := by
  have hscan : ∀ m ∈ [sampleLibrary false, appendedLibrary],
      scanImage 1 m 0 = .ok (.success, 0x030400) := by
    decide +kernel
  have hextends : Extends (sampleLibrary false) appendedLibrary :=
    ⟨rfl, List.prefix_append (sampleBytes 19 1) (sampleBytes 31 1)⟩
  have hplaced : Placed (sampleLibrary false) appendedLibrary :=
    ⟨by decide +kernel, by decide +kernel, by decide +kernel⟩
  have hreturns : ∀ m ∈ [sampleLibrary false, appendedLibrary],
      ∃ r, getLibstdcxxVersion 1 3 (.mapped m) 0 = .ok r ∧ r.error = .success ∧
        r.glibcxxVersion = 0x030400 := fun m hm =>
    ⟨⟨_, _, _⟩, (getLibstdcxxVersion_eq_ok 1 3 0 _).mpr ⟨hscan m hm, rfl⟩, rfl, rfl⟩
  rcases hreturns (sampleLibrary false) (by simp) with ⟨r, hr, _, hversion⟩
  rcases hreturns appendedLibrary (by simp) with ⟨r', hr', _⟩
  have hsame := getLibstdcxxVersion_unique hextends hplaced 1 1 3 3 0 r r' hr hr'
  exact ⟨r', hr', hsame.2.symm.trans hversion⟩

end Sample

end AuditLibstdcxx
