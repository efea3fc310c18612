import AuditLibstdcxx.Theory.ElfTools

/-!
# Sections Nobody Asked For

To find one section by its name, pyelftools makes an object of every section,
and gives up on the file at the first that cannot be made. What an object needs
depends on the type of its section: a symbol table its string table, a hash
table its symbol table and the arrays it announces, a compressed section of any
type the header of the compressed data. `Builds` collects these conditions in
terms of the headers of the file.

A `versym` section needs the object of the section it is linked to, of whatever
type, so `Builds` is a recursion along the links of such sections. It says that
an object is made with some limit on how deep the recursion may go.

## Main definitions

* `Named`, `Inflatable`, `StrtabAt`, `SymtabAt`: What objects need of headers.
* `Fits`: What the object of a section needs, apart from a linked object.
* `Builds`: The object of a section can be made.

## Theorems

* `makeSectionByType_returns_iff`: What each type of section needs.
* `getSection_returns_iff`: When an object is made.
* `exists_getSection_returns_iff`: When it is made with some limit.
-/

namespace AuditLibstdcxx

namespace ElfTools

open Checked Exceptions Record

section Headers

variable (f : ElfFile)

/-- Section header `n` is there. -/
def HeaderAt (n : Nat) (header : Container) : Prop :=
  f.getSectionHeader n = .ok (some header)

/-- Seeking gets to the name of a section. -/
def Named (header : Container) : Prop :=
  ∃ stringtable, f.stringtable = some stringtable ∧
    stringtable.get .shOffset + header.get .shName ≤ f.stream.maxOffset

/-- A structure is in the file. -/
def InFile (l : Layout Member) (pos : Nat) : Prop :=
  pos ≤ f.stream.maxOffset ∧ size l ≤ (f.stream.bytes.drop pos).length

/-- Compressed data has its header in the file. -/
def Inflatable (header : Container) : Prop :=
  header.get .shFlags &&& shfCompressed ≠ 0 → InFile f (elfChdr f.elfclass) (header.get .shOffset)

/-- Section `n` can be used as a string table. -/
structure StrtabAt (n : Nat) (header : Container) : Prop where
  there : HeaderAt f n header
  isStrtab : f.shType header = .strtab
  named : Named f header
  inflatable : Inflatable f header

/-- A symbol table has its string table, and is made of whole entries. -/
structure SymbolTableFits (header : Container) : Prop where
  strings : ∃ stringtable, StrtabAt f (header.get .shLink) stringtable
  inflatable : Inflatable f header
  sized : 0 < header.get .shEntsize
  whole : header.get .shSize % header.get .shEntsize = 0

/-- Section `n` can be used as a symbol table. -/
structure SymtabAt (n : Nat) (header : Container) : Prop where
  there : HeaderAt f n header
  isSymtab : f.shType header = .symtab ∨ f.shType header = .dynsym
  named : Named f header
  fits : SymbolTableFits f header

/-- A dynamic section is linked to its strings, or to a section that stands in
    for them where debug information was split off. -/
structure DynamicFits (header : Container) : Prop where
  inflatable : Inflatable f header
  linked : ∃ linked, HeaderAt f (header.get .shLink) linked ∧
    (f.shType linked = .strtab ∨ f.shType linked = .nobits) ∧ Named f linked ∧ Inflatable f linked

/-- The arrays of a hash table are in the file. -/
structure ElfHashFits (header : Container) : Prop where
  symtab : ∃ symtab, SymtabAt f (header.get .shLink) symtab
  inflatable : Inflatable f header
  arrays : ∃ params, f.parse elfHash (header.get .shOffset) = .ok params ∧
    Returns (parseArray f.stream (header.get .shOffset + size elfHash)
      (params.get .nbuckets + params.get .nchains) 4)

/-- So are those of the other kind of hash table. -/
structure GnuHashFits (header : Container) : Prop where
  symtab : ∃ symtab, SymtabAt f (header.get .shLink) symtab
  inflatable : Inflatable f header
  arrays : ∃ params, f.parse gnuHash (header.get .shOffset) = .ok params ∧
    Returns (parseArray f.stream (header.get .shOffset + size gnuHash) (params.get .bloomSize)
      (xwordSize f.elfclass)) ∧
    Returns (parseArray f.stream (header.get .shOffset + size gnuHash +
      params.get .bloomSize * xwordSize f.elfclass) (params.get .nbuckets) 4)

/-- What the object of a section needs, apart from its name and, in a `versym`
    section, from the object it is linked to. -/
def Fits (header : Container) : Prop :=
  match f.shType header with
  | .symtab | .dynsym | .sunwLdynsym => SymbolTableFits f header
  | .sunwSyminfo => (∃ symtab, SymtabAt f (header.get .shLink) symtab) ∧ Inflatable f header
  | .gnuVerneed | .gnuVerdef =>
    (∃ stringtable, StrtabAt f (header.get .shLink) stringtable) ∧ Inflatable f header
  | .rel => Inflatable f header ∧ header.get .shEntsize = size (elfRel f.elfclass)
  | .rela => Inflatable f header ∧ header.get .shEntsize = size (elfRela f.elfclass)
  | .relr => Inflatable f header ∧ header.get .shEntsize = size (elfRelr f.elfclass)
  | .dynamic => DynamicFits f header
  | .armAttributes | .riscvAttributes =>
    Inflatable f header ∧ f.stream.bytes[header.get .shOffset]? = some 'A'.toUInt8
  | .hash => ElfHashFits f header
  | .gnuHash => GnuHashFits f header
  | .gnuVersym | .null | .progbits | .strtab | .note | .nobits | .symtabShndx | .other _ =>
    Inflatable f header

/-- The object of section `n` can be made. -/
inductive Builds : Nat → Prop
  | mk {n : Nat} {header : Container} (there : HeaderAt f n header) (named : Named f header)
      (fits : Fits f header)
      (linked : f.shType header = .gnuVersym → Builds (header.get .shLink)) : Builds n

variable {f}

theorem parse_returns_iff {l : Layout Member} {pos : Nat} :
    Returns (f.parse l pos) ↔ InFile f l pos :=
  structParse_returns_iff

theorem elfAssert_returns_iff {cond : Prop} [Decidable cond] :
    Returns (elfAssert cond) ↔ cond := by
  unfold elfAssert
  by_cases h : cond
  · simp [h]
  · simp [h]

theorem initSection_returns_iff {header : Container} :
    Returns (f.initSection header) ↔ Inflatable f header := by
  unfold ElfFile.initSection Inflatable
  by_cases hflag : header.get .shFlags &&& shfCompressed ≠ 0
  · rw [if_pos hflag, returns_bind_const, parse_returns_iff]
    simp [hflag]
  · rw [if_neg hflag]
    exact iff_of_true (returns_ok ()) fun h => absurd h hflag

theorem getSectionName_returns_iff {header : Container} :
    Returns (f.getSectionName header) ↔ Named f header := by
  unfold ElfFile.getSectionName Named
  cases f.stringtable with
  | none => simp
  | some stringtable => simp [getString_returns_iff]

/-- A header that is looked up, and what is done with it when it is there. -/
theorem header_bind_returns_iff {α : Type} {n : Nat} {e : PyException}
    {k : Container → Except PyException α} :
    Returns (do
      match ← f.getSectionHeader n with
      | none => .error e
      | some header => k header) ↔ ∃ header, HeaderAt f n header ∧ Returns (k header) := by
  unfold HeaderAt
  rw [returns_bind]
  constructor
  · rintro ⟨header, hheader, hk⟩
    cases header with
    | none => exact absurd hk (not_returns_error e)
    | some header => exact ⟨header, hheader, hk⟩
  · rintro ⟨header, hheader, hk⟩
    exact ⟨some header, hheader, hk⟩

theorem getLinkedStrtabSection_returns_iff {n : Nat} :
    Returns (f.getLinkedStrtabSection n) ↔ ∃ header, StrtabAt f n header := by
  refine header_bind_returns_iff.trans (exists_congr fun header => ?_)
  by_cases htype : f.shType header = .strtab
  · rw [if_neg (not_not.mpr htype), returns_bind_const, returns_bind_const,
      getSectionName_returns_iff, initSection_returns_iff]
    exact ⟨fun h => ⟨h.1, htype, h.2.1, h.2.2.1⟩,
      fun h => ⟨h.there, h.named, h.inflatable, returns_pure header⟩⟩
  · rw [if_pos htype]
    exact iff_of_false (fun h => not_returns_error _ h.2) (fun h => htype h.isStrtab)

/-- The string table that is made is the one that is there. -/
theorem getLinkedStrtabSection_eq_ok {n : Nat} {header : Container}
    (h : f.getLinkedStrtabSection n = .ok header) : HeaderAt f n header := by
  rcases (bind_eq_ok _ _ _).mp h with ⟨found, hfound, hrest⟩
  cases found with
  | none => cases hrest
  | some found =>
      by_cases htype : f.shType found = .strtab
      · simp only [htype, ne_eq, not_true_eq_false, if_false] at hrest
        rcases (bind_eq_ok _ _ _).mp hrest with ⟨_, _, hinit⟩
        rcases (bind_eq_ok _ _ _).mp hinit with ⟨_, _, hreturn⟩
        rw [← Except.ok.inj hreturn]
        exact hfound
      · simp only [ne_eq, htype, not_false_eq_true, if_true] at hrest
        cases hrest

theorem makeSymbolTableSection_returns_iff {header : Container} :
    Returns (f.makeSymbolTableSection header) ↔ SymbolTableFits f header := by
  unfold ElfFile.makeSymbolTableSection
  rw [returns_bind_const, returns_bind_const, returns_bind_const,
    getLinkedStrtabSection_returns_iff, initSection_returns_iff, elfAssert_returns_iff,
    elfAssert_returns_iff]
  exact ⟨fun h => ⟨h.1, h.2.1, h.2.2.1, h.2.2.2⟩,
    fun h => ⟨h.strings, h.inflatable, h.sized, h.whole⟩⟩

theorem getLinkedSymtabSection_returns_iff {n : Nat} :
    Returns (f.getLinkedSymtabSection n) ↔ ∃ header, SymtabAt f n header := by
  refine header_bind_returns_iff.trans (exists_congr fun header => ?_)
  by_cases htype : f.shType header = .symtab ∨ f.shType header = .dynsym
  · rw [if_neg (by rwa [← not_or, not_not]), returns_bind_const, getSectionName_returns_iff,
      makeSymbolTableSection_returns_iff]
    exact ⟨fun h => ⟨h.1, htype, h.2.1, h.2.2⟩, fun h => ⟨h.there, h.named, h.fits⟩⟩
  · rw [if_pos (not_or.mp htype)]
    exact iff_of_false (fun h => not_returns_error _ h.2) (fun h => htype h.isSymtab)

theorem makeDynamicSection_returns_iff {header : Container} :
    Returns (f.makeDynamicSection header) ↔ DynamicFits f header := by
  have hlinked : Returns (do
      match ← f.getSectionHeader (header.get .shLink) with
      | none => .error .attributeError
      | some linked =>
        if f.shType linked ≠ .strtab ∧ f.shType linked ≠ .nobits then .error .elfError
        else do
          let _ ← f.getSectionName linked
          f.initSection linked) ↔ ∃ linked, HeaderAt f (header.get .shLink) linked ∧
      (f.shType linked = .strtab ∨ f.shType linked = .nobits) ∧ Named f linked ∧
        Inflatable f linked := by
    refine header_bind_returns_iff.trans (exists_congr fun linked => and_congr_right fun _ => ?_)
    by_cases htype : f.shType linked = .strtab ∨ f.shType linked = .nobits
    · rw [if_neg (by rwa [← not_or, not_not]), returns_bind_const, getSectionName_returns_iff,
        initSection_returns_iff, and_iff_right htype]
    · rw [if_pos (not_or.mp htype)]
      exact iff_of_false (not_returns_error _) (fun h => htype h.1)
  unfold ElfFile.makeDynamicSection
  rw [returns_bind_const, initSection_returns_iff]
  exact ⟨fun h => ⟨h.1, hlinked.mp h.2⟩, fun h => ⟨h.inflatable, hlinked.mpr h.linked⟩⟩

theorem makeRelocationSection_returns_iff {entry : Layout Member} {header : Container} :
    Returns (f.makeRelocationSection entry header) ↔
      Inflatable f header ∧ header.get .shEntsize = size entry := by
  unfold ElfFile.makeRelocationSection
  rw [returns_bind_const, initSection_returns_iff, elfAssert_returns_iff]

/-- The one byte in front of an attributes section. -/
theorem get_formatVersion {pos : Nat} {fv : Container}
    (h : f.parse attributesVersion pos = .ok fv) :
    ∃ b, f.stream.bytes[pos]? = some b ∧ fv.get .formatVersion = b.toNat := by
  have hroom : 1 ≤ (f.stream.bytes.drop pos).length := (parse_returns_iff.mp ⟨fv, h⟩).2
  rw [List.length_drop] at hroom
  have hlookup := lookup_parse (structParse_eq_ok h) (k := .formatVersion) (by decide)
  refine ⟨f.stream.bytes[pos], List.getElem?_eq_getElem (by omega), ?_⟩
  unfold Container.get
  rw [hlookup, show offset attributesVersion .formatVersion = 0 from rfl, List.drop_zero,
    List.drop_eq_getElem_cons (by omega)]
  -- A single byte is the same in both byte orders.
  cases f.bigEndian <;> rfl

theorem makeAttributesSection_returns_iff {header : Container} :
    Returns (f.makeAttributesSection header) ↔
      Inflatable f header ∧ f.stream.bytes[header.get .shOffset]? = some 'A'.toUInt8 := by
  unfold ElfFile.makeAttributesSection
  rw [returns_bind_const, returns_bind, initSection_returns_iff]
  refine and_congr_right fun _ => ?_
  simp only [elfAssert_returns_iff]
  constructor
  · rintro ⟨fv, hfv, hversion⟩
    rcases get_formatVersion hfv with ⟨b, hb, hvalue⟩
    have hletter : b.toNat = 'A'.toUInt8.toNat := hvalue.symm.trans hversion
    rw [hb, UInt8.toNat_inj.mp hletter]
  · intro hbyte
    have hlt := (List.getElem?_eq_some_iff.mp hbyte).1
    rcases exists_structParse f.stream f.bigEndian attributesVersion (header.get .shOffset) hlt with
      ⟨fv, hfv⟩
    rcases get_formatVersion hfv with ⟨b, hb, hvalue⟩
    rw [hb, Option.some.injEq] at hbyte
    exact ⟨fv, hfv, by rw [hvalue, hbyte]; rfl⟩

theorem makeElfHashSection_returns_iff {header : Container} :
    Returns (f.makeElfHashSection header) ↔ ElfHashFits f header := by
  unfold ElfFile.makeElfHashSection
  rw [returns_bind_const, returns_bind_const, returns_bind, getLinkedSymtabSection_returns_iff,
    initSection_returns_iff]
  exact ⟨fun h => ⟨h.1, h.2.1, h.2.2⟩, fun h => ⟨h.symtab, h.inflatable, h.arrays⟩⟩

theorem makeGnuHashSection_returns_iff {header : Container} :
    Returns (f.makeGnuHashSection header) ↔ GnuHashFits f header := by
  unfold ElfFile.makeGnuHashSection
  rw [returns_bind_const, returns_bind_const, returns_bind, getLinkedSymtabSection_returns_iff,
    initSection_returns_iff]
  simp only [returns_bind_const]
  exact ⟨fun h => ⟨h.1, h.2.1, h.2.2⟩, fun h => ⟨h.symtab, h.inflatable, h.arrays⟩⟩

theorem makeVersionSection_returns_iff {kind : ElfFile.VersionKind} {header : Container} :
    Returns (f.makeVersionSection kind header) ↔
      (∃ stringtable, StrtabAt f (header.get .shLink) stringtable) ∧ Inflatable f header := by
  rw [← getLinkedStrtabSection_returns_iff, ← initSection_returns_iff]
  refine returns_bind_of_iff fun stringtable => ?_
  rw [returns_bind_const, and_iff_left (returns_pure _)]

/-- What the object of a section needs, by the type of the section. -/
theorem makeSectionByType_returns_iff {getLinked : Nat → Except PyException Unit}
    {header : Container} : Returns (f.makeSectionByType getLinked header) ↔ Fits f header ∧
      (f.shType header = .gnuVersym → Returns (getLinked (header.get .shLink))) := by
  unfold ElfFile.makeSectionByType Fits
  cases f.shType header
  all_goals
    simp only [returns_bind_const, makeSymbolTableSection_returns_iff,
      getLinkedSymtabSection_returns_iff, initSection_returns_iff, makeVersionSection_returns_iff,
      makeRelocationSection_returns_iff, makeDynamicSection_returns_iff,
      makeAttributesSection_returns_iff, makeElfHashSection_returns_iff,
      makeGnuHashSection_returns_iff, returns_pure, and_true, reduceCtorEq, false_implies,
      true_implies]
  -- What is left is the one type that needs the object of another section.
  exact and_comm

/-- The object of another section is made as any is, with one call less to go. -/
theorem makeSection_succ (f : ElfFile) (depth : Nat) (header : Container) :
    f.makeSection (depth + 1) header = do
      let name ← f.getSectionName header
      let versions ← f.makeSectionByType (fun n => do let _ ← f.getSection depth n) header
      return ⟨name, versions⟩ := by
  unfold ElfFile.makeSection
  refine congrArg (f.getSectionName header >>= ·) (funext fun name => ?_)
  refine congrArg (fun getLinked => f.makeSectionByType getLinked header >>= _) (funext fun n => ?_)
  unfold ElfFile.getSection
  cases f.getSectionHeader n with
  | error e => rfl
  | ok header =>
      cases header with
      | none => rfl
      | some header => rfl

/-- An object is made when its header is there, and what it needs. -/
theorem getSection_returns_iff {depth n : Nat} : Returns (f.getSection (depth + 1) n) ↔
    ∃ header, HeaderAt f n header ∧ Named f header ∧ Fits f header ∧
      (f.shType header = .gnuVersym → Returns (f.getSection depth (header.get .shLink))) := by
  refine header_bind_returns_iff.trans (exists_congr fun header => and_congr_right fun _ => ?_)
  rw [makeSection_succ, ← getSectionName_returns_iff]
  refine returns_bind_of_iff fun name => ?_
  refine (returns_bind_of_iff fun versions =>
    iff_of_true (returns_pure (ElfFile.Section.mk name versions)) trivial).trans ?_
  rw [and_true, makeSectionByType_returns_iff, returns_bind_const, and_iff_left (returns_pure ())]

/-- An object can be made with some limit. -/
theorem exists_getSection_returns_iff {n : Nat} :
    (∃ depth, Returns (f.getSection depth n)) ↔ Builds f n := by
  constructor
  · rintro ⟨depth, h⟩
    -- With one call less to go, the linked section has a derivation of its own.
    induction depth generalizing n with
    | zero =>
        rcases header_bind_returns_iff.mp h with ⟨header, _, hmake⟩
        exact absurd hmake (not_returns_error _)
    | succ depth ih =>
        rcases getSection_returns_iff.mp h with ⟨header, hthere, hnamed, hfits, hlinked⟩
        exact .mk hthere hnamed hfits fun htype => ih (hlinked htype)
  · intro h
    -- A link of a derivation takes one call more than the section it leads to.
    induction h with
    | @mk n header hthere hnamed hfits _ ih =>
        by_cases htype : f.shType header = .gnuVersym
        · rcases ih htype with ⟨depth, hlinked⟩
          exact ⟨depth + 1, getSection_returns_iff.mpr
            ⟨header, hthere, hnamed, hfits, fun _ => hlinked⟩⟩
        · exact ⟨1, getSection_returns_iff.mpr
            ⟨header, hthere, hnamed, hfits, fun h => absurd h htype⟩⟩

end Headers

end ElfTools

end AuditLibstdcxx
