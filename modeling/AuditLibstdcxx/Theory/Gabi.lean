import AuditLibstdcxx.Theory.Scan

/-!
# The Format the Reader Meets

What the ELF format itself says about the files the reader is given: where a
well-formed file keeps its section headers, its string tables and its version
definitions. Nothing here looks at the reader. Positions are plain byte
offsets into the file, added without wrapping, and an auxiliary entry is
followed by the one `vda_next` *bytes* further on.

`GabiValid` is the specification of a valid file as far as the reader can tell
a difference; the fields of the format nobody reads are left out. Section
headers may be absent altogether, and a file with very many sections keeps
their number and the index of the name table in section header zero.
`WellFormed` is the smaller notion of a file with an ordinary section header
table and everything it names inside the file.

`referenceVersions` is what the version of a library means: the versions named
on the chains of its `.gnu.version_d` sections.

## Main definitions

* `verdefOffset`, `verdauxOffset`: The chains of the format.
* `VersionDefs`: A section holds a chain of version definitions.
* `StringTable`: A section is a string table.
* `GabiValid`: A valid file of the native class.
* `WellFormed`: A file with a section header table, everything inside.
* `referenceVersions`: The versions a file defines.

## Theorems

* `nameReadable_of_terminated`: A terminated name is readable.
* `verdefAt_eq`: On a chain of the format the reader follows the chain.
* `visits_iff`: It goes to the definitions of the chain and to no others.
* `walkPasses_iff`: What is left to check on a chain of the format.
-/

namespace AuditLibstdcxx

open Checked

/-- `SHT_NULL` -/
def shtNull : Nat := 0

/-- `SHT_STRTAB` -/
def shtStrtab : Nat := 3

/-- `SHT_NOBITS` -/
def shtNobits : Nat := 8

/-- `SHT_GNU_verdef` -/
def shtGnuVerdef : Nat := 0x6ffffffd

/-- `SHN_XINDEX` -/
def shnXindex : Nat := 0xffff

section Format

variable (m : Image)

/-- The offset of section header `i`. -/
def headerOffset (i : Nat) : Nat :=
  m.value 0 m.cls.eShoff + i * m.cls.sizeofShdr

/-- The number of section headers. A count that does not fit in `e_shnum` is
    kept in the first header. -/
def sectionCount : Nat :=
  if m.value 0 m.cls.eShnum ≠ 0 then m.value 0 m.cls.eShnum
  else m.value (headerOffset m 0) m.cls.shSize

/-- The index of the section name table. An index that does not fit in
    `e_shstrndx` is kept in the first header. -/
def namesIndex : Nat :=
  if m.value 0 m.cls.eShstrndx ≠ shnXindex then m.value 0 m.cls.eShstrndx
  else m.value (headerOffset m 0) m.cls.shLink

def secOffset (i : Nat) : Nat :=
  m.value (headerOffset m i) m.cls.shOffset

def secSize (i : Nat) : Nat :=
  m.value (headerOffset m i) m.cls.shSize

def secType (i : Nat) : Nat :=
  m.value (headerOffset m i) m.cls.shType

def secLink (i : Nat) : Nat :=
  m.value (headerOffset m i) m.cls.shLink

def secInfo (i : Nat) : Nat :=
  m.value (headerOffset m i) m.cls.shInfo

/-- The offset of the name of section `i`. -/
def secName (i : Nat) : Nat :=
  secOffset m (namesIndex m) + m.value (headerOffset m i) m.cls.shName

/-- Section `i` is a string table: it is empty or ends in a zero byte. -/
structure StringTable (i : Nat) : Prop where
  isStrtab : secType m i = shtStrtab
  inside : secOffset m i + secSize m i ≤ m.size
  terminated : 0 < secSize m i → m.bytes[secOffset m i + secSize m i - 1]? = some 0

/-- The `k`-th version definition of section `i`, by byte offset. -/
def verdefOffset (i k : Nat) : Nat :=
  (fun p => p + m.value p vdNext)^[k] (secOffset m i)

/-- The `l`-th auxiliary entry of the definition at `p`, by byte offset. -/
def verdauxOffset (p l : Nat) : Nat :=
  (fun q => q + m.value q vdaNext)^[l] (p + m.value p vdAux)

/-- Section `i` holds a chain of `n` version definitions, with their auxiliary
    entries in the section and their names in the linked string table. -/
structure VersionDefs (i n : Nat) : Prop where
  link : secLink m i < sectionCount m
  strings : StringTable m (secLink m i)
  empty : n = 0 → secSize m i = 0
  named : ∀ k < n, 0 < m.value (verdefOffset m i k) vdCnt
  definitions : ∀ k < n, verdefOffset m i k + sizeofVerdef ≤ secOffset m i + secSize m i
  more : ∀ k < n, k + 1 < n → m.value (verdefOffset m i k) vdNext ≠ 0
  last : ∀ k < n, k + 1 = n → m.value (verdefOffset m i k) vdNext = 0
  entries : ∀ k < n, ∀ l < m.value (verdefOffset m i k) vdCnt,
    verdauxOffset m (verdefOffset m i k) l + sizeofVerdaux ≤ secOffset m i + secSize m i
  names : ∀ k < n, ∀ l < m.value (verdefOffset m i k) vdCnt,
    m.value (verdauxOffset m (verdefOffset m i k) l) vdaName < secSize m (secLink m i)

/-- Section `i` takes up space in the file: its header is active, and it is
    not one of the sections whose contents are made up at load time. -/
def OccupiesFile (i : Nat) : Prop :=
  secType m i ≠ shtNull ∧ secType m i ≠ shtNobits

/-- A valid ELF file of the native class, as far as the reader can tell. The
    members of an inactive section header are undefined, except in the first
    one. -/
structure GabiValid : Prop where
  header : m.cls.sizeofEhdr ≤ m.size
  elf : m.IsElf
  native : m.IsNative
  noTable : m.value 0 m.cls.eShoff = 0 →
    m.value 0 m.cls.eShnum = 0 ∧ m.value 0 m.cls.eShstrndx = 0
  table : m.value 0 m.cls.eShoff ≠ 0 →
    0 < sectionCount m ∧ headerOffset m (sectionCount m) ≤ m.size
  null : m.value 0 m.cls.eShnum ≠ 0 → secSize m 0 = 0
  sections : m.value 0 m.cls.eShoff ≠ 0 → ∀ i < sectionCount m, OccupiesFile m i →
    secOffset m i + secSize m i ≤ m.size
  namesTable : namesIndex m ≠ 0 → namesIndex m < sectionCount m ∧ StringTable m (namesIndex m)
  names : m.value 0 m.cls.eShoff ≠ 0 → ∀ i < sectionCount m, secType m i ≠ shtNull →
    0 < secSize m (namesIndex m) →
    m.value (headerOffset m i) m.cls.shName < secSize m (namesIndex m)
  versions : m.value 0 m.cls.eShoff ≠ 0 → ∀ i < sectionCount m, secType m i = shtGnuVerdef →
    VersionDefs m i (secInfo m i)

/-- The name of section `i` is exactly `.gnu.version_d`. -/
def IsGnuVersionD (i : Nat) : Prop :=
  (m.tail (secName m i)).take 15 = gnuVersionD ++ [0]

/-- A native file with a section header table and everything the table names
    inside the file. -/
structure WellFormed : Prop where
  header : m.cls.sizeofEhdr ≤ m.size
  elf : m.IsElf
  native : m.IsNative
  table : 0 < m.value 0 m.cls.eShnum ∧ headerOffset m (m.value 0 m.cls.eShnum) ≤ m.size
  namesTable : m.value 0 m.cls.eShstrndx < m.value 0 m.cls.eShnum
  sections : ∀ i < m.value 0 m.cls.eShnum, OccupiesFile m i →
    secOffset m i + secSize m i ≤ m.size
  names : ∀ i < m.value 0 m.cls.eShnum, 0 ∈ m.tail (secName m i)
  versions : ∀ i < m.value 0 m.cls.eShnum, IsGnuVersionD m i →
    OccupiesFile m i ∧ ∃ n, VersionDefs m i n

/-- The chain of section `i` has a `k`-th definition: none before it is the
    last, and it starts in the section. -/
def OnChain (i k : Nat) : Prop :=
  (∀ j < k, m.value (verdefOffset m i j) vdNext ≠ 0) ∧
    verdefOffset m i k < secOffset m i + secSize m i

/-- The versions a file defines: those named on the chains of the sections
    called `.gnu.version_d`. -/
def referenceVersions : Set Nat :=
  {v | ∃ i < m.value 0 m.cls.eShnum, IsGnuVersionD m i ∧
    ∃ k, OnChain m i k ∧ ∃ l < m.value (verdefOffset m i k) vdCnt,
      nameVersion m (secOffset m (secLink m i) +
        m.value (verdauxOffset m (verdefOffset m i k) l) vdaName) = .ok (some v)}

end Format

section Strings

theorem glibcxxPrefix_noZero : 0 ∉ glibcxxPrefix := by
  decide

theorem gnuVersionD_noZero : 0 ∉ gnuVersionD := by
  decide

/-- A name that is terminated inside the file is readable. -/
theorem nameReadable_of_terminated {m : Image} {p : Nat} (h : 0 ∈ m.tail p) :
    NameReadable m p := by
  constructor
  · exact compares_of_terminated (by decide) glibcxxPrefix_noZero h
  · rintro ⟨rest, hrest⟩
    have hbehind : m.tail (p + glibcxxPrefix.length) = rest := Image.tail_add_of_prefix hrest.symm
    rw [← hrest] at h
    -- The terminator is not in the prefix, so it is where the version ends.
    rcases List.mem_append.mp h with hzero | hzero
    · exact absurd hzero glibcxxPrefix_noZero
    · rw [hbehind]
      exact Or.inl ⟨0, hzero, zero_not_isVersionByte⟩

/-- Every string of a non-empty string table is terminated inside the file. -/
theorem StringTable.terminated_at {m : Image} {i : Nat} (h : StringTable m i) {k : Nat}
    (hk : k < secSize m i) : 0 ∈ m.tail (secOffset m i + k) := by
  have hget := h.terminated (by omega)
  rw [List.mem_iff_getElem?]
  refine ⟨secSize m i - 1 - k, ?_⟩
  unfold Image.tail
  rw [List.getElem?_drop, ← hget]
  congr 1
  omega

end Strings

section Layout

variable {m : Image}

theorem sizeofEhdr_fields (c : ElfClass) :
    eiMag.off + eiMag.size ≤ c.sizeofEhdr ∧ eiClass.off + eiClass.size ≤ c.sizeofEhdr ∧
    c.eShoff.off + c.eShoff.size ≤ c.sizeofEhdr ∧ c.eShnum.off + c.eShnum.size ≤ c.sizeofEhdr ∧
    c.eShstrndx.off + c.eShstrndx.size ≤ c.sizeofEhdr := by
  cases c <;> decide

theorem has_ehdr (hheader : m.cls.sizeofEhdr ≤ m.size) (f : Field)
    (hf : f.off + f.size ≤ m.cls.sizeofEhdr) : m.Has 0 f :=
  Image.has_of_le (by omega)

theorem sizeofShdr_fields (c : ElfClass) :
    c.shName.off + c.shName.size ≤ c.sizeofShdr ∧ c.shType.off + c.shType.size ≤ c.sizeofShdr ∧
    c.shOffset.off + c.shOffset.size ≤ c.sizeofShdr ∧
    c.shSize.off + c.shSize.size ≤ c.sizeofShdr ∧
    c.shLink.off + c.shLink.size ≤ c.sizeofShdr ∧
    c.shInfo.off + c.shInfo.size ≤ c.sizeofShdr := by
  cases c <;> decide

theorem headerOffset_succ (i : Nat) :
    headerOffset m (i + 1) = headerOffset m i + m.cls.sizeofShdr := by
  unfold headerOffset
  rw [Nat.succ_mul]
  omega

theorem headerOffset_mono {i n : Nat} (h : i ≤ n) : headerOffset m i ≤ headerOffset m n :=
  Nat.add_le_add_left (Nat.mul_le_mul_right _ h) _

/-- A section header of a table inside the file lies inside the file. -/
theorem headerOffset_le {i n : Nat} (htable : headerOffset m n ≤ m.size) (hi : i < n) :
    headerOffset m i + m.cls.sizeofShdr ≤ m.size := by
  rw [← headerOffset_succ]
  exact Nat.le_trans (headerOffset_mono hi) htable

/-- Inside the file, the reader finds section headers where they are. -/
theorem header_eq {i : Nat} (hi : headerOffset m i ≤ m.size) :
    m.table.header m i = headerOffset m i := by
  have hshoff : m.value 0 m.cls.eShoff ≤ m.size :=
    Nat.le_trans (Nat.le_add_right _ _) hi
  have hshdr : m.ptrAdd 0 (m.value 0 m.cls.eShoff) = m.value 0 m.cls.eShoff := by
    rw [Image.ptrAdd_eq (by omega), Nat.zero_add]
  unfold SectionTable.header Image.table
  simp only [hshdr]
  exact Image.ptrAdd_eq hi

theorem has_header {i n : Nat} (htable : headerOffset m n ≤ m.size) (hi : i < n) (f : Field)
    (hf : f.off + f.size ≤ m.cls.sizeofShdr) : m.Has (headerOffset m i) f := by
  have h := headerOffset_le htable hi
  exact Image.has_of_le (by omega)

/-- So the reader finds the members of section headers in the file. -/
theorem has_tableHeader {i n : Nat} (htable : headerOffset m n ≤ m.size) (hi : i < n) (f : Field)
    (hf : f.off + f.size ≤ m.cls.sizeofShdr) : m.Has (m.table.header m i) f := by
  have hheader := headerOffset_le htable hi
  rw [header_eq (by omega)]
  exact has_header htable hi f hf

theorem namesHeader_eq (hi : headerOffset m (m.value 0 m.cls.eShstrndx) ≤ m.size) :
    namesHeader m = headerOffset m (m.value 0 m.cls.eShstrndx) :=
  header_eq hi

/-- An index below a count of 16 bits is no escape value. -/
theorem namesIndex_eq (h : m.value 0 m.cls.eShstrndx < m.value 0 m.cls.eShnum) :
    namesIndex m = m.value 0 m.cls.eShstrndx := by
  have hlt : m.value 0 m.cls.eShnum < 256 ^ m.cls.eShnum.size := Image.value_lt _ _
  have hsize : m.cls.eShnum.size = 2 := by
    cases m.cls <;> rfl
  have hx : shnXindex = 65535 := rfl
  rw [hsize] at hlt
  unfold namesIndex
  rw [if_pos (by omega)]

/-- With the header and the section headers inside the file, the header checks
    stay inside it. -/
theorem headerReads_of_table (hheader : m.cls.sizeofEhdr ≤ m.size)
    (htable : headerOffset m (m.value 0 m.cls.eShnum) ≤ m.size) : HeaderReads m := by
  have hfields := sizeofEhdr_fields m.cls
  refine ⟨has_ehdr hheader _ hfields.2.2.1, fun _ => ⟨has_ehdr hheader _ hfields.2.2.2.2,
    fun _ => ⟨has_ehdr hheader _ hfields.2.2.2.1, fun hbelow => ?_⟩⟩⟩
  have hnames := headerOffset_le htable hbelow
  rw [namesHeader_eq (by omega)]
  exact ⟨has_header htable hbelow _ (sizeofShdr_fields m.cls).2.2.1,
    fun _ _ => has_header htable hbelow _ (sizeofShdr_fields m.cls).2.2.2.1⟩

/-- The names of sections are where the format has them. -/
theorem sectionName_eq {i : Nat} (htable : headerOffset m (m.value 0 m.cls.eShnum) ≤ m.size)
    (hnames : m.value 0 m.cls.eShstrndx < m.value 0 m.cls.eShnum)
    (hi : i < m.value 0 m.cls.eShnum) (hin : secName m i ≤ m.size) :
    sectionName m m.table i = secName m i := by
  have hheader := headerOffset_le htable hi
  have hnamesHeader := headerOffset_le htable hnames
  unfold secName at hin ⊢
  rw [namesIndex_eq hnames] at hin ⊢
  have hstr : m.table.shstrtab = secOffset m (m.value 0 m.cls.eShstrndx) := by
    unfold Image.table
    simp only
    rw [namesHeader_eq (by omega)]
    change m.ptrAdd 0 (secOffset m _) = _
    rw [Image.ptrAdd_eq (by omega), Nat.zero_add]
  unfold sectionName
  rw [hstr, header_eq (by omega)]
  exact Image.ptrAdd_eq hin

end Layout

section Chain

variable {m : Image} {i n c : Nat}

theorem verdefOffset_succ (k : Nat) : verdefOffset m i (k + 1) =
    verdefOffset m i k + m.value (verdefOffset m i k) vdNext := by
  unfold verdefOffset
  rw [Function.iterate_succ_apply']

theorem secOffset_le_verdefOffset (k : Nat) : secOffset m i ≤ verdefOffset m i k := by
  induction k with
  | zero => exact Nat.le_refl _
  | succ k ih =>
      rw [verdefOffset_succ]
      omega

/-- On a chain of `n` definitions, these are the first `n`. -/
theorem onChain_iff (hdefs : VersionDefs m i n) (k : Nat) : OnChain m i k ↔ k < n := by
  constructor
  · rintro ⟨hmore, hin⟩
    by_contra hge
    have hbase := secOffset_le_verdefOffset (m := m) (i := i) k
    rcases Nat.eq_zero_or_pos n with rfl | hn
    · have hempty := hdefs.empty rfl
      omega
    · exact hmore (n - 1) (by omega) (hdefs.last (n - 1) (by omega) (by omega))
  · intro hk
    have hend := hdefs.definitions k hk
    have hverdef : sizeofVerdef = 20 := rfl
    exact ⟨fun j hj => hdefs.more j (by omega) (by omega), by omega⟩

variable (htable : headerOffset m c ≤ m.size) (hi : i < c)
  (hinside : secOffset m i + secSize m i ≤ m.size) (hdefs : VersionDefs m i n)

include htable hi hinside

theorem verdefBaseOf_eq : verdefBaseOf m m.table i = secOffset m i := by
  have hheader := headerOffset_le htable hi
  unfold verdefBaseOf
  rw [header_eq (by omega), Image.ptrAdd_eq (by unfold secOffset at hinside; omega), Nat.zero_add]
  rfl

include hdefs

/-- On a chain of the format the reader follows the chain. -/
theorem verdefAt_eq {k : Nat} (hk : k < n) : verdefAt m m.table i k = verdefOffset m i k := by
  induction k with
  | zero => exact verdefBaseOf_eq htable hi hinside
  | succ k ih =>
      have hend := hdefs.definitions (k + 1) hk
      have hprev := ih (by omega)
      unfold verdefAt at hprev ⊢
      rw [Function.iterate_succ_apply', hprev]
      unfold verdefNext
      rw [verdefOffset_succ] at hend ⊢
      exact Image.ptrAdd_eq (by omega)

/-- The definitions of a chain lie in the section, as the reader's guard has it. -/
theorem inSection_of_chain {k : Nat} (hk : k < n) :
    InSection m m.table i (verdefBaseOf m m.table i) (verdefAt m m.table i k) := by
  have hend := hdefs.definitions k hk
  have hbase := secOffset_le_verdefOffset (m := m) (i := i) k
  have hheader := headerOffset_le htable hi
  have hverdef : 0 < sizeofVerdef := by decide
  rw [verdefBaseOf_eq htable hi hinside, verdefAt_eq htable hi hinside hdefs hk]
  have haddrBase : m.addr (secOffset m i) = m.mapped + secOffset m i :=
    Image.addr_eq (by omega)
  have haddr : m.addr (verdefOffset m i k) = m.mapped + verdefOffset m i k :=
    Image.addr_eq (by omega)
  have hsmall : m.size < 2 ^ (m.cls.wordBits - 1) := m.offT
  refine ⟨by omega, has_tableHeader htable hi _ (sizeofShdr_fields m.cls).2.2.2.1, ?_⟩
  · unfold Image.distance
    rw [header_eq (by omega), haddr, haddrBase, if_pos (by omega)]
    change _ < secSize m i
    omega

/-- What is left to check in a definition of a chain: the entries the reader
    goes to. -/
theorem verdefPasses_of_chain {k : Nat} (hk : k < n) (hlink : secLink m i < c)
    (hentries : ∀ l < m.value (verdefOffset m i k) vdCnt,
      AuxPasses m (stringTableOf m m.table i) (auxAt m (verdefOffset m i k) l)) :
    VerdefPasses m m.table i (verdefOffset m i k) := by
  have hend := hdefs.definitions k hk
  have hbase := secOffset_le_verdefOffset (m := m) (i := i) k
  have hheader := headerOffset_le htable hi
  have hlinkHeader := headerOffset_le htable hlink
  have hfirst := hdefs.entries k hk 0 (hdefs.named k hk)
  have hverdef : sizeofVerdef = 20 := rfl
  have hverdaux : sizeofVerdaux = 8 := rfl
  change verdefOffset m i k + m.value (verdefOffset m i k) vdAux + sizeofVerdaux ≤ _ at hfirst
  have hstrings : stringTableHeader m m.table i = headerOffset m (secLink m i) := by
    unfold stringTableHeader
    rw [header_eq (i := i) (by omega)]
    exact header_eq (by change headerOffset m (secLink m i) ≤ _; omega)
  refine ⟨⟨?_, ?_, ?_, ?_, ?_, ?_, ?_, hentries⟩, ?_⟩
  · exact Image.has_of_le (by simp only [vdAux]; omega)
  · unfold verdefAux
    rw [Image.ptrAdd_eq (by omega)]
    exact Image.addr_lt_endAddr (by omega)
  · exact has_tableHeader htable hi _ (sizeofShdr_fields m.cls).2.2.1
  · rw [header_eq (by omega)]
    change secOffset m i < m.size
    omega
  · exact has_tableHeader htable hi _ (sizeofShdr_fields m.cls).2.2.2.2.1
  · rw [hstrings]
    exact has_header htable hlink _ (sizeofShdr_fields m.cls).2.2.1
  · exact Image.has_of_le (by simp only [vdCnt]; omega)
  · exact Image.has_of_le (by simp only [vdNext]; omega)

omit hinside in
/-- The string table of a chain is where the format has it. -/
theorem stringTableOf_eq (hlink : secLink m i < c) :
    stringTableOf m m.table i = secOffset m (secLink m i) := by
  have hheader := headerOffset_le htable hi
  have hlinkHeader := headerOffset_le htable hlink
  have hstrings := hdefs.strings.inside
  unfold stringTableOf stringTableHeader
  rw [header_eq (i := i) (by omega)]
  change m.ptrAdd 0 (m.value (m.table.header m (secLink m i)) _) = _
  rw [header_eq (by omega)]
  change m.ptrAdd 0 (secOffset m (secLink m i)) = _
  rw [Image.ptrAdd_eq (by omega), Nat.zero_add]

omit htable hi in
/-- The first entry of a definition is where the format has it. -/
theorem auxAt_first {k : Nat} (hk : k < n) :
    auxAt m (verdefOffset m i k) 0 = verdauxOffset m (verdefOffset m i k) 0 := by
  have hfirst := hdefs.entries k hk 0 (hdefs.named k hk)
  change m.ptrAdd _ _ = verdefOffset m i k + m.value (verdefOffset m i k) vdAux
  change verdefOffset m i k + m.value (verdefOffset m i k) vdAux + sizeofVerdaux ≤ _ at hfirst
  exact Image.ptrAdd_eq (by omega)

omit htable hi in
/-- So is its name. -/
theorem auxName_first {k : Nat} (hk : k < n) :
    auxName m (secOffset m (secLink m i)) (auxAt m (verdefOffset m i k) 0) =
      secOffset m (secLink m i) + m.value (verdauxOffset m (verdefOffset m i k) 0) vdaName := by
  have hname := hdefs.names k hk 0 (hdefs.named k hk)
  have hstrings := hdefs.strings.inside
  rw [auxAt_first hinside hdefs hk]
  exact Image.ptrAdd_eq (by omega)

/-- The reader gets through the first entry of a definition. -/
theorem auxPasses_first {k : Nat} (hk : k < n) (hlink : secLink m i < c) :
    AuxPasses m (stringTableOf m m.table i) (auxAt m (verdefOffset m i k) 0) := by
  have hfirst := hdefs.entries k hk 0 (hdefs.named k hk)
  have hname := hdefs.names k hk 0 (hdefs.named k hk)
  have hstrings := hdefs.strings.inside
  have hverdaux : sizeofVerdaux = 8 := rfl
  have hptr := auxName_first hinside hdefs hk
  rw [auxAt_first hinside hdefs hk] at hptr
  rw [auxAt_first hinside hdefs hk, stringTableOf_eq htable hi hdefs hlink]
  refine ⟨?_, ?_, ?_, ?_⟩
  · exact Image.has_of_le (by simp only [vdaName]; omega)
  · rw [hptr]
    exact Image.addr_lt_endAddr (by omega)
  · rw [hptr]
    exact nameReadable_of_terminated (hdefs.strings.terminated_at hname)
  · exact Image.has_of_le (by simp only [vdaNext]; omega)

/-- A definition of a chain that has one after it leads the reader there. -/
theorem continues_of_chain {k : Nat} (hk : k + 1 < n)
    (hpasses : VerdefPasses m m.table i (verdefOffset m i k)) :
    Continues m m.table i (verdefBaseOf m m.table i) (verdefAt m m.table i k) := by
  have hat := verdefAt_eq htable hi hinside hdefs (show k < n by omega)
  refine ⟨inSection_of_chain htable hi hinside hdefs (by omega), ?_, ?_⟩
  · rwa [hat]
  · rw [hat]
    exact hdefs.more k (by omega) hk

/-- The reader goes to no more definitions than the chain has. -/
theorem lt_of_visits {k : Nat} (hvisits : Visits m m.table i k)
    (hin : InSection m m.table i (verdefBaseOf m m.table i) (verdefAt m m.table i k)) : k < n := by
  by_contra hge
  rcases Nat.eq_zero_or_pos n with rfl | hn
  · -- The section of an empty chain is empty, so no definition lies in it.
    have hguard : InSection m m.table i (verdefBaseOf m m.table i) (verdefAt m m.table i 0) := by
      rcases Nat.eq_zero_or_pos k with rfl | hk
      · exact hin
      · exact (hvisits 0 hk).guard
    have hwithin := hguard.within
    have hheader := headerOffset_le htable hi
    rw [header_eq (by omega)] at hwithin
    change _ < secSize m i at hwithin
    rw [hdefs.empty rfl] at hwithin
    exact Nat.not_lt_zero _ hwithin
  · have hmore := (hvisits (n - 1) (by omega)).more
    rw [verdefAt_eq htable hi hinside hdefs (by omega)] at hmore
    exact hmore (hdefs.last (n - 1) (by omega) (by omega))

section Entries

variable (hlink : secLink m i < c)
  (hentries : ∀ k < n, ∀ l, 0 < l → l < m.value (verdefOffset m i k) vdCnt →
    AuxPasses m (stringTableOf m m.table i) (auxAt m (verdefOffset m i k) l))

include hlink hentries

/-- With the later entries in place, the reader gets through a definition of a
    chain. -/
theorem verdefPasses_of_entries {k : Nat} (hk : k < n) :
    VerdefPasses m m.table i (verdefOffset m i k) := by
  refine verdefPasses_of_chain htable hi hinside hdefs hk hlink fun l hl => ?_
  rcases Nat.eq_zero_or_pos l with rfl | hpos
  · exact auxPasses_first htable hi hinside hdefs hk hlink
  · exact hentries k hk l hpos hl

/-- With the later entries in place, the reader goes to the definitions of the
    chain and to no others. -/
theorem visits_iff (k : Nat) : (Visits m m.table i k ∧
    InSection m m.table i (verdefBaseOf m m.table i) (verdefAt m m.table i k)) ↔ k < n := by
  constructor
  · rintro ⟨hvisits, hin⟩
    exact lt_of_visits htable hi hinside hdefs hvisits hin
  · intro hk
    refine ⟨fun j hj => ?_, inSection_of_chain htable hi hinside hdefs hk⟩
    exact continues_of_chain htable hi hinside hdefs (by omega)
      (verdefPasses_of_entries htable hi hinside hdefs hlink hentries (by omega))

end Entries

/-- On a chain of the format, the entries the reader goes to after the first
    are all that is left to check. -/
theorem walkPasses_iff (hlink : secLink m i < c) : WalkPasses m m.table i ↔
    ∀ k < n, ∀ l, 0 < l → l < m.value (verdefOffset m i k) vdCnt →
      AuxPasses m (stringTableOf m m.table i) (auxAt m (verdefOffset m i k) l) := by
  constructor
  · rintro ⟨K, hvisits, hleaves⟩ k hk l _ hl
    -- A definition of the chain is left only at its `vd_next`, so `K` is not before `k`.
    have hpasses : VerdefPasses m m.table i (verdefOffset m i k) := by
      rcases Nat.lt_or_ge k K with hlt | hge
      · have h := (hvisits k hlt).passes
        rwa [verdefAt_eq htable hi hinside hdefs hk] at h
      · have hK : K < n := by omega
        have hin := inSection_of_chain htable hi hinside hdefs hK
        rcases hleaves with habove | ⟨_, hwithin⟩ | ⟨_, hpasses, hzero⟩
        · exact absurd hin.above habove
        · exact absurd hin.within hwithin
        · rw [verdefAt_eq htable hi hinside hdefs hK] at hzero hpasses
          have hlast : ¬ K + 1 < n := fun h => hdefs.more K hK h hzero
          rwa [show k = K by omega]
    exact hpasses.entries l hl
  · intro hentries
    rcases Nat.eq_zero_or_pos n with rfl | hn
    · -- An empty chain: the section is empty, so the guard fails at once.
      have hheader := headerOffset_le htable hi
      refine ⟨0, fun j hj => absurd hj (Nat.not_lt_zero j), Or.inr (Or.inl ⟨?_, ?_⟩)⟩
      · exact has_tableHeader htable hi _ (sizeofShdr_fields m.cls).2.2.2.1
      · rw [header_eq (by omega)]
        change ¬ _ < secSize m i
        rw [hdefs.empty rfl]
        exact Nat.not_lt_zero _
    · have hlast := (visits_iff htable hi hinside hdefs hlink hentries (n - 1)).mpr (by omega)
      refine ⟨n - 1, hlast.1, Or.inr (Or.inr ⟨hlast.2, ?_, ?_⟩)⟩
      · rw [verdefAt_eq htable hi hinside hdefs (by omega)]
        exact verdefPasses_of_entries htable hi hinside hdefs hlink hentries (by omega)
      · rw [verdefAt_eq htable hi hinside hdefs (by omega)]
        exact hdefs.last (n - 1) (by omega) (by omega)

end Chain

end AuditLibstdcxx
