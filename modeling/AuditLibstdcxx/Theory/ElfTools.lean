import AuditLibstdcxx.Core.ElfFile
import AuditLibstdcxx.Lib.CString
import AuditLibstdcxx.Theory.Gabi
import AuditLibstdcxx.Theory.Selectors

/-!
# What pyelftools Reads

The structures and strings that pyelftools takes off a file, in terms of the
bytes of the file. A structure is read exactly when seeking gets there and all
of it is in the file, and then its members are the numbers the C library finds
at the same places. A string is read up to its terminator, in chunks that make
no difference; where there is no terminator, it is empty.

So the Python side can compare a name with ASCII text exactly as the C side
does: replacement characters, which stand for what does not decode, are never
ASCII.

## Main definitions

* `Stores`: A member of a structure is what the C library has at some place.
* `stringAt`: The string a run of bytes begins with.

## Theorems

* `structParse_returns_iff`: When a structure is read.
* `get_eq_value`: The two sides find the same numbers.
* `readChunks_eq`: Strings are read whole.
* `stringAt_eq_iff`: Comparing a string with ASCII text.
* `stringVersion_append`: The C side reads no further than the terminator.
-/

namespace AuditLibstdcxx

open Checked Exceptions

namespace ElfTools

open Record CString

section Streams

variable {s : Stream} {pos : Nat}

theorem Stream.seek_returns_iff : Returns (s.seek pos) ↔ pos ≤ s.maxOffset := by
  unfold Stream.seek
  by_cases hpos : pos ≤ s.maxOffset
  · simp [hpos]
  · rw [if_neg hpos]
    refine iff_of_false ?_ hpos
    by_cases hlarge : pos < 2 ^ 63
    · rw [if_pos hlarge]
      exact not_returns_error _
    · rw [if_neg hlarge]
      exact not_returns_error _

end Streams

section Structures

variable {s : Stream} {bigEndian : Bool} {l : Layout Member} {pos : Nat} {c : Container}

/-- A structure is read when seeking gets there and all of it is in the file. -/
theorem structParse_returns_iff :
    Returns (structParse s bigEndian l pos) ↔
      pos ≤ s.maxOffset ∧ size l ≤ (s.bytes.drop pos).length := by
  unfold structParse
  rw [returns_bind, ← Stream.seek_returns_iff]
  have hparse := parse_eq_none_iff (decode bigEndian) l (s.bytes.drop pos)
  constructor
  · rintro ⟨_, hseek, hrest⟩
    refine ⟨⟨_, hseek⟩, ?_⟩
    by_contra hshort
    rw [hparse.mpr (by omega)] at hrest
    exact not_returns_error _ hrest
  · rintro ⟨⟨_, hseek⟩, hroom⟩
    rcases exists_parse (decode bigEndian) hroom with ⟨members, hmembers⟩
    refine ⟨_, hseek, ?_⟩
    rw [hmembers]
    exact returns_ok _

/-- A structure in the file is read. -/
theorem exists_structParse (s : Stream) (bigEndian : Bool) (l : Layout Member) (pos : Nat)
    (h : pos + size l ≤ s.len) :
    ∃ c, structParse s bigEndian l pos = .ok c := by
  have hfits := s.fits
  unfold Stream.len at h
  refine structParse_returns_iff.mpr ⟨by omega, ?_⟩
  rw [List.length_drop]
  omega

/-- What a structure that was read holds. -/
theorem structParse_eq_ok (h : structParse s bigEndian l pos = .ok c) :
    parse (decode bigEndian) l (s.bytes.drop pos) = some c.members := by
  unfold structParse at h
  rcases (bind_eq_ok _ _ _).mp h with ⟨_, _, hrest⟩
  cases hparse : parse (decode bigEndian) l (s.bytes.drop pos) with
  | none =>
      rw [hparse] at hrest
      cases hrest
  | some members =>
      rw [hparse] at hrest
      rw [← Except.ok.inj hrest]

/-- A member of a structure is what the C library has at some place of its own
    structure. -/
def Stores (l : Layout Member) (k : Member) (f : Field) : Prop :=
  k ∈ l.map Prod.fst ∧ offset l k = f.off ∧ width l k = f.size

instance (l : Layout Member) (k : Member) (f : Field) : Decidable (Stores l k f) :=
  inferInstanceAs (Decidable (_ ∧ _ ∧ _))

/-- The two sides find the same numbers. -/
theorem get_eq_value {m : Image} (hbytes : s.bytes = m.bytes)
    (h : structParse s m.target.bigEndian l pos = .ok c) {k : Member} {f : Field}
    (hk : Stores l k f) (hpos : pos ≤ m.size) : c.get k = m.value pos f := by
  rcases hk with ⟨hmem, hoffset, hwidth⟩
  -- The whole structure is in the file, so the pointer arithmetic does not wrap.
  have hparse := structParse_eq_ok h
  have hroom : size l ≤ (s.bytes.drop pos).length := (structParse_returns_iff.mp ⟨c, h⟩).2
  have hinside := offset_add_width_le hmem
  rw [hbytes, List.length_drop] at hroom
  change size l ≤ m.size - pos at hroom
  unfold Container.get Image.value Image.tail
  rw [lookup_parse hparse hmem, Image.ptrAdd_eq (by omega), hbytes, List.drop_drop, hoffset, hwidth]
  rfl

theorem stores_ehdr (cls : ElfClass) : size (elfEhdr cls) = cls.sizeofEhdr ∧
    Stores (elfEhdr cls) .eShoff cls.eShoff ∧ Stores (elfEhdr cls) .eShnum cls.eShnum ∧
    Stores (elfEhdr cls) .eShstrndx cls.eShstrndx := by
  cases cls <;> decide

theorem stores_shdr (cls : ElfClass) : size (elfShdr cls) = cls.sizeofShdr ∧
    Stores (elfShdr cls) .shName cls.shName ∧ Stores (elfShdr cls) .shType cls.shType ∧
    Stores (elfShdr cls) .shOffset cls.shOffset ∧ Stores (elfShdr cls) .shSize cls.shSize ∧
    Stores (elfShdr cls) .shLink cls.shLink ∧ Stores (elfShdr cls) .shInfo cls.shInfo := by
  cases cls <;> decide

theorem stores_verdef : size elfVerdef = sizeofVerdef ∧ Stores elfVerdef .vdCnt vdCnt ∧
    Stores elfVerdef .vdAux vdAux ∧ Stores elfVerdef .vdNext vdNext := by
  decide

theorem stores_verdaux : size elfVerdaux = sizeofVerdaux ∧ Stores elfVerdaux .vdaName vdaName ∧
    Stores elfVerdaux .vdaNext vdaNext := by
  decide

end Structures

section Strings

/-- A text is that of any part from its start on that reaches its terminator. -/
theorem text_take {data : List UInt8} {n : Nat} (h : 0 ∈ data.take n) :
    text (data.take n) = text data := by
  rcases List.eq_append_cons_of_mem h with ⟨str, junk, hsplit, hstr⟩
  have hdata : data = str ++ 0 :: (junk ++ data.drop n) := by
    rw [← List.cons_append, ← List.append_assoc, ← hsplit, List.take_append_drop]
  rw [hsplit, text_append hstr]
  rw [hdata, text_append hstr]

/-- What is in front of the terminator may be read first. -/
theorem text_of_noZero_append {front : List UInt8} (hfront : 0 ∉ front) (behind : List UInt8) :
    text (front ++ behind) = front ++ text behind :=
  List.takeWhile_append_of_pos (ne_zero_of_noZero hfront)

/-- Strings are read whole, and only where they are terminated. -/
theorem readChunks_eq (n : Nat) (data chunks : List UInt8) (hn : data.length / chunkSize < n) :
    readChunks n data chunks = if 0 ∈ data then some (chunks ++ text data) else none := by
  have hsize : chunkSize = 64 := rfl
  induction n generalizing data chunks with
  | zero => exact absurd hn (Nat.not_lt_zero _)
  | succ n ih =>
      have hsplit := List.take_append_drop chunkSize data
      unfold readChunks
      by_cases hchunk : 0 ∈ data.take chunkSize
      -- The terminator is in this chunk.
      · have hdata : 0 ∈ data := List.mem_of_mem_take hchunk
        rw [if_pos hchunk, if_pos hdata, ← text_take hchunk]
        rfl
      · have hmem : 0 ∈ data ↔ 0 ∈ data.drop chunkSize := by
          conv_lhs => rw [← hsplit]
          rw [List.mem_append, or_iff_right hchunk]
        have htext : text data = data.take chunkSize ++ text (data.drop chunkSize) := by
          conv_lhs => rw [← hsplit]
          exact text_of_noZero_append hchunk _
        have hlen : (data.take chunkSize).length = min chunkSize data.length :=
          List.length_take
        rw [if_neg hchunk]
        by_cases hshort : (data.take chunkSize).length < chunkSize
        · -- The data ends with this chunk.
          have hend : data.drop chunkSize = [] := List.drop_eq_nil_of_le (by omega)
          rw [hend] at hmem
          rw [if_pos hshort, if_neg (fun h => List.not_mem_nil (hmem.mp h))]
        -- A full chunk is read, and there is fuel for the rest.
        · have hrest : (data.drop chunkSize).length / chunkSize < n := by
            rw [List.length_drop]
            rw [hsize] at hn hlen hshort ⊢
            omega
          rw [if_neg hshort, ih _ _ hrest, htext, List.append_assoc]
          simp only [hmem]

/-- What is found of a string that seeking gets to. -/
theorem parseCstringFromStream_eq {s : Stream} {pos : Nat} (h : pos ≤ s.maxOffset) :
    parseCstringFromStream s pos =
      .ok (if 0 ∈ s.bytes.drop pos then some (text (s.bytes.drop pos)) else none) := by
  have hseek : s.seek pos = .ok () := if_pos h
  unfold parseCstringFromStream
  rw [hseek, ok_bind]
  exact congrArg Except.ok (readChunks_eq _ _ _ (Nat.lt_succ_self _))

/-- The string a run of bytes begins with. One that is not terminated is empty. -/
def stringAt (data : List UInt8) : PyStr :=
  if 0 ∈ data then Utf8.decode (text data) else []

variable {f : ElfFile} {stringtable : Container} {offset : Nat}

/-- A string that seeking gets to is read, terminated or not. -/
theorem getString_eq (h : stringtable.get .shOffset + offset ≤ f.stream.maxOffset) :
    f.getString stringtable offset =
      .ok (stringAt (f.stream.bytes.drop (stringtable.get .shOffset + offset))) := by
  unfold ElfFile.getString stringAt
  rw [parseCstringFromStream_eq h]
  by_cases hzero : 0 ∈ f.stream.bytes.drop (stringtable.get .shOffset + offset)
  · rw [if_pos hzero, if_pos hzero]
    rfl
  · rw [if_neg hzero, if_neg hzero]
    rfl

theorem getString_returns_iff : Returns (f.getString stringtable offset) ↔
    stringtable.get .shOffset + offset ≤ f.stream.maxOffset := by
  constructor
  · rintro ⟨name, hname⟩
    rcases (bind_eq_ok _ _ _).mp hname with ⟨str, hstr, _⟩
    rcases (bind_eq_ok _ _ _).mp hstr with ⟨_, hseek, _⟩
    exact Stream.seek_returns_iff.mp ⟨_, hseek⟩
  · exact fun h => ⟨_, getString_eq h⟩

/-- The bytes of ASCII text are those that decode to it. -/
theorem decode_eq_iff {lit : List Char} (hlit : Ascii lit) (bytes : List UInt8) :
    Utf8.decode bytes = lit ↔ bytes = lit.map Char.toUInt8 := by
  constructor
  · intro h
    have hnat := Utf8.eq_of_decode_ascii bytes (h ▸ hlit)
    rw [h] at hnat
    refine (List.map_injective_iff.mpr fun _ _ => UInt8.toNat_inj.mp) ?_
    rw [← hnat, List.map_map]
    exact (List.map_congr_left fun c hc => toNat_toUInt8 (hlit c hc)).symm
  · rintro rfl
    rw [Utf8.decode_ascii, List.map_map]
    · refine (List.map_congr_left fun c hc => ?_).trans (List.map_id lit)
      rw [Function.comp_apply, toNat_toUInt8 (hlit c hc)]
      exact Char.ofNat_toNat c
    · intro b hb
      rcases List.mem_map.mp hb with ⟨c, hc, rfl⟩
      rw [toNat_toUInt8 (hlit c hc)]
      exact hlit c hc

/-- Comparing a string with ASCII text is comparing C strings. -/
theorem stringAt_eq_iff {lit : List Char} (hlit : Ascii lit) (hzero : '\x00' ∉ lit)
    (hne : lit ≠ []) (data : List UInt8) : stringAt data = lit ↔ cString lit <+: data := by
  -- The text has no null character, so its own terminator is the first.
  have hbytes : 0 ∉ lit.map Char.toUInt8 := by
    intro h
    rcases List.mem_map.mp h with ⟨c, hc, hc0⟩
    have hnul : c = '\x00' := (toUInt8_eq_iff (hlit c hc) (by decide)).mp hc0
    exact hzero (hnul ▸ hc)
  unfold stringAt cString
  constructor
  · intro h
    by_cases hdata : 0 ∈ data
    · rw [if_pos hdata, decode_eq_iff hlit] at h
      rcases List.eq_append_cons_of_mem hdata with ⟨str, junk, rfl, hstr⟩
      rw [text_append hstr] at h
      exact ⟨junk, by rw [h, List.append_assoc, List.singleton_append]⟩
    · rw [if_neg hdata] at h
      exact absurd h.symm hne
  · rintro ⟨junk, rfl⟩
    rw [List.append_assoc, List.singleton_append, if_pos (by simp), text_append hbytes]
    exact (decode_eq_iff hlit _).mpr rfl

end Strings

end ElfTools

section Terminated

/-- A comparison that has an answer has it whatever is behind the string. -/
theorem strncmpEq_append_of_ne {str : List UInt8} (rest : List UInt8) : ∀ {lit : List UInt8},
    strncmpEq str lit ≠ .error .outOfRange → strncmpEq (str ++ rest) lit = strncmpEq str lit := by
  induction str with
  | nil =>
      intro lit h
      cases lit with
      | nil => cases rest <;> rfl
      | cons l ls => exact absurd rfl h
  | cons c cs ih =>
      intro lit h
      cases lit with
      | nil => rfl
      | cons l ls =>
          rw [List.cons_append]
          simp only [strncmpEq] at h ⊢
          by_cases hc : c = l
          · rw [if_pos hc] at h ⊢
            rw [if_pos hc, ih h]
          · rw [if_neg hc, if_neg hc]

/-- So does the encoder. -/
theorem scanVersion_append_of_ne {str : List UInt8} (rest : List UInt8) :
    ∀ {c : MajorMinorRevision} {v : Fin 3}, scanVersion c v str ≠ .error .outOfRange →
      scanVersion c v (str ++ rest) = scanVersion c v str := by
  induction str with
  | nil => exact fun h => absurd rfl h
  | cons x xs ih =>
      intro c v h
      rw [List.cons_append]
      simp only [scanVersion] at h ⊢
      split_ifs at h ⊢
      · rfl
      · exact ih h
      · exact ih h
      · rfl

/-- The C side reads no further than the terminator. -/
theorem stringVersion_append {str : List UInt8} (hstr : 0 ∈ str) (rest : List UInt8) :
    stringVersion (str ++ rest) = stringVersion str := by
  -- The terminator is met before the end, in the comparison and in the digits.
  have hcompare : strncmpEq str glibcxxPrefix ≠ .error .outOfRange :=
    strncmpEq_of_terminated _ _ glibcxxPrefix_noZero hstr
  unfold stringVersion
  rw [strncmpEq_append_of_ne rest hcompare]
  cases h : strncmpEq str glibcxxPrefix with
  | error e => rfl
  | ok b =>
      cases b with
      | false => rfl
      | true =>
          rcases prefix_of_strncmpEq _ _ h with ⟨suffix, rfl⟩
          have hsuffix : 0 ∈ suffix :=
            (List.mem_append.mp hstr).resolve_left glibcxxPrefix_noZero
          have hlen : glibcxxPrefix.length = 8 := rfl
          simp only [ok_bind, if_true, List.append_assoc, List.drop_left' hlen]
          unfold versionStringToInt
          rw [scanVersion_append_of_ne rest (scanVersion_of_terminated hsuffix _ _)]

end Terminated

end AuditLibstdcxx
