import AuditLibstdcxx.Core.DtPath

/-!
# A Run Path as a List of Paths

What the search through a run path amounts to. The string is a list of
sections separated by colons; each section that is not empty gives one path;
and the paths are tried in order. Which buffer a path is built in, and how the
cursor gets from one section to the next, does not show.

`tryPaths` is that search on a list of paths. It still asks for a buffer for
each path and gives it back at the end, since these are calls on the caller's
state, but it builds nothing and compares no characters.
`findLibstdcxxFromDtPath_eq` says that the function is `tryPaths` on the
paths of its sections, for every callback and however the allocations go.

## Main definitions

* `sections`: The sections of a run path that are not empty.
* `expand`: The path a section stands for.
* `Area`: A buffer without its contents.
* `tryPaths`: Trying a list of paths.
* `DtPathResult.view`: A result of the function, seen as one of the search.

## Theorems

* `lenSection_spec`: A section ends at a colon or at the end.
* `buildFromSection_spec`, `buildFromOrigin_spec`: A path is built as it should.
* `dtPathStep_section`: A pass of the loop tries one path.
* `findLibstdcxxFromDtPath_eq`: The function tries the paths of its sections.
-/

namespace AuditLibstdcxx

open Checked CString

section Sections

/-- The sections of a run path that are not empty. -/
def sections (dtPath : List UInt8) : List (List UInt8) :=
  (dtPath.splitOn ':'.toUInt8).filter (· ≠ [])

/-- The path a section stands for: `ORIGIN` in place of a leading `$ORIGIN`,
    and the name of the library below. -/
def expand (origin sec : List UInt8) : Path :=
  (if originToken <+: sec then origin ++ sec.drop 7 else sec) ++ libstdcxxRelPath

theorem sections_nil : sections [] = [] :=
  rfl

theorem sections_colon (rest : List UInt8) : sections (':'.toUInt8 :: rest) = sections rest := by
  -- A leading colon splits off an empty section, which does not count.
  have h := List.splitOn_append_cons_self_of_not_mem
    (show ':'.toUInt8 ∉ ([] : List UInt8) from List.not_mem_nil) rest
  rw [List.nil_append] at h
  unfold sections
  rw [h, List.filter_cons, if_neg (by decide)]

/-- A section that is not empty comes first, whatever is behind it. -/
theorem sections_append {sec : List UInt8} (hne : sec ≠ []) (hcolon : ':'.toUInt8 ∉ sec)
    {rest : List UInt8} (hrest : rest = [] ∨ ∃ r, rest = ':'.toUInt8 :: r) :
    sections (sec ++ rest) = sec :: sections (rest.drop 1) := by
  unfold sections
  rcases hrest with rfl | ⟨r, rfl⟩
  · rw [List.append_nil, List.splitOn_eq_singleton hcolon, List.filter_cons,
      if_pos (decide_eq_true hne)]
    rfl
  · rw [List.splitOn_append_cons_self_of_not_mem hcolon, List.filter_cons,
      if_pos (decide_eq_true hne)]
    rfl

/-- A section ends at a colon or at the end of the string. -/
theorem lenSection_spec : ∀ (text : List UInt8), 0 ∉ text →
    ∃ sec rest, text = sec ++ rest ∧ lenSection text = sec.length ∧ ':'.toUInt8 ∉ sec ∧
      (rest = [] ∨ ∃ r, rest = ':'.toUInt8 :: r) := by
  intro text
  induction text with
  | nil => exact fun _ => ⟨[], [], rfl, rfl, List.not_mem_nil, Or.inl rfl⟩
  | cons c cs ih =>
      intro hzero
      have hc : c ≠ 0 := fun h => hzero (h ▸ List.mem_cons_self)
      -- The section goes on up to the first colon.
      by_cases hcolon : c = ':'.toUInt8
      · refine ⟨[], c :: cs, rfl, ?_, List.not_mem_nil, Or.inr ⟨cs, by rw [hcolon]⟩⟩
        simp only [lenSection, hcolon, ne_eq, not_true_eq_false, false_and, if_false,
          List.length_nil]
      · rcases ih (fun h => hzero (List.mem_cons_of_mem _ h)) with
          ⟨sec, rest, htext, hlen, hsec, hrest⟩
        refine ⟨c :: sec, rest, by rw [htext, List.cons_append], ?_, ?_, hrest⟩
        · simp only [lenSection, hcolon, hc, ne_eq, not_false_eq_true, and_self, if_true,
            List.length_cons, hlen]
        · intro h
          rcases List.mem_cons.mp h with h0 | h0
          · exact hcolon h0.symm
          · exact hsec h0

end Sections

section Build

variable {w : Nat} {bytes sec rest origin : List UInt8}

theorem libstdcxxRelPath_noZero : 0 ∉ libstdcxxRelPath := by
  decide

theorem length_libstdcxxRelPath : libstdcxxRelPath.length = lenLibstdcxxRelPath := by
  decide

/-- The last call of both ways to build a path: the name of the library and a
    terminator at the end of the buffer. -/
theorem append_relPath {s : List UInt8} (h : Holds bytes s)
    (hfit : s.length + lenLibstdcxxRelPath + 1 ≤ bytes.length) {n : Nat}
    (hn : lenLibstdcxxRelPath ≤ n) :
    ∃ bytes', (strncat bytes libstdcxxRelPath n >>= fun b => storeNul b (bytes.length - 1)) =
        .ok bytes' ∧
      Holds bytes' (s ++ libstdcxxRelPath) ∧ bytes'.length = bytes.length := by
  have hrel := length_libstdcxxRelPath
  have htake : libstdcxxRelPath.take n = libstdcxxRelPath := List.take_of_length_le (by omega)
  have hroom : s.length + (libstdcxxRelPath.take n).length < bytes.length := by
    rw [htake]
    omega
  rcases h.append libstdcxxRelPath_noZero n hroom with ⟨b, hb, hholds, hlen⟩
  rw [htake] at hholds
  exact ⟨b, hb, hholds, hlen⟩

/-- The first calls of both ways: a string and a terminator at the end, put
    into a buffer that is emptied before. -/
theorem start_spec (bytes : List UInt8) {src s : List UInt8} {n : Nat} (hsrc : 0 ∉ src)
    (htake : src.take n = s) (hfit : s.length + 1 ≤ bytes.length) :
    ∃ b bytes', storeNul bytes 0 = .ok b ∧
      (strncat b src n >>= fun b => storeNul b (bytes.length - 1)) = .ok bytes' ∧
      Holds bytes' s ∧ bytes'.length = bytes.length := by
  have hpos : 0 < bytes.length := by omega
  rcases storeNul_first hpos with ⟨b, hb, hempty, hblen⟩
  have hroom : ([] : List UInt8).length + (src.take n).length < b.length := by
    rw [htake, List.length_nil]
    omega
  rcases hempty.append hsrc n hroom with ⟨bytes', hbytes, hholds, hlen⟩
  rw [htake, List.nil_append] at hholds
  rw [hblen] at hbytes
  exact ⟨b, bytes', hb, hbytes, hholds, hlen.trans hblen⟩

/-- A path built from a section is the section with the name of the library. -/
theorem buildFromSection_spec (hsec : 0 ∉ sec ++ rest) (hlen : bytes.length < 2 ^ w)
    (hfit : sec.length + lenLibstdcxxRelPath + 1 ≤ bytes.length) :
    ∃ bytes', buildFromSection w bytes (sec ++ rest) sec.length = .ok bytes' ∧
      Holds bytes' (sec ++ libstdcxxRelPath) ∧ bytes'.length = bytes.length := by
  have hlast : sizeSub w bytes.length 1 = bytes.length - 1 := sizeSub_eq (by omega) hlen
  have htake : (sec ++ rest).take (sizeTMin sec.length (bytes.length - 1)) = sec := by
    rw [sizeTMin_eq, min_eq_left (by omega), List.take_left]
  -- The section first, then the name of the library.
  rcases start_spec bytes hsec htake (by omega) with ⟨b0, b1, hb0, hb1, hholds1, hlen1⟩
  rcases append_relPath hholds1 (by omega) (n := bytes.length - 1 - sec.length) (by omega) with
    ⟨b2, hb2, hholds2, hlen2⟩
  rw [hlen1] at hb2
  refine ⟨b2, ?_, hholds2, hlen2.trans hlen1⟩
  unfold buildFromSection
  simp only [hlast]
  rw [hb0, ok_bind, ← bind_assoc, hb1, ok_bind,
    sizeSub_eq (show sec.length ≤ bytes.length - 1 by omega) (by omega), hb2]

/-- The section may end right behind `$ORIGIN`, and then there is nothing to
    append. -/
theorem appendSection_spec (hholds : Holds bytes origin) (hsec : 0 ∉ sec ++ rest)
    (hlen : bytes.length < 2 ^ w)
    (hfit : origin.length + sec.length + lenLibstdcxxRelPath + 1 ≤ bytes.length) :
    ∃ bytes', appendSection w bytes (sec ++ rest) origin.length sec.length = .ok bytes' ∧
      Holds bytes' (origin ++ sec) ∧ bytes'.length = bytes.length := by
  have hlast : sizeSub w bytes.length 1 = bytes.length - 1 := sizeSub_eq (by omega) hlen
  have hrest : sizeSub w (bytes.length - 1) origin.length = bytes.length - 1 - origin.length :=
    sizeSub_eq (by omega) (by omega)
  have htake : (sec ++ rest).take (sizeTMin sec.length (bytes.length - 1 - origin.length)) =
      sec := by
    rw [sizeTMin_eq, min_eq_left (by omega), List.take_left]
  unfold appendSection
  simp only [hlast, hrest]
  by_cases hpos : sec.length > 0
  · have hroom : origin.length + ((sec ++ rest).take
        (sizeTMin sec.length (bytes.length - 1 - origin.length))).length < bytes.length := by
      rw [htake]
      omega
    rcases hholds.append hsec _ hroom with ⟨b, hb, hbholds, hblen⟩
    rw [htake] at hbholds
    exact ⟨b, by rw [if_pos hpos, hb], hbholds, hblen⟩
  · -- Nothing is left of the section, and the buffer stays as it is.
    have hnil : sec = [] := List.eq_nil_of_length_eq_zero (by omega)
    refine ⟨bytes, by rw [if_neg hpos]; rfl, ?_, rfl⟩
    rw [hnil, List.append_nil]
    exact hholds

/-- A path built from `ORIGIN` is `ORIGIN`, the rest of the section and the
    name of the library. -/
theorem buildFromOrigin_spec (horigin : 0 ∉ origin) (hsec : 0 ∉ sec ++ rest)
    (hlen : bytes.length < 2 ^ w)
    (hfit : origin.length + sec.length + lenLibstdcxxRelPath + 1 ≤ bytes.length) :
    ∃ bytes', buildFromOrigin w bytes origin (sec ++ rest) sec.length = .ok bytes' ∧
      Holds bytes' (origin ++ sec ++ libstdcxxRelPath) ∧ bytes'.length = bytes.length := by
  have hlast : sizeSub w bytes.length 1 = bytes.length - 1 := sizeSub_eq (by omega) hlen
  have htake : origin.take (bytes.length - 1) = origin := List.take_of_length_le (by omega)
  -- `ORIGIN` first, then the rest of the section, then the name of the library.
  rcases start_spec bytes horigin htake (by omega) with
    ⟨b0, b1, hb0, hb1, hholds1, hlen1⟩
  rcases appendSection_spec (w := w) hholds1 hsec (by omega) (by omega) with
    ⟨b2, hb2, hholds2, hlen2⟩
  rcases append_relPath hholds2 (by rw [List.length_append]; omega)
    (n := bytes.length - 1 - origin.length - sec.length) (by omega) with
    ⟨b3, hb3, hholds3, hlen3⟩
  rw [hlen2, hlen1] at hb3
  refine ⟨b3, ?_, hholds3, by omega⟩
  unfold buildFromOrigin
  simp only [hlast]
  rw [hb0, ok_bind, ← bind_assoc, hb1, ok_bind, hb2, ok_bind,
    sizeSub_eq (show origin.length ≤ bytes.length - 1 by omega) (by omega),
    sizeSub_eq (show sec.length ≤ bytes.length - 1 - origin.length by omega) (by omega), hb3]

end Build

section Search

variable {σ : Type} (ops : PathOps σ)

/-- A buffer without its contents: where it is and how long. -/
structure Area where
  addr : Nat
  len : Nat
  deriving DecidableEq, Repr

def PathBuffer.area (b : PathBuffer) : Area :=
  ⟨b.addr, b.len⟩

/-- Giving an area back, if there is one. -/
def releaseArea (area : Option Area) (world : σ) : σ :=
  area.elim world fun a => ops.munmap a.addr a.len world

/-- Getting an area of at least `needed` bytes. -/
def reserveArea (needed : Nat) (area : Option Area) (world : σ) : Option Area × σ :=
  if needed > area.elim 0 Area.len then
    let (addr, world) := ops.mmap needed (releaseArea ops area world)
    (addr.map fun a => ⟨a, needed⟩, world)
  else (area, world)

/-- What a search hands back: its error code, the path it found with the area
    that path is in, and the state it leaves behind. -/
structure Search (σ : Type) where
  error : ErrorCode
  found : Option (Area × Path)
  world : σ

/-- Trying a list of paths, up to the first that is accepted. -/
def tryPaths : List Path → Option Area → σ → Search σ
  | [], area, world => ⟨.fatalError, none, releaseArea ops area world⟩
  | path :: paths, area, world =>
    match reserveArea ops (path.length + 1) area world with
    | (none, world) => ⟨.fatalError, none, world⟩
    | (some area, world) =>
      if (ops.trypath path world).1 = .success then
        ⟨.success, some (area, path), (ops.trypath path world).2⟩
      else tryPaths paths (some area) (ops.trypath path world).2

/-- A result of the function, seen as one of a search. -/
def DtPathResult.view (r : DtPathResult σ) : Search σ :=
  ⟨r.error, r.buffer.map fun b => (b.area, b.path), r.world⟩

variable {ops}

theorem lenPathBuffer_area (buffer : Option PathBuffer) :
    (buffer.map PathBuffer.area).elim 0 Area.len = lenPathBuffer buffer := by
  cases buffer with
  | none => rfl
  | some b => rfl

theorem release_area (buffer : Option PathBuffer) (world : σ) :
    releaseArea ops (buffer.map PathBuffer.area) world = release ops buffer world := by
  cases buffer with
  | none => rfl
  | some b => rfl

/-- Getting a buffer is getting an area. -/
theorem reserve_area (needed : Nat) (buffer : Option PathBuffer) (world : σ) :
    reserveArea ops needed (buffer.map PathBuffer.area) world =
      ((reserve ops needed buffer world).1.map PathBuffer.area,
        (reserve ops needed buffer world).2) := by
  unfold reserveArea reserve
  rw [lenPathBuffer_area, release_area]
  by_cases h : needed > lenPathBuffer buffer
  · simp only [if_pos h, Option.map_map, Prod.mk.injEq, and_true]
    -- The fresh buffer has just the length that was asked for.
    congr 1
    funext a
    simp only [Function.comp_apply, PathBuffer.area, PathBuffer.len, List.length_replicate]
  · simp only [if_neg h]

/-- An area that was got is as long as it has to be, or as it was. -/
theorem reserveArea_len {needed : Nat} {area : Option Area} {world : σ} {a : Area}
    (h : (reserveArea ops needed area world).1 = some a) :
    a.len = max needed (area.elim 0 Area.len) := by
  unfold reserveArea at h
  by_cases hneeded : needed > area.elim 0 Area.len
  · simp only [if_pos hneeded, Option.map_eq_some_iff] at h
    rcases h with ⟨addr, _, rfl⟩
    exact (max_eq_left (Nat.le_of_lt hneeded)).symm
  · simp only [if_neg hneeded] at h
    rw [h] at hneeded ⊢
    exact (max_eq_right (Nat.le_of_not_lt hneeded)).symm

/-- So is a buffer. -/
theorem reserve_len {needed : Nat} {buffer : Option PathBuffer} {world : σ} {b : PathBuffer}
    (h : (reserve ops needed buffer world).1 = some b) :
    b.len = max needed (lenPathBuffer buffer) := by
  have harea : (reserveArea ops needed (buffer.map PathBuffer.area) world).1 = some b.area := by
    rw [reserve_area, h, Option.map_some]
  rw [← lenPathBuffer_area]
  exact reserveArea_len harea

/-- If the mapping that is asked for is granted, there is an area. -/
theorem reserveArea_ne_none {n : Nat} {area : Option Area} {world : σ}
    (hmmap : (ops.mmap (n + 1) (releaseArea ops area world)).1 ≠ none) :
    (reserveArea ops (n + 1) area world).1 ≠ none := by
  unfold reserveArea
  by_cases hneeded : n + 1 > area.elim 0 Area.len
  · rw [if_pos hneeded]
    exact fun h => hmmap (Option.map_eq_none_iff.mp h)
  · rw [if_neg hneeded]
    -- A length that is not zero does not fit into an area that is not there.
    cases area with
    | none => exact absurd (Nat.succ_pos n) hneeded
    | some a => exact Option.some_ne_none a

/-- The test for `$ORIGIN` looks at this section only. -/
theorem prefix_section_iff {tok sec rest : List UInt8} {c : UInt8} (hc : c ∉ tok) :
    tok <+: sec ++ c :: rest ↔ tok <+: sec := by
  constructor
  · intro h
    rcases Nat.lt_or_ge sec.length tok.length with hlt | hge
    · -- A longer token would have to take in the character behind the section.
      have hsec : sec ++ [c] <+: sec ++ c :: rest := ⟨rest, by rw [List.append_assoc]; rfl⟩
      have hmem : c ∈ tok := by
        refine (List.prefix_of_prefix_length_le hsec h ?_).subset ?_
        · rw [List.length_append, List.length_singleton]
          omega
        · exact List.mem_append_right _ List.mem_cons_self
      exact absurd hmem hc
    · exact List.prefix_of_prefix_length_le h (List.prefix_append _ _) hge
  · exact fun h => h.trans (List.prefix_append _ _)

theorem strncmpEq_origin {sec rest : List UInt8}
    (hrest : rest = [] ∨ ∃ r, rest = ':'.toUInt8 :: r) :
    strncmpEq (sec ++ rest ++ [0]) originToken = .ok (decide (originToken <+: sec)) := by
  rw [strncmpEq_eq_decide (by decide) (List.mem_append_right _ List.mem_cons_self)]
  congr 1
  rw [decide_eq_decide, List.append_assoc]
  rcases hrest with rfl | ⟨r, rfl⟩
  · exact prefix_section_iff (by decide)
  · exact prefix_section_iff (by decide)

end Search

section Refinement

variable {σ : Type} {w : Nat} {ops : PathOps σ} {dtPath origin sec rest : List UInt8}

theorem length_expand (origin sec : List UInt8) : (expand origin sec).length =
    (if originToken <+: sec then origin.length + (sec.length - 7) else sec.length) +
      lenLibstdcxxRelPath := by
  unfold expand
  rw [List.length_append, length_libstdcxxRelPath]
  by_cases h : originToken <+: sec
  · rw [if_pos h, if_pos h, List.length_append, List.length_drop]
  · rw [if_neg h, if_neg h]

theorem length_expand_le (origin sec : List UInt8) :
    (expand origin sec).length ≤ origin.length + sec.length + lenLibstdcxxRelPath := by
  rw [length_expand]
  by_cases h : originToken <+: sec
  · rw [if_pos h]
    omega
  · rw [if_neg h]
    omega

/-- The length asked for is that of the path, with its terminator. -/
theorem neededLen_eq (hfit : origin.length + sec.length + lenLibstdcxxRelPath + 1 < 2 ^ w) :
    neededLen w (decide (originToken <+: sec)) origin.length sec.length =
      (expand origin sec).length + 1 := by
  unfold neededLen
  rw [length_expand]
  by_cases h : originToken <+: sec
  · -- The token is not part of the path, so its length is taken off.
    have hseven : 7 ≤ sec.length := h.length_le
    rw [decide_eq_true h, if_pos rfl, if_pos h, sizeSub_eq hseven (by omega),
      Nat.mod_eq_of_lt (by omega)]
  · rw [decide_eq_false h, if_neg Bool.false_ne_true, if_neg h, Nat.mod_eq_of_lt (by omega)]

/-- The path of a section is built as it should. -/
theorem buildPath_spec {bytes : List UInt8} (horigin : 0 ∉ origin) (hsec : 0 ∉ sec ++ rest)
    (hsecw : sec.length < 2 ^ w) (hlen : bytes.length < 2 ^ w)
    (hfit : (expand origin sec).length + 1 ≤ bytes.length) :
    ∃ bytes', buildPath w (decide (originToken <+: sec)) bytes origin (sec ++ rest) sec.length =
        .ok bytes' ∧
      Holds bytes' (expand origin sec) ∧ bytes'.length = bytes.length := by
  rw [length_expand] at hfit
  unfold buildPath expand
  by_cases h : originToken <+: sec
  · -- Behind the seven characters of the token the section goes on.
    have hseven : 7 ≤ sec.length := h.length_le
    have hdrop : (sec ++ rest).drop 7 = sec.drop 7 ++ rest := List.drop_append_of_le_length hseven
    have hzero : 0 ∉ sec.drop 7 ++ rest := by
      rw [← hdrop]
      exact fun hc => hsec (List.mem_of_mem_drop hc)
    have hsub : sizeSub w sec.length 7 = (sec.drop 7).length := by
      rw [sizeSub_eq hseven hsecw, List.length_drop]
    rw [if_pos h] at hfit ⊢
    rw [decide_eq_true h, if_pos rfl, hdrop, hsub]
    exact buildFromOrigin_spec horigin hzero hlen (by rw [List.length_drop]; omega)
  · rw [if_neg h] at hfit ⊢
    rw [decide_eq_false h, if_neg Bool.false_ne_true]
    exact buildFromSection_spec hsec hlen hfit

variable (hdt : 0 ∉ dtPath) (horigin : 0 ∉ origin)
  (hfit : origin.length + dtPath.length + lenLibstdcxxRelPath + 1 < 2 ^ w)

/-- Past the end of the string the loop is left, and the buffer given back. -/
theorem dtPathStep_end {s : DtPathState σ} (hend : dtPath.length ≤ s.cursor) :
    dtPathStep w ops dtPath origin s =
      .ok (.inr ⟨.fatalError, none, release ops s.buffer s.world⟩) := by
  unfold dtPathStep
  rw [if_pos (Nat.not_lt.mpr hend)]
  rfl

/-- At a colon the cursor moves on. -/
theorem dtPathStep_colon {s : DtPathState σ} (hcursor : s.cursor < dtPath.length)
    (hempty : lenSection (dtPath.drop s.cursor) = 0) :
    dtPathStep w ops dtPath origin s = .ok (.inl { s with cursor := s.cursor + 1 }) := by
  unfold dtPathStep
  rw [if_neg (not_not_intro hcursor)]
  simp only [hempty, if_true]
  rfl

include hdt horigin hfit

/-- A pass of the loop at a section gets a buffer for the section's path, and
    tries that path if it got one. -/
theorem dtPathStep_section {s : DtPathState σ} (hcursor : s.cursor < dtPath.length)
    (htext : dtPath.drop s.cursor = sec ++ rest) (hne : sec ≠ [])
    (hlen : lenSection (dtPath.drop s.cursor) = sec.length)
    (hrest : rest = [] ∨ ∃ r, rest = ':'.toUInt8 :: r) (hbuf : lenPathBuffer s.buffer < 2 ^ w) :
    (∃ world, reserve ops ((expand origin sec).length + 1) s.buffer s.world = (none, world) ∧
      dtPathStep w ops dtPath origin s = .ok (.inr ⟨.fatalError, none, world⟩)) ∨
    (∃ b world b', reserve ops ((expand origin sec).length + 1) s.buffer s.world =
        (some b, world) ∧
      b'.area = b.area ∧ b'.path = expand origin sec ∧ b'.len < 2 ^ w ∧
      dtPathStep w ops dtPath origin s =
        .ok (if (ops.trypath (expand origin sec) world).1 = .success then
          .inr ⟨.success, some b', (ops.trypath (expand origin sec) world).2⟩
        else .inl ⟨s.cursor + sec.length + 1, some b',
          (ops.trypath (expand origin sec) world).2⟩)) := by
  have hpos : 0 < sec.length := List.length_pos_of_ne_nil hne
  have hdrop : dtPath.length - s.cursor = sec.length + rest.length := by
    rw [← List.length_drop, htext, List.length_append]
  have hzero : 0 ∉ sec ++ rest := by
    rw [← htext]
    exact fun hc => hdt (List.mem_of_mem_drop hc)
  -- No length wraps, so the buffer asked for has room for the path.
  have hneeded : neededLen w (decide (originToken <+: sec)) origin.length sec.length =
      (expand origin sec).length + 1 := neededLen_eq (by omega)
  have hexpand := length_expand_le origin sec
  have hlen' : lenSection (sec ++ rest) = sec.length := by
    rw [← htext, hlen]
  -- The pass is run up to the point where it asks for its buffer.
  generalize hstep : dtPathStep w ops dtPath origin s = result
  unfold dtPathStep at hstep
  rw [if_neg (not_not_intro hcursor)] at hstep
  simp only [htext, hlen', strncmpEq_origin hrest, ok_bind, hneeded] at hstep
  rw [if_neg (Nat.ne_of_gt hpos)] at hstep
  rcases hreserve : reserve ops ((expand origin sec).length + 1) s.buffer s.world with
    ⟨buffer, world⟩
  rw [hreserve] at hstep
  cases buffer with
  | none => exact Or.inl ⟨world, rfl, hstep.symm⟩
  | some b =>
      right
      have hreserved := reserve_len (by rw [hreserve])
      have hblen : b.bytes.length < 2 ^ w := by
        change b.len < 2 ^ w
        omega
      have hroom : (expand origin sec).length + 1 ≤ b.bytes.length := by
        change _ ≤ b.len
        omega
      -- With a buffer the path is built in it, and the callback asked.
      rcases buildPath_spec (w := w) horigin hzero (by omega) hblen hroom with
        ⟨bytes, hbytes, hholds, hbyteslen⟩
      refine ⟨b, world, ⟨b.addr, bytes⟩, rfl, ?_, hholds.text_eq, ?_, ?_⟩
      · unfold PathBuffer.area PathBuffer.len
        rw [hbyteslen]
      · unfold PathBuffer.len
        rwa [hbyteslen]
      · rw [← hstep]
        simp only [hbytes, ok_bind, PathBuffer.path, hholds.text_eq]
        by_cases htry : (ops.trypath (expand origin sec) world).1 = .success
        · rw [if_pos htry, if_pos htry]
          rfl
        · rw [if_neg htry, if_neg htry]
          rfl

/-- From any cursor, the loop tries the paths of the sections ahead of it. -/
theorem dtPathLoop_eq : ∀ (n : Nat) (s : DtPathState σ), dtPath.length + 1 ≤ s.cursor + n →
    lenPathBuffer s.buffer < 2 ^ w → 0 < n →
      ∃ r, whileLoop (dtPathStep w ops dtPath origin) n s = .ok r ∧
        r.view = tryPaths ops ((sections (dtPath.drop s.cursor)).map (expand origin))
          (s.buffer.map PathBuffer.area) s.world := by
  intro n
  induction n with
  | zero => exact fun s _ _ h => absurd h (Nat.lt_irrefl 0)
  | succ n ih =>
      intro s hn hbuf _
      change ∃ r, dtPathStep w ops dtPath origin s >>= _ = .ok r ∧ _
      rcases Nat.lt_or_ge s.cursor dtPath.length with hcursor | hend
      · have htail : 0 ∉ dtPath.drop s.cursor := fun hc => hdt (List.mem_of_mem_drop hc)
        rcases lenSection_spec _ htail with ⟨sec, rest, htext, hlen, hcolon, hrest⟩
        by_cases hne : sec = []
        · -- An empty section: the character at the cursor is a colon.
          rw [hne, List.length_nil] at hlen
          rw [hne, List.nil_append] at htext
          rcases hrest with rfl | ⟨r, rfl⟩
          · exact absurd (List.drop_eq_nil_iff.mp htext) (by omega)
          · have hnext : dtPath.drop (s.cursor + 1) = r := by
              rw [← List.tail_drop, htext, List.tail_cons]
            rw [dtPathStep_colon hcursor hlen, ok_bind, htext, sections_colon, ← hnext]
            exact ih ⟨s.cursor + 1, s.buffer, s.world⟩ (by simp only; omega) hbuf (by omega)
        · -- A section: its path is tried, and the cursor skips the colon behind it.
          have hnext : dtPath.drop (s.cursor + sec.length + 1) = rest.drop 1 := by
            rw [Nat.add_assoc, ← List.drop_drop, htext, ← List.drop_drop, List.drop_left]
          rw [htext, sections_append hne hcolon hrest, List.map_cons]
          unfold tryPaths
          rw [reserve_area]
          rcases dtPathStep_section hdt horigin hfit hcursor htext hne hlen hrest hbuf with
            ⟨world, hreserve, hstep⟩ | ⟨b, world, b', hreserve, harea, hpath, hb', hstep⟩
          · rw [hstep, hreserve]
            exact ⟨_, rfl, rfl⟩
          · rw [hstep, hreserve, ok_bind]
            by_cases htry : (ops.trypath (expand origin sec) world).1 = .success
            · simp only [if_pos htry]
              refine ⟨_, rfl, ?_⟩
              simp only [DtPathResult.view, Option.map_some, harea, hpath, if_pos htry]
            · -- The path was rejected, so the rest is searched with this buffer.
              simp only [if_neg htry, Option.map_some]
              rw [← hnext, ← harea]
              exact ih ⟨_, some b', _⟩ (by simp only; omega) hb' (by omega)
      · -- No sections are left.
        rw [dtPathStep_end hend, List.drop_eq_nil_of_le hend]
        refine ⟨_, rfl, ?_⟩
        simp only [DtPathResult.view, Option.map_none, sections_nil, List.map_nil, tryPaths,
          release_area]

/-- The function tries the paths of its sections, in order. -/
theorem findLibstdcxxFromDtPath_eq (ops : PathOps σ) (world : σ) :
    ∃ r, findLibstdcxxFromDtPath w ops dtPath origin world = .ok r ∧
      r.view = tryPaths ops ((sections dtPath).map (expand origin)) none world :=
  dtPathLoop_eq hdt horigin hfit (dtPath.length + 1) ⟨0, none, world⟩ (by simp only; omega)
    (Nat.two_pow_pos w) (Nat.succ_pos _)

end Refinement

end AuditLibstdcxx
