import AuditLibstdcxx.Lib.Halting
import AuditLibstdcxx.Theory.PySections
import AuditLibstdcxx.Theory.Reference

/-!
# Versym Sections That Come Round

The object of a `versym` section is made of the object of the section it is
linked to, so making it follows the links of such sections. Where they come
round, the object is never done, and looking for a section by its name ends in
a `RecursionError` at every limit the interpreter may have. Nothing else raises
that error. Where they do not, the links end within as many sections as there
are headers in the file, and no larger limit makes a difference.

## Main definitions

* `linkOf`: The section another one is linked to.
* `Chains`: A section needs the object of the one it is linked to.
* `stock`: The number of section headers the file has room for.

## Theorems

* `getSection_recursion_iff`: When an object meets the limit.
* `getSection_stable`: An object that is done does not change with the limit.
* `getSectionByName_limit`: What a lookup ends in, by the limit.
-/

namespace AuditLibstdcxx

namespace ElfTools

open Checked Exceptions Record

section Errors

variable {f : ElfFile} {header : Container} {n : Nat}

/-! Nothing but the limit itself raises a `RecursionError`. -/

theorem elfAssert_ne_other {cond : Prop} [Decidable cond] : elfAssert cond ≠ .error .other := by
  unfold elfAssert
  split_ifs <;> simp

theorem seek_ne_other {s : Stream} {pos : Nat} : s.seek pos ≠ .error .other := by
  unfold Stream.seek
  split_ifs <;> simp

theorem parse_ne_other {l : Layout Member} {pos : Nat} : f.parse l pos ≠ .error .other := by
  refine bind_ne_error seek_ne_other fun _ => ?_
  cases parse (decode f.bigEndian) l (f.stream.bytes.drop pos) <;> simp

theorem parseArray_ne_other {s : Stream} {pos count width : Nat} :
    parseArray s pos count width ≠ .error .other := by
  unfold parseArray
  split_ifs <;> simp

theorem getSectionHeader_ne_other : f.getSectionHeader n ≠ .error .other := by
  unfold ElfFile.getSectionHeader ElfFile.sectionOffset
  refine bind_ne_error (by split_ifs <;> simp) fun pos => ?_
  split_ifs
  · exact pure_ne _ _
  · exact bind_ne_error parse_ne_other fun _ => pure_ne _ _

theorem header_bind_ne_other {α : Type} {e : PyException} {k : Container → Except PyException α}
    (he : e ≠ .other) (hk : ∀ header, k header ≠ .error .other) :
    (do
      match ← f.getSectionHeader n with
      | none => .error e
      | some header => k header) ≠ .error .other := by
  refine bind_ne_error getSectionHeader_ne_other fun found => ?_
  cases found with
  | none => exact fun h => he (Except.error.inj h)
  | some header => exact hk header

theorem initSection_ne_other : f.initSection header ≠ .error .other := by
  unfold ElfFile.initSection
  split_ifs
  · exact bind_ne_error parse_ne_other fun _ => pure_ne _ _
  · simp

theorem getSectionName_ne_other : f.getSectionName header ≠ .error .other := by
  unfold ElfFile.getSectionName
  cases f.stringtable with
  | none => simp
  | some stringtable =>
      refine bind_ne_error (bind_ne_error seek_ne_other fun _ => pure_ne _ _) fun str => ?_
      cases str <;> exact pure_ne _ _

theorem noSection_ne_other : f.noSection ≠ .other := by
  unfold ElfFile.noSection
  split_ifs <;> decide

theorem getLinkedStrtabSection_ne_other : f.getLinkedStrtabSection n ≠ .error .other := by
  refine header_bind_ne_other (by decide) fun header => ?_
  split_ifs
  · simp
  · exact bind_ne_error getSectionName_ne_other fun _ =>
      bind_ne_error initSection_ne_other fun _ => pure_ne _ _

theorem makeSymbolTableSection_ne_other : f.makeSymbolTableSection header ≠ .error .other :=
  bind_ne_error getLinkedStrtabSection_ne_other fun _ =>
    bind_ne_error initSection_ne_other fun _ =>
      bind_ne_error elfAssert_ne_other fun _ => elfAssert_ne_other

theorem getLinkedSymtabSection_ne_other : f.getLinkedSymtabSection n ≠ .error .other := by
  refine header_bind_ne_other (by decide) fun header => ?_
  split_ifs
  · simp
  · exact bind_ne_error getSectionName_ne_other fun _ => makeSymbolTableSection_ne_other

theorem makeDynamicSection_ne_other : f.makeDynamicSection header ≠ .error .other := by
  refine bind_ne_error initSection_ne_other fun _ =>
    header_bind_ne_other (by decide) fun linked => ?_
  split_ifs
  · simp
  · exact bind_ne_error getSectionName_ne_other fun _ => initSection_ne_other

theorem makeRelocationSection_ne_other {entry : Layout Member} :
    f.makeRelocationSection entry header ≠ .error .other :=
  bind_ne_error initSection_ne_other fun _ => elfAssert_ne_other

theorem makeAttributesSection_ne_other : f.makeAttributesSection header ≠ .error .other :=
  bind_ne_error initSection_ne_other fun _ =>
    bind_ne_error parse_ne_other fun _ => elfAssert_ne_other

theorem makeElfHashSection_ne_other : f.makeElfHashSection header ≠ .error .other :=
  bind_ne_error getLinkedSymtabSection_ne_other fun _ =>
    bind_ne_error initSection_ne_other fun _ =>
      bind_ne_error parse_ne_other fun _ => parseArray_ne_other

theorem makeGnuHashSection_ne_other : f.makeGnuHashSection header ≠ .error .other :=
  bind_ne_error getLinkedSymtabSection_ne_other fun _ =>
    bind_ne_error initSection_ne_other fun _ =>
      bind_ne_error parse_ne_other fun _ =>
        bind_ne_error parseArray_ne_other fun _ => parseArray_ne_other

theorem makeVersionSection_ne_other {kind : ElfFile.VersionKind} :
    f.makeVersionSection kind header ≠ .error .other :=
  bind_ne_error getLinkedStrtabSection_ne_other fun _ =>
    bind_ne_error initSection_ne_other fun _ => pure_ne _ _

/-- The object of a section that is not linked to another one meets no limit. -/
theorem makeSectionByType_ne_other {getLinked : Nat → Except PyException Unit}
    (h : f.shType header ≠ .gnuVersym) :
    f.makeSectionByType getLinked header ≠ .error .other := by
  unfold ElfFile.makeSectionByType
  cases htype : f.shType header
  case gnuVersym => exact absurd htype h
  case gnuVerneed => exact makeVersionSection_ne_other
  case gnuVerdef => exact makeVersionSection_ne_other
  case sunwSyminfo =>
    exact bind_ne_error getLinkedSymtabSection_ne_other fun _ =>
      bind_ne_error initSection_ne_other fun _ => pure_ne _ _
  all_goals
    refine bind_ne_error ?_ fun _ => pure_ne _ _
    first
      | exact initSection_ne_other
      | exact makeSymbolTableSection_ne_other
      | exact makeRelocationSection_ne_other
      | exact makeDynamicSection_ne_other
      | exact makeAttributesSection_ne_other
      | exact makeElfHashSection_ne_other
      | exact makeGnuHashSection_ne_other

/-- Whether an object meets the limit depends on the object it is linked to. -/
theorem makeSectionByType_eq_other_iff {getLinked : Nat → Except PyException Unit} :
    f.makeSectionByType getLinked header = .error .other ↔
      f.shType header = .gnuVersym ∧ getLinked (header.get .shLink) = .error .other := by
  by_cases htype : f.shType header = .gnuVersym
  · unfold ElfFile.makeSectionByType
    simp only [htype, true_and]
    rw [bind_eq_error]
    -- Once the linked object is made, the rest of the constructor meets no limit.
    refine or_iff_left ?_
    rintro ⟨_, _, hrest⟩
    exact bind_ne_error initSection_ne_other (fun _ => pure_ne _ _) hrest
  · exact iff_of_false (makeSectionByType_ne_other htype) fun h => htype h.1

/-- Nothing else about an object depends on that one. -/
theorem makeSectionByType_congr {getLinked getLinked' : Nat → Except PyException Unit}
    (h : f.shType header = .gnuVersym →
      getLinked (header.get .shLink) = getLinked' (header.get .shLink)) :
    f.makeSectionByType getLinked header = f.makeSectionByType getLinked' header := by
  unfold ElfFile.makeSectionByType
  cases htype : f.shType header
  case gnuVersym => rw [h htype]
  all_goals rfl

end Errors

section Links

variable (f : ElfFile)

/-- The section another one is linked to. -/
def linkOf (n : Nat) : Nat :=
  match f.getSectionHeader n with
  | .ok (some header) => header.get .shLink
  | _ => 0

/-- A section needs the object of the one it is linked to. -/
def Chains (n : Nat) : Prop :=
  ∃ header, HeaderAt f n header ∧ Named f header ∧ f.shType header = .gnuVersym

/-- The number of section headers the file has room for. -/
def stock : Nat :=
  f.stream.len / size (elfShdr f.elfclass)

variable {f} {n : Nat}

theorem linkOf_eq {header : Container} (h : HeaderAt f n header) :
    linkOf f n = header.get .shLink := by
  unfold linkOf
  rw [h]

/-- A header that is there is one of those the file has room for. -/
theorem lt_stock {header : Container} (hshoff : 0 < f.header.get .eShoff)
    (h : HeaderAt f n header) : n < stock f := by
  have hsize : 0 < size (elfShdr f.elfclass) := by
    cases f.elfclass <;> decide
  unfold HeaderAt ElfFile.getSectionHeader ElfFile.sectionOffset at h
  rcases (bind_eq_ok _ _ _).mp h with ⟨pos, hpos, hrest⟩
  by_cases hent : f.header.get .eShentsize < size (elfShdr f.elfclass)
  · rw [if_pos ⟨hshoff, hent⟩] at hpos
    cases hpos
  · rw [if_neg fun hc => hent hc.2, Except.ok.injEq] at hpos
    by_cases hend : pos > f.stream.len
    · rw [if_pos hend] at hrest
      cases hrest
    · rw [if_neg hend] at hrest
      rcases (bind_eq_ok _ _ _).mp hrest with ⟨found, hfound, _⟩
      have hroom := (parse_returns_iff.mp ⟨found, hfound⟩).2
      rw [List.length_drop] at hroom
      -- The headers before this one take up at least their own size.
      have hbefore := Nat.mul_le_mul_left n (Nat.le_of_not_lt hent)
      unfold stock
      rw [← Nat.succ_le_iff, Nat.le_div_iff_mul_le hsize, Nat.succ_mul]
      unfold Stream.len at hend ⊢
      omega

/-- A limit that is met where a header is used is met by what is done with it. -/
theorem header_bind_eq_other_iff {α : Type} {e : PyException}
    {k : Container → Except PyException α} (he : e ≠ .other) :
    (do
      match ← f.getSectionHeader n with
      | none => .error e
      | some header => k header) = .error .other ↔
      ∃ header, HeaderAt f n header ∧ k header = .error .other := by
  unfold HeaderAt
  rw [bind_eq_error, or_iff_right getSectionHeader_ne_other]
  constructor
  · rintro ⟨found, hfound, hrest⟩
    cases found with
    | none => exact absurd (Except.error.inj hrest) he
    | some header => exact ⟨header, hfound, hrest⟩
  · rintro ⟨header, hthere, hk⟩
    exact ⟨some header, hthere, hk⟩

theorem getSection_zero_eq_other_iff :
    f.getSection 0 n = .error .other ↔ ∃ header, HeaderAt f n header := by
  refine (header_bind_eq_other_iff noSection_ne_other).trans (exists_congr fun header => ?_)
  exact and_iff_left rfl

/-- An object meets a limit of one call more when the object it is linked to
    meets the limit. -/
theorem getSection_succ_eq_other_iff {depth : Nat} :
    f.getSection (depth + 1) n = .error .other ↔
      Chains f n ∧ f.getSection depth (linkOf f n) = .error .other := by
  have hmake : ∀ header, f.makeSection (depth + 1) header = .error .other ↔
      Named f header ∧ f.shType header = .gnuVersym ∧
        f.getSection depth (header.get .shLink) = .error .other := by
    intro header
    rw [makeSection_succ, bind_eq_error, or_iff_right getSectionName_ne_other,
      ← getSectionName_returns_iff]
    simp only [bind_eq_error, makeSectionByType_eq_other_iff, pure_ne, and_false, exists_false,
      or_false]
    exact exists_and_right
  refine (header_bind_eq_other_iff noSection_ne_other).trans ?_
  constructor
  · rintro ⟨header, hthere, hlimit⟩
    rcases (hmake header).mp hlimit with ⟨hnamed, htype, hlinked⟩
    rw [linkOf_eq hthere]
    exact ⟨⟨header, hthere, hnamed, htype⟩, hlinked⟩
  · rintro ⟨⟨header, hthere, hnamed, htype⟩, hlinked⟩
    rw [linkOf_eq hthere] at hlinked
    exact ⟨header, hthere, (hmake header).mpr ⟨hnamed, htype, hlinked⟩⟩

/-- An object meets the limit when there are links to follow to the end. -/
theorem getSection_eq_other_iff {depth : Nat} : f.getSection depth n = .error .other ↔
    (∀ l < depth, Chains f ((linkOf f)^[l] n)) ∧
      ∃ header, HeaderAt f ((linkOf f)^[depth] n) header := by
  induction depth generalizing n with
  | zero => simp [getSection_zero_eq_other_iff]
  | succ depth ih =>
      rw [getSection_succ_eq_other_iff, ih, Nat.forall_lt_succ_left, and_assoc]
      rfl

/-- An object meets every limit when the links from its section come round. -/
theorem getSection_recursion_iff (hshoff : 0 < f.header.get .eShoff) :
    (∀ depth, f.getSection depth n = .error .other) ↔ ComesRound (linkOf f) (Chains f) n := by
  constructor
  · intro h
    -- There is no room for more headers than that, so the links have to come round.
    refine comesRound_of_stock id (stock f) ?_ (fun j k => id) fun l _ => ?_
    · rintro m ⟨header, hthere, _⟩
      exact lt_stock hshoff hthere
    · exact (getSection_eq_other_iff.mp (h (l + 1))).1 l (Nat.lt_succ_self l)
  · intro h depth
    rcases h.always depth with ⟨header, hthere, _⟩
    exact getSection_eq_other_iff.mpr ⟨fun l _ => h.always l, header, hthere⟩

/-- An object that does not meet the limit does not change with it. -/
theorem getSection_stable {depth : Nat} (h : f.getSection depth n ≠ .error .other) :
    f.getSection (depth + 1) n = f.getSection depth n := by
  induction depth generalizing n with
  | zero =>
      -- Without a call to spare, only a header that is not there meets no limit.
      have hnone := fun header hthere => h (getSection_zero_eq_other_iff.mpr ⟨header, hthere⟩)
      unfold ElfFile.getSection
      unfold HeaderAt at hnone
      cases hheader : f.getSectionHeader n with
      | error e => rfl
      | ok found =>
          cases found with
          | none => rfl
          | some header => exact absurd hheader (hnone header)
  | succ depth ih =>
      rw [ne_eq, getSection_succ_eq_other_iff] at h
      -- The linked object is all that depends on the limit.
      have hlinked : Chains f n →
          f.getSection (depth + 1) (linkOf f n) = f.getSection depth (linkOf f n) :=
        fun hchains => ih fun hlimit => h ⟨hchains, hlimit⟩
      unfold ElfFile.getSection at hlinked ⊢
      cases hheader : f.getSectionHeader n with
      | error e => rfl
      | ok found =>
          cases found with
          | none => rfl
          | some header =>
              simp only [ok_bind]
              rw [makeSection_succ, makeSection_succ]
              cases hname : f.getSectionName header with
              | error e => rfl
              | ok name =>
                  rw [ok_bind, ok_bind, makeSectionByType_congr fun htype => ?_]
                  have hnamed := getSectionName_returns_iff.mp ⟨name, hname⟩
                  have hsame := hlinked ⟨header, hheader, hnamed, htype⟩
                  rw [linkOf_eq hheader] at hsame
                  exact congrArg (· >>= fun _ => pure ()) hsame

/-- So from where it is done on, every limit is as good. -/
theorem getSection_settled {depth depth' : Nat} (hle : depth ≤ depth')
    (h : f.getSection depth n ≠ .error .other) : f.getSection depth' n = f.getSection depth n := by
  induction depth', hle using Nat.le_induction with
  | base => rfl
  | succ depth' _ ih =>
      rw [← ih] at h ⊢
      exact getSection_stable h

/-- An object whose links do not come round is done with as many calls as the
    file has room for headers. -/
theorem getSection_done (hshoff : 0 < f.header.get .eShoff)
    (h : ¬ ComesRound (linkOf f) (Chains f) n) {depth : Nat} (hdepth : stock f < depth) :
    f.getSection depth n ≠ .error .other := by
  intro hlimit
  refine h (comesRound_of_stock id (stock f) ?_ (fun j k => id) fun l hl => ?_)
  · rintro m ⟨header, hthere, _⟩
    exact lt_stock hshoff hthere
  · exact (getSection_eq_other_iff.mp hlimit).1 l (by omega)

/-- An object that can be made is made unless it meets the limit. -/
theorem Builds.returns_of_ne {depth : Nat} (h : Builds f n)
    (hlimit : f.getSection depth n ≠ .error .other) : Returns (f.getSection depth n) := by
  rcases exists_getSection_returns_iff.mpr h with ⟨depth', section', hsection⟩
  have hdone : f.getSection depth' n ≠ .error .other := by
    rw [hsection]
    simp
  -- Of two limits that are not met, the lower one has the result of the higher.
  rcases Nat.le_total depth depth' with hle | hle
  · exact ⟨section', (getSection_settled hle hlimit).symm.trans hsection⟩
  · exact ⟨section', (getSection_settled hle hdone).trans hsection⟩

/-- So the links from its section do not come round. -/
theorem Builds.not_comesRound (h : Builds f n) : ¬ ComesRound (linkOf f) (Chains f) n := by
  intro hround
  rcases exists_getSection_returns_iff.mpr h with ⟨depth, section', hsection⟩
  rcases hround.always depth with ⟨header, hthere, _⟩
  rw [getSection_eq_other_iff.mpr ⟨fun l _ => hround.always l, header, hthere⟩] at hsection
  cases hsection

end Links

section Lookup

variable {f : ElfFile} {name : PyStr} {n : Nat}

/-- A later section takes the place of an earlier one of the same name. -/
theorem sectionNameMap_concat (sections : List ElfFile.Section) (sec : ElfFile.Section) :
    ElfFile.sectionNameMap name (sections ++ [sec]) =
      if sec.name = name then some sections.length else ElfFile.sectionNameMap name sections := by
  unfold ElfFile.sectionNameMap
  rw [List.zipIdx_append, List.foldl_append]
  simp

/-- So the one that is found is the last of its name. -/
theorem sectionNameMap_range (g : Nat → ElfFile.Section) (n : Nat) :
    ElfFile.sectionNameMap name ((List.range n).map g) =
      (List.range n).reverse.find? fun i => decide ((g i).name = name) := by
  induction n with
  | zero => rfl
  | succ n ih =>
      rw [List.range_succ, List.map_append, List.map_singleton, sectionNameMap_concat, ih,
        List.reverse_append, List.reverse_singleton, List.singleton_append, List.find?_cons,
        List.length_map, List.length_range]
      by_cases hname : (g n).name = name
      · rw [if_pos hname, decide_eq_true hname]
      · rw [if_neg hname, decide_eq_false hname]

theorem lt_of_sectionNameMap {sections : List ElfFile.Section} {secnum : Nat}
    (h : ElfFile.sectionNameMap name sections = some secnum) : secnum < sections.length := by
  induction sections using List.reverseRecOn with
  | nil => cases h
  | append_singleton sections sec ih =>
      rw [sectionNameMap_concat] at h
      rw [List.length_append, List.length_singleton]
      by_cases hname : sec.name = name
      · rw [if_pos hname, Option.some.injEq] at h
        omega
      · rw [if_neg hname] at h
        have hlt := ih h
        omega

/-- What the lookup does once it has the objects of all sections. -/
def lookupIn (f : ElfFile) (depth : Nat) (name : PyStr) (sections : List ElfFile.Section) :
    Except PyException (Option ElfFile.Section) :=
  match ElfFile.sectionNameMap name sections with
  | none => return none
  | some secnum => return some (← f.getSection depth secnum)

theorem getSectionByName_eq (hn : f.numSections = .ok n) (depth : Nat) :
    f.getSectionByName depth name =
      (List.range n).mapM (f.getSection depth) >>= lookupIn f depth name := by
  unfold ElfFile.getSectionByName
  rw [hn]
  rfl

/-- The sections have all been made once the lookup gets to the one it wants. -/
theorem lookupIn_returns (name : PyStr) {depth : Nat} {sections : List ElfFile.Section}
    (h : (List.range n).mapM (f.getSection depth) = .ok sections) :
    Returns (lookupIn f depth name sections) := by
  unfold lookupIn
  cases hmap : ElfFile.sectionNameMap name sections with
  | none => exact returns_pure none
  | some secnum =>
      -- The section was made for the map, with the same limit.
      have hlt := lt_of_sectionNameMap hmap
      rw [length_of_mapM h, List.length_range] at hlt
      have hmade := (returns_mapM _ _).mp ⟨sections, h⟩ secnum (List.mem_range.mpr hlt)
      rcases hmade with ⟨sec, hsec⟩
      exact (returns_bind _ _).mpr ⟨sec, hsec, returns_pure _⟩

/-- So a lookup comes to its end when all objects are made. -/
theorem getSectionByName_returns_of_depth (hn : f.numSections = .ok n) {depth : Nat} :
    Returns (f.getSectionByName depth name) ↔ ∀ i < n, Returns (f.getSection depth i) := by
  rw [getSectionByName_eq hn, returns_bind]
  simp only [← List.mem_range, ← returns_mapM]
  constructor
  · rintro ⟨sections, hsections, _⟩
    exact ⟨sections, hsections⟩
  · rintro ⟨sections, hsections⟩
    exact ⟨sections, hsections, lookupIn_returns name hsections⟩

/-- It meets the limit when an object does, and those before it are made. -/
theorem getSectionByName_eq_other_iff (hn : f.numSections = .ok n) {depth : Nat} :
    f.getSectionByName depth name = .error .other ↔
      ∃ i < n, (∀ j < i, Returns (f.getSection depth j)) ∧
        f.getSection depth i = .error .other := by
  rw [getSectionByName_eq hn, bind_eq_error, mapM_range_eq_error]
  -- Past the map there is no limit left to meet.
  refine or_iff_left ?_
  rintro ⟨sections, hsections, hlimit⟩
  rcases lookupIn_returns name hsections with ⟨found, hfound⟩
  rw [hfound] at hlimit
  cases hlimit

/-- Away from the limit a lookup does not change with it. -/
theorem getSectionByName_settled (hn : f.numSections = .ok n) {depth depth' : Nat}
    (hle : depth ≤ depth') (h : f.getSectionByName depth name ≠ .error .other) :
    f.getSectionByName depth' name = f.getSectionByName depth name := by
  rw [getSectionByName_eq hn] at h
  rw [getSectionByName_eq hn, getSectionByName_eq hn]
  -- Neither the map nor the lookup in it changes.
  have hmake : (List.range n).mapM (f.getSection depth) ≠ .error .other := by
    intro hc
    rw [hc] at h
    exact h rfl
  rw [mapM_settled (fun i _ => getSection_settled hle) hmake]
  cases hsections : (List.range n).mapM (f.getSection depth) with
  | error e => rfl
  | ok sections =>
      rw [ok_bind, ok_bind]
      unfold lookupIn
      cases hmap : ElfFile.sectionNameMap name sections with
      | none => rfl
      | some secnum =>
          have hlt := lt_of_sectionNameMap hmap
          rw [length_of_mapM hsections, List.length_range] at hlt
          have hmade := (returns_mapM _ _).mp ⟨sections, hsections⟩ secnum (List.mem_range.mpr hlt)
          simp only
          rw [getSection_settled hle fun hc => ?_]
          rw [hc] at hmade
          exact not_returns_error _ hmade

/-- A file with a section has a section header table. -/
theorem eShoff_pos (hn : f.numSections = .ok n) (hpos : 0 < n) : 0 < f.header.get .eShoff := by
  rw [Nat.pos_iff_ne_zero]
  intro hzero
  unfold ElfFile.numSections at hn
  rw [if_pos hzero, Except.ok.injEq] at hn
  omega

/-- The first object that cannot be made is one whose links come round. -/
def RunsInCircles (f : ElfFile) (n : Nat) : Prop :=
  ∃ i < n, (∀ j < i, Builds f j) ∧ ComesRound (linkOf f) (Chains f) i

/-- A lookup that runs in circles meets every limit. -/
theorem RunsInCircles.meets (h : RunsInCircles f n) (hn : f.numSections = .ok n) (depth : Nat) :
    f.getSectionByName depth name = .error .other := by
  rcases h with ⟨i, hi, hbefore, hround⟩
  have hlimit : ∃ j, f.getSection depth j = .error .other :=
    ⟨i, (getSection_recursion_iff (eShoff_pos hn (by omega))).mpr hround depth⟩
  -- With little room an object before that one may meet the limit already.
  have hfirst : Nat.find hlimit ≤ i := Nat.find_min' hlimit
    ((getSection_recursion_iff (eShoff_pos hn (by omega))).mpr hround depth)
  refine (getSectionByName_eq_other_iff hn).mpr
    ⟨Nat.find hlimit, by omega, fun j hj => ?_, Nat.find_spec hlimit⟩
  exact (hbefore j (by omega)).returns_of_ne (Nat.find_min hlimit hj)

/-- One that meets a limit of a call for every header the file has room for runs
    in circles. -/
theorem runsInCircles_of_meets (hn : f.numSections = .ok n) {depth : Nat}
    (hdepth : stock f < depth) (h : f.getSectionByName depth name = .error .other) :
    RunsInCircles f n := by
  rcases (getSectionByName_eq_other_iff hn).mp h with ⟨i, hi, hbefore, hlimit⟩
  refine ⟨i, hi, fun j hj => exists_getSection_returns_iff.mp ⟨depth, hbefore j hj⟩, ?_⟩
  by_contra hround
  exact getSection_done (eShoff_pos hn (by omega)) hround hdepth hlimit

/-- What a lookup ends in, by the limit: with all objects made it comes to its
    end, in circles it meets every limit, and else no limit of more calls than
    the file has room for headers makes a difference. -/
theorem getSectionByName_limit (f : ElfFile) (name : PyStr) (n : Nat)
    (hn : f.numSections = .ok n) :
    ((∀ depth, f.getSectionByName depth name = .error .other) ↔ RunsInCircles f n) ∧
    ((∃ depth, Returns (f.getSectionByName depth name)) ↔ ∀ i < n, Builds f i) ∧
    (¬ RunsInCircles f n → ∃ r ≠ .error .other, ∀ depth, stock f < depth →
      f.getSectionByName depth name = r) := by
  refine ⟨⟨fun h => ?_, fun h => h.meets hn⟩, ⟨?_, fun h => ?_⟩, fun h => ?_⟩
  · exact runsInCircles_of_meets hn (Nat.lt_succ_self _) (h _)
  · rintro ⟨depth, hreturns⟩ i hi
    exact exists_getSection_returns_iff.mp
      ⟨depth, (getSectionByName_returns_of_depth hn).mp hreturns i hi⟩
  · refine ⟨stock f + 1, (getSectionByName_returns_of_depth hn).mpr fun i hi => ?_⟩
    exact (h i hi).returns_of_ne (getSection_done (eShoff_pos hn (by omega))
      (h i hi).not_comesRound (Nat.lt_succ_self _))
  -- Not in circles, the first limit above the stock is not met, nor is any above it.
  · have hdone : f.getSectionByName (stock f + 1) name ≠ .error .other :=
      fun hc => h (runsInCircles_of_meets hn (Nat.lt_succ_self _) hc)
    exact ⟨_, hdone, fun depth hdepth => getSectionByName_settled hn hdepth hdone⟩

end Lookup

section Sample

theorem lastOffset_lt : 2 ^ 63 - 1 < 2 ^ 63 := by
  decide +kernel

/-- A file whose `versym` section is linked to itself. -/
def loopStream : Stream where
  bytes := ehdr32 52 3 1 ++ shdr32 0 shtNull 0 0 0 0 ++ shdr32 0 shtStrtab 172 1 0 0 ++
    shdr32 0 0x6fffffff 0 0 2 0 ++ [0]
  maxOffset := 2 ^ 63 - 1
  fits := by decide +kernel
  offT := lastOffset_lt

/-- That file, opened. -/
def loopFile : ElfFile :=
  (elfFile loopStream).toOption.get (by decide +kernel)

/-- It runs in circles, so no section of it is ever found. -/
theorem loopFile_recursion : RunsInCircles loopFile 3 ∧ ∀ depth,
    loopFile.getSectionByName depth gnuVersionDName = .error .other := by
  have hlimit := getSectionByName_limit loopFile gnuVersionDName 3 (by decide +kernel)
  have hround : RunsInCircles loopFile 3 := by
    by_contra hround
    rcases hlimit.2.2 hround with ⟨r, hr, hsettles⟩
    refine hr ((hsettles 6 (by decide +kernel)).symm.trans ?_)
    decide +kernel
  exact ⟨hround, hlimit.1.mpr hround⟩

end Sample

end ElfTools

end AuditLibstdcxx
