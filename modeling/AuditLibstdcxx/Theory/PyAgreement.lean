import AuditLibstdcxx.Theory.Answers
import AuditLibstdcxx.Theory.PyReference
import AuditLibstdcxx.Theory.PyShipped

/-!
# One File, Two Readers

The audit library and the Python hook read the same files and should decide
alike. The hook reads what the format says: the greatest version of its names is
the version the file defines. The library does so where its walk agrees with the
format, and nowhere else, so this is where the two find the same version; and
where they do for both files, the one hands out the shipped library exactly when
the other loads it.

For that the names have to be ones both sides make the same of: ASCII text, with
versions that are not clamped. The hook by itself reads more than that.

## Main definitions

* `ReadableAt`: A path under which the hook gets through the names of a file.
* `spelledVersions`: The versions it finds there.
* `definedVersions`: The versions a file defines, however its sections are
  counted.
* `LibraryAt`: A path under which it finds a library both sides can read.
* `FollowsFormat`: The C library reads the file the way of the format.

## Theorems

* `isGreatest_names`: The version of a list of names is the greatest of them.
* `ReadableAt.version_greatest`: The hook finds the greatest version.
* `LibraryAt.isGreatest`: It is the greatest the file defines.
* `reads_same_iff`: When the two sides find the same version.
* `decisions_agree`: They decide alike.
-/

namespace AuditLibstdcxx

open Checked Exceptions

section Names

/-- What a fold of maxima comes to: a bound that is reached. -/
theorem foldl_max_nameTuple (names : List PyStr) (t : VersionTuple) :
    t ≤ names.foldl (fun m s => max m (nameTuple s)) t ∧
    (∀ s ∈ names, nameTuple s ≤ names.foldl (fun m s => max m (nameTuple s)) t) ∧
    (names.foldl (fun m s => max m (nameTuple s)) t = t ∨
      ∃ s ∈ names, names.foldl (fun m s => max m (nameTuple s)) t = nameTuple s) := by
  induction names generalizing t with
  | nil => simp
  | cons s names ih =>
      rcases ih (max t (nameTuple s)) with ⟨hstart, hbound, hreached⟩
      rw [List.foldl_cons]
      refine ⟨le_trans (le_max_left _ _) hstart, ?_, ?_⟩
      · exact List.forall_mem_cons.mpr ⟨le_trans (le_max_right _ _) hstart, hbound⟩
      · rcases hreached with hr | ⟨s', hs', hr⟩
        · rcases max_choice t (nameTuple s) with hmax | hmax
          · exact Or.inl (hr.trans hmax)
          · exact Or.inr ⟨s, List.mem_cons_self, hr.trans hmax⟩
        · exact Or.inr ⟨s', List.mem_cons_of_mem s hs', hr⟩

/-- The version of a list of names is the greatest of those the C side finds in
    them. -/
theorem isGreatest_names {names : List PyStr} (h : Admissible names) :
    Unclamped (maxGlibcxxVersion names) ∧
    IsGreatest {v | ∃ s ∈ names, stringVersion (cString s) = .ok (some v)}
      (pack (maxGlibcxxVersion names)) := by
  have hunclamped := (maxPackedVersion_agrees h 0).2
  have hagrees := fun s hs => stringVersion_agrees (h.ascii s hs) (h.suffixes s hs)
  rcases foldl_max_nameTuple names (versionTuple 0 0 0) with ⟨_, hbound, hreached⟩
  rw [← maxGlibcxxVersion_eq] at hbound hreached
  -- The greatest tuple is that of a name that counts on the C side.
  have hname : ∃ s ∈ names, glibcxx <+: s ∧ nameTuple s = maxGlibcxxVersion names := by
    rcases h.versioned with ⟨s₀, hs₀, hstarts₀⟩
    have hzero : maxGlibcxxVersion names = versionTuple 0 0 0 →
        nameTuple s₀ = maxGlibcxxVersion names := fun hz =>
      le_antisymm (hbound s₀ hs₀) (hz ▸ zero_le_versionTuple _)
    rcases hreached with hz | ⟨s, hs, hr⟩
    · exact ⟨s₀, hs₀, hstarts₀, hzero hz⟩
    · rcases hagrees s hs with ⟨hstarts, _, _⟩ | ⟨_, _, hz⟩
      · exact ⟨s, hs, hstarts, hr.symm⟩
      · exact ⟨s₀, hs₀, hstarts₀, hzero (hr.trans hz)⟩
  refine ⟨hunclamped, ?_, ?_⟩
  · rcases hname with ⟨s, hs, hstarts, htuple⟩
    rcases hagrees s hs with ⟨_, hversion, _⟩ | ⟨hnot, _, _⟩
    · rw [htuple] at hversion
      exact ⟨s, hs, hversion⟩
    · exact absurd hstarts hnot
  -- Packing keeps the order of tuples that are not clamped.
  · rintro v ⟨s, hs, hv⟩
    rcases hagrees s hs with ⟨_, hversion, hu⟩ | ⟨_, hversion, _⟩
    · rw [hversion, Except.ok.injEq, Option.some.injEq] at hv
      rw [← hv]
      exact Nat.le_of_not_lt fun hc =>
        absurd ((pack_lt_pack hunclamped hu).mp hc) (not_lt.mpr (hbound s hs))
    · rw [hversion] at hv
      cases hv

end Names

section Files

open ElfTools

/-- The versions a file defines, however its sections are counted. -/
def definedVersions (m : Image) : Set Nat :=
  {v | ∃ i < sectionCount m, IsGnuVersionD m i ∧ ∃ k, OnChain m i k ∧
    ∃ l < m.value (verdefOffset m i k) vdCnt, nameVersion m (verdauxName m i k l) = .ok (some v)}

/-- With an ordinary count they are those of the reference. -/
theorem definedVersions_eq {m : Image} (h : m.value 0 m.cls.eShnum ≠ 0) :
    definedVersions m = referenceVersions m := by
  have hcount : sectionCount m = m.value 0 m.cls.eShnum := if_pos h
  unfold definedVersions referenceVersions
  rw [hcount]
  rfl

/-- A terminated string that decodes to ASCII text is that text. -/
theorem eq_cString_append {data : List UInt8} (hzero : 0 ∈ data) (hascii : Ascii (stringAt data)) :
    ∃ junk, data = cString (stringAt data) ++ junk := by
  rcases List.eq_append_cons_of_mem hzero with ⟨str, junk, hsplit, hstr⟩
  have hstring : stringAt data = Utf8.decode str := by
    unfold stringAt
    rw [if_pos hzero, hsplit, CString.text_append hstr]
  rw [hstring] at hascii ⊢
  refine ⟨junk, ?_⟩
  unfold cString
  rw [← (decode_eq_iff hascii str).mp rfl, hsplit, List.append_assoc, List.singleton_append]

/-- The C side makes of a name in a file what it makes of the string. -/
theorem nameVersion_stringAt {m : Image} {p : Nat} (hzero : 0 ∈ m.tail p)
    (hascii : Ascii (stringAt (m.tail p))) :
    nameVersion m p = stringVersion (cString (stringAt (m.tail p))) := by
  rcases eq_cString_append hzero hascii with ⟨junk, hjunk⟩
  have hterminated : 0 ∈ cString (stringAt (m.tail p)) :=
    List.mem_append_right _ (List.mem_singleton_self 0)
  rw [nameVersion_eq]
  conv_lhs => rw [hjunk]
  exact stringVersion_append hterminated junk

/-- A path under which the hook gets through the names of a file: a valid file
    with a section of version definitions, the last of which is section `i`. The
    objects of all sections can be made within the interpreter's limit, and no
    version has a number that is too long for `int`. -/
structure ReadableAt (w : World) (path : PyStr) (m : Image) (s : Stream) (depth i : Nat) :
    Prop where
  opened : OpenedAs m s
  read : w.versionNames path = readVersionNames depth s
  made : ∀ f, elfFile s = .ok f → stock f < depth ∧ ∀ j < sectionCount m, Builds f j
  last : lastNamed m = some i
  digits : ∀ name ∈ verdefNames m i, glibcxx <:+: name →
    ¬ Overlong w (name.drop glibcxx.length)

/-- The versions in the names of section `i`: `GLIBCXX_`, and one to three numbers
    with dots between them. -/
def spelledVersions (m : Image) (i : Nat) : Set VersionTuple :=
  {t | ∃ suffix, glibcxx ++ suffix ∈ verdefNames m i ∧ Spells suffix t}

section Readable

variable {w : World} {path : PyStr} {m : Image} {s : Stream} {depth i : Nat}
  (h : ReadableAt w path m s depth i)

include h

/-- The hook gets to see the names of the file. -/
theorem ReadableAt.versionNames_eq :
    w.versionNames path = .ok (some ((verdefNames m i).map .ok)) := by
  rcases elfFile_eq h.opened with ⟨f, stringtable, hopen, hf, htable, hnames⟩
  rcases h.made f hopen with ⟨hdepth, hbuilds⟩
  have hnum := h.opened.numSections_eq hf
  have hhere := (lastNamed_eq_some h.last).1
  rw [h.read, h.opened.readVersionNames_eq hopen hf htable hnames fun j hj => ?_]
  · unfold fileNames
    rw [h.last, Option.map_some]
  · exact (hbuilds j hj).returns_of_ne (getSection_done (eShoff_pos hnum (by omega))
      (hbuilds j hj).not_comesRound hdepth)

/-- It finds the version of them. -/
theorem ReadableAt.version :
    getGlibcxxVersions w path = .ok (maxGlibcxxVersion (verdefNames m i)) := by
  have hnames := h.versionNames_eq
  have hreturns : Returns (getGlibcxxVersions w path) := by
    rw [getGlibcxxVersions_returns_iff]
    -- None of the three ways for an exception is open.
    intro e hraises
    cases hraises with
    | opening e hopen => rw [hnames] at hopen; cases hopen
    | noSection hopen => rw [hnames] at hopen; cases hopen
    | item e before behind item hopen hbefore hitem =>
        rw [hnames, Except.ok.injEq, Option.some.injEq] at hopen
        have hmem : item ∈ (verdefNames m i).map .ok := by
          rw [hopen]
          simp
        rcases List.mem_map.mp hmem with ⟨name, hname, rfl⟩
        rcases hitem with hraise | ⟨name', hok, hwithin, hlong, _⟩
        · cases hraise
        · rw [← Except.ok.inj hok] at hlong hwithin
          exact h.digits name hname hwithin hlong
  rcases hreturns with ⟨version, hversion⟩
  rcases getGlibcxxVersions_eq_ok w path version hversion with ⟨names, hnames', hmax⟩
  rw [hnames, Except.ok.injEq, Option.some.injEq] at hnames'
  have hsame : verdefNames m i = names :=
    List.map_injective_iff.mpr (fun _ _ => Except.ok.inj) hnames'
  rw [hversion, hmax, hsame]

/-- The hook finds the greatest version in the names, or `0.0.0` if there is none
    above that. -/
theorem ReadableAt.version_greatest : ∃ t, getGlibcxxVersions w path = .ok t ∧
    IsGreatest (insert (versionTuple 0 0 0) (spelledVersions m i)) t := by
  rcases foldl_max_nameTuple (verdefNames m i) (versionTuple 0 0 0) with
    ⟨hstart, hbound, hreached⟩
  rw [← maxGlibcxxVersion_eq] at hstart hbound hreached
  refine ⟨_, h.version, ?_, ?_⟩
  · rcases hreached with hzero | ⟨name, hname, htuple⟩
    · exact Or.inl hzero
    · rw [htuple]
      -- A name is worth the version in it.
      rcases nameTuple_cases name with hzero | ⟨suffix, rfl, hspells⟩
      · exact Or.inl hzero
      · exact Or.inr ⟨suffix, hname, hspells⟩
  · rintro t (rfl | ⟨suffix, hname, hspells⟩)
    · exact hstart
    · rw [← nameTuple_spells hspells]
      exact hbound _ hname

end Readable

/-- A path under which the hook finds a library both sides can read: it is the
    only section of version definitions, and both sides make the same of its
    names. -/
structure LibraryAt (w : World) (path : PyStr) (m : Image) (s : Stream) (depth i : Nat) : Prop
    extends ReadableAt w path m s depth i where
  only : ∀ j < sectionCount m, IsGnuVersionD m j ↔ j = i
  names : Admissible (verdefNames m i)

variable {w : World} {path : PyStr} {m : Image} {s : Stream} {depth i : Nat}
  (h : LibraryAt w path m s depth i)

include h

theorem LibraryAt.here : i < sectionCount m :=
  (lastNamed_eq_some h.last).1

/-- The versions a file defines are those of its names. -/
theorem LibraryAt.definedVersions_eq_names : definedVersions m =
    {v | ∃ name ∈ verdefNames m i, stringVersion (cString name) = .ok (some v)} := by
  have htype := h.opened.typed i h.here ((h.only i h.here).mpr rfl)
  rcases h.opened.chain h.here htype with ⟨_, hdefs⟩
  -- Name by name the two sides read the same bytes.
  have hname : ∀ k < secInfo m i, ∀ l < m.value (verdefOffset m i k) vdCnt,
      nameVersion m (verdauxName m i k l) =
        stringVersion (cString (stringAt (m.tail (verdauxName m i k l)))) := by
    intro k hk l hl
    refine nameVersion_stringAt (hdefs.strings.terminated_at (hdefs.names k hk l hl)) ?_
    refine h.names.ascii _ (List.mem_flatMap.mpr ⟨k, List.mem_range.mpr hk, ?_⟩)
    exact List.mem_map.mpr ⟨l, List.mem_range.mpr hl, rfl⟩
  ext v
  unfold definedVersions verdefNames
  simp only [Set.mem_ofPred_eq, List.mem_flatMap, List.mem_map, List.mem_range]
  constructor
  · rintro ⟨j, hj, hgnu, k, hk, l, hl, hv⟩
    rw [(h.only j hj).mp hgnu] at hk hl hv
    rw [onChain_iff hdefs] at hk
    exact ⟨_, ⟨k, hk, l, hl, rfl⟩, (hname k hk l hl) ▸ hv⟩
  · rintro ⟨name, ⟨k, hk, l, hl, rfl⟩, hv⟩
    exact ⟨i, h.here, (h.only i h.here).mpr rfl, k, (onChain_iff hdefs k).mpr hk, l, hl,
      (hname k hk l hl).symm ▸ hv⟩

/-- It is the greatest version the file defines. -/
theorem LibraryAt.isGreatest : Unclamped (maxGlibcxxVersion (verdefNames m i)) ∧
    IsGreatest (definedVersions m) (pack (maxGlibcxxVersion (verdefNames m i))) := by
  rw [h.definedVersions_eq_names]
  exact isGreatest_names h.names

omit h in
/-- The C library reads a file the way of the format: no `ASSERT` fires, and its
    walk leads to the version of the file. -/
structure FollowsFormat (m : Image) : Prop where
  survives : ∀ fuel fd out, getLibstdcxxVersion fuel fd (.mapped m) out ≠ .error .assert
  agrees : WalkAgrees m

/-- In a well-formed file these are the versions of the reference. -/
theorem LibraryAt.isGreatest_reference (hwf : WellFormed m) :
    IsGreatest (referenceVersions m) (pack (maxGlibcxxVersion (verdefNames m i))) := by
  have hcount := hwf.table.1
  rw [← definedVersions_eq (by omega)]
  exact h.isGreatest.2

/-- A file that is read the way of the format is read for the version of its
    names. -/
theorem LibraryAt.reads (hwf : WellFormed m) (hfollows : FollowsFormat m) :
    Reads (.mapped m) (.version (pack (maxGlibcxxVersion (verdefNames m i)))) := by
  have hagrees := hfollows.agrees
  -- The walk gets through, and what it leads to has the same greatest element.
  have hwalks := hwf.walks_iff.mpr ⟨hagrees.entries, hagrees.longer⟩
  have hsections := hwf.sectionPasses hfollows.survives hwalks
  refine reads_mapped_iff.mpr ⟨⟨hwf.has_mag, fun _ => ⟨hwf.has_class, fun _ =>
    ⟨hwf.headerPasses hfollows.survives, hsections⟩⟩⟩, hwf.elf, hwf.native, ?_⟩
  rw [hwf.walkedVersions_eq hagrees.entries]
  exact isGreatest_of_isCofinalFor hagrees.noneMissed hagrees.noStray
    (h.isGreatest_reference hwf)

/-- Both sides find that version. -/
theorem LibraryAt.read_alike (hwf : WellFormed m) (hfollows : FollowsFormat m) : ∃ t,
    getGlibcxxVersions w path = .ok t ∧ Unclamped t ∧ Reads (.mapped m) (.version (pack t)) :=
  ⟨_, h.version, h.isGreatest.1, h.reads hwf hfollows⟩

/-- The two sides find the same version of a well-formed file exactly where the C
    library reads it the way of the format. -/
theorem reads_same_iff (hwf : WellFormed m) {t : VersionTuple}
    (ht : getGlibcxxVersions w path = .ok t) :
    Reads (.mapped m) (.version (pack t)) ↔ FollowsFormat m := by
  rw [← Except.ok.inj (h.version.symm.trans ht)]
  refine ⟨fun hread => ?_, h.reads hwf⟩
  rcases reads_mapped_iff.mp hread with ⟨hpasses, _, _, hv⟩
  rcases (scanImage_yields_iff 0).mpr hpasses with ⟨r, hr⟩
  have hsections := ((hpasses.2 hwf.elf).2 hwf.native).2
  have hwalks := hwf.walks_iff.mp fun j hj hversion => (hsections j hj).walk hversion
  -- The versions on the walk and those of the file have the same greatest one.
  have hnoStray := isCofinalFor_of_isGreatest hv (h.isGreatest_reference hwf)
  have hnoneMissed := isCofinalFor_of_isGreatest (h.isGreatest_reference hwf) hv
  rw [hwf.walkedVersions_eq hwalks.1] at hnoStray hnoneMissed
  exact ⟨ne_assert_of_yields hr, hwalks.1, hwalks.2, hnoStray, hnoneMissed⟩

end Files

section Sample

open ElfTools

/-- A process whose system has the sample library, and that ships the one that
    defines `GLIBCXX_3.5`. -/
def readingWorld : World :=
  { unloadedWorld with
    versionNames := fun path =>
      readVersionNames 1000 (if path = shippedLibstdcxx then newerStream else sampleStream) }

/-- The names in the two libraries are plain versions. -/
theorem sampleVerdefNames_admissible : ∀ names ∈
    [verdefNames (sampleLibrary false) 1, verdefNames newerLibrary 1], Admissible names ∧
      ∀ name ∈ names, ¬ Overlong readingWorld (name.drop glibcxx.length) := by
  have hnames : [verdefNames (sampleLibrary false) 1, verdefNames newerLibrary 1] =
      [["GLIBCXX_3.4".toList], ["GLIBCXX_3.5".toList]] := by
    decide +kernel
  have hreads : ∀ name ∈ ["GLIBCXX_3.4".toList, "GLIBCXX_3.5".toList],
      parseVersionLimited readingWorld (name.drop glibcxx.length) ≠ .error .valueError := by
    decide +kernel
  have hfour : Dotted ("3".toList ++ '.' :: "4".toList) (versionTuple 3 4 0) :=
    Dotted.minor (by decide) (by decide)
  have hfive : Dotted ("3".toList ++ '.' :: "5".toList) (versionTuple 3 5 0) :=
    Dotted.minor (by decide) (by decide)
  have hdigits : ∀ name ∈ ["GLIBCXX_3.4".toList, "GLIBCXX_3.5".toList],
      ¬ Overlong readingWorld (name.drop glibcxx.length) := fun name hname hlong =>
    hreads name hname ((parseVersionLimited_eq_error _ _ _).mpr ⟨rfl, hlong⟩)
  rw [hnames]
  intro names hmem
  rcases List.mem_pair.mp hmem with rfl | rfl
  · refine ⟨⟨by decide, fun s hs => ?_, "GLIBCXX_3.4".toList, by simp, by decide⟩, fun s hs => ?_⟩
    · rw [List.mem_singleton.mp hs]
      exact SuffixFits.of_dotted hfour ⟨by decide, by decide, by decide⟩
    · exact hdigits s (by simp [List.mem_singleton.mp hs])
  · refine ⟨⟨by decide, fun s hs => ?_, "GLIBCXX_3.5".toList, by simp, by decide⟩, fun s hs => ?_⟩
    · rw [List.mem_singleton.mp hs]
      exact SuffixFits.of_dotted hfive ⟨by decide, by decide, by decide⟩
    · exact hdigits s (by simp [List.mem_singleton.mp hs])

theorem readingWorld_system :
    LibraryAt readingWorld systemLibstdcxx (sampleLibrary false) sampleStream 1000 1 where
  opened := sampleStream_opened
  read := rfl
  made f hf := by
    have hcount : sectionCount (sampleLibrary false) = 3 := by
      decide +kernel
    rw [hcount]
    exact sampleStreams_made sampleStream (by simp) f hf
  last := by decide +kernel
  only := by decide +kernel
  names := (sampleVerdefNames_admissible _ (by simp)).1
  digits name hname _ := (sampleVerdefNames_admissible _ (by simp)).2 name hname

/-- What the hook finds in the library of the system is the version in its name. -/
theorem readingWorld_version :
    getGlibcxxVersions readingWorld systemLibstdcxx = .ok (versionTuple 3 4 0) ∧
    IsGreatest (insert (versionTuple 0 0 0) (spelledVersions (sampleLibrary false) 1))
      (versionTuple 3 4 0) := by
  rcases ReadableAt.version_greatest readingWorld_system.toReadableAt with ⟨t, ht, hgreatest⟩
  have hversion : getGlibcxxVersions readingWorld systemLibstdcxx = .ok (versionTuple 3 4 0) := by
    decide +kernel
  rw [Except.ok.inj (ht.symm.trans hversion)] at hgreatest
  exact ⟨hversion, hgreatest⟩

theorem singleLibrary_followsFormat : FollowsFormat (sampleLibrary false) :=
  ⟨sampleLibrary_noAssert false, singleLibrary_agrees⟩

/-- The C library finds the same version in it. -/
theorem readingWorld_readsSame : Reads (.mapped (sampleLibrary false))
    (.version (pack (versionTuple 3 4 0))) :=
  (reads_same_iff readingWorld_system (sampleLibrary_wellFormed false)
    (by decide +kernel)).mpr singleLibrary_followsFormat

end Sample

section Decisions

variable {w : World} {system shipped : PyStr} {mSystem mShipped : Image}
  {sSystem sShipped : ElfTools.Stream} {depth iSystem iShipped : Nat}

/-- The audit library and the hook decide alike: as long as no library above the
    shipped one was let through, the one hands out the shipped library exactly
    when the other loads it. -/
theorem decisions_agree (hsystem : LibraryAt w system mSystem sSystem depth iSystem)
    (hshipped : LibraryAt w shipped mShipped sShipped depth iShipped)
    (hwfSystem : WellFormed mSystem) (hwfShipped : WellFormed mShipped)
    (hfollowsSystem : FollowsFormat mSystem) (hfollowsShipped : FollowsFormat mShipped)
    (hunloaded : UnloadedProcess w) (hfile : systemFile w = some system)
    (hisfile : w.isfile shipped = true) (hloads : (w.cdll .load (some shipped)).isSome = true)
    (p : Process) (fuel : Nat) (s₀ s s' : AuditState) (hooks : List HookCall) (b : PathBuffer)
    (name : Path) (flag : Nat) (a : Answer) (hinit : laVersion p fuel {} = .ok s₀)
    (hrun : Runs (hook p fuel) hooks s₀ s) (hheld : s.shippedLibstdcxxPath = some b)
    (hb : p.files b.path = some (.mapped mShipped))
    (hnone : ∀ v ∈ examinedVersions p hooks, ∀ S, Reads (.mapped mShipped) (.version S) → v ≤ S)
    (hex : Examines p name flag (.mapped mSystem))
    (hcall : laObjsearch p fuel name flag s = .ok (a, s')) :
    ∃ loaded, checkAndLoadCompatibleLibstdcxxVersion w (some shipped) = .ok loaded ∧
      (a = .shipped b ↔ loaded = some shipped) ∧ (a = .name ↔ loaded = none) := by
  rcases hsystem.read_alike hwfSystem hfollowsSystem with ⟨v, hv, hvu, hreadSystem⟩
  rcases hshipped.read_alike hwfShipped hfollowsShipped with ⟨S, hS, hSu, hreadShipped⟩
  -- The version compared with is still that of the shipped library.
  rcases held_spec hinit hrun hheld with ⟨file, S', hfile', hread', hhold⟩
  rw [hb, Option.some.injEq] at hfile'
  rw [← hfile'] at hread'
  have hS' : S' = pack S := Reading.version.inj (hread'.unique hreadShipped)
  have hversion : s.shippedGlibcxxVersion = pack S := by
    rw [← hS']
    refine le_antisymm ?_ (hhold.greatest.2 (Set.mem_insert S' _))
    rcases Set.mem_insert_iff.mp hhold.greatest.1 with heq | hmem
    · exact heq.le
    · exact hnone _ hmem _ hread'
  have hvalid := valid_of_lt (hhold.version_lt hread'.version_lt)
  -- The answer is the comparison of the packed versions, the hook's that of the tuples.
  rcases laObjsearch_examines hheld hvalid hex hcall with ⟨x, hx, ha, _, _⟩
  rw [hx.unique hreadSystem, hversion] at ha
  simp only [Reading.answer] at ha
  refine ⟨if v < S then some shipped else none, ?_, ?_⟩
  · rw [checkAndLoad_found hunloaded hisfile hfile,
      compareVersions_readable ⟨hisfile, hS, hloads⟩ hv]
  · by_cases hlt : v < S
    · rw [if_pos ((pack_lt_pack hvu hSu).mpr hlt)] at ha
      simp [ha, hlt]
    · rw [if_neg fun hc => hlt ((pack_lt_pack hvu hSu).mp hc)] at ha
      simp [ha, hlt]

end Decisions

section Sample

open ElfTools

theorem newerLibrary_chain : VersionDefs newerLibrary 1 1 where
  link := by decide +kernel
  strings := ⟨by decide +kernel, by decide +kernel, by decide +kernel⟩
  empty := fun h => absurd h (by decide)
  named := by decide +kernel
  definitions := by decide +kernel
  more := by decide +kernel
  last := by decide +kernel
  entries := by decide +kernel
  names := by decide +kernel

theorem newerLibrary_valid : GabiValid newerLibrary where
  header := by decide +kernel
  elf := by decide +kernel
  native := by decide +kernel
  noTable := by decide +kernel
  table := by decide +kernel
  null := by decide +kernel
  sections := by decide +kernel
  namesTable := fun _ =>
    ⟨by decide +kernel, by decide +kernel, by decide +kernel, by decide +kernel⟩
  names := by decide +kernel
  versions := by
    have honly : ∀ i < sectionCount newerLibrary,
        secType newerLibrary i = shtGnuVerdef → i = 1 ∧ secInfo newerLibrary i = 1 := by
      decide +kernel
    intro _ i hi htype
    rw [(honly i hi htype).2, (honly i hi htype).1]
    exact newerLibrary_chain

theorem newerLibrary_wellFormed : WellFormed newerLibrary where
  header := by decide +kernel
  elf := by decide +kernel
  native := by decide +kernel
  table := by decide +kernel
  namesTable := by decide +kernel
  sections := by decide +kernel
  names := by decide +kernel
  versions := by
    have honly : ∀ i < newerLibrary.value 0 newerLibrary.cls.eShnum,
        IsGnuVersionD newerLibrary i → i = 1 := by
      decide +kernel
    intro i hi hname
    rw [honly i hi hname]
    exact ⟨by decide +kernel, 1, newerLibrary_chain⟩

theorem newerLibrary_followsFormat : FollowsFormat newerLibrary := by
  have hscan : scanImage 1 newerLibrary 0 = .ok (.success, 0x030500) := by
    decide +kernel
  have hname : ∀ i < newerLibrary.value 0 newerLibrary.cls.eShnum,
      IsGnuVersionD newerLibrary i → i = 1 := by
    decide +kernel
  refine ⟨ne_assert_of_yields ⟨1, hscan⟩, ?_⟩
  refine walkAgrees_of_single newerLibrary_wellFormed (fun i hi hi' k hk => ?_) (by decide +kernel)
  rw [hname i hi hi', onChain_iff newerLibrary_chain, Nat.lt_one_iff] at hk
  rw [hname i hi hi', hk]
  decide +kernel

theorem readingWorld_shipped :
    LibraryAt readingWorld shippedLibstdcxx newerLibrary newerStream 1000 1 where
  opened := {
    bytes := rfl
    valid := newerLibrary_valid
    table := by decide +kernel
    encoding := by decide +kernel
    entrySize := by decide +kernel
    plain := by decide +kernel
    typed := by decide +kernel }
  read := rfl
  made f hf := by
    have hcount : sectionCount newerLibrary = 3 := by
      decide +kernel
    rw [hcount]
    exact sampleStreams_made newerStream (by simp) f hf
  last := by decide +kernel
  only := by decide +kernel
  names := (sampleVerdefNames_admissible _ (by simp)).1
  digits name hname _ := (sampleVerdefNames_admissible _ (by simp)).2 name hname

/-- The sample process, with the newer library as the one it ships. -/
def upgradedProcess : Process :=
  { sampleProcess with
    files := fun path =>
      if path = sampleShipped then some (.mapped newerLibrary)
      else if path = sampleOlder then some (.mapped (sampleLibrary false))
      else none
    files_target := by
      intro path m h
      by_cases hshipped : path = sampleShipped
      · rw [if_pos hshipped] at h
        rw [← OpenFile.mapped.inj (Option.some.inj h)]
        rfl
      · rw [if_neg hshipped] at h
        by_cases holder : path = sampleOlder
        · rw [if_pos holder] at h
          rw [← OpenFile.mapped.inj (Option.some.inj h)]
          rfl
        · rw [if_neg holder] at h
          cases h }

/-- The path it keeps. -/
def upgradedBuffer : PathBuffer :=
  ⟨0x20000, sampleShipped ++ [0]⟩

/-- What `la_version` leaves behind in it. -/
def upgradedInit : AuditState :=
  (laVersion upgradedProcess 2 {}).toOption.getD {}

/-- The state after one library was asked for. -/
def upgradedAfter : AuditState :=
  (hook upgradedProcess 2 upgradedInit (.objsearch sampleOlder 0x40)).toOption.getD {}

/-- Asked for the older library, the process hands out its own, and the hook
    loads it as well. -/
theorem upgradedProcess_agrees :
    laObjsearch upgradedProcess 2 sampleOlder 0x40 upgradedInit =
      .ok (.shipped upgradedBuffer, upgradedAfter) ∧
    checkAndLoadCompatibleLibstdcxxVersion readingWorld (some shippedLibstdcxx) =
      .ok (some shippedLibstdcxx) := by
  have hcall : laObjsearch upgradedProcess 2 sampleOlder 0x40 upgradedInit =
      .ok (.shipped upgradedBuffer, upgradedAfter) := by
    decide +kernel
  have hunloaded : UnloadedProcess readingWorld :=
    ⟨rfl, by decide, fun _ _ => rfl⟩
  have hex : Examines upgradedProcess sampleOlder 0x40 (.mapped (sampleLibrary false)) :=
    ⟨by decide, by decide, by rfl⟩
  rcases decisions_agree readingWorld_system readingWorld_shipped (sampleLibrary_wellFormed false)
    newerLibrary_wellFormed singleLibrary_followsFormat newerLibrary_followsFormat hunloaded
    (by decide +kernel) (by decide) (by decide) upgradedProcess 2 upgradedInit upgradedInit
    upgradedAfter [] upgradedBuffer sampleOlder 0x40 _ (by decide +kernel) rfl (by decide +kernel)
    (by rfl) (fun v hv => absurd hv (by simp [examinedVersions])) hex hcall
    with ⟨loaded, hloaded, hpath, _⟩
  rw [hpath.mp rfl] at hloaded
  exact ⟨hcall, hloaded⟩

end Sample

end AuditLibstdcxx
