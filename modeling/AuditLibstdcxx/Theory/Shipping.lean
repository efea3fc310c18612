import AuditLibstdcxx.Theory.FindHighest
import AuditLibstdcxx.Theory.Loading
import AuditLibstdcxx.Theory.Prefix

/-!
# From the Build to the Process

The build looks for the highest `libstdc++.so.6` there is and ships it, and the
process that ships it loads no older one. Put together, no process loads a
library older than any that the build looked at.

The two ends meet in the version of one file. At build time it goes through the
text that the tool prints and CMake reads back, and at run time it is read from a
copy of the file, which the loader has mapped somewhere else.

## Main definitions

* `RunsTool`: The tool that CMake calls is that of this repository.
* `Copy`: The same file, mapped somewhere else.

## Theorems

* `reportedVersion_of_reads`: What CMake gets to know of a library with a version.
* `reads_of_reportedVersion`: Where a version CMake knows of comes from.
* `ships_highest`: No process loads a library older than those of the build.
-/

namespace AuditLibstdcxx

open Checked SepList FirstHighest

section Tool

variable {w : CMakeWorld} {files : CMakeStr → Option OpenFile} {lib : CMakeStr} {file : OpenFile}

/-- The tool that CMake calls is that of this repository, with these files: what
    it prints is what `main` prints, and it always comes to its end. -/
def RunsTool (w : CMakeWorld) (files : CMakeStr → Option OpenFile) : Prop :=
  ∀ lib, ∃ fuel fd, toolMain fuel fd (files lib) ≠ .error .outOfFuel ∧
    versionToolOutput (w.versionResult lib) = standardOutput (toolMain fuel fd (files lib))

/-- The text of a version is never empty, and one of only one version. -/
theorem hex08_injective {u v : Nat} (hu : u < 2 ^ 32) (hv : v < 2 ^ 32) (h : hex08 u = hex08 v) :
    u = v := by
  rw [← hex08_value u hu, h, hex08_value v hv]

/-- What the tool prints is a version or nothing. -/
theorem versionToolOutput_eq (w : CMakeWorld) (lib : CMakeStr) :
    (versionToolOutput (w.versionResult lib) = [] ∧ reportedVersion w lib = 0) ∨
    (versionToolOutput (w.versionResult lib) = hex08 (reportedVersion w lib) ++ ['\n'] ∧
      reportedVersion w lib < 2 ^ 32) := by
  unfold reportedVersion
  cases hresult : w.versionResult lib with
  | none => exact Or.inl ⟨rfl, rfl⟩
  | some r =>
      by_cases herror : r.error = .success
      · simp only [versionToolOutput, if_pos herror]
        exact Or.inr ⟨trivial, w.versionResult_lt lib r hresult⟩
      · simp only [versionToolOutput, if_neg herror]
        exact Or.inl ⟨trivial, trivial⟩

/-- `main` prints the version of a file, and of nothing else. -/
theorem toolMain_eq_ok {fuel fd : Nat} {o : Option OpenFile} {output : CMakeStr}
    (h : toolMain fuel fd o = .ok output) :
    ∃ file v, o = some file ∧ Reads file (.version v) ∧ output = hex08 v ++ ['\n'] := by
  cases o with
  | none => cases h
  | some file =>
      rcases (bind_eq_ok _ _ _).mp h with ⟨r, hr, h⟩
      rcases (require_bind_eq_ok _ _ _).mp h with ⟨_, h⟩
      rcases (require_bind_eq_ok _ _ _).mp h with ⟨hsuccess, h⟩
      rcases reads_of_ok hr with ⟨x, hx, herror, hvalue⟩
      rw [hsuccess] at herror
      cases x with
      | version v =>
          refine ⟨file, v, rfl, hx, ?_⟩
          rw [← Except.ok.inj h, hvalue]
          rfl
      | unreadable => cases herror
      | otherClass => cases herror

/-- It does print the version of a file that has one. -/
theorem toolMain_of_reads {fuel fd v : Nat} (hread : Reads file (.version v))
    (hends : toolMain fuel fd (some file) ≠ .error .outOfFuel) :
    toolMain fuel fd (some file) = .ok (hex08 v ++ ['\n']) := by
  rcases hread.yields fd 0 with ⟨calls, hyields⟩
  have hsettled := settled_getLibstdcxxVersion fd 0 file
  -- The tool comes to its end, and on a file with an answer only fuel could stop it.
  cases hr : getLibstdcxxVersion fuel fd file 0 with
  | error e =>
      by_cases he : e = .outOfFuel
      · rw [he] at hr
        exact absurd ((bind_eq_error _ _ _).mpr (Or.inl hr)) hends
      · exact absurd hr (hsettled.ne_error_of_yields hyields he fuel)
  | ok r =>
      have hsame := hsettled.yields_unique ⟨fuel, hr⟩ hyields
      refine (bind_eq_ok _ _ _).mpr ⟨r, hr, ?_⟩
      rw [hsame]
      rfl

/-- CMake gets to know the version of a library that has one. -/
theorem reportedVersion_of_reads (hw : RunsTool w files) (hfile : files lib = some file) {v : Nat}
    (hread : Reads file (.version v)) : reportedVersion w lib = v := by
  rcases hw lib with ⟨fuel, fd, hends, hprints⟩
  rw [hfile] at hends hprints
  rw [toolMain_of_reads hread hends] at hprints
  have hlt := hread.version_lt
  rcases versionToolOutput_eq w lib with ⟨hnothing, _⟩ | ⟨htext, hbound⟩
  · rw [hnothing] at hprints
    exact absurd hprints.symm (List.append_ne_nil_of_right_ne_nil _ (List.cons_ne_nil _ _))
  · rw [htext] at hprints
    exact hex08_injective hbound (by omega) (List.append_cancel_right hprints)

/-- A version that CMake knows of is that of a file. -/
theorem reads_of_reportedVersion (hw : RunsTool w files) (hpos : 0 < reportedVersion w lib) :
    ∃ file, files lib = some file ∧ Reads file (.version (reportedVersion w lib)) := by
  rcases hw lib with ⟨fuel, fd, _, hprints⟩
  rcases versionToolOutput_eq w lib with ⟨_, hzero⟩ | ⟨htext, hbound⟩
  · omega
  · rw [htext] at hprints
    cases hmain : toolMain fuel fd (files lib) with
    -- An aborted tool prints nothing, but there is a text.
    | error e =>
        rw [hmain] at hprints
        exact absurd hprints (List.append_ne_nil_of_right_ne_nil _ (List.cons_ne_nil _ _))
    | ok output =>
        rcases toolMain_eq_ok hmain with ⟨file, v, hfile, hread, houtput⟩
        rw [hmain, houtput] at hprints
        have hlt := hread.version_lt
        rw [hex08_injective hbound (by omega) (List.append_cancel_right hprints)]
        exact ⟨file, hfile, hread⟩

end Tool

/-- The same file, mapped somewhere else. -/
structure Copy (m m' : Image) : Prop where
  target : m'.target = m.target
  bytes : m'.bytes = m.bytes
  here : sizeofVerdef ≤ m.mapped
  there : sizeofVerdef ≤ m'.mapped

/-- A copy has no other version. -/
theorem Copy.version_eq {m m' : Image} (h : Copy m m') {u v : Nat}
    (hu : Reads (.mapped m) (.version u)) (hv : Reads (.mapped m') (.version v)) : u = v := by
  have hextends : Extends m m' := ⟨h.target, h.bytes ▸ List.prefix_rfl⟩
  have hplaced : Placed m m' := by
    refine ⟨h.here, h.there, ?_⟩
    have hfits := m.fits
    unfold Image.size
    rwa [h.bytes]
  exact Reading.version.inj (hextends.reads_unique hplaced hu hv)

/-- The library that the build finds has a version, and none that was looked at
    has a higher one. -/
theorem found_highest {w : CMakeWorld} {files : CMakeStr → Option OpenFile} (hw : RunsTool w files)
    (optimalLibstdcxx : CMakeStr) (l : PathList) {r : HighestResult}
    (hr : findHighestLibstdcxx w optimalLibstdcxx (encode semicolon l.paths) = r)
    (hfound : r.value ≠ notFound optimalLibstdcxx) :
    ∃ file v, files r.value = some file ∧ Reads file (.version v) ∧ 0 < v ∧
      ∀ lib ∈ r.considered, ∀ file' u, files lib = some file' →
        Reads file' (.version u) → u ≤ v := by
  rcases value_spec w optimalLibstdcxx l rfl with ⟨hnot, _⟩ | ⟨_, hhighest⟩
  · rw [hr] at hnot
    exact absurd hnot hfound
  · rw [hr] at hhighest
    rcases hhighest with ⟨before, behind, hsplit, hpos, hbefore, hbehind⟩
    rcases reads_of_reportedVersion hw hpos with ⟨file, hfile, hread⟩
    refine ⟨file, _, hfile, hread, hpos, fun lib hlib file' u hfile' hu => ?_⟩
    rw [← reportedVersion_of_reads hw hfile' hu]
    rw [hsplit] at hlib
    rcases List.mem_append.mp hlib with hmem | hmem
    · exact (hbefore lib hmem).le
    · rcases List.mem_cons.mp hmem with rfl | hmem
      · exact le_rfl
      · exact hbehind lib hmem

/-- A process that ships the library which the build found loads none that is
    older than any library the build looked at, until the loader is done. -/
theorem ships_highest (w : CMakeWorld) (files : CMakeStr → Option OpenFile)
    (optimalLibstdcxx : CMakeStr) (l : PathList) (m m' : Image) (p : Process) (b : PathBuffer)
    (fuel fuel' : Nat) (s₀ t t' : AuditState) (events : List LoadEvent) (cs : List Candidate)
    (loaded : Path) (hw : RunsTool w files)
    (hfound : (findHighestLibstdcxx w optimalLibstdcxx (encode semicolon l.paths)).value ≠
      notFound optimalLibstdcxx)
    (hfile : files (findHighestLibstdcxx w optimalLibstdcxx (encode semicolon l.paths)).value =
      some (.mapped m))
    (hcopy : Copy m m') (hships : p.files b.path = some (.mapped m'))
    (hinit : laVersion p fuel {} = .ok s₀) (hb : s₀.shippedLibstdcxxPath = some b)
    (hrun : Runs (load p fuel) events s₀ t) (hends : ∀ e ∈ events, ¬ e.IsEnd)
    (hrequest : request p fuel' cs t = .ok (some loaded, t')) :
    ∃ file v, p.files loaded = some file ∧ Reads file (.version v) ∧
      ∀ lib ∈ (findHighestLibstdcxx w optimalLibstdcxx (encode semicolon l.paths)).considered,
        ∀ file' u, files lib = some file' → Reads file' (.version u) → u ≤ v := by
  rcases found_highest hw optimalLibstdcxx l rfl hfound with
    ⟨file, S, hfile', hread, hpos, hhighest⟩
  rw [hfile] at hfile'
  rw [← Option.some.inj hfile'] at hread
  -- The version the process starts with is that of the copy it ships.
  have hS : s₀.shippedGlibcxxVersion = S := by
    rcases laVersion_spec hinit with ⟨b', file, v, hb', hv, hopens, hv', _⟩ | ⟨hnone, _, _⟩
    · rw [Option.some.inj (hb'.symm.trans hb), hships] at hopens
      rw [← Option.some.inj hopens] at hv'
      rw [hv]
      exact (hcopy.version_eq hread hv').symm
    · rw [hnone] at hb
      cases hb
  rcases runs_loading hinit hb (by omega) hrun hends with
    ⟨hloading, hoff, shipped, hopens, hshipped⟩
  rcases hloading.not_older hoff hopens hshipped hrequest with ⟨file, v, hloaded, hv, hle, _⟩
  refine ⟨file, v, hloaded, hv, fun lib hlib file' u hfile' hu => ?_⟩
  have hu' := hhighest lib hlib file' u hfile' hu
  omega

section Sample

/-- The directory of the library that is listed. -/
def listedDirectory : CMakeStr := "/opt/lib".toList

/-- The library in it. -/
def listedLibrary : CMakeStr := "/opt/lib/libstdc++.so.6".toList

/-- Two copies of the sample library, one of them in a default directory. -/
def buildFiles (lib : CMakeStr) : Option OpenFile :=
  if lib = listedLibrary ∨ lib = defaultLibrary then some (.mapped (sampleLibrary false)) else none

/-- A system where the tool of this repository is run on these files. -/
def buildWorld : CMakeWorld where
  __ := defaultOnlyWorld
  findLibrary path := if path = listedDirectory then some listedLibrary else none
  versionResult lib :=
    if lib = listedLibrary ∨ lib = defaultLibrary then some ⟨.success, 0x030400, []⟩ else none
  findLibrary_path path lib h := by
    by_cases hpath : path = listedDirectory
    · rw [if_pos hpath] at h
      rw [← Option.some.inj h]
      decide +kernel
    · rw [if_neg hpath] at h
      cases h
  versionResult_lt lib r h := by
    by_cases hlib : lib = listedLibrary ∨ lib = defaultLibrary
    · rw [if_pos hlib] at h
      rw [← Option.some.inj h]
      decide
    · rw [if_neg hlib] at h
      cases h

/-- One directory is listed. -/
def listedPathList : PathList where
  paths := [listedDirectory]
  ne_nil := by decide
  noSep := by decide
  noDefault_once := by decide
  noCompiler_once := by decide

theorem buildWorld_runsTool : RunsTool buildWorld buildFiles := by
  intro lib
  refine ⟨1, 3, ?_⟩
  have hsample : toolMain 1 3 (some (.mapped (sampleLibrary false))) =
      .ok (hex08 0x030400 ++ ['\n']) := by
    decide +kernel
  unfold buildFiles buildWorld
  by_cases hlib : lib = listedLibrary ∨ lib = defaultLibrary
  · simp only [if_pos hlib, hsample]
    exact ⟨ok_ne_error _ _, rfl⟩
  · simp only [if_neg hlib]
    exact ⟨by decide, rfl⟩

/-- The sample process ships what this build finds, and loads nothing older. -/
theorem buildWorld_ships : ∃ file v, sampleProcess.files sampleNewer = some file ∧
    Reads file (.version v) ∧ 0x030400 ≤ v := by
  have hvalue : (findHighestLibstdcxx buildWorld "LIBSTDCXXSO_PATH".toList
      (encode semicolon listedPathList.paths)).value = listedLibrary := by
    decide +kernel
  have hconsidered : (findHighestLibstdcxx buildWorld "LIBSTDCXXSO_PATH".toList
      (encode semicolon listedPathList.paths)).considered = [listedLibrary, defaultLibrary] := by
    decide +kernel
  have hrequest : request sampleProcess 2 [⟨sampleNewer, 0x40, by decide⟩] sampleInit =
      .ok (some sampleNewer, loadedAfter [newerRequest]) := by
    decide +kernel
  have hcopy : Copy (sampleLibrary false) (sampleLibrary false) :=
    ⟨rfl, rfl, by decide, by decide⟩
  rcases ships_highest buildWorld buildFiles "LIBSTDCXXSO_PATH".toList listedPathList
    (sampleLibrary false) (sampleLibrary false) sampleProcess ⟨0x20000, sampleShipped ++ [0]⟩ 2 2
    sampleInit sampleInit (loadedAfter [newerRequest]) [] [⟨sampleNewer, 0x40, by decide⟩]
    sampleNewer buildWorld_runsTool (by rw [hvalue]; decide) (by rw [hvalue]; rfl) hcopy (by rfl)
    sampleProcess_init rfl rfl (fun e he => absurd he List.not_mem_nil) hrequest with
    ⟨file, v, hfile, hv, hle⟩
  rw [hconsidered] at hle
  exact ⟨file, v, hfile, hv, hle listedLibrary List.mem_cons_self _ _ rfl singleLibrary_reads⟩

end Sample

end AuditLibstdcxx
