import AuditLibstdcxx.Core.PyLookup
import AuditLibstdcxx.Theory.PyShipped

/-!
# What the Lookup Tells the Hook

A path goes from one process to the other as a line of text. It arrives as it is
unless there is the end of a line in it, which may be any that `str.splitlines`
knows, or white space at one of its ends. What arrives then is shorter, and the
hook takes it for the path of a file all the same.

## Main definitions

* `LoadsLibrary`: The library that the other process loads.
* `arriving`: What the hook is told of a path.
* `PlainLine`: A path that is left as it is.

## Theorems

* `arriving_eq_self_iff`: When a path is left as it is.
* `runLookup_eq_ok`: When the other process answers.
* `lookup_arrives_iff`: When the hook is told the path of the library.
* `shippedWins_lookup_iff`: When the newer library is the one that is loaded.
-/

namespace AuditLibstdcxx

open Checked Exceptions Newlines

/-- The library that a process loads under the name of the C++ library has this
    path in its link map. -/
def LoadsLibrary (w : World) (path : PyStr) : Prop :=
  w.isLinux = true ∧ ∃ handle, w.cdll .load (w.findLibrary stdcxx) = some handle ∧
    getCdllLibraryPath w handle = .ok path

/-- A path that is left as it is on its way through a line of text. -/
structure PlainLine (path : PyStr) : Prop where
  line : ∀ c ∈ path, isLineBreak c = false
  start : ∀ h : 0 < path.length, ¬isPySpace path[0] = true
  finish : ∀ h : path ≠ [], ¬isPySpace (path.getLast h) = true

/-- What arrives of a path. -/
def arriving (path : PyStr) : PyStr :=
  strip (firstLine path)

variable {w child : World} {shipped path name : PyStr} {s : VersionTuple}

/-! ### One Line -/

/-- The end of the line is no part of it, whatever it is read as. -/
theorem firstLine_universalNewlines (path : PyStr) :
    firstLine (universalNewlines (path ++ ['\n'])) = firstLine path := by
  unfold firstLine
  rw [takeWhile_universalNewlines _ (by decide) (by decide)]
  induction path with
  | nil => rfl
  | cons c path ih => rw [List.cons_append, List.takeWhile_cons, List.takeWhile_cons, ih]

/-- A path that does not become shorter has nothing that is cut off. -/
theorem arriving_eq_self_iff (path : PyStr) : arriving path = path ↔ PlainLine path := by
  have hline := List.takeWhile_prefix (l := path) (fun c => !isLineBreak c)
  have hstart := List.dropWhile_suffix (l := firstLine path) isPySpace
  have hfinish := List.rdropWhile_prefix isPySpace ((firstLine path).dropWhile isPySpace)
  constructor
  · intro h
    -- Each cut leaves a part of the text, and no part of it is as long as the whole.
    have hlength : path.length ≤ ((firstLine path).dropWhile isPySpace).length :=
      (congrArg List.length h).ge.trans hfinish.length_le
    have hfirst : firstLine path = path :=
      hline.eq_of_length_le (hlength.trans hstart.length_le)
    rw [hfirst] at hstart hlength
    have hdrop : path.dropWhile isPySpace = path := hstart.eq_of_length_le hlength
    have hrdrop : path.rdropWhile isPySpace = path := by
      rwa [arriving, hfirst, strip, hdrop] at h
    refine ⟨fun c hc => ?_, List.dropWhile_eq_self_iff.mp hdrop, ?_⟩
    · simpa using List.takeWhile_eq_self_iff.mp hfirst c hc
    · exact List.rdropWhile_eq_self_iff.mp hrdrop
  · intro h
    have hfirst : firstLine path = path :=
      List.takeWhile_eq_self_iff.mpr fun c hc => by rw [h.line c hc]; rfl
    rw [arriving, hfirst, strip, List.dropWhile_eq_self_iff.mpr h.start]
    exact List.rdropWhile_eq_self_iff.mpr h.finish

/-! ### Two Processes -/

/-- The other process prints the path of the library that it loads. -/
theorem lookupMain_eq_ok (child : World) (output : PyStr) :
    lookupMain child = .ok output ↔ ∃ name, LoadsLibrary child name ∧ output = name ++ ['\n'] := by
  unfold lookupMain LoadsLibrary
  cases hlinux : child.isLinux with
  | false => simp
  | true =>
      rw [if_neg (by decide), catching_eq_ok]
      cases hhandle : child.cdll .load (child.findLibrary stdcxx) with
      | none => simp
      | some handle =>
          simp only [reduceCtorEq, and_false, exists_false, or_false, bind_eq_ok]
          constructor
          · rintro ⟨name, hname, houtput⟩
            exact ⟨name, ⟨trivial, handle, rfl, hname⟩, (Except.ok.inj houtput).symm⟩
          · rintro ⟨name, ⟨_, handle', hsame, hname⟩, rfl⟩
            cases hsame
            exact ⟨name, hname, rfl⟩

theorem runLookup_eq_ok (child : World) (output : PyStr) :
    runLookup child = .ok output ↔
      ∃ name, LoadsLibrary child name ∧ output = universalNewlines (name ++ ['\n']) := by
  unfold runLookup
  constructor
  · intro h
    cases hmain : lookupMain child with
    | error e => simp [hmain] at h
    | ok printed =>
        rcases (lookupMain_eq_ok child printed).mp hmain with ⟨name, hname, rfl⟩
        rw [hmain] at h
        exact ⟨name, hname, (Except.ok.inj h).symm⟩
  · rintro ⟨name, hname, rfl⟩
    rw [(lookupMain_eq_ok child _).mpr ⟨name, hname, rfl⟩]

theorem printedPath_universalNewlines (name : PyStr) :
    printedPath (universalNewlines (name ++ ['\n'])) = some (arriving name) := by
  rw [printedPath, if_neg (universalNewlines_ne_nil (by simp)), firstLine_universalNewlines,
    arriving]

/-- The hook is told what arrives of the path. -/
theorem systemFromSubprocess_lookup (hrun : w.lookupOutput = runLookup child)
    (path : Option PyStr) : systemFromSubprocess w = .ok path ↔
      ∃ name, LoadsLibrary child name ∧ path = some (arriving name) := by
  rw [systemFromSubprocess_eq_ok, hrun]
  constructor
  · rintro ⟨output, houtput, rfl⟩
    rcases (runLookup_eq_ok child output).mp houtput with ⟨name, hname, rfl⟩
    exact ⟨name, hname, printedPath_universalNewlines name⟩
  · rintro ⟨name, hname, rfl⟩
    exact ⟨_, (runLookup_eq_ok child _).mpr ⟨name, hname, rfl⟩, printedPath_universalNewlines name⟩

theorem LoadsLibrary.unique {name' : PyStr} (h : LoadsLibrary w name) (h' : LoadsLibrary w name') :
    name = name' := by
  rcases h with ⟨_, handle, hhandle, hname⟩
  rcases h' with ⟨_, handle', hhandle', hname'⟩
  cases hhandle.symm.trans hhandle'
  exact Except.ok.inj (hname.symm.trans hname')

/-- The file of the system's library is the one whose path arrives. -/
theorem systemFile_lookup (hrun : w.lookupOutput = runLookup child) :
    systemFile w = some path ↔ w.findLibrary stdcxx ≠ none ∧
      ∃ name, LoadsLibrary child name ∧ path = arriving name ∧ w.isfile path = true := by
  unfold systemFile
  cases hlibrary : w.findLibrary stdcxx with
  | none => simp
  | some library =>
      constructor
      · intro h
        cases houtput : w.lookupOutput with
        | error e => simp [houtput] at h
        | ok output =>
            simp only [houtput] at h
            rcases (runLookup_eq_ok child output).mp (hrun ▸ houtput) with ⟨name, hname, rfl⟩
            rw [printedPath_universalNewlines] at h
            rcases Option.filter_eq_some_iff.mp h with ⟨heq, hfile⟩
            exact ⟨Option.some_ne_none _, name, hname, (Option.some.inj heq).symm, hfile⟩
      · rintro ⟨_, name, hname, rfl, hfile⟩
        rw [hrun, (runLookup_eq_ok child _).mpr ⟨name, hname, rfl⟩]
        simp only [printedPath_universalNewlines]
        exact Option.filter_eq_some_iff.mpr ⟨rfl, hfile⟩

/-- The hook is told the path of the library that the other process loads if and
    only if the path is a plain line. -/
theorem lookup_arrives_iff (w child : World) (name : PyStr)
    (hrun : w.lookupOutput = runLookup child)
    (hunloaded : w.cdll .noload (w.findLibrary stdcxx) = none) (hloads : LoadsLibrary child name) :
    findSystem w = .ok { path := some name, alreadyLoaded := false } ↔ PlainLine name := by
  have hfind : findSystem w = systemFromSubprocess w >>= fun path =>
      .ok { path := path, alreadyLoaded := false } := by
    unfold findSystem
    rw [hunloaded]
    rfl
  rw [hfind, bind_eq_ok, ← arriving_eq_self_iff]
  constructor
  · rintro ⟨path, hpath, heq⟩
    rcases (systemFromSubprocess_lookup hrun path).mp hpath with ⟨name', hname', rfl⟩
    rw [← hloads.unique hname'] at heq
    exact Option.some.inj (congrArg SystemLibrary.path (Except.ok.inj heq))
  · intro h
    refine ⟨some (arriving name), (systemFromSubprocess_lookup hrun _).mpr ⟨name, hloads, rfl⟩, ?_⟩
    rw [h]

/-- In a process without a C++ library the newer of the two libraries is loaded if
    and only if there is one to be loaded by another process, whose path arrives as
    that of a file that can be read. -/
theorem shippedWins_lookup_iff (w child : World) (shipped : PyStr) (s : VersionTuple)
    (hrun : w.lookupOutput = runLookup child) (h : UnloadedProcess w)
    (hs : ShippedLibrary w shipped s) : ShippedWins w shipped s ↔
      w.findLibrary stdcxx ≠ none ∧ ∃ name, LoadsLibrary child name ∧
        w.isfile (arriving name) = true ∧ ∀ e, ¬ReadingRaises w (arriving name) e := by
  constructor
  · intro hwins
    -- Without a version to compare with, the shipped library is not loaded.
    have hreadable : SystemReadable w := by
      by_contra hunreadable
      exact not_shippedWins_of_unreadable h hs (systemVersion_eq_none hunreadable) hwins
    rcases hreadable with ⟨path, hfile, hreads⟩
    rcases (systemFile_lookup hrun).mp hfile with ⟨hlibrary, name, hname, rfl, hisfile⟩
    exact ⟨hlibrary, name, hname, hisfile, hreads⟩
  · rintro ⟨hlibrary, name, hname, hisfile, hreads⟩
    rcases (getGlibcxxVersions_returns_iff w (arriving name)).mpr hreads with ⟨v, hread⟩
    exact shippedWins_of_readable h hs
      ((systemFile_lookup hrun).mpr ⟨hlibrary, name, hname, rfl, hisfile⟩) hread

/-! ### An Answer -/

theorem sampleWorld_loads : LoadsLibrary sampleWorld systemLibstdcxx :=
  ⟨rfl, 1, rfl, rfl⟩

theorem unloadedWorld_asks : unloadedWorld.lookupOutput = runLookup sampleWorld := by
  decide +kernel

theorem systemLibstdcxx_plain : PlainLine systemLibstdcxx where
  line c hc := by
    have hline : systemLibstdcxx.all (fun c => !isLineBreak c) = true := by decide +kernel
    simpa using List.all_eq_true.mp hline c hc
  start := by decide +kernel
  finish := by decide +kernel

/-- The path of the sample library arrives. -/
theorem unloadedWorld_finds :
    findSystem unloadedWorld = .ok { path := some systemLibstdcxx, alreadyLoaded := false } :=
  (lookup_arrives_iff unloadedWorld sampleWorld systemLibstdcxx unloadedWorld_asks
    (by decide +kernel) sampleWorld_loads).mpr systemLibstdcxx_plain

/-- The library shipped with it is the newer of the two. -/
theorem unloadedWorld_ships_newer :
    ShippedWins unloadedWorld shippedLibstdcxx (versionTuple 3 4 33) := by
  have hreads := (getGlibcxxVersions_returns_iff unloadedWorld systemLibstdcxx).mp
    ⟨versionTuple 3 4 30, by decide +kernel⟩
  have harrives : arriving systemLibstdcxx = systemLibstdcxx := by decide +kernel
  exact (shippedWins_lookup_iff unloadedWorld sampleWorld shippedLibstdcxx (versionTuple 3 4 33)
    unloadedWorld_asks unloadedWorld_unloaded unloadedWorld_ships).mpr
    ⟨by decide, systemLibstdcxx, sampleWorld_loads, by decide +kernel, harrives ▸ hreads⟩

end AuditLibstdcxx
