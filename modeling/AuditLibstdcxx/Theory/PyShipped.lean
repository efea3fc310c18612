import AuditLibstdcxx.Theory.PyRaises

/-!
# The Library a Python Process Ends Up With

What the comparison decides in a process that has loaded no C++ library. The
shipped library should be loaded unless the system has one that is at least as
new, so that the process ends up with the newer of the two. A system without a
C++ library, or with one that says no version, should not keep the shipped one
from being loaded; the audit library of the loader compares such a file as
version 0.

In Python there are two ways in which it does. Without a name to look for,
`CDLL` opens the main program instead of raising `OSError`, which is taken for
a C++ library that was loaded before. And a path that is no file, or a file
without a version, ends the comparison before anything is loaded. So the
shipped library is compared at all only if the system's can be read.

## Main definitions

* `UnloadedProcess`: A process that has loaded no C++ library.
* `ShippedLibrary`: A shipped library that can be read and loaded.
* `systemFile`, `systemVersion`: The system's library.
* `processVersion`: The version a process ends up with.
* `ShippedWins`: The shipped library is loaded unless the system's is as new.
* `SystemReadable`: The system's library can be read.

## Theorems

* `checkAndLoad_missing`: Without a system's library nothing is loaded.
* `checkAndLoad_found`: With one the two files are compared.
* `shippedWins_iff`: Exactly when the newer of the two is what is loaded.
-/

namespace AuditLibstdcxx

open Checked Exceptions

/-- A process that has loaded no C++ library. A library that was not loaded
    cannot be opened under `RTLD_NOLOAD`, but the main program can. -/
structure UnloadedProcess (w : World) : Prop where
  linux : w.isLinux = true
  mainProgram : w.cdll .noload none ≠ none
  notLoaded : ∀ name, w.findLibrary stdcxx = some name → w.cdll .noload (some name) = none

/-- A shipped library that can be read and loaded. -/
structure ShippedLibrary (w : World) (shipped : PyStr) (s : VersionTuple) : Prop where
  isfile : w.isfile shipped = true
  version : getGlibcxxVersions w shipped = .ok s
  loads : (w.cdll .load (some shipped)).isSome = true

/-- The file of the system's library: there is a name to look for, and the path
    found under it is a file. -/
def systemFile (w : World) : Option PyStr :=
  match w.findLibrary stdcxx, w.lookupOutput with
  | some _, .ok output => (printedPath output).filter w.isfile
  | _, _ => none

/-- The version of the system's library, if it has one that can be read. -/
def systemVersion (w : World) : Option VersionTuple :=
  (systemFile w).bind fun path => (getGlibcxxVersions w path).toOption

/-- The version of the C++ library that a process gets: that of the library
    that was loaded, or else the one the loader finds. -/
def processVersion (w : World) (s : VersionTuple) (loaded : Option PyStr) : Option VersionTuple :=
  if loaded.isSome then some s else systemVersion w

/-- The shipped library is loaded unless the system has one that is at least as
    new, and the process gets the newer of the two. -/
def ShippedWins (w : World) (shipped : PyStr) (s : VersionTuple) : Prop :=
  ∃ loaded, checkAndLoadCompatibleLibstdcxxVersion w (some shipped) = .ok loaded ∧
    (loaded = some shipped ↔ ¬ ∃ v, systemVersion w = some v ∧ s ≤ v) ∧
    processVersion w s loaded = some (max ((systemVersion w).getD (versionTuple 0 0 0)) s)

/-- The system has a library that can be read. -/
def SystemReadable (w : World) : Prop :=
  ∃ path, systemFile w = some path ∧ ∀ e, ¬ ReadingRaises w path e

variable {w : World} {shipped path : PyStr} {s v : VersionTuple} {loaded : Option PyStr}

/-! ### The Search -/

/-- A library that was loaded before is never replaced. -/
theorem compareVersions_loaded
    (h : compareVersions w path shipped true = .ok loaded) : loaded = none := by
  rcases (bind_eq_ok _ _ _).mp h with ⟨versions, _, hreturn⟩
  cases versions with
  | none => exact (Except.ok.inj hreturn).symm
  | some versions =>
      simp only [Bool.true_eq_false, and_false, if_false] at hreturn
      exact (Except.ok.inj hreturn).symm

/-- Without a name to look for, the main program is taken for a C++ library
    that was loaded before. -/
theorem findSystem_noName (h : UnloadedProcess w) (hname : w.findLibrary stdcxx = none)
    {system : SystemLibrary} (hsystem : findSystem w = .ok system) :
    system.alreadyLoaded = true := by
  cases (findSystem_eq_ok w system).mp hsystem with
  | loaded handle libdl path hhandle hlibdl hdlinfo hlmap => rfl
  | loadedElsewhere handle output hhandle hfails houtput => rfl
  | notLoaded output hhandle houtput =>
      rw [hname] at hhandle
      exact absurd hhandle h.mainProgram

/-- With a name, the path is the one the subprocess prints. -/
theorem findSystem_named (h : UnloadedProcess w) {name : PyStr}
    (hname : w.findLibrary stdcxx = some name) :
    findSystem w = systemFromSubprocess w >>= fun path =>
      .ok { path := path, alreadyLoaded := false } := by
  unfold findSystem
  rw [hname, h.notLoaded name hname]
  rfl

/-- Without a system's library nothing is loaded. -/
theorem checkAndLoad_missing (h : UnloadedProcess w) (hfile : systemFile w = none)
    (hcheck : checkAndLoadCompatibleLibstdcxxVersion w (some shipped) = .ok loaded) :
    loaded = none := by
  unfold checkAndLoadCompatibleLibstdcxxVersion at hcheck
  rw [h.linux, if_neg (by decide)] at hcheck
  rcases (bind_eq_ok _ _ _).mp hcheck with ⟨system, hsystem, hcompare⟩
  cases hpath : system.path with
  | none =>
      simp only [hpath] at hcompare
      exact (Except.ok.inj hcompare).symm
  | some path =>
      simp only [hpath] at hcompare
      by_cases hfiles : w.isfile shipped = true ∧ w.isfile path = true
      · rw [if_pos hfiles] at hcompare
        cases hname : w.findLibrary stdcxx with
        | none =>
            rw [findSystem_noName h hname hsystem] at hcompare
            exact compareVersions_loaded hcompare
        | some name =>
            -- The path that was printed is no file, or there is none.
            rw [findSystem_named h hname] at hsystem
            rcases (bind_eq_ok _ _ _).mp hsystem with ⟨printed, hprinted, hreturn⟩
            rcases (systemFromSubprocess_eq_ok w printed).mp hprinted with ⟨output, houtput, rfl⟩
            have hprint : printedPath output = some path := by
              rw [← hpath, ← Except.ok.inj hreturn]
            simp [systemFile, hname, houtput, hprint, hfiles.2] at hfile
      · rw [if_neg hfiles] at hcompare
        exact (Except.ok.inj hcompare).symm

/-- With a system's library the two files are compared. -/
theorem checkAndLoad_found (h : UnloadedProcess w) (hshipped : w.isfile shipped = true)
    (hfile : systemFile w = some path) :
    checkAndLoadCompatibleLibstdcxxVersion w (some shipped) =
      compareVersions w path shipped false := by
  unfold systemFile at hfile
  cases hname : w.findLibrary stdcxx with
  | none => simp [hname] at hfile
  | some name =>
      cases houtput : w.lookupOutput with
      | error e => simp [hname, houtput] at hfile
      | ok output =>
          simp only [hname, houtput] at hfile
          rcases Option.filter_eq_some_iff.mp hfile with ⟨hprint, hisfile⟩
          have hsubprocess := (systemFromSubprocess_eq_ok w _).mpr ⟨output, houtput, hprint⟩
          unfold checkAndLoadCompatibleLibstdcxxVersion
          rw [h.linux, if_neg (by decide), findSystem_named h hname, hsubprocess, ok_bind, ok_bind]
          exact if_pos ⟨hshipped, hisfile⟩

/-! ### The Comparison -/

/-- Nothing is loaded if the system's library cannot be read. -/
theorem compareVersions_unreadable {e : PyException} (hread : getGlibcxxVersions w path = .error e)
    (hcompare : compareVersions w path shipped false = .ok loaded) : loaded = none := by
  rcases (bind_eq_ok _ _ _).mp hcompare with ⟨versions, hversions, hreturn⟩
  have hnone : versions = none := by
    unfold readVersions at hversions
    rw [hread, error_bind] at hversions
    by_cases hvalue : e.isValueError = true
    · simp only [catching_error, hvalue, if_true] at hversions
      exact (Except.ok.inj hversions).symm
    · simp only [catching_error, hvalue] at hversions
      cases hversions
  rw [hnone] at hreturn
  exact (Except.ok.inj hreturn).symm

/-- The shipped library is loaded if it is newer than the system's. -/
theorem compareVersions_readable (hs : ShippedLibrary w shipped s)
    (hread : getGlibcxxVersions w path = .ok v) :
    compareVersions w path shipped false = .ok (if v < s then some shipped else none) := by
  have hversions : readVersions w path shipped = .ok (some (v, s)) := by
    unfold readVersions
    rw [hread, hs.version]
    rfl
  unfold compareVersions
  rw [hversions, ok_bind]
  by_cases hlower : v < s
  · simp [hlower, loadShipped, hs.loads]
    rfl
  · simp [hlower]
    rfl

/-- The newer of the two is what is loaded, if the system's can be read. -/
theorem shippedWins_of_readable (h : UnloadedProcess w) (hs : ShippedLibrary w shipped s)
    (hfile : systemFile w = some path) (hread : getGlibcxxVersions w path = .ok v) :
    ShippedWins w shipped s := by
  have hversion : systemVersion w = some v := by
    rw [systemVersion, hfile, Option.bind_some, hread]
    rfl
  refine ⟨if v < s then some shipped else none, ?_, ?_, ?_⟩
  · rw [checkAndLoad_found h hs.isfile hfile, compareVersions_readable hs hread]
  · by_cases hlower : v < s
    · simp [hversion, hlower]
    · simp [hversion, hlower, not_lt.mp hlower]
  · by_cases hlower : v < s
    · simp [processVersion, hversion, hlower, max_eq_right hlower.le]
    · simp [processVersion, hversion, hlower, max_eq_left (not_lt.mp hlower)]

/-- The shipped library is not loaded, if the system's cannot be read. -/
theorem not_loaded_of_unreadable (h : UnloadedProcess w) (hs : ShippedLibrary w shipped s)
    (hversion : systemVersion w = none)
    (hcheck : checkAndLoadCompatibleLibstdcxxVersion w (some shipped) = .ok loaded) :
    loaded = none := by
  cases hfile : systemFile w with
  | none => exact checkAndLoad_missing h hfile hcheck
  | some path =>
      cases hread : getGlibcxxVersions w path with
      | error e =>
          rw [checkAndLoad_found h hs.isfile hfile] at hcheck
          exact compareVersions_unreadable hread hcheck
      | ok v => simp [systemVersion, hfile, hread, Except.toOption] at hversion

/-- So without a version of the system's library the shipped one loses. -/
theorem not_shippedWins_of_unreadable (h : UnloadedProcess w) (hs : ShippedLibrary w shipped s)
    (hversion : systemVersion w = none) : ¬ ShippedWins w shipped s := by
  rintro ⟨loaded, hcheck, hwins, _⟩
  have hnone := not_loaded_of_unreadable h hs hversion hcheck
  have hloads : loaded = some shipped := hwins.mpr (by simp [hversion])
  rw [hnone] at hloads
  cases hloads

/-- A system whose library cannot be read has no version to compare. -/
theorem systemVersion_eq_none (h : ¬ SystemReadable w) : systemVersion w = none := by
  unfold systemVersion
  rw [Option.bind_eq_none_iff]
  intro path hfile
  cases hread : getGlibcxxVersions w path with
  | error e => rfl
  | ok v =>
      have hreturns := (getGlibcxxVersions_returns_iff w path).mp ⟨v, hread⟩
      exact absurd ⟨path, hfile, hreturns⟩ h

/-- In a process that has loaded no C++ library, the newer of the two libraries
    is what is loaded exactly when the system has one that can be read. -/
theorem shippedWins_iff (w : World) (shipped : PyStr) (s : VersionTuple) (h : UnloadedProcess w)
    (hs : ShippedLibrary w shipped s) : ShippedWins w shipped s ↔ SystemReadable w := by
  constructor
  · intro hwins
    by_contra hunreadable
    exact not_shippedWins_of_unreadable h hs (systemVersion_eq_none hunreadable) hwins
  · intro hreadable
    rcases hreadable with ⟨path, hfile, hreads⟩
    rcases (getGlibcxxVersions_returns_iff w path).mpr hreads with ⟨v, hread⟩
    exact shippedWins_of_readable h hs hfile hread

/-! ### Two Systems -/

/-- A process where `CDLL` opens the main program when it is given no name. -/
def unloadedWorld : World :=
  { sampleWorld with
    cdll := fun mode name => if mode = .noload ∧ name ≠ none then none else some 1 }

theorem unloadedWorld_ships : ShippedLibrary unloadedWorld shippedLibstdcxx (versionTuple 3 4 33) :=
  ⟨by decide, by decide +kernel, by decide⟩

theorem unloadedWorld_unloaded : UnloadedProcess unloadedWorld :=
  ⟨rfl, by decide, fun _ _ => rfl⟩

/-- The library of that system can be read, and the shipped one is newer. -/
theorem unloadedWorld_shippedWins :
    ShippedWins unloadedWorld shippedLibstdcxx (versionTuple 3 4 33) := by
  refine (shippedWins_iff unloadedWorld shippedLibstdcxx _ unloadedWorld_unloaded
    unloadedWorld_ships).mpr ?_
  refine ⟨systemLibstdcxx, by decide +kernel, ?_⟩
  refine (getGlibcxxVersions_returns_iff unloadedWorld systemLibstdcxx).mp
    ⟨versionTuple 3 4 30, by decide +kernel⟩

/-- A system without a C++ library. -/
def bareWorld : World :=
  { unloadedWorld with
    findLibrary := fun name => if name = stdcxx then none else some "libdl.so.2".toList
    linkMapName := fun _ => .ok [] }

theorem bareWorld_ships : UnloadedProcess bareWorld ∧
    ShippedLibrary bareWorld shippedLibstdcxx (versionTuple 3 4 33) :=
  ⟨⟨rfl, by decide, fun _ _ => rfl⟩, by decide, by decide +kernel, by decide⟩

/-- The shipped library can be read and loaded, and nothing is loaded. -/
theorem bareWorld_not_shippedWins : versionTuple 0 0 0 < versionTuple 3 4 33 ∧
    UnloadedProcess bareWorld ∧
    ShippedLibrary bareWorld shippedLibstdcxx (versionTuple 3 4 33) ∧
    ¬ ShippedWins bareWorld shippedLibstdcxx (versionTuple 3 4 33) := by
  refine ⟨by decide, bareWorld_ships.1, bareWorld_ships.2, ?_⟩
  have hversion : systemVersion bareWorld = none := by decide +kernel
  exact not_shippedWins_of_unreadable bareWorld_ships.1 bareWorld_ships.2 hversion

end AuditLibstdcxx
