import AuditLibstdcxx.Theory.PyCoverage

/-!
# What the Python Hook Raises

An exception of the hook ends the import or the load that the interpreter is
about to make, so the hook should return whatever it runs into. Its functions
each catch some exceptions: `ldd` may fail in any way, the lookup of a loaded
library and the load of the shipped one may raise `OSError`, and reading the
two files may raise `ValueError`. What is left is followed here from the bottom
up: what reading a file raises, how the system's library is found, when the
comparison returns, and from that when the hook does.

## Main definitions

* `Overlong`, `ItemRaises`, `ReadingRaises`: What reading a file raises.
* `Located`: How the system's library is found.
* `Readable`: Reading both files raises nothing but `ValueError`.
* `CheckReturns`, `AnswersEndswith`: The two conditions for the hook to return.

## Theorems

* `getGlibcxxVersions_eq_error`: What reading a file raises.
* `getGlibcxxVersions_eq_ok`: What it returns.
* `findSystem_eq_ok`: How the system's library is found.
* `checkAndLoad_returns_iff`: When the comparison returns.
* `auditHook_returns_iff`: When the hook returns.
-/

namespace AuditLibstdcxx

open Checked Exceptions

/-! ### Reading One File -/

/-- `int` refuses the digits. -/
def TooLong (w : World) (digits : List Char) : Prop :=
  w.intMaxStrDigits ≠ 0 ∧ w.intMaxStrDigits < digits.length

/-- `int` refuses a group of the version. -/
def Overlong (w : World) (v : PyStr) : Prop :=
  ∃ groups digits, matchVersion v = some groups ∧
    (some groups.1 = some digits ∨ groups.2.1 = some digits ∨ groups.2.2 = some digits) ∧
    TooLong w digits

theorem pyIntLimited_eq_error (w : World) (digits : List Char) (e : PyException) :
    pyIntLimited w digits = .error e ↔ e = .valueError ∧ TooLong w digits := by
  unfold pyIntLimited TooLong
  by_cases hlimit : w.intMaxStrDigits ≠ 0 ∧ w.intMaxStrDigits < digits.length
  · simp [hlimit, eq_comm]
  · simp [hlimit]

theorem pyGroupLimited_eq_error (w : World) (group : Option (List Char)) (e : PyException) :
    pyGroupLimited w group = .error e ↔
      e = .valueError ∧ ∃ digits, group = some digits ∧ TooLong w digits := by
  cases group with
  | none => simp [pyGroupLimited]
  | some digits => simp [pyGroupLimited, pyIntLimited_eq_error]

theorem pyGroupLimited_returns (w : World) (group : Option (List Char))
    (h : ¬ ∃ digits, group = some digits ∧ TooLong w digits) :
    Returns (pyGroupLimited w group) :=
  (returns_iff _).mpr fun e he => h ((pyGroupLimited_eq_error w group e).mp he).2

/-- `int` of a group, and what follows from its value. -/
theorem pyGroupLimited_bind_eq_valueError (w : World) (group : Option (List Char)) {β : Type}
    (f : Nat → Except PyException β) {Q : Prop} (hf : ∀ n, f n = .error .valueError ↔ Q) :
    pyGroupLimited w group >>= f = .error .valueError ↔
      (∃ digits, group = some digits ∧ TooLong w digits) ∨ Q := by
  have hgroup := pyGroupLimited_eq_error w group .valueError
  simp only [true_and] at hgroup
  exact bind_eq_error_or _ f .valueError hgroup (pyGroupLimited_returns w group) hf

/-- Reading a version raises `ValueError`, for too many digits. -/
theorem parseVersionLimited_eq_error (w : World) (v : PyStr) (e : PyException) :
    parseVersionLimited w v = .error e ↔ e = .valueError ∧ Overlong w v := by
  unfold parseVersionLimited
  cases hmatch : matchVersion v with
  | none => simp [Overlong, hmatch]
  | some groups =>
      by_cases he : e = .valueError
      · -- Each of the three groups can be the one that is too long.
        have hreturn (version : VersionTuple) :
            (.ok version : Except PyException VersionTuple) = .error .valueError ↔ False := by
          simp
        have hpatch (major minor : Nat) := pyGroupLimited_bind_eq_valueError w groups.2.2
          (fun patch => .ok (versionTuple major minor patch)) fun patch => hreturn _
        have hminor (major : Nat) := pyGroupLimited_bind_eq_valueError w groups.2.1 _ (hpatch major)
        have hmajor := pyGroupLimited_bind_eq_valueError w (some groups.1) _ hminor
        rw [he]
        refine hmajor.trans ?_
        simp [Overlong, hmatch, or_and_right, exists_or]
      · simp only [bind_eq_error, pyIntLimited_eq_error, pyGroupLimited_eq_error, he, false_and,
          false_or, iff_false]
        rintro ⟨major, _, minor, _, patch, _, hreturn⟩
        cases hreturn

/-- What a version name, or an exception in its place, raises in the loop over
    the names. -/
def ItemRaises (w : World) (item : Except PyException PyStr) (e : PyException) : Prop :=
  item = .error e ∨ ∃ versionName, item = .ok versionName ∧ glibcxx <:+: versionName ∧
    Overlong w (versionName.drop glibcxx.length) ∧ e = .valueError

theorem maxVersionStep_eq_error (w : World) (maxVer : VersionTuple)
    (item : Except PyException PyStr) (e : PyException) :
    maxVersionStep w maxVer item = .error e ↔ ItemRaises w item e := by
  unfold maxVersionStep ItemRaises
  rw [bind_eq_error]
  refine or_congr_right (exists_congr fun versionName => and_congr_right fun _ => ?_)
  by_cases hname : glibcxx <:+: versionName
  · rw [if_pos hname, bind_eq_error, parseVersionLimited_eq_error]
    refine ⟨fun h => ?_, fun h => Or.inl ⟨h.2.2, h.2.1⟩⟩
    rcases h with ⟨he, hlong⟩ | ⟨ver, _, hreturn⟩
    · exact ⟨hname, hlong, he⟩
    · cases hreturn
  · rw [if_neg hname]
    refine ⟨fun h => ?_, fun h => absurd h.1 hname⟩
    cases h

/-- What reading the version of a file raises: what opening the file does, or
    that it has no version definitions, or what the first of its names does
    that raises anything. -/
inductive ReadingRaises (w : World) (path : PyStr) : PyException → Prop where
  | opening (e : PyException) (h : w.versionNames path = .error e) : ReadingRaises w path e
  | noSection (h : w.versionNames path = .ok none) : ReadingRaises w path .valueError
  | item (e : PyException) (before behind : List (Except PyException PyStr))
      (i : Except PyException PyStr)
      (h : w.versionNames path = .ok (some (before ++ i :: behind)))
      (hbefore : ∀ j ∈ before, ∀ e', ¬ ItemRaises w j e') (hi : ItemRaises w i e) :
      ReadingRaises w path e

/-- What reading the version of a file raises. -/
theorem getGlibcxxVersions_eq_error (w : World) (path : PyStr) (e : PyException) :
    getGlibcxxVersions w path = .error e ↔ ReadingRaises w path e := by
  unfold getGlibcxxVersions
  rw [bind_eq_error]
  refine ⟨fun h => ?_, fun h => ?_⟩
  · rcases h with hopen | ⟨found, hopen, hrest⟩
    · exact ReadingRaises.opening e hopen
    · cases found with
      | none =>
          rw [← Except.error.inj hrest]
          exact ReadingRaises.noSection hopen
      | some names =>
          rcases (foldlM_eq_error _ _ (maxVersionStep_eq_error w) names _ e).mp hrest with
            ⟨before, i, behind, hsplit, hbefore, hi⟩
          rw [hsplit] at hopen
          exact ReadingRaises.item e before behind i hopen hbefore hi
  · cases h with
    | opening e h => exact Or.inl h
    | noSection h => exact Or.inr ⟨none, h, rfl⟩
    | item e before behind i h hbefore hi =>
        exact Or.inr ⟨some (before ++ i :: behind), h,
          (foldlM_eq_error _ _ (maxVersionStep_eq_error w) _ _ e).mpr
            ⟨before, i, behind, rfl, hbefore, hi⟩⟩

/-- What `int` returns does not depend on its limit. -/
theorem pyIntLimited_eq_ok (w : World) (digits : List Char) (n : Nat)
    (h : pyIntLimited w digits = .ok n) : n = pyInt digits := by
  by_cases hlimit : w.intMaxStrDigits ≠ 0 ∧ w.intMaxStrDigits < digits.length
  · rw [pyIntLimited, if_pos hlimit] at h
    cases h
  · rw [pyIntLimited, if_neg hlimit] at h
    exact (Except.ok.inj h).symm

theorem pyGroupLimited_eq_ok (w : World) (group : Option (List Char)) (n : Nat)
    (h : pyGroupLimited w group = .ok n) : n = (group.map pyInt).getD 0 := by
  cases group with
  | none => exact (Except.ok.inj h).symm
  | some digits => exact pyIntLimited_eq_ok w digits n h

theorem parseVersionLimited_eq_ok (w : World) (v : PyStr) (ver : VersionTuple)
    (h : parseVersionLimited w v = .ok ver) : ver = parseVersion v := by
  unfold parseVersionLimited at h
  unfold parseVersion
  cases hmatch : matchVersion v with
  | none =>
      rw [hmatch] at h
      exact (Except.ok.inj h).symm
  | some groups =>
      simp only [hmatch, bind_eq_ok] at h
      rcases h with ⟨major, hmajor, minor, hminor, patch, hpatch, hreturn⟩
      rw [← Except.ok.inj hreturn, pyIntLimited_eq_ok w _ _ hmajor,
        pyGroupLimited_eq_ok w _ _ hminor, pyGroupLimited_eq_ok w _ _ hpatch]

/-- A round of the loop over the version names, without a limit. -/
def keepMax (maxVer : VersionTuple) (versionName : PyStr) : VersionTuple :=
  if glibcxx <:+: versionName then
    let ver := parseVersion (versionName.drop glibcxx.length)
    if ver > maxVer then ver else maxVer
  else maxVer

theorem maxGlibcxxVersion_eq_keepMax (names : List PyStr) :
    maxGlibcxxVersion names = names.foldl keepMax (versionTuple 0 0 0) := rfl

theorem maxVersionStep_eq_ok (w : World) (maxVer maxVer' : VersionTuple)
    (item : Except PyException PyStr) (h : maxVersionStep w maxVer item = .ok maxVer') :
    ∃ versionName, item = .ok versionName ∧ maxVer' = keepMax maxVer versionName := by
  rcases (bind_eq_ok _ _ _).mp h with ⟨versionName, hitem, hrest⟩
  refine ⟨versionName, hitem, ?_⟩
  unfold keepMax
  by_cases hname : glibcxx <:+: versionName
  · rw [if_pos hname] at hrest ⊢
    rcases (bind_eq_ok _ _ _).mp hrest with ⟨ver, hver, hreturn⟩
    rw [← Except.ok.inj hreturn, parseVersionLimited_eq_ok w _ ver hver]
  · rw [if_neg hname] at hrest ⊢
    exact (Except.ok.inj hrest).symm

/-- A loop that returns has seen no exception, and has kept the maximum. -/
theorem foldlM_maxVersionStep_eq_ok (w : World) (version : VersionTuple)
    (items : List (Except PyException PyStr)) (maxVer : VersionTuple)
    (h : items.foldlM (maxVersionStep w) maxVer = .ok version) :
    ∃ names : List PyStr, items = names.map .ok ∧ version = names.foldl keepMax maxVer := by
  induction items generalizing maxVer with
  | nil => exact ⟨[], rfl, (Except.ok.inj h).symm⟩
  | cons item items ih =>
      rw [List.foldlM_cons] at h
      rcases (bind_eq_ok _ _ _).mp h with ⟨maxVer', hstep, hrest⟩
      rcases maxVersionStep_eq_ok w maxVer maxVer' item hstep with ⟨name, rfl, rfl⟩
      rcases ih _ hrest with ⟨names, rfl, rfl⟩
      exact ⟨name :: names, rfl, rfl⟩

/-- What reading the version of a file returns is the version of its names. -/
theorem getGlibcxxVersions_eq_ok (w : World) (path : PyStr) (version : VersionTuple)
    (h : getGlibcxxVersions w path = .ok version) :
    ∃ names : List PyStr, w.versionNames path = .ok (some (names.map .ok)) ∧
      version = maxGlibcxxVersion names := by
  rcases (bind_eq_ok _ _ _).mp h with ⟨found, hopen, hrest⟩
  cases found with
  | none => cases hrest
  | some items =>
      rcases foldlM_maxVersionStep_eq_ok w version items _ hrest with ⟨names, rfl, hversion⟩
      rw [← maxGlibcxxVersion_eq_keepMax] at hversion
      exact ⟨names, hopen, hversion⟩

theorem getGlibcxxVersions_returns_iff (w : World) (path : PyStr) :
    Returns (getGlibcxxVersions w path) ↔ ∀ e, ¬ ReadingRaises w path e := by
  rw [returns_iff]
  simp only [ne_eq, getGlibcxxVersions_eq_error]

/-! ### The System's Library -/

/-- The path in the output of the subprocess. -/
def printedPath (output : PyStr) : Option PyStr :=
  if output = [] then none else some (strip (firstLine output))

/-- Finding out the path of a loaded library raises `OSError`. -/
def PathFails (w : World) (handle : Nat) : Prop :=
  w.cdll .load (w.findLibrary libdlName) = none ∨
    ∃ libdl, w.cdll .load (w.findLibrary libdlName) = some libdl ∧ w.hasDlinfo libdl = true ∧
      w.linkMapName handle = .error .osError

/-- How the system's library is found: it was loaded before, and its path is
    that in its link map; or it was, and the subprocess has to be asked all
    the same; or it was not. -/
inductive Located (w : World) : SystemLibrary → Prop where
  | loaded (handle libdl : Nat) (path : PyStr)
      (hhandle : w.cdll .noload (w.findLibrary stdcxx) = some handle)
      (hlibdl : w.cdll .load (w.findLibrary libdlName) = some libdl)
      (hdlinfo : w.hasDlinfo libdl = true) (hname : w.linkMapName handle = .ok path) :
      Located w { path := some path, alreadyLoaded := true }
  | loadedElsewhere (handle : Nat) (output : PyStr)
      (hhandle : w.cdll .noload (w.findLibrary stdcxx) = some handle)
      (hfails : PathFails w handle) (houtput : w.lookupOutput = .ok output) :
      Located w { path := printedPath output, alreadyLoaded := true }
  | notLoaded (output : PyStr) (hhandle : w.cdll .noload (w.findLibrary stdcxx) = none)
      (houtput : w.lookupOutput = .ok output) :
      Located w { path := printedPath output, alreadyLoaded := false }

theorem systemFromSubprocess_eq_ok (w : World) (path : Option PyStr) :
    systemFromSubprocess w = .ok path ↔
      ∃ output, w.lookupOutput = .ok output ∧ printedPath output = path := by
  unfold systemFromSubprocess printedPath
  cases w.lookupOutput with
  | error e => simp [bind, Except.bind]
  | ok output => simp [bind, Except.bind, pure, Except.pure]

theorem getCdllLibraryPath_eq_ok (w : World) (handle : Nat) (path : PyStr) :
    getCdllLibraryPath w handle = .ok path ↔
      ∃ libdl, w.cdll .load (w.findLibrary libdlName) = some libdl ∧ w.hasDlinfo libdl = true ∧
        w.linkMapName handle = .ok path := by
  unfold getCdllLibraryPath
  cases w.cdll .load (w.findLibrary libdlName) with
  | none => simp
  | some libdl => by_cases hdlinfo : w.hasDlinfo libdl = true <;> simp [hdlinfo]

theorem getCdllLibraryPath_eq_osError (w : World) (handle : Nat) :
    getCdllLibraryPath w handle = .error .osError ↔ PathFails w handle := by
  unfold getCdllLibraryPath PathFails
  cases w.cdll .load (w.findLibrary libdlName) with
  | none => simp
  | some libdl => by_cases hdlinfo : w.hasDlinfo libdl = true <;> simp [hdlinfo]

/-- The exception that is caught when the path of a loaded library is looked
    up. -/
theorem findPath_eq_osError (w : World) (handle : Nat) (e : PyException)
    (h : (do
      let path ← getCdllLibraryPath w handle
      return { path := some path, alreadyLoaded := true : SystemLibrary }) = .error e)
    (he : e.isOSError = true) : PathFails w handle := by
  rw [PyException.isOSError, decide_eq_true_eq] at he
  rcases (bind_eq_error _ _ _).mp h with hraises | ⟨path, _, hreturn⟩
  · rw [he] at hraises
    exact (getCdllLibraryPath_eq_osError w handle).mp hraises
  · cases hreturn

/-- How the system's library is found. -/
theorem findSystem_eq_ok (w : World) (system : SystemLibrary) :
    findSystem w = .ok system ↔ Located w system := by
  unfold findSystem
  refine ⟨fun h => ?_, fun h => ?_⟩
  · cases hhandle : w.cdll .noload (w.findLibrary stdcxx) with
    | none =>
        simp only [hhandle] at h
        rcases (bind_eq_ok _ _ _).mp h with ⟨path, hpath, hreturn⟩
        rcases (systemFromSubprocess_eq_ok w path).mp hpath with ⟨output, houtput, rfl⟩
        rw [← Except.ok.inj hreturn]
        exact Located.notLoaded output hhandle houtput
    | some handle =>
        simp only [hhandle] at h
        rcases (catching_eq_ok _ _ _ _).mp h with hname | ⟨e, hraises, he, hsubprocess⟩
        · rcases (bind_eq_ok _ _ _).mp hname with ⟨path, hpath, hreturn⟩
          rcases (getCdllLibraryPath_eq_ok w handle path).mp hpath with
            ⟨libdl, hlibdl, hdlinfo, hname⟩
          rw [← Except.ok.inj hreturn]
          exact Located.loaded handle libdl path hhandle hlibdl hdlinfo hname
        · rcases (bind_eq_ok _ _ _).mp hsubprocess with ⟨path, hpath, hreturn⟩
          rcases (systemFromSubprocess_eq_ok w path).mp hpath with ⟨output, houtput, rfl⟩
          rw [← Except.ok.inj hreturn]
          have hfails := findPath_eq_osError w handle e hraises he
          exact Located.loadedElsewhere handle output hhandle hfails houtput
  · cases h with
    | loaded handle libdl path hhandle hlibdl hdlinfo hname =>
        have hpath := (getCdllLibraryPath_eq_ok w handle path).mpr ⟨libdl, hlibdl, hdlinfo, hname⟩
        simp only [hhandle, hpath, ok_bind]
        rfl
    | loadedElsewhere handle output hhandle hfails houtput =>
        have hpath := (getCdllLibraryPath_eq_osError w handle).mpr hfails
        have houtput' := (systemFromSubprocess_eq_ok w _).mpr ⟨output, houtput, rfl⟩
        simp only [hhandle, hpath, error_bind, houtput', ok_bind]
        rfl
    | notLoaded output hhandle houtput =>
        have houtput' := (systemFromSubprocess_eq_ok w _).mpr ⟨output, houtput, rfl⟩
        simp only [hhandle, houtput', ok_bind]
        rfl

/-! ### The Comparison -/

/-- Reading the two files raises nothing but `ValueError`. The shipped one is
    read only once the system's has been. -/
def Readable (w : World) (systemPath libstdcxxPath : PyStr) : Prop :=
  (∀ e, ReadingRaises w systemPath e → e = .valueError) ∧
    ((∀ e, ¬ ReadingRaises w systemPath e) →
      ∀ e, ReadingRaises w libstdcxxPath e → e = .valueError)

theorem readVersions_returns_iff (w : World) (systemPath libstdcxxPath : PyStr) :
    Returns (readVersions w systemPath libstdcxxPath) ↔ Readable w systemPath libstdcxxPath := by
  unfold readVersions
  rw [returns_catching_of_handler _ _ _ fun _ => returns_ok none]
  simp only [RaisesOnly, bind_eq_error, getGlibcxxVersions_eq_error, PyException.isValueError,
    decide_eq_true_eq]
  refine ⟨fun h => ⟨fun e he => h e (Or.inl he), fun hquiet e he => ?_⟩, fun h e he => ?_⟩
  · rcases (getGlibcxxVersions_returns_iff w systemPath).mpr hquiet with ⟨version, hversion⟩
    exact h e (Or.inr ⟨version, hversion, Or.inl he⟩)
  · rcases he with he | ⟨version, hversion, he | ⟨_, _, hreturn⟩⟩
    · exact h.1 e he
    · have hquiet := (getGlibcxxVersions_returns_iff w systemPath).mp ⟨version, hversion⟩
      exact h.2 hquiet e he
    · cases hreturn

/-- Once the files have been read, or could not be, nothing more is raised. -/
theorem compareVersions_returns_iff (w : World) (systemPath libstdcxxPath : PyStr)
    (alreadyLoaded : Bool) :
    Returns (compareVersions w systemPath libstdcxxPath alreadyLoaded) ↔
      Readable w systemPath libstdcxxPath := by
  rw [compareVersions, returns_bind, ← readVersions_returns_iff]
  refine ⟨fun h => ?_, fun h => ?_⟩
  · rcases h with ⟨versions, hversions, _⟩
    exact ⟨versions, hversions⟩
  · rcases h with ⟨versions, hversions⟩
    refine ⟨versions, hversions, ?_⟩
    cases versions with
    | none => exact returns_ok none
    | some versions =>
        by_cases hload : versions.1 < versions.2 ∧ alreadyLoaded = false
        · simp only [if_pos hload]
          exact returns_ok _
        · simp only [if_neg hload]
          exact returns_ok _

/-- The system's library is found; and where both files are there, so that they
    are compared, they can be read. -/
def CheckReturns (w : World) (libstdcxxPath : Option PyStr) : Prop :=
  w.isLinux = true → ∃ system, Located w system ∧
    ∀ shipped path, libstdcxxPath = some shipped → system.path = some path →
      w.isfile shipped = true → w.isfile path = true → Readable w path shipped

/-- When the comparison returns. -/
theorem checkAndLoad_returns_iff (w : World) (libstdcxxPath : Option PyStr) :
    Returns (checkAndLoadCompatibleLibstdcxxVersion w libstdcxxPath) ↔
      CheckReturns w libstdcxxPath := by
  unfold checkAndLoadCompatibleLibstdcxxVersion CheckReturns
  by_cases hlinux : w.isLinux = false
  · simp [hlinux]
  · rw [if_neg hlinux, returns_bind]
    rw [Bool.not_eq_false] at hlinux
    simp only [hlinux, true_implies, findSystem_eq_ok]
    refine exists_congr fun system => and_congr_right fun _ => ?_
    cases libstdcxxPath with
    | none => simp [pure, Except.pure]
    | some shipped =>
        cases hpath : system.path with
        | none => simp [pure, Except.pure]
        | some path =>
            by_cases hfiles : w.isfile shipped = true ∧ w.isfile path = true
            · simp [hfiles, compareVersions_returns_iff]
            · have hskip : ¬ (w.isfile shipped = true ∧ w.isfile path = true) := hfiles
              rw [not_and] at hfiles
              simp only [if_neg hskip, Option.some.injEq]
              refine iff_of_true (returns_ok none) ?_
              intro shipped' path' hshipped' hpath' hs hp
              rw [← hshipped'] at hs
              rw [← hpath'] at hp
              exact absurd hp (hfiles hs)

/-! ### The Hook -/

/-- `filename and filename.endswith('.so')` can be asked. -/
def AnswersEndswith (filename : PyValue) : Prop :=
  match filename with
  | .none => True
  | .str _ => True
  | .bytes text => text = []
  | .object truthy => truthy = false

theorem sharedLibraryName_returns_iff (filename : PyValue) :
    Returns (sharedLibraryName filename) ↔ AnswersEndswith filename := by
  cases filename with
  | none => simp [sharedLibraryName, AnswersEndswith]
  | str text => simp [sharedLibraryName, AnswersEndswith]
  | bytes text => by_cases h : text = [] <;> simp [sharedLibraryName, AnswersEndswith, h]
  | object truthy => cases truthy <;> simp [sharedLibraryName, AnswersEndswith]

/-- The hook returns exactly when it is disabled, or the file name can be asked
    for its end and the comparison returns if the event leads to it. -/
theorem auditHook_returns_iff (d : Delivery) (s : HookState) :
    Returns (auditHook d.world d.event d.args s).1 ↔
      s.disabled = true ∨
        (∀ filename, selectFilename d.event d.args = some filename → AnswersEndswith filename) ∧
          (Triggers d → CheckReturns d.world s.libstdcxxPath) := by
  by_cases hs : s.disabled = true
  · rw [auditHook_of_disabled d.world d.event d.args s hs]
    exact iff_of_true (returns_ok ()) (Or.inl hs)
  · have henabled : s.disabled = false := by simpa using hs
    simp only [henabled, Bool.false_eq_true, false_or]
    by_cases htriggers : Triggers d
    · rw [auditHook_of_triggers d s henabled htriggers]
      simp only [checkResult, returns_map, checkAndLoad_returns_iff, htriggers, true_implies]
      refine ⟨fun h => ⟨fun filename hselect => ?_, h⟩, fun h => h.2⟩
      -- The file name of an event that triggers the hook is a string.
      rcases htriggers with ⟨text, htext, _⟩
      rw [Option.some.inj (hselect.symm.trans htext)]
      trivial
    · rw [(auditHook_of_not_triggers d s henabled htriggers).2]
      simp only [sharedLibraryName_returns_iff, htriggers, false_implies, and_true]

/-! ### A Lookup That Fails -/

/-- The process of the sample, where the program that looks for the system's
    library exits with an error. -/
def lookupFails : World :=
  { sampleWorld with lookupOutput := .error .calledProcessError }

/-- The first import of a library that needs the C++ library fails there. -/
theorem lookupFails_not_returns :
    ¬ Returns (auditHook lookupFails importOfLibzmq.event importOfLibzmq.args
      (setHooksAndAudit lookupFails shippedLibstdcxx {})).1 := by
  have htriggers : Triggers { importOfLibzmq with world := lookupFails } :=
    ⟨libzmq, rfl, by decide, rfl, _, rfl, by decide⟩
  have hcall := auditHook_of_triggers { importOfLibzmq with world := lookupFails }
    (setHooksAndAudit lookupFails shippedLibstdcxx {}) rfl htriggers
  have hraises : checkResult lookupFails (setHooksAndAudit lookupFails shippedLibstdcxx {}) =
      .error .calledProcessError := rfl
  rw [hcall, hraises]
  exact not_returns_error _

-- where the lookup succeeds, the shipped library is loaded
example : checkAndLoadCompatibleLibstdcxxVersion sampleWorld (some shippedLibstdcxx) =
    .ok (some shippedLibstdcxx) := by decide +kernel

end AuditLibstdcxx
