import AuditLibstdcxx.Core.PyVersion
import AuditLibstdcxx.Lib.Exceptions

/-!
# The Python Audit Hook

The hook that `sitecustomize.py` installs in the interpreter, over the globals
of its module.

The interpreter delivers an event for every module it is about to import and
for every library it is about to load. The hook looks for shared libraries
among them, asks `ldd` what a library depends on, and at the first one that
depends on the C++ library compares the system's copy with the shipped one,
loading the shipped one first where it is newer.

A function returns a value or raises an exception. Everything it finds outside
itself is a `World`: the file system, the loader, the programs it starts, and
what pyelftools makes of a file. An exception ends the iteration over the
version definitions of a file where it is raised, so what the iteration yields
is a list of names and exceptions.

Exceptions that are not of class `Exception`, such as an interrupt, and
failures of writing a warning are left out.

## Main definitions

* `PyException`, `PyValue`: Exceptions, and arguments of an event.
* `World`: What the hook finds around it.
* `getGlibcxxVersions`: The version of a file.
* `findSystem`: The search for the system's library.
* `checkAndLoadCompatibleLibstdcxxVersion`: The comparison, and the load.
* `HookState`: The globals, and the comparisons made.
* `checkSharedLibDependencies`, `auditHook`: The hook.
* `setHooksAndAudit`: Its installation.
-/

namespace AuditLibstdcxx

open Exceptions

/-- A Python string. -/
abbrev PyStr : Type := List Char

/-- The exceptions that are told apart. `other` is any other subclass of
    `Exception`. -/
inductive PyException where
  | osError
  | valueError
  | elfError
  | calledProcessError
  | typeError
  | attributeError
  | other
  deriving DecidableEq, Repr

/-- `except OSError` -/
def PyException.isOSError (e : PyException) : Bool :=
  decide (e = .osError)

/-- `except ValueError` -/
def PyException.isValueError (e : PyException) : Bool :=
  decide (e = .valueError)

/-- An argument of an audit event. A byte string is given by the text it
    decodes to as a file name, and an object of any other type, which has no
    method `endswith`, by its truth value. -/
inductive PyValue where
  | none
  | str (text : PyStr)
  | bytes (text : PyStr)
  | object (truthy : Bool)
  deriving DecidableEq, Repr

/-- The modes in which `CDLL` opens a library. -/
inductive CdllMode where
  | load
  | noload
  deriving DecidableEq, Repr

/-- What the hook finds around it. -/
structure World where
  /-- `platform.system() == "Linux"` -/
  isLinux : Bool
  /-- `os.path.isfile` -/
  isfile : PyStr → Bool
  /-- `os.path.exists` -/
  pathExists : PyStr → Bool
  /-- `subprocess.check_output(["ldd", path], text=True)` -/
  lddOutput : PyStr → Except PyException PyStr
  /-- `find_library` -/
  findLibrary : PyStr → Option PyStr
  /-- `CDLL`, with the handle of the library; without one it raises `OSError`. -/
  cdll : CdllMode → Option PyStr → Option Nat
  /-- Whether a library has a symbol `dlinfo`. -/
  hasDlinfo : Nat → Bool
  /-- `l_name` of the link map of a handle, decoded. -/
  linkMapName : Nat → Except PyException PyStr
  /-- The output of this file run as a program, with `check=True`. -/
  lookupOutput : Except PyException PyStr
  /-- The section `.gnu.version_d` of a file, by what the iteration over its
      names yields. -/
  versionNames : PyStr → Except PyException (Option (List (Except PyException PyStr)))
  /-- `sys.get_int_max_str_digits()`, where `0` is no limit. -/
  intMaxStrDigits : Nat

/-- `"stdc++"` -/
def stdcxx : PyStr := "stdc++".toList

/-- `"dl"` -/
def libdlName : PyStr := "dl".toList

/-- `"libstdc++.so.6"` -/
def libstdcxxSo : PyStr := "libstdc++.so.6".toList

/-- `".so"` -/
def dotSo : PyStr := ".so".toList

/-- `"import"` -/
def importEvent : PyStr := "import".toList

/-- `"sys.dlload"` -/
def dlloadEvent : PyStr := "sys.dlload".toList

/-- `os.path.basename` -/
def basename (path : PyStr) : PyStr :=
  path.rtakeWhile (fun c => decide (c ≠ '/'))

/-- `os.path.join`, of two parts. -/
def osPathJoin (path part : PyStr) : PyStr :=
  if ['/'] <+: part then part
  else if path = [] ∨ ['/'] <:+ path then path ++ part
  else path ++ ['/'] ++ part

/-- The characters at which `str.splitlines` ends a line. -/
def isLineBreak (c : Char) : Bool :=
  c.toNat ∈ [0x0A, 0x0B, 0x0C, 0x0D, 0x1C, 0x1D, 0x1E, 0x85, 0x2028, 0x2029]

/-- `str.isspace`, of one character. -/
def isPySpace (c : Char) : Bool :=
  c.toNat ∈ [0x09, 0x0A, 0x0B, 0x0C, 0x0D, 0x1C, 0x1D, 0x1E, 0x1F, 0x20, 0x85, 0xA0, 0x1680,
    0x2028, 0x2029, 0x202F, 0x205F, 0x3000] || (0x2000 ≤ c.toNat && c.toNat ≤ 0x200A)

/-- `text.splitlines()[0]`, of a text that is not empty. -/
def firstLine (text : PyStr) : PyStr :=
  text.takeWhile (fun c => !isLineBreak c)

/-- `str.strip` -/
def strip (text : PyStr) : PyStr :=
  (text.dropWhile isPySpace).rdropWhile isPySpace

/-- `int(digits)`, which refuses strings of too many digits. -/
def pyIntLimited (w : World) (digits : List Char) : Except PyException Nat :=
  if w.intMaxStrDigits ≠ 0 ∧ w.intMaxStrDigits < digits.length then .error .valueError
  else .ok (pyInt digits)

/-- `int(group or 0)` -/
def pyGroupLimited (w : World) (group : Option (List Char)) : Except PyException Nat :=
  match group with
  | none => .ok 0
  | some digits => pyIntLimited w digits

/-- `parse_version`, under the limit on digits. -/
def parseVersionLimited (w : World) (v : PyStr) : Except PyException VersionTuple :=
  match matchVersion v with
  | none => .ok (versionTuple 0 0 0)
  | some groups => do
      let major ← pyIntLimited w groups.1
      let minor ← pyGroupLimited w groups.2.1
      let patch ← pyGroupLimited w groups.2.2
      return versionTuple major minor patch

/-- A round of the loop over the version names of a file. -/
def maxVersionStep (w : World) (maxVer : VersionTuple) (item : Except PyException PyStr) :
    Except PyException VersionTuple := do
  let versionName ← item
  if glibcxx <:+: versionName then
    let ver ← parseVersionLimited w (versionName.drop glibcxx.length)
    return if ver > maxVer then ver else maxVer
  else
    return maxVer

/-- `get_glibcxx_versions_from_gnu_version_d` -/
def getGlibcxxVersions (w : World) (elfPath : PyStr) : Except PyException VersionTuple := do
  match ← w.versionNames elfPath with
  | none => .error .valueError
  | some names => names.foldlM (maxVersionStep w) (versionTuple 0 0 0)

/-- `get_cdll_library_path` -/
def getCdllLibraryPath (w : World) (handle : Nat) : Except PyException PyStr :=
  match w.cdll .load (w.findLibrary libdlName) with
  | none => .error .osError
  | some libdl =>
      if w.hasDlinfo libdl then w.linkMapName handle else .error .attributeError

/-- The path that this file prints when it is run as a program. -/
def systemFromSubprocess (w : World) : Except PyException (Option PyStr) := do
  let stdout ← w.lookupOutput
  return if stdout = [] then none else some (strip (firstLine stdout))

/-- The system's library: its path, and whether it was loaded before. -/
structure SystemLibrary where
  path : Option PyStr
  alreadyLoaded : Bool
  deriving DecidableEq, Repr

/-- The search for the system's library. -/
def findSystem (w : World) : Except PyException SystemLibrary :=
  match w.cdll .noload (w.findLibrary stdcxx) with
  | none => do
      let path ← systemFromSubprocess w
      return { path := path, alreadyLoaded := false }
  | some handle =>
      -- `already_loaded` was set before the path is looked up, so it stays set
      -- when that raises `OSError`.
      catching PyException.isOSError
        (do
          let path ← getCdllLibraryPath w handle
          return { path := some path, alreadyLoaded := true })
        (fun _ => do
          let path ← systemFromSubprocess w
          return { path := path, alreadyLoaded := true })

/-- The versions of two files, unless `ValueError` is raised on the way. -/
def readVersions (w : World) (systemPath libstdcxxPath : PyStr) :
    Except PyException (Option (VersionTuple × VersionTuple)) :=
  catching PyException.isValueError
    (do
      let systemVersion ← getGlibcxxVersions w systemPath
      let shippedVersion ← getGlibcxxVersions w libstdcxxPath
      return some (systemVersion, shippedVersion))
    (fun _ => .ok none)

/-- `ctypes.CDLL(libstdcxx_path)` under `except OSError`, with the library it
    loads. -/
def loadShipped (w : World) (libstdcxxPath : PyStr) : Option PyStr :=
  if (w.cdll .load (some libstdcxxPath)).isSome then some libstdcxxPath else none

/-- The comparison of the two files, once both are there. -/
def compareVersions (w : World) (systemPath libstdcxxPath : PyStr) (alreadyLoaded : Bool) :
    Except PyException (Option PyStr) := do
  match ← readVersions w systemPath libstdcxxPath with
  | none => return none
  | some versions =>
      if versions.1 < versions.2 ∧ alreadyLoaded = false then return loadShipped w libstdcxxPath
      else return none

/-- `check_and_load_compatible_libstdcxx_version`, with the library it loads
    into the process. -/
def checkAndLoadCompatibleLibstdcxxVersion (w : World) (libstdcxxPath : Option PyStr) :
    Except PyException (Option PyStr) :=
  if w.isLinux = false then .ok none
  else do
    let system ← findSystem w
    match libstdcxxPath, system.path with
    | some shipped, some path =>
        if w.isfile shipped = true ∧ w.isfile path = true then
          compareVersions w path shipped system.alreadyLoaded
        else return none
    | _, _ => return none

/-- The globals, whether the hook is installed, and what the comparisons made
    so far ended in. The last is no variable of the module. -/
structure HookState where
  /-- `global_libstdcxx_path` -/
  libstdcxxPath : Option PyStr := some []
  /-- `global_disable_audit_hook` -/
  disabled : Bool := false
  registered : Bool := false
  checks : List (Except PyException (Option PyStr)) := []

/-- `check_shared_lib_dependencies`. The call it makes of itself is for a name
    that ends it at once. -/
def checkSharedLibDependencies (w : World) (libPath : PyStr) (s : HookState) :
    Except PyException Unit × HookState :=
  if basename libPath = libstdcxxSo then
    let outcome := checkAndLoadCompatibleLibstdcxxVersion w s.libstdcxxPath
    (outcome.map fun _ => (), { s with disabled := true, checks := s.checks ++ [outcome] })
  else if w.pathExists libPath = false then (.ok (), s)
  else
    match w.lddOutput libPath with
    -- `except Exception`, so whatever `ldd` runs into ends here.
    | .error _ => (.ok (), s)
    | .ok output =>
        if libstdcxxSo <:+: output then checkSharedLibDependencies w libstdcxxSo s
        else (.ok (), s)
termination_by if basename libPath = libstdcxxSo then 0 else 1
decreasing_by
  have hbase : basename libstdcxxSo = libstdcxxSo := by decide
  simp_all

/-- The argument of an event that the hook takes for a file name. -/
def selectFilename (event : PyStr) (args : List PyValue) : Option PyValue :=
  if event = importEvent ∧ 1 < args.length then args[1]?
  else if event = dlloadEvent ∧ 0 < args.length then args[0]?
  else none

/-- `filename and filename.endswith('.so')`, with the name where it holds. -/
def sharedLibraryName (filename : PyValue) : Except PyException (Option PyStr) :=
  match filename with
  | .none => .ok none
  | .str text => .ok (if text ≠ [] ∧ dotSo <:+ text then some text else none)
  | .bytes text => if text = [] then .ok none else .error .typeError
  | .object truthy => if truthy then .error .attributeError else .ok none

/-- `audit_hook` -/
def auditHook (w : World) (event : PyStr) (args : List PyValue) (s : HookState) :
    Except PyException Unit × HookState :=
  if s.disabled then (.ok (), s)
  else
    match selectFilename event args with
    | none => (.ok (), s)
    | some filename =>
        match sharedLibraryName filename with
        | .error e => (.error e, s)
        | .ok none => (.ok (), s)
        | .ok (some text) => checkSharedLibDependencies w text s

/-- `set_hooks_and_audit` -/
def setHooksAndAudit (w : World) (libstdcxxPath : PyStr) (s : HookState) : HookState :=
  { s with
    libstdcxxPath :=
      some (if w.isfile libstdcxxPath then libstdcxxPath else osPathJoin libstdcxxPath libstdcxxSo)
    registered := s.registered || w.isLinux }

/-- An event, as it reaches the process. -/
structure Delivery where
  event : PyStr
  args : List PyValue
  world : World

/-- What an event does to the globals. An exception of the hook ends what was
    announced, but nothing the hook has done is undone. -/
def deliver (s : HookState) (d : Delivery) : HookState :=
  if s.registered then (auditHook d.world d.event d.args s).2 else s

/-- The globals after `set_hooks_and_audit` and a sequence of events. -/
def session (w : World) (libstdcxxPath : PyStr) (ds : List Delivery) : HookState :=
  ds.foldl deliver (setHooksAndAudit w libstdcxxPath {})

end AuditLibstdcxx
