import AuditLibstdcxx.Core.GetVersion
import AuditLibstdcxx.Core.Phdr

/-!
# The Audit Library

The three hooks the loader calls, over the globals they share.

`la_version` comes first and looks for the shipped library along the run paths
of the executable. `la_objsearch` is then called for every path the loader is
about to try, and `la_activity` when the loader starts or ends a change. They
communicate through two globals, the version and the path of the shipped
library, where the path is also the sign that there is one.

A `Process` is what the hooks find around them: the auxiliary vector, the
memory of the executable, the file system, and how the kernel answers. A file
is the same every time it is opened. What the kernel answers to `mmap` and
`open` may depend on every call made before, so the calls are part of the state.

## Main definitions

* `Process`: What the hooks find around them.
* `AuditState`: The globals, and the calls made.
* `trypath`: Opening a path, for the search along a run path.
* `origin`: The directory of the executable.
* `searchRunPaths`: The search along both run paths.
* `recordVersion`: Taking down the version of the library found.
* `laVersion`, `laObjsearch`, `laActivity`: The hooks.
* `HookCall`, `hook`: A call of one of the last two.
-/

namespace AuditLibstdcxx

open Checked CString

/-- `invalid_glibcxx_version` -/
def invalidGlibcxxVersion : Nat := 0xDEADBEEF

/-- `LA_SER_RUNPATH` -/
def laSerRunpath : Nat := 0x04

/-- `LA_ACT_CONSISTENT` -/
def laActConsistent : Nat := 0

/-- What the hooks find around them. Strings of a process fit into its address
    space, with room for a file name; and no path outside the table of files
    can be opened. -/
structure Process where
  target : Target
  pageSize : Nat
  /-- `AT_EXECFN` -/
  execfn : Path
  /-- `AT_PHDR` -/
  phdrAddr : Nat
  /-- The headers at `AT_PHDR`, as many as `AT_PHNUM` says. -/
  phdr : List Phdr
  dynamicAt : Nat → List Dyn
  stringAt : Nat → List UInt8
  files : Path → Option OpenFile
  mmapAnon : List SysCall → Nat → Option Nat
  nextFd : List SysCall → Nat
  /-- Where `dirname` keeps its static `"."`. -/
  dotAddr : Nat
  /-- `&no_path` -/
  noPathAddr : Nat
  pageSize_pos : 0 < pageSize
  execfn_noZero : 0 ∉ execfn
  stringAt_noZero : ∀ a, 0 ∉ stringAt a
  stringAt_noPath : stringAt noPathAddr = []
  strings_fit : ∀ a, execfn.length + (stringAt a).length + 32 < 2 ^ target.cls.wordBits
  files_target : ∀ path m, files path = some (.mapped m) → m.target = target

/-- The globals, and the calls made so far. -/
structure AuditState where
  shippedGlibcxxVersion : Nat := invalidGlibcxxVersion
  shippedLibstdcxxPath : Option PathBuffer := none
  lenShippedPathBuffer : Nat := 0
  calls : List SysCall := []
  deriving DecidableEq, Repr

/-- Making a call. -/
def AuditState.call (s : AuditState) (c : SysCall) : AuditState :=
  { s with calls := s.calls ++ [c] }

/-- What a search works on: the calls made so far, and `fd_libstdcxx` with the
    file behind it, once there is one. -/
structure SearchState where
  calls : List SysCall
  fd : Option (Nat × OpenFile)

section Init

variable (p : Process)

/-- `ElfW` -/
abbrev Process.wordBits : Nat := p.target.cls.wordBits

/-- `trypath` -/
def Process.trypath (path : Path) (s : SearchState) : ErrorCode × SearchState :=
  match p.files path with
  | none => (.fatalError, s)
  | some file =>
    (.success, ⟨s.calls ++ [.openFile path (p.nextFd s.calls)], some (p.nextFd s.calls, file)⟩)

/-- The calls of a search along a run path. -/
def Process.pathOps : PathOps SearchState where
  mmap len s :=
    match p.mmapAnon s.calls len with
    | none => (none, s)
    | some addr => (some addr, { s with calls := s.calls ++ [.mmap addr len] })
  munmap addr len s := { s with calls := s.calls ++ [.munmap addr len] }
  trypath := p.trypath

/-- `ORIGIN`: where it is and what it says. `origin_local` is a copy without a
    terminator, so a length of whole pages leaves nothing to stop at. -/
def Process.origin (originLocal : Nat) : Run (Nat × Path) := do
  if p.execfn.length % p.pageSize = 0 then
    .error .outOfRange
  else
    match dirname p.execfn with
    | none => return (p.dotAddr, ['.'.toUInt8])
    | some dir => return (originLocal, dir)

/-- One `find_libstdcxx_from_dt_path`, with the globals it writes to. -/
def findShipped (dtPath origin : Path) (s : AuditState) (fd : Option (Nat × OpenFile)) :
    Run (ErrorCode × AuditState × Option (Nat × OpenFile)) := do
  let r ← findLibstdcxxFromDtPath p.wordBits p.pathOps dtPath origin ⟨s.calls, fd⟩
  return (r.error, { s with
    shippedLibstdcxxPath := r.buffer
    lenShippedPathBuffer := lenPathBuffer r.buffer
    calls := r.world.calls }, r.world.fd)

/-- The search in `DT_RPATH`, unless the one in `DT_RUNPATH` found something. -/
def searchRpath (rpath : Nat) (origin : Path)
    (r : ErrorCode × AuditState × Option (Nat × OpenFile)) :
    Run (ErrorCode × AuditState × Option (Nat × OpenFile)) :=
  if r.1 = .success then return r
  else findShipped p (p.stringAt rpath) origin r.2.1 r.2.2

/-- `DT_RUNPATH`, then `DT_RPATH`. -/
def searchRunPaths (paths : RunPaths) (origin : Path) (s : AuditState) :
    Run (ErrorCode × AuditState × Option (Nat × OpenFile)) :=
  if p.stringAt paths.runpath ≠ [] then do
    let r ← findShipped p (p.stringAt paths.runpath) origin s none
    searchRpath p paths.rpath origin r
  else searchRpath p paths.rpath origin (.fatalError, s, none)

/-- Giving the path of the shipped library back, if there is one. -/
def AuditState.unmapShipped (s : AuditState) : AuditState :=
  match s.shippedLibstdcxxPath with
  | none => s
  | some b => s.call (.munmap b.addr s.lenShippedPathBuffer)

/-- What `get_libstdcxx_version` leaves of the globals. -/
def AuditState.recordShipped (s : AuditState) (r : VersionResult) : AuditState :=
  let s := { s with shippedGlibcxxVersion := r.glibcxxVersion, calls := s.calls ++ r.calls }
  if r.error ≠ .success then
    { s.unmapShipped with
      shippedGlibcxxVersion := invalidGlibcxxVersion
      shippedLibstdcxxPath := none }
  else s

/-- Taking down the version of the library found. -/
def recordVersion (fuel : Nat) (s : AuditState) : Option (Nat × OpenFile) → Run AuditState
  | none => .error .assert
  | some (fd, file) => do
    let r ← getLibstdcxxVersion fuel fd file s.shippedGlibcxxVersion
    return s.recordShipped r

/-- What `la_version` does once it has the run paths. -/
def initShipped (fuel : Nat) (paths : RunPaths) (origin : Nat × Path) (s : AuditState) :
    Run AuditState := do
  -- This exit does not give `origin_local` back.
  if paths.error ≠ .success then
    return s
  let (found, s, fd) ← searchRunPaths p paths origin.2 s
  if found ≠ .success then
    return s.unmapShipped.call (.munmap origin.1 p.execfn.length)
  let s ← recordVersion fuel s fd
  return s.call (.munmap origin.1 p.execfn.length)

/-- `la_version` -/
def laVersion (fuel : Nat) (s : AuditState) : Run AuditState := do
  require (lenLibstdcxxRelPath = libstdcxxRelPath.length)
  match p.mmapAnon s.calls p.execfn.length with
  | none => return s
  | some originLocal => do
    let s := s.call (.mmap originLocal p.execfn.length)
    let origin ← p.origin originLocal
    let paths ← getParentExecutableRunpathRpath p.wordBits p.dynamicAt p.phdrAddr p.phdr
      p.noPathAddr p.noPathAddr
    initShipped p fuel paths origin s

end Init

section Hooks

variable (p : Process) (fuel : Nat)

/-- What `la_objsearch` answers: a null pointer, its own name, or the path of
    the shipped library. -/
inductive Answer where
  | null
  | name
  | shipped (path : PathBuffer)
  deriving DecidableEq, Repr

/-- The name is one of a `libstdc++`: it ends in `libstdcxx_rel_path`. -/
def searchesLibstdcxx (name : Path) : Run Bool :=
  if name.length < lenLibstdcxxRelPath then return false
  else strncmpEq (name.drop (name.length - lenLibstdcxxRelPath) ++ [0]) libstdcxxRelPath

/-- The comparison of the system library with the shipped one. -/
def compareSystem (shipped : PathBuffer) (r : VersionResult) (s : AuditState) :
    Answer × AuditState :=
  -- A fatal error is reported and then compared as version 0.
  if r.error = .nonFatalError then (.null, s)
  else if r.glibcxxVersion < s.shippedGlibcxxVersion then (.shipped shipped, s)
  else (.name, { s with shippedGlibcxxVersion := r.glibcxxVersion })

/-- The search for a `libstdc++`. -/
def searchSystem (shipped : PathBuffer) (name : Path) (flag : Nat) (s : AuditState) :
    Run (Answer × AuditState) := do
  if flag = laSerRunpath then
    return (.null, s)
  match p.files name with
  | none => return (.name, s)
  | some file => do
    let r ← getLibstdcxxVersion fuel (p.nextFd s.calls) file 0
    return compareSystem shipped r
      { s with calls := s.calls ++ .openFile name (p.nextFd s.calls) :: r.calls }

/-- `la_objsearch` -/
def laObjsearch (name : Path) (flag : Nat) (s : AuditState) : Run (Answer × AuditState) :=
  match s.shippedLibstdcxxPath with
  | none => return (.name, s)
  | some shipped =>
    if s.shippedGlibcxxVersion = invalidGlibcxxVersion then return (.name, s)
    else do
      let searched ← searchesLibstdcxx name
      if searched then searchSystem p fuel shipped name flag s else return (.name, s)

/-- `la_activity` -/
def laActivity (flag : Nat) (s : AuditState) : AuditState :=
  match s.shippedLibstdcxxPath with
  | none => s
  | some b =>
    if flag = laActConsistent then
      { s.call (.munmap b.addr s.lenShippedPathBuffer) with shippedLibstdcxxPath := none }
    else s

/-- A call of one of the hooks behind `la_version`. -/
inductive HookCall where
  | objsearch (name : Path) (flag : Nat)
  | activity (flag : Nat)
  deriving DecidableEq, Repr

/-- What a call leaves behind. -/
def hook (s : AuditState) : HookCall → Run AuditState
  | .objsearch name flag => do
    let r ← laObjsearch p fuel name flag s
    return r.2
  | .activity flag => return laActivity flag s

end Hooks

end AuditLibstdcxx
