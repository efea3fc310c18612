import AuditLibstdcxx.Core.DtPath

/-!
# Run Paths of the Executable

`get_parent_executable_runpath_rpath`: from the program headers of the running
executable to its dynamic array, and from there to the strings of `DT_RUNPATH`
and `DT_RPATH`.

The headers are where the kernel says they are. Where the executable was
loaded follows from the header that describes the headers themselves, and the
dynamic array is read in place, entry by entry, up to `DT_NULL`. An array
without it is read past its end, which stops with `outOfRange`.

## Main definitions

* `Phdr`, `Dyn`: A program header and an entry of a dynamic array.
* `baseAddress`: Where the executable was loaded.
* `dynEntries`: The entries of a dynamic array.
* `strtabOf`: The string table of a dynamic array.
* `RunPaths`: What the function hands back.
* `getParentExecutableRunpathRpath`: The function.
-/

namespace AuditLibstdcxx

open Checked

/-- The members of `ElfW(Phdr)` that are read. -/
structure Phdr where
  pType : Nat
  pVaddr : Nat
  deriving DecidableEq, Repr

/-- `ElfW(Dyn)`. Both members of the union are the same word. -/
structure Dyn where
  dTag : Int
  dUn : Nat
  deriving DecidableEq, Repr

/-- `PT_DYNAMIC` -/
def ptDynamic : Nat := 2

/-- `PT_PHDR` -/
def ptPhdr : Nat := 6

/-- `DT_NULL` -/
def dtNull : Int := 0

/-- `DT_STRTAB` -/
def dtStrtab : Int := 5

/-- `DT_RPATH` -/
def dtRpath : Int := 15

/-- `DT_RUNPATH` -/
def dtRunpath : Int := 29

/-- The error code, `*dt_runpath` and `*dt_rpath`. -/
structure RunPaths where
  error : ErrorCode
  runpath : Nat
  rpath : Nat
  deriving DecidableEq, Repr

section Phdr

variable (w : Nat)

/-- `base_address`: the first `PT_PHDR` says where the headers would be without
    a load bias. -/
def baseAddress (phdrAddr : Nat) (phdr : List Phdr) : Nat :=
  match phdr.find? (fun h => h.pType = ptPhdr) with
  | none => 0
  | some h => sizeSub w phdrAddr h.pVaddr

/-- The entries of a dynamic array, up to `DT_NULL`. -/
def dynEntries : List Dyn → Run (List Dyn)
  | [] => .error .outOfRange
  | d :: ds => if d.dTag = dtNull then .ok [] else do
      let entries ← dynEntries ds
      return d :: entries

/-- `strtab`, the last of the array. -/
def strtabOf (entries : List Dyn) : Nat :=
  entries.foldl (fun strtab d => if d.dTag = dtStrtab then d.dUn else strtab) 0

/-- What is done with one entry. -/
def recordRunPath (strtab : Nat) (r : RunPaths) (d : Dyn) : RunPaths :=
  if d.dTag = dtRunpath then
    { r with error := .success, runpath := (strtab + d.dUn) % 2 ^ w }
  else if d.dTag = dtRpath then
    { r with error := .success, rpath := (strtab + d.dUn) % 2 ^ w }
  else r

/-- `get_parent_executable_runpath_rpath`, for the headers at `phdrAddr` and
    the dynamic arrays `dynamicAt` an address. -/
def getParentExecutableRunpathRpath (dynamicAt : Nat → List Dyn) (phdrAddr : Nat)
    (phdr : List Phdr) (runpath rpath : Nat) : Run RunPaths := do
  require (phdrAddr ≠ 0 ∧ phdr ≠ [])
  let base := baseAddress w phdrAddr phdr
  match phdr.find? (fun h => h.pType = ptDynamic) with
  | none => return ⟨.fatalError, runpath, rpath⟩
  | some h => do
    let entries ← dynEntries (dynamicAt ((base + h.pVaddr) % 2 ^ w))
    let strtab := strtabOf entries
    require (strtab ≠ 0)
    return entries.foldl (recordRunPath w strtab) ⟨.fatalError, runpath, rpath⟩

end Phdr

end AuditLibstdcxx
