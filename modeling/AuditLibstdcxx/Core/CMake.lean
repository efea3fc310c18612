import AuditLibstdcxx.Core.GetVersion
import AuditLibstdcxx.Lib.SepList

/-!
# Searching at Build Time

`find_highest_libstdcxx`, the CMake function that looks for the library to
ship. A variable of CMake holds a text, and a list is a text with a `;` between
its elements. The list of directories to search is put together by commands on
such texts: two keywords are taken out of it, and the default search is put in
as an element that is empty.

The function asks the tool of this repository for the version of every library
it finds. What the compiler and `find_library` answer is a `CMakeWorld`, and so
is what the tool's call of `get_libstdcxx_version` comes to for each library. A
call that never returns is left out: `execute_process` would not return either.

## Main definitions

* `CMakeStr`, `isFalse`: Texts, and those that count as false.
* `CMakeWorld`: What the function finds around it.
* `versionToolOutput`: What the tool prints.
* `toolMain`: The tool.
* `findCompilerLibstdcxx`: The directory of the compiler's library.
* `searchPathElements`: The list of directories to search.
* `considerPath`: A round of the loop.
* `findHighestLibstdcxx`: The function.
-/

namespace AuditLibstdcxx

open Checked

/-- The value of a variable. -/
abbrev CMakeStr : Type := List Char

/-- `";"` -/
def semicolon : Char := ';'

/-- `"<variable>-NOTFOUND"` -/
def notFound (variableName : CMakeStr) : CMakeStr :=
  variableName ++ "-NOTFOUND".toList

/-- The value counts as false in `if(<variable>)`. -/
def isFalse (value : CMakeStr) : Bool :=
  ["".toList, "0".toList, "N".toList, "NO".toList, "OFF".toList, "FALSE".toList,
    "IGNORE".toList].contains (value.map Char.toUpper) ||
  decide (value = "NOTFOUND".toList) || decide ("-NOTFOUND".toList <:+ value)

theorem isFalse_notFound (variableName : CMakeStr) : isFalse (notFound variableName) = true := by
  unfold isFalse notFound
  rw [Bool.or_eq_true, decide_eq_true_iff]
  exact Or.inr (List.suffix_append _ _)

/-- A value that is not false is not that of a variable that was not found. -/
theorem ne_notFound_of_true {value : CMakeStr} (h : isFalse value = false)
    (variableName : CMakeStr) : value ≠ notFound variableName := by
  intro hnot
  rw [hnot, isFalse_notFound] at h
  cases h

@[simp] theorem isFalse_nil : isFalse [] = true := by decide

/-- What the function finds around it. A path that CMake comes up with has no
    separator in it and is no false value. -/
structure CMakeWorld where
  /-- `CMAKE_CXX_COMPILER_ID STREQUAL "GNU"` -/
  compilerIsGnu : Bool
  /-- The output of the compiler under `-print-file-name=libstdc++.so`. -/
  printFileName : CMakeStr
  /-- `file(REAL_PATH)` of the directory of a path. -/
  realDirectory : CMakeStr → CMakeStr
  /-- `find_library` in one directory, under `NO_DEFAULT_PATH`. -/
  findLibrary : CMakeStr → Option CMakeStr
  /-- `find_library` in the default directories. -/
  findLibraryDefault : Option CMakeStr
  /-- What `get_libstdcxx_version` hands to the tool, unless the library cannot
      be opened or the call is stopped. -/
  versionResult : CMakeStr → Option VersionResult
  realDirectory_noSep : ∀ path, semicolon ∉ realDirectory path
  findLibrary_path : ∀ path lib, findLibrary path = some lib → isFalse lib = false
  findLibraryDefault_path : ∀ lib, findLibraryDefault = some lib → isFalse lib = false
  versionResult_lt : ∀ lib r, versionResult lib = some r → r.glibcxxVersion < 2 ^ 32

/-! ### The Tool -/

/-- `printf("%08x")` -/
def hex08 (version : Nat) : CMakeStr :=
  [7, 6, 5, 4, 3, 2, 1, 0].map fun i => Nat.digitChar (version / 16 ^ i % 16)

/-- What the tool prints on its standard output. An assertion that fails prints
    nothing there. -/
def versionToolOutput : Option VersionResult → CMakeStr
  | none => []
  | some r => if r.error = .success then hex08 r.glibcxxVersion ++ ['\n'] else []

/-- `main` of the tool on the file that opens under its argument, if one does,
    with what it prints on its standard output. -/
def toolMain (fuel fd : Nat) : Option OpenFile → Run CMakeStr
  | none => .error .assert
  | some file => do
    let r ← getLibstdcxxVersion fuel fd file 0
    require (r.error ≠ .fatalError)
    require (r.error = .success)
    return hex08 r.glibcxxVersion ++ ['\n']

/-- The standard output of a program that may have been aborted. -/
def standardOutput : Run CMakeStr → CMakeStr
  | .ok output => output
  | .error _ => []

/-- `OUTPUT_STRIP_TRAILING_WHITESPACE` -/
def stripTrailingWhitespace (text : CMakeStr) : CMakeStr :=
  text.rdropWhile fun c => decide (c ∈ [' ', '\t', '\n', '\r'])

/-- `[0-9A-Fa-f]` -/
def isHexDigit (c : Char) : Bool :=
  decide (c ∈ "0123456789ABCDEFabcdef".toList)

/-- `MATCHES "^[0-9A-Fa-f]+$"` -/
def matchesHex (text : CMakeStr) : Bool :=
  decide (text ≠ []) && text.all isHexDigit

/-- The value of a lower-case digit. -/
def hexValue (c : Char) : Nat :=
  if c.isDigit then c.toNat - '0'.toNat else c.toNat - 'a'.toNat + 10

/-- `math(EXPR VALUE "0x${text}")` -/
def mathExprHex (text : CMakeStr) : Nat :=
  text.foldl (fun n c => n * 16 + hexValue c) 0

/-! ### The Directories -/

/-- `"NO_DEFAULT_PATH"` -/
def noDefaultPath : CMakeStr := "NO_DEFAULT_PATH".toList

/-- `"NO_COMPILER_PATH"` -/
def noCompilerPath : CMakeStr := "NO_COMPILER_PATH".toList

/-- `"ABS_LIBSTDCXX_PATH"` -/
def absLibstdcxxPath : CMakeStr := "ABS_LIBSTDCXX_PATH".toList

/-- `"LIB_FOUND"` -/
def libFoundName : CMakeStr := "LIB_FOUND".toList

/-- `find_compiler_libstdcxx` -/
def findCompilerLibstdcxx (w : CMakeWorld) (absDirVar : CMakeStr) : CMakeStr :=
  if w.compilerIsGnu = false then notFound absDirVar
  else if isFalse w.printFileName = false then w.realDirectory w.printFileName
  else notFound absDirVar

/-- `SEARCH_PATHS` after the default search has been put in or left out. -/
def withDefaultPath (searchPaths : CMakeStr) : CMakeStr :=
  match SepList.find semicolon searchPaths noDefaultPath with
  | none => SepList.append semicolon searchPaths []
  | some i =>
      SepList.removeItem semicolon (SepList.removeAt semicolon searchPaths i) []

/-- `SEARCH_PATHS` after the directory of the compiler has been put in or taken
    out. -/
def withCompilerPath (absPath searchPaths : CMakeStr) : CMakeStr :=
  let usable := isFalse absPath = false ∧ absPath ≠ notFound absLibstdcxxPath
  match SepList.find semicolon searchPaths noCompilerPath with
  | none => if usable then SepList.append semicolon searchPaths absPath else searchPaths
  | some i =>
      let searchPaths := SepList.removeAt semicolon searchPaths i
      if usable then SepList.removeItem semicolon searchPaths absPath else searchPaths

/-- `foreach(PATH IN LISTS SEARCH_PATHS)` -/
def searchPathElements (w : CMakeWorld) (searchPaths : CMakeStr) : List CMakeStr :=
  SepList.elems semicolon
    (withCompilerPath (findCompilerLibstdcxx w absLibstdcxxPath) (withDefaultPath searchPaths))

/-! ### The Loop -/

/-- The variables of the loop, and the libraries the tool was run on. -/
structure HighestState where
  highestValue : Nat := 0
  foundLibrary : Bool := false
  /-- `${OPTIMAL_LIBSTDCXX}`, once it is set. -/
  optimal : Option CMakeStr := none
  considered : List CMakeStr := []

/-- `LIB_FOUND` -/
def libFound (w : CMakeWorld) (path : CMakeStr) : CMakeStr :=
  (if path = [] then w.findLibraryDefault else w.findLibrary path).getD (notFound libFoundName)

/-- What is done with a library that was found. -/
def considerLibrary (w : CMakeWorld) (lib : CMakeStr) (s : HighestState) : HighestState :=
  let s := { s with considered := s.considered ++ [lib] }
  let output := stripTrailingWhitespace (versionToolOutput (w.versionResult lib))
  if matchesHex output then
    let value := mathExprHex (output.map Char.toLower)
    if value > s.highestValue then
      { s with highestValue := value, optimal := some lib, foundLibrary := true }
    else s
  else s

/-- A round of the loop. -/
def considerPath (w : CMakeWorld) (s : HighestState) (path : CMakeStr) : HighestState :=
  if isFalse (libFound w path) = false ∧ libFound w path ≠ notFound libFoundName then
    considerLibrary w (libFound w path) s
  else s

/-- What the function leaves in the variable it is given, and the libraries it
    has looked at. -/
structure HighestResult where
  value : CMakeStr
  considered : List CMakeStr

/-- `find_highest_libstdcxx` -/
def findHighestLibstdcxx (w : CMakeWorld) (optimalLibstdcxx searchPaths : CMakeStr) :
    HighestResult :=
  let s := (searchPathElements w searchPaths).foldl (considerPath w) {}
  { value := if s.foundLibrary then s.optimal.getD [] else notFound optimalLibstdcxx
    considered := s.considered }

end AuditLibstdcxx
