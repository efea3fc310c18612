import AuditLibstdcxx.Lib.Backtrack

/-!
# Version Names in Python

The Python hook's own reading of version names, written independently of the
C library's. A name counts when `GLIBCXX_` occurs anywhere in it; its version
is what a regular expression makes of the name from the ninth character on;
and versions are compared as tuples.

Strings are lists of characters. The names are decoded from the bytes of a
file, so a digit is what Python takes for one: any of the decimal digits of
Unicode, both for the regular expression and for `int`.

## Main definitions

* `VersionTuple`: A version as Python compares it.
* `decimalValue`, `isDecimal`: The decimal digits of Unicode and their values.
* `pyInt`: `int` of a string of digits.
* `matchVersion`: The regular expression, with its three groups.
* `parseVersion`: `parse_version`.
* `maxGlibcxxVersion`: The loop of `get_glibcxx_versions_from_gnu_version_d`.
-/

namespace AuditLibstdcxx

open Backtrack

/-- A version as Python compares it: lexicographically, component by component. -/
abbrev VersionTuple : Type := Nat ×ₗ Nat ×ₗ Nat

/-- `(major, minor, patch)` -/
def versionTuple (major minor patch : Nat) : VersionTuple :=
  toLex (major, toLex (minor, patch))

/-- The zeros of Unicode 15. Nine more digits stand right behind each of them. -/
def decimalZeros : List Nat :=
  [0x30, 0x660, 0x6F0, 0x7C0, 0x966, 0x9E6, 0xA66, 0xAE6, 0xB66, 0xBE6, 0xC66, 0xCE6, 0xD66,
    0xDE6, 0xE50, 0xED0, 0xF20, 0x1040, 0x1090, 0x17E0, 0x1810, 0x1946, 0x19D0, 0x1A80,
    0x1A90, 0x1B50, 0x1BB0, 0x1C40, 0x1C50, 0xA620, 0xA8D0, 0xA900, 0xA9D0, 0xA9F0, 0xAA50,
    0xABF0, 0xFF10, 0x104A0, 0x10D30, 0x11066, 0x110F0, 0x11136, 0x111D0, 0x112F0, 0x11450,
    0x114D0, 0x11650, 0x116C0, 0x11730, 0x118E0, 0x11950, 0x11C50, 0x11D50, 0x11DA0, 0x11F50,
    0x16A60, 0x16AC0, 0x16B50, 0x1D7CE, 0x1D7D8, 0x1D7E2, 0x1D7EC, 0x1D7F6, 0x1E140, 0x1E2F0,
    0x1E4F0, 0x1E950, 0x1FBF0]

/-- `unicodedata.decimal(c, None)` -/
def decimalValue (c : Char) : Option Nat :=
  (decimalZeros.find? fun low => low ≤ c.toNat && c.toNat < low + 10).map (c.toNat - ·)

/-- `str.isdecimal`, of one character: what `\d` matches. -/
def isDecimal (c : Char) : Bool :=
  (decimalValue c).isSome

/-- `int(digits)` -/
def pyInt (digits : List Char) : Nat :=
  digits.foldl (fun n c => n * 10 + (decimalValue c).getD 0) 0

/-- `re.fullmatch(r"(\d+)(?:\.(\d+))?(?:\.(\d+))?", v)`, with its groups. -/
def matchVersion (v : List Char) : Option (List Char × Option (List Char) × Option (List Char)) :=
  plus isDecimal (fun major =>
    optionally (after '.' (plus isDecimal)) fun minor =>
      optionally (after '.' (plus isDecimal)) fun patch =>
        atEnd (major, minor, patch)) v

/-- `parse_version` -/
def parseVersion (v : List Char) : VersionTuple :=
  match matchVersion v with
  | none => versionTuple 0 0 0
  | some (major, minor, patch) =>
    versionTuple (pyInt major) ((minor.map pyInt).getD 0) ((patch.map pyInt).getD 0)

/-- `"GLIBCXX_"` -/
def glibcxx : List Char := ['G', 'L', 'I', 'B', 'C', 'X', 'X', '_']

/-- The loop over the version names of a file. -/
def maxGlibcxxVersion (versionNames : List (List Char)) : VersionTuple :=
  versionNames.foldl
    (fun maxVer versionName =>
      if glibcxx <:+: versionName then
        let ver := parseVersion (versionName.drop glibcxx.length)
        if ver > maxVer then ver else maxVer
      else maxVer)
    (versionTuple 0 0 0)

end AuditLibstdcxx
