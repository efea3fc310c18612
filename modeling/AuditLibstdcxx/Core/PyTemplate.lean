import AuditLibstdcxx.Core.CMake
import AuditLibstdcxx.Core.PySite
import AuditLibstdcxx.Lib.Newlines

/-!
# Filling In the Template

How the path of the library gets into `sitecustomize.py`. CMake puts the path
between quotation marks into a variable, and replaces the name of the variable
in the template by its value. Python reads what comes of it as a string literal,
in which a backslash begins an escape sequence. Nothing escapes the path on the
way.

Only the one argument is read here. A text in which it is anything else than a
string literal by itself is not given a meaning. The names of characters that
`\N` takes are up to Python.

## Main definitions

* `expandAt`: References to variables are replaced.
* `sitecustomizeTemplate`, `configureSitecustomize`: The template, filled in.
* `literalEnd`, `decodeEscapes`: A string literal.
* `templateModule`: What Python makes of the file.
-/

namespace AuditLibstdcxx

open Newlines

/-! ### CMake -/

/-- The characters in the name of a variable between two `@`. -/
def isVariableChar (c : Char) : Bool :=
  c.isAlphanum || decide (c ∈ ['/', '_', '.', '+', '-'])

/-- The variable between an `@` and the next one. -/
def variableAt (text : CMakeStr) : Option CMakeStr :=
  let name := text.takeWhile isVariableChar
  if name ≠ [] ∧ (text.drop name.length).head? = some '@' then some name else none

/-- `configure_file(@ONLY)` on the content of a file, behind so many characters
    that belong to a reference. -/
def expandAt (definition : CMakeStr → CMakeStr) : Nat → CMakeStr → CMakeStr
  | _, [] => []
  | skip + 1, _ :: rest => expandAt definition skip rest
  | 0, c :: rest =>
    if c = '@' then
      match variableAt rest with
      -- The value is not looked through for references again.
      | some name => definition name ++ expandAt definition (name.length + 1) rest
      | none => '@' :: expandAt definition 0 rest
    else c :: expandAt definition 0 rest

/-- `"SITECUSTOMIZE_EXPECTED_LIBSTDCXX_PATH"` -/
def expectedPathVariable : CMakeStr := "SITECUSTOMIZE_EXPECTED_LIBSTDCXX_PATH".toList

/-- A text of whole lines. -/
def textLines (lines : List String) : List Char :=
  lines.flatMap fun line => line.toList ++ ['\n']

/-- The template in front of the reference. -/
def templateHead : List Char :=
  textLines ["import os", "import sys", "",
    "from audit_libstdcxx import set_hooks_and_audit", ""] ++ "set_hooks_and_audit(".toList

/-- The template behind the reference. -/
def templateTail : List Char :=
  textLines [")", "",
    "# Find the directory to this script and remove it from sys.paths",
    "sys.path = [path for path in sys.path if os.path.abspath(path) != os.path.dirname(__file__)]",
    "", "# Removing ourself from sys.modules", "sys.modules.pop('sitecustomize', None)", "",
    "# Python will ignore an ImportError from import sitecustomize",
    "import sitecustomize  # noqa: E402, F401"]

/-- `sitecustomize.py.in` -/
def sitecustomizeTemplate : CMakeStr :=
  templateHead ++ '@' :: expectedPathVariable ++ '@' :: templateTail

/-- The `sitecustomize.py` that is made for a library. -/
def configureSitecustomize (definition : CMakeStr → CMakeStr) (resolvedPath : CMakeStr) :
    CMakeStr :=
  expandAt (Function.update definition expectedPathVariable ('"' :: resolvedPath ++ ['"'])) 0
    sitecustomizeTemplate

/-! ### Python -/

/-- A string literal up to the quotation marks at its end, and what is behind
    them. Only one in three of them goes on over the end of a line. -/
def literalEnd (triple : Bool) : List Char → Option (List Char × List Char)
  | [] => none
  -- A backslash takes the next character with it, be it a quotation mark.
  | '\\' :: c :: rest => (literalEnd triple rest).map fun r => ('\\' :: c :: r.1, r.2)
  | c :: rest =>
    if c = '"' ∧ triple = false then some ([], rest)
    else if c = '"' ∧ rest.take 2 = ['"', '"'] then some ([], rest.drop 2)
    else if c = '\n' ∧ triple = false then none
    else (literalEnd triple rest).map fun r => (c :: r.1, r.2)

/-- A string literal, and what is behind it. -/
def readLiteral (text : List Char) : Option (List Char × List Char) :=
  -- A path that begins with two quotation marks makes three of them.
  if text.take 3 = ['"', '"', '"'] then literalEnd true (text.drop 3)
  else if text.head? = some '"' then literalEnd false (text.drop 1)
  else none

/-- What a backslash and one more character stand for. -/
def simpleEscapes : List (Char × List Nat) :=
  [('\n', []), ('\\', [92]), ('\'', [39]), ('"', [34]), ('a', [7]), ('b', [8]), ('f', [12]),
    ('n', [10]), ('r', [13]), ('t', [9]), ('v', [11])]

/-- `[0-7]` -/
def isOctDigit (c : Char) : Bool :=
  decide ('0' ≤ c ∧ c ≤ '7')

/-- A character by a number of hexadecimal digits, and how much they take with
    the letter in front of them. -/
def hexEscape (count : Nat) (text : List Char) : Option (List Nat × Nat) :=
  let digits := text.take count
  let value := mathExprHex (digits.map Char.toLower)
  if digits.length = count ∧ digits.all isHexDigit ∧ value ≤ 0x10FFFF then some ([value], count + 1)
  else none

/-- A character by its name. -/
def namedEscape (unicodeName : List Char → Option Nat) : List Char → Option (List Nat × Nat)
  | '\x7b' :: text =>
    let name := text.takeWhile fun c => decide (c ≠ '\x7d')
    if name.length < text.length then (unicodeName name).map fun n => ([n], name.length + 3)
    else none
  | _ => none

/-- What an escape sequence stands for, and how much of the text behind the
    backslash it takes. An unknown one stands for itself. -/
def readEscape (unicodeName : List Char → Option Nat) : List Char → Option (List Nat × Nat)
  | [] => none
  | c :: rest =>
    match simpleEscapes.lookup c with
    | some values => some (values, 1)
    | none =>
      if isOctDigit c then
        let digits := ((c :: rest).takeWhile isOctDigit).take 3
        some ([digits.foldl (fun n d => n * 8 + (d.toNat - '0'.toNat)) 0], digits.length)
      else if c = 'x' then hexEscape 2 rest
      else if c = 'u' then hexEscape 4 rest
      else if c = 'U' then hexEscape 8 rest
      else if c = 'N' then namedEscape unicodeName rest
      else some (['\\'.toNat, c.toNat], 1)

/-- The characters of a string literal, behind so many that belong to an escape
    sequence. A surrogate is none that a path can have, but a string can. -/
def decodeEscapes (unicodeName : List Char → Option Nat) : Nat → List Char → Option (List Nat)
  | _, [] => some []
  | skip + 1, _ :: rest => decodeEscapes unicodeName skip rest
  | 0, c :: rest =>
    if c = '\\' then
      (readEscape unicodeName rest).bind fun e =>
        (decodeEscapes unicodeName e.2 rest).map (e.1 ++ ·)
    else (decodeEscapes unicodeName 0 rest).map (c.toNat :: ·)

/-- The argument of `set_hooks_and_audit` in a template that was filled in. -/
def templateArgument (unicodeName : List Char → Option Nat) (source : List Char) :
    Option (List Nat) :=
  -- The source is decoded before it is split into tokens, and a null character refused.
  let text := universalNewlines source
  if '\x00' ∉ source ∧ templateHead <+: text then do
    let literal ← readLiteral (text.drop templateHead.length)
    if literal.2.head? = some ')' then decodeEscapes unicodeName 0 literal.1 else none
  else none

/-- The character with a number, if there is one. -/
def charOfCode (n : Nat) : Option Char :=
  if n.isValidChar then some (Char.ofNat n) else none

/-- What Python makes of a template that was filled in. -/
def templateModule (unicodeName : List Char → Option Nat) (source : List Char) :
    Option SiteModule := do
  let values ← templateArgument unicodeName source
  let path ← values.mapM charOfCode
  return .template path

end AuditLibstdcxx
