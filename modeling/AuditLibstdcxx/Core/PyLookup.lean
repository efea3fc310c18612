import AuditLibstdcxx.Core.PyAudit
import AuditLibstdcxx.Lib.Newlines

/-!
# The Lookup in a Process of Its Own

`audit_libstdcxx.py` run as a program. It loads the library of the system, and
prints the path that its link map has. The hook starts it, to learn the path
without loading the library itself, and reads what it prints as text.

## Main definitions

* `lookupMain`: What the program prints.
* `runLookup`: What the hook is given of it.
-/

namespace AuditLibstdcxx

open Exceptions Newlines

/-- The module run as a program, with what it prints. `RuntimeError` is what it
    ends in on another system, and instead of `OSError`. -/
def lookupMain (w : World) : Except PyException PyStr :=
  if w.isLinux = false then .error .other
  else
    catching PyException.isOSError
      (match w.cdll .load (w.findLibrary stdcxx) with
      | none => .error .osError
      | some handle => do
        let abspath ← getCdllLibraryPath w handle
        return abspath ++ ['\n'])
      (fun _ => .error .other)

/-- `subprocess.run(check=True, text=True)` of the program. Any exception in it
    makes it exit with an error. -/
def runLookup (child : World) : Except PyException PyStr :=
  match lookupMain child with
  | .error _ => .error .calledProcessError
  | .ok output => .ok (universalNewlines output)

end AuditLibstdcxx
