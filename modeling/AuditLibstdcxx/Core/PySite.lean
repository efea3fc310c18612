import AuditLibstdcxx.Core.PyAudit

/-!
# How the Hook Gets Installed

The template `sitecustomize.py.in`, which a package that ships a library
installs under the name `sitecustomize.py`. Python imports a module of that name
when it starts. The template registers the hook, takes its own directory off
`sys.path`, and imports `sitecustomize` again, so that the module that would
have been found without it gets its turn. That one may be a template too.

What an import finds in a directory, and what `__file__` it has there, is up to
Python. So is how deep imports may go inside one another.

## Main definitions

* `SiteModule`, `SiteWorld`: What there is to import.
* `Interpreter`: What the template changes.
* `importSitecustomize`: `import sitecustomize`, with the template.
* `deliverCopies`: An event, where the hook is registered more than once.
-/

namespace AuditLibstdcxx

/-- A module `sitecustomize`: the template, with the path that was filled in, or
    any other, with what executing it ends in. -/
inductive SiteModule where
  | template (expectedLibstdcxxPath : PyStr)
  | other (outcome : Except PyException Unit)

/-- What there is to import. -/
structure SiteWorld where
  world : World
  /-- What is found under an entry of `sys.path`, with its `__file__`. -/
  find : PyStr → Option (PyStr × SiteModule)
  /-- `os.path.abspath` -/
  abspath : PyStr → PyStr

/-- What the template changes, and which modules have been executed so far, by
    their `__file__`. -/
structure Interpreter where
  /-- `sys.path` -/
  sysPath : List PyStr
  hook : HookState := {}
  /-- How often the hook was registered. -/
  registrations : Nat := 0
  executed : List PyStr := []

/-- How an import goes wrong: there is no such module, it raises an exception,
    or imports are too deep inside one another. -/
inductive SiteError where
  | notFound
  | raised (e : PyException)
  | recursion
  deriving DecidableEq, Repr

/-- `os.path.dirname` -/
def osPathDirname (path : PyStr) : PyStr :=
  let head := path.rdropWhile (fun c => decide (c ≠ '/'))
  -- A directory of nothing but slashes keeps them all.
  if head.all (fun c => decide (c = '/')) then head
  else head.rdropWhile (fun c => decide (c = '/'))

/-- The template, up to the import at its end. -/
def executeTemplate (w : SiteWorld) (file expectedLibstdcxxPath : PyStr) (s : Interpreter) :
    Interpreter where
  -- `__file__` is taken as it is, while the entries of the path are made absolute.
  sysPath := s.sysPath.filter fun path => decide (w.abspath path ≠ osPathDirname file)
  hook := setHooksAndAudit w.world expectedLibstdcxxPath s.hook
  registrations := s.registrations + if w.world.isLinux then 1 else 0
  executed := s.executed ++ [file]

/-- `import sitecustomize`, with as many imports inside one another as the
    interpreter lets there be. The module is never in `sys.modules`. -/
def importSitecustomize (w : SiteWorld) :
    Nat → Interpreter → Except SiteError Unit × Interpreter
  | 0, s => (.error .recursion, s)
  | depth + 1, s =>
    match s.sysPath.findSome? w.find with
    | none => (.error .notFound, s)
    | some (file, .other outcome) =>
      (outcome.mapError .raised, { s with executed := s.executed ++ [file] })
    | some (file, .template expectedLibstdcxxPath) =>
      importSitecustomize w depth (executeTemplate w file expectedLibstdcxxPath s)

/-- An event that reaches every copy of the hook there is, unless one of them
    raises an exception. -/
def deliverCopies : Nat → HookState → Delivery → HookState
  | 0, s, _ => s
  | n + 1, s, d =>
    match auditHook d.world d.event d.args s with
    -- An exception of one hook keeps the event from those behind it.
    | (.error _, s) => s
    | (.ok _, s) => deliverCopies n s d

end AuditLibstdcxx
