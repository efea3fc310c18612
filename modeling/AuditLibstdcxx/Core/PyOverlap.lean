import AuditLibstdcxx.Core.PyAudit

/-!
# Overlapping Handlers of the Python Hook

The hook waits for `ldd`, and while it does the interpreter goes on: starting
the program raises events of its own, which are handled inside of the waiting
handler, and other threads run and raise theirs. So the handler of an event is
cut in two where it calls `ldd`, and its halves are put together with those of
other handlers in any order that the threads allow. The flag that disables the
hook is tested in the first half, and is not tested again in the second.

The comparison itself also loads libraries and starts programs. It has set the
flag before it begins, so the events of its own are among those that follow.

## Main definitions

* `hookBeforeLdd`, `afterLdd`: The two halves of a handler.
* `Overlap`: The globals, and what each thread is waiting for.
* `Turn`, `turn`: An event, or the end of a call of `ldd`.
* `overlapped`: The handlers after a sequence of turns.
-/

namespace AuditLibstdcxx

/-- `check_shared_lib_dependencies` up to its call of `ldd`, with the file it
    asks about. -/
def checkBeforeLdd (w : World) (libPath : PyStr) (s : HookState) : HookState × Option PyStr :=
  if basename libPath = libstdcxxSo then ((checkSharedLibDependencies w libPath s).2, none)
  else if w.pathExists libPath = false then (s, none)
  else (s, some libPath)

/-- `audit_hook` up to the call of `ldd`. -/
def hookBeforeLdd (w : World) (event : PyStr) (args : List PyValue) (s : HookState) :
    HookState × Option PyStr :=
  if s.disabled then (s, none)
  else
    match selectFilename event args with
    | none => (s, none)
    | some filename =>
        match sharedLibraryName filename with
        | .error _ => (s, none)
        | .ok none => (s, none)
        | .ok (some text) => checkBeforeLdd w text s

/-- The rest of it, once `ldd` is done. -/
def afterLdd (w : World) (libPath : PyStr) (s : HookState) : HookState :=
  match w.lddOutput libPath with
  | .error _ => s
  | .ok output =>
      -- `global_disable_audit_hook` may have been set in the meantime.
      if libstdcxxSo <:+: output then (checkSharedLibDependencies w libstdcxxSo s).2 else s

/-- The globals, and for each thread the files its handlers have asked `ldd`
    about, the innermost handler first. -/
structure Overlap where
  globals : HookState
  waiting : Nat → List PyStr

/-- An event is raised in a thread, or the call of `ldd` is done that the
    thread is waiting for. -/
inductive Turn where
  | event (thread : Nat) (d : Delivery)
  | lddEnds (thread : Nat) (world : World)

/-- What happens in a turn. A thread that waits for nothing has no call that
    could end. -/
def turn (o : Overlap) : Turn → Overlap
  | .event thread d =>
      if o.globals.registered then
        let r := hookBeforeLdd d.world d.event d.args o.globals
        { globals := r.1
          waiting := Function.update o.waiting thread (r.2.toList ++ o.waiting thread) }
      else o
  | .lddEnds thread world =>
      match o.waiting thread with
      | [] => o
      | libPath :: outer =>
          { globals := afterLdd world libPath o.globals
            waiting := Function.update o.waiting thread outer }

/-- The handlers after `set_hooks_and_audit` and a sequence of turns. -/
def overlapped (w : World) (libstdcxxPath : PyStr) (turns : List Turn) : Overlap :=
  turns.foldl turn ⟨setHooksAndAudit w libstdcxxPath {}, fun _ => []⟩

end AuditLibstdcxx
