import AuditLibstdcxx.Core.PyOverlap
import AuditLibstdcxx.Theory.PyCoverage

/-!
# How Often the Comparison Starts

Handlers that overlap at their calls of `ldd`. The flag is tested at the
beginning of a handler and set before the comparison starts, so once it has
started every event that is raised is ignored. That does not stop the handlers
that have passed the test before: such a handler is already waiting, and if
`ldd` lists the C++ library for it, the comparison starts again.

So there is one thing to look for in the turns of a run: a handler that begins
before `ldd` first lists the library, ends after that, and has it listed as
well. Runs in which each handler ends before the next event have none, and they
are the sessions of handlers that do not overlap.

## Main definitions

* `StartsOnce`: At most one start, and deafness from there on.
* `waitingFor`: The calls of `ldd` a thread has begun and not ended.
* `FirstListing`, `ListsLate`: An answer that lists the library, before and
  after another one did.
* `Overlaps`: There is one of each.
* `oneByOne`: Each handler ends before the next event.

## Theorems

* `hookBeforeLdd_cases`, `hook_halves`: The two halves of a handler make up the hook.
* `turn_globals_of_lists`: What a turn does to the globals.
* `overlapped_disabled_iff`: The flag is set when the comparison has started.
* `overlapped_quiet`, `overlapped_from_disabled`: Who is waiting, by the turns.
* `overlaps_iff`: An answer that finds the flag set is one of an overlap.
* `startsOnce_iff`: Exactly when the comparison starts at most once.
* `overlapped_oneByOne`: Handlers that do not overlap make up a session.
-/

namespace AuditLibstdcxx

open Exceptions

/-! ### One Handler -/

/-- `ldd` lists the C++ library among the dependencies of a file. -/
def LddLists (w : World) (libPath : PyStr) : Prop :=
  ∃ output, w.lddOutput libPath = .ok output ∧ libstdcxxSo <:+: output

theorem afterLdd_of_lists (w : World) (libPath : PyStr) (s : HookState) (h : LddLists w libPath) :
    afterLdd w libPath s = afterCheck w s := by
  rcases h with ⟨output, hldd, hlisted⟩
  have hself : basename libstdcxxSo = libstdcxxSo := by decide
  simp [afterLdd, hldd, hlisted, checkSharedLibDependencies_of_basename w libstdcxxSo s hself]

theorem afterLdd_of_not_lists (w : World) (libPath : PyStr) (s : HookState)
    (h : ¬ LddLists w libPath) : afterLdd w libPath s = s := by
  unfold afterLdd
  cases hldd : w.lddOutput libPath with
  | error e => rfl
  | ok output => exact if_neg fun hlisted => h ⟨output, hldd, hlisted⟩

/-- A file that is not the C++ library is asked about if it exists, and what
    comes after that is left to the second half. -/
theorem checkBeforeLdd_cases (w : World) (libPath : PyStr) (s : HookState)
    (hbase : basename libPath ≠ libstdcxxSo) :
    checkBeforeLdd w libPath s = (s, none) ∧ (checkSharedLibDependencies w libPath s).2 = s ∨
      checkBeforeLdd w libPath s = (s, some libPath) ∧
        (checkSharedLibDependencies w libPath s).2 = afterLdd w libPath s := by
  rw [checkBeforeLdd, if_neg hbase, checkSharedLibDependencies, if_neg hbase]
  by_cases hexists : w.pathExists libPath = false
  · rw [if_pos hexists, if_pos hexists]
    exact Or.inl ⟨rfl, rfl⟩
  · rw [if_neg hexists, if_neg hexists]
    refine Or.inr ⟨rfl, ?_⟩
    rw [afterLdd]
    cases w.lddOutput libPath with
    | error e => rfl
    | ok output => by_cases hlisted : libstdcxxSo <:+: output <;> simp [hlisted]

/-- An event is of no interest, or makes the hook ask about a file. A name that
    ends in `.so` is not that of the C++ library, so the comparison does not
    start before `ldd` is asked. -/
theorem hookBeforeLdd_cases (w : World) (event : PyStr) (args : List PyValue) (s : HookState) :
    hookBeforeLdd w event args s = (s, none) ∧ (auditHook w event args s).2 = s ∨
      ∃ libPath, hookBeforeLdd w event args s = (s, some libPath) ∧
        (auditHook w event args s).2 = afterLdd w libPath s := by
  unfold auditHook hookBeforeLdd
  by_cases hs : s.disabled = true
  · rw [if_pos hs, if_pos hs]
    exact Or.inl ⟨rfl, rfl⟩
  · rw [if_neg hs, if_neg hs]
    cases selectFilename event args with
    | none => exact Or.inl ⟨rfl, rfl⟩
    | some filename =>
        cases hname : sharedLibraryName filename with
        | error e => simp [hname]
        | ok name =>
            cases name with
            | none => simp [hname]
            | some text =>
                have hso := ((sharedLibraryName_eq_some filename text).mp hname).2
                simp only [hname]
                rcases checkBeforeLdd_cases w text s (basename_ne_of_so text hso) with h | h
                · exact Or.inl h
                · exact Or.inr ⟨text, h⟩

/-- The first half leaves the globals alone. -/
theorem hookBeforeLdd_globals (w : World) (event : PyStr) (args : List PyValue) (s : HookState) :
    (hookBeforeLdd w event args s).1 = s := by
  rcases hookBeforeLdd_cases w event args s with ⟨hfirst, _⟩ | ⟨libPath, hfirst, _⟩
  · rw [hfirst]
  · rw [hfirst]

/-- The two halves of a handler, one right after the other, make up the hook. -/
theorem hook_halves (w : World) (event : PyStr) (args : List PyValue) (s : HookState) :
    (auditHook w event args s).2 =
      (hookBeforeLdd w event args s).2.elim s fun libPath => afterLdd w libPath s := by
  rcases hookBeforeLdd_cases w event args s with ⟨hfirst, hhook⟩ | ⟨libPath, hfirst, hhook⟩
  · rw [hfirst, hhook, Option.elim_none]
  · rw [hfirst, hhook, Option.elim_some]

/-! ### One Turn -/

section Turns

variable (o : Overlap) (thread : Nat)

theorem turn_event (d : Delivery) (h : o.globals.registered = true) :
    turn o (.event thread d) =
      { globals := o.globals
        waiting := Function.update o.waiting thread
          ((hookBeforeLdd d.world d.event d.args o.globals).2.toList ++ o.waiting thread) } := by
  simp [turn, h, hookBeforeLdd_globals]

theorem turn_event_unregistered (d : Delivery) (h : o.globals.registered = false) :
    turn o (.event thread d) = o := by
  simp [turn, h]

theorem turn_lddEnds (world : World) (libPath : PyStr) (outer : List PyStr)
    (h : o.waiting thread = libPath :: outer) :
    turn o (.lddEnds thread world) =
      { globals := afterLdd world libPath o.globals
        waiting := Function.update o.waiting thread outer } := by
  simp [turn, h]

theorem turn_lddEnds_idle (world : World) (h : o.waiting thread = []) :
    turn o (.lddEnds thread world) = o := by
  simp [turn, h]

end Turns

/-- `ldd` lists the library for the handler that a thread is waiting in. -/
def Lists (o : Overlap) : Turn → Prop
  | .event _ _ => False
  | .lddEnds thread world => ∃ libPath ∈ (o.waiting thread).head?, LddLists world libPath

/-- The world in which a turn happens. -/
def Turn.world : Turn → World
  | .event _ d => d.world
  | .lddEnds _ world => world

/-- The comparison starts when `ldd` lists the library, and at no other time. -/
theorem turn_globals_of_lists (o : Overlap) (a : Turn) (h : Lists o a) :
    (turn o a).globals = afterCheck a.world o.globals := by
  cases a with
  | event thread d => exact absurd h id
  | lddEnds thread world =>
      rcases h with ⟨libPath, hhead, hlists⟩
      cases hwaiting : o.waiting thread with
      | nil => simp [hwaiting] at hhead
      | cons first outer =>
          have hfirst : first = libPath := by simpa [hwaiting] using hhead
          rw [turn_lddEnds o thread world first outer hwaiting, hfirst]
          exact afterLdd_of_lists world libPath o.globals hlists

theorem turn_globals_of_not_lists (o : Overlap) (a : Turn) (h : ¬ Lists o a) :
    (turn o a).globals = o.globals := by
  cases a with
  | event thread d =>
      by_cases hregistered : o.globals.registered = true
      · rw [turn_event o thread d hregistered]
      · rw [turn_event_unregistered o thread d (by simpa using hregistered)]
  | lddEnds thread world =>
      cases hwaiting : o.waiting thread with
      | nil => rw [turn_lddEnds_idle o thread world hwaiting]
      | cons libPath outer =>
          have hnot : ¬ LddLists world libPath := fun hlists =>
            h ⟨libPath, by simp [hwaiting], hlists⟩
          rw [turn_lddEnds o thread world libPath outer hwaiting]
          exact afterLdd_of_not_lists world libPath o.globals hnot

/-- An event is ignored once the flag is set. -/
theorem turn_event_of_disabled (o : Overlap) (thread : Nat) (d : Delivery)
    (h : o.globals.disabled = true) : turn o (.event thread d) = o := by
  by_cases hregistered : o.globals.registered = true
  · have hnothing : (hookBeforeLdd d.world d.event d.args o.globals).2 = none := by
      rw [hookBeforeLdd, if_pos h]
    rw [turn_event o thread d hregistered, hnothing, Option.toList_none, List.nil_append,
      Function.update_eq_self]
  · rw [turn_event_unregistered o thread d (by simpa using hregistered)]

/-- The flag is not taken back. -/
theorem turn_enabled (o : Overlap) (a : Turn) (h : (turn o a).globals.disabled = false) :
    o.globals.disabled = false := by
  by_cases hlists : Lists o a
  · rw [turn_globals_of_lists o a hlists] at h
    cases h
  · rwa [turn_globals_of_not_lists o a hlists] at h

/-! ### Sequences of Turns -/

/-- The comparison has started at most once, and from then on every event is
    ignored. -/
structure StartedOnce (o : Overlap) : Prop where
  atMostOnce : o.globals.checks.length ≤ 1
  deaf : o.globals.checks ≠ [] → ∀ thread d, turn o (.event thread d) = o

/-- So it is at any time of a run. -/
def StartsOnce (w : World) (libstdcxxPath : PyStr) (turns : List Turn) : Prop :=
  ∀ before behind, turns = before ++ behind → StartedOnce (overlapped w libstdcxxPath before)

/-- The file a handler asks `ldd` about, if the hook is enabled when its event
    is raised. -/
def asksAbout (d : Delivery) : Option PyStr :=
  (hookBeforeLdd d.world d.event d.args {}).2

/-- A turn begins a call of `ldd` in a thread, ends the innermost one there, or
    has nothing to do with the thread. -/
def waitingStep (thread : Nat) (calls : List PyStr) : Turn → List PyStr
  | .event t d => if t = thread then (asksAbout d).toList ++ calls else calls
  | .lddEnds t _ => if t = thread then calls.tail else calls

/-- The calls a thread has begun and not ended, innermost first, as long as the
    hook is enabled. -/
def waitingFor (turns : List Turn) (thread : Nat) : List PyStr :=
  turns.foldl (waitingStep thread) []

/-- The number of calls that end in a thread. -/
def endsIn (turns : List Turn) (thread : Nat) : Nat :=
  turns.countP fun
    | .event _ _ => false
    | .lddEnds t _ => t = thread

/-- After the turns `before`, a call ends with the library in the list. -/
def ListsAfter (before : List Turn) : Turn → Prop
  | .event _ _ => False
  | .lddEnds thread world => ∃ libPath ∈ (waitingFor before thread).head?, LddLists world libPath

/-- It is the first one that does. -/
structure FirstListing (before : List Turn) (a : Turn) : Prop where
  lists : ListsAfter before a
  first : ∀ earlier b later, before = earlier ++ b :: later → ¬ ListsAfter earlier b

/-- A call ends with the library in the list that was begun in the turns
    `begun`, with the turns `between` behind these. Only calls end in them. -/
def ListsLate (begun between : List Turn) : Turn → Prop
  | .event _ _ => False
  | .lddEnds thread world =>
      ∃ libPath ∈ (waitingFor begun thread)[endsIn between thread]?, LddLists world libPath

/-- A handler begins before `ldd` first lists the library, in the turn `a`, and
    has it listed after that, in the turn `b`. -/
def Overlaps (turns : List Turn) : Prop :=
  ∃ before a between b behind, turns = before ++ a :: (between ++ b :: behind) ∧
    FirstListing before a ∧ ListsLate (before ++ [a]) between b

theorem waitingFor_concat (turns : List Turn) (a : Turn) (thread : Nat) :
    waitingFor (turns ++ [a]) thread = waitingStep thread (waitingFor turns thread) a := by
  simp only [waitingFor, List.foldl_append, List.foldl_cons, List.foldl_nil]

/-- What a handler asks about does not depend on the globals but for the flag. -/
theorem hookBeforeLdd_of_enabled (w : World) (event : PyStr) (args : List PyValue) (s : HookState)
    (h : s.disabled = false) :
    (hookBeforeLdd w event args s).2 = (hookBeforeLdd w event args {}).2 := by
  unfold hookBeforeLdd
  simp only [h, Bool.false_eq_true, if_false]
  cases selectFilename event args with
  | none => rfl
  | some filename =>
      simp only
      cases sharedLibraryName filename with
      | error e => rfl
      | ok name =>
          cases name with
          | none => rfl
          | some text =>
              simp only [checkBeforeLdd]
              by_cases hbase : basename text = libstdcxxSo
              · simp only [if_pos hbase]
              · by_cases hexists : w.pathExists text = false
                · simp only [if_neg hbase, if_pos hexists]
                · simp only [if_neg hbase, if_neg hexists]

theorem turn_lddEnds_waiting (o : Overlap) (t : Nat) (world : World) (thread : Nat) :
    (turn o (.lddEnds t world)).waiting thread =
      if t = thread then (o.waiting thread).tail else o.waiting thread := by
  cases hwaiting : o.waiting t with
  | nil =>
      rw [turn_lddEnds_idle o t world hwaiting]
      by_cases ht : t = thread
      · simp [← ht, hwaiting]
      · simp [ht]
  | cons libPath outer =>
      rw [turn_lddEnds o t world libPath outer hwaiting]
      by_cases ht : t = thread
      · simp [← ht, hwaiting]
      · simp [ht, Function.update_of_ne (Ne.symm ht)]

/-- A turn with the flag not set does to the waiting handlers what it does by
    itself. -/
theorem turn_waiting (o : Overlap) (a : Turn) (hregistered : o.globals.registered = true)
    (henabled : o.globals.disabled = false) (thread : Nat) :
    (turn o a).waiting thread = waitingStep thread (o.waiting thread) a := by
  cases a with
  | event t d =>
      rw [turn_event o t d hregistered, hookBeforeLdd_of_enabled _ _ _ _ henabled]
      by_cases ht : t = thread
      · simp [ht, waitingStep, asksAbout]
      · simp [waitingStep, ht, Function.update_of_ne (Ne.symm ht)]
  | lddEnds t world => exact turn_lddEnds_waiting o t world thread

section Runs

variable (w : World) (libstdcxxPath : PyStr)

theorem overlapped_concat (turns : List Turn) (a : Turn) :
    overlapped w libstdcxxPath (turns ++ [a]) = turn (overlapped w libstdcxxPath turns) a := by
  simp only [overlapped, List.foldl_append, List.foldl_cons, List.foldl_nil]

/-- The flag is set when the comparison has started. -/
theorem overlapped_disabled_iff (turns : List Turn) :
    (overlapped w libstdcxxPath turns).globals.disabled = true ↔
      (overlapped w libstdcxxPath turns).globals.checks ≠ [] := by
  induction turns using List.reverseRecOn with
  | nil => simp [overlapped, setHooksAndAudit]
  | append_singleton turns a ih =>
      rw [overlapped_concat]
      by_cases hlists : Lists (overlapped w libstdcxxPath turns) a
      · simp [turn_globals_of_lists _ a hlists]
      · rw [turn_globals_of_not_lists _ a hlists]
        exact ih

/-- The hook is registered on Linux. -/
theorem overlapped_registered (turns : List Turn) :
    (overlapped w libstdcxxPath turns).globals.registered = w.isLinux := by
  induction turns using List.reverseRecOn with
  | nil => simp [overlapped, setHooksAndAudit]
  | append_singleton turns a ih =>
      rw [overlapped_concat]
      by_cases hlists : Lists (overlapped w libstdcxxPath turns) a
      · simp [turn_globals_of_lists _ a hlists, ih]
      · rw [turn_globals_of_not_lists _ a hlists]
        exact ih

/-- Elsewhere no handler ever waits. -/
theorem overlapped_idle (h : w.isLinux = false) (turns : List Turn) (thread : Nat) :
    (overlapped w libstdcxxPath turns).waiting thread = [] := by
  induction turns using List.reverseRecOn generalizing thread with
  | nil => rfl
  | append_singleton turns a ih =>
      rw [overlapped_concat]
      have hregistered := overlapped_registered w libstdcxxPath turns
      rw [h] at hregistered
      cases a with
      | event t d => rw [turn_event_unregistered _ t d hregistered, ih]
      | lddEnds t world => rw [turn_lddEnds_idle _ t world (ih t), ih]

/-- While the flag is not set, the handlers that wait are those of the turns. -/
theorem overlapped_quiet (hlinux : w.isLinux = true) (turns : List Turn)
    (henabled : (overlapped w libstdcxxPath turns).globals.disabled = false) (thread : Nat) :
    (overlapped w libstdcxxPath turns).waiting thread = waitingFor turns thread := by
  induction turns using List.reverseRecOn generalizing thread with
  | nil => rfl
  | append_singleton turns a ih =>
      rw [overlapped_concat] at henabled ⊢
      have hregistered := overlapped_registered w libstdcxxPath turns
      have hbefore := turn_enabled _ a henabled
      rw [turn_waiting _ a (hregistered.trans hlinux) hbefore, waitingFor_concat, ih hbefore]

/-- So they are right after the turn in which it is set. -/
theorem overlapped_waiting (hlinux : w.isLinux = true) (turns : List Turn) (a : Turn)
    (henabled : (overlapped w libstdcxxPath turns).globals.disabled = false) (thread : Nat) :
    (overlapped w libstdcxxPath (turns ++ [a])).waiting thread =
      waitingFor (turns ++ [a]) thread := by
  have hregistered := overlapped_registered w libstdcxxPath turns
  rw [overlapped_concat, turn_waiting _ a (hregistered.trans hlinux) henabled, waitingFor_concat,
    overlapped_quiet w libstdcxxPath hlinux turns henabled]

/-- And an answer lists the library for one of them when it does in the turns. -/
theorem lists_iff (hlinux : w.isLinux = true) (turns : List Turn) (a : Turn)
    (henabled : (overlapped w libstdcxxPath turns).globals.disabled = false) :
    Lists (overlapped w libstdcxxPath turns) a ↔ ListsAfter turns a := by
  cases a with
  | event t d => exact Iff.rfl
  | lddEnds t world =>
      simp only [Lists, ListsAfter, overlapped_quiet w libstdcxxPath hlinux turns henabled]

theorem enabled_of_append (before behind : List Turn)
    (h : (overlapped w libstdcxxPath (before ++ behind)).globals.disabled = false) :
    (overlapped w libstdcxxPath before).globals.disabled = false := by
  induction behind using List.reverseRecOn with
  | nil => rwa [List.append_nil] at h
  | append_singleton behind a ih =>
      rw [← List.append_assoc, overlapped_concat] at h
      exact ih (turn_enabled _ a h)

/-- The flag is not set when no answer has listed the library, and only then. -/
theorem overlapped_enabled_iff (hlinux : w.isLinux = true) (turns : List Turn) :
    (overlapped w libstdcxxPath turns).globals.disabled = false ↔
      ∀ earlier b later, turns = earlier ++ b :: later → ¬ ListsAfter earlier b := by
  constructor
  · rintro henabled earlier b later rfl hlists
    have hbefore := enabled_of_append w libstdcxxPath earlier (b :: later) henabled
    rw [← lists_iff w libstdcxxPath hlinux earlier b hbefore] at hlists
    -- The answer sets the flag.
    rw [List.append_cons] at henabled
    have hset := enabled_of_append w libstdcxxPath (earlier ++ [b]) later henabled
    rw [overlapped_concat, turn_globals_of_lists _ b hlists] at hset
    cases hset
  · intro h
    induction turns using List.reverseRecOn with
    | nil => rfl
    | append_singleton turns a ih =>
        have henabled := ih fun earlier b later hsplit =>
          h earlier b (later ++ [a]) (by simp [hsplit])
        have hlists : ¬ Lists (overlapped w libstdcxxPath turns) a := by
          rw [lists_iff w libstdcxxPath hlinux turns a henabled]
          exact h turns a [] rfl
        rw [overlapped_concat, turn_globals_of_not_lists _ a hlists]
        exact henabled

/-- When it is set, there was a first answer that did. -/
theorem exists_firstListing (hlinux : w.isLinux = true) (turns : List Turn)
    (hdisabled : (overlapped w libstdcxxPath turns).globals.disabled = true) :
    ∃ before a between, turns = before ++ a :: between ∧ FirstListing before a := by
  induction turns using List.reverseRecOn with
  | nil => cases hdisabled
  | append_singleton turns a ih =>
      by_cases hbefore : (overlapped w libstdcxxPath turns).globals.disabled = true
      · rcases ih hbefore with ⟨before, b, between, hsplit, hfirst⟩
        exact ⟨before, b, between ++ [a], by simp [hsplit], hfirst⟩
      · -- The flag is set in this turn.
        have henabled := eq_false_of_ne_true hbefore
        refine ⟨turns, a, [], rfl, ?_,
          (overlapped_enabled_iff w libstdcxxPath hlinux turns).mp henabled⟩
        by_contra hlists
        rw [← lists_iff w libstdcxxPath hlinux turns a henabled] at hlists
        rw [overlapped_concat, turn_globals_of_not_lists _ a hlists] at hdisabled
        exact hbefore hdisabled

/-- Once the flag is set, events are ignored, so only calls end. -/
theorem overlapped_from_disabled (begun between : List Turn)
    (h : (overlapped w libstdcxxPath begun).globals.disabled = true) :
    (overlapped w libstdcxxPath (begun ++ between)).globals.disabled = true ∧
      ∀ thread, (overlapped w libstdcxxPath (begun ++ between)).waiting thread =
        ((overlapped w libstdcxxPath begun).waiting thread).drop (endsIn between thread) := by
  induction between using List.reverseRecOn with
  | nil => simp [h, endsIn]
  | append_singleton between a ih =>
      rw [← List.append_assoc, overlapped_concat]
      rcases ih with ⟨hdisabled, hwaiting⟩
      refine ⟨by_contra fun hset => ?_, fun thread => ?_⟩
      · rw [turn_enabled _ a (eq_false_of_ne_true hset)] at hdisabled
        cases hdisabled
      · cases a with
        | event t d =>
            rw [turn_event_of_disabled _ t d hdisabled, hwaiting]
            simp [endsIn]
        | lddEnds t world =>
            rw [turn_lddEnds_waiting, hwaiting]
            by_cases ht : t = thread
            · simp [endsIn, ht]
            · simp [endsIn, ht]

/-- As long as no answer comes too late, the comparison starts at most once. -/
theorem overlapped_atMostOnce (turns : List Turn)
    (h : ∀ before a behind, turns = before ++ a :: behind →
      ¬ ((overlapped w libstdcxxPath before).globals.disabled = true ∧
        Lists (overlapped w libstdcxxPath before) a)) :
    (overlapped w libstdcxxPath turns).globals.checks.length ≤ 1 := by
  induction turns using List.reverseRecOn with
  | nil => simp [overlapped, setHooksAndAudit]
  | append_singleton turns a ih =>
      have hbefore := ih fun before b behind hsplit => h before b (behind ++ [a]) (by simp [hsplit])
      rw [overlapped_concat]
      by_cases hlists : Lists (overlapped w libstdcxxPath turns) a
      · -- The flag is not set yet, so this is the first start.
        have henabled : ¬ (overlapped w libstdcxxPath turns).globals.disabled = true :=
          fun hdisabled => h turns a [] rfl ⟨hdisabled, hlists⟩
        rw [overlapped_disabled_iff, not_not] at henabled
        simp [turn_globals_of_lists _ a hlists, henabled]
      · rw [turn_globals_of_not_lists _ a hlists]
        exact hbefore

/-- After the first answer that lists the library the flag is set, and a later
    one lists it for a handler that was waiting then. -/
theorem lists_iff_listsLate (hlinux : w.isLinux = true) {before : List Turn} {a : Turn}
    (hfirst : FirstListing before a) (between : List Turn) (b : Turn) :
    (overlapped w libstdcxxPath (before ++ a :: between)).globals.disabled = true ∧
      (Lists (overlapped w libstdcxxPath (before ++ a :: between)) b ↔
        ListsLate (before ++ [a]) between b) := by
  have henabled := (overlapped_enabled_iff w libstdcxxPath hlinux before).mpr hfirst.first
  have hset : (overlapped w libstdcxxPath (before ++ [a])).globals.disabled = true := by
    have hlists := (lists_iff w libstdcxxPath hlinux before a henabled).mpr hfirst.lists
    rw [overlapped_concat, turn_globals_of_lists _ a hlists, afterCheck_disabled]
  have hfrom := overlapped_from_disabled w libstdcxxPath (before ++ [a]) between hset
  rw [← List.append_cons] at hfrom
  refine ⟨hfrom.1, ?_⟩
  cases b with
  | event t d => exact Iff.rfl
  | lddEnds t world =>
      simp only [Lists, ListsLate, hfrom.2, List.head?_drop,
        overlapped_waiting w libstdcxxPath hlinux before a henabled]

/-- An answer that lists the library with the flag set is one for a handler
    that overlaps the first one it was listed for. -/
theorem overlaps_iff (turns : List Turn) :
    (∃ before b behind, turns = before ++ b :: behind ∧
      (overlapped w libstdcxxPath before).globals.disabled = true ∧
        Lists (overlapped w libstdcxxPath before) b) ↔ w.isLinux = true ∧ Overlaps turns := by
  constructor
  · rintro ⟨before, b, behind, rfl, hdisabled, hlists⟩
    have hlinux : w.isLinux = true := by
      by_contra hother
      cases b with
      | event t d => exact hlists
      | lddEnds t world =>
          rcases hlists with ⟨libPath, hhead, _⟩
          rw [overlapped_idle w libstdcxxPath (eq_false_of_ne_true hother)] at hhead
          cases hhead
    rcases exists_firstListing w libstdcxxPath hlinux before hdisabled with
      ⟨first, a, between, rfl, hfirst⟩
    refine ⟨hlinux, first, a, between, b, behind, by simp, hfirst, ?_⟩
    exact (lists_iff_listsLate w libstdcxxPath hlinux hfirst between b).2.mp hlists
  · rintro ⟨hlinux, before, a, between, b, behind, rfl, hfirst, hlate⟩
    rcases lists_iff_listsLate w libstdcxxPath hlinux hfirst between b with ⟨hdisabled, hlists⟩
    exact ⟨before ++ a :: between, b, behind, by simp, hdisabled, hlists.mpr hlate⟩

end Runs

/-- The comparison starts at most once, and every later event is ignored,
    exactly when no handler overlaps the first one that `ldd` lists the library
    for and has it listed too. Elsewhere than on Linux there is no hook. -/
theorem startsOnce_iff (w : World) (libstdcxxPath : PyStr) (turns : List Turn) :
    StartsOnce w libstdcxxPath turns ↔ (w.isLinux = true → ¬ Overlaps turns) := by
  rw [← not_and, ← overlaps_iff w libstdcxxPath turns]
  constructor
  · rintro honce ⟨before, b, behind, hsplit, hdisabled, hlists⟩
    have hstarted := (overlapped_disabled_iff w libstdcxxPath before).mp hdisabled
    have hatMost := (honce (before ++ [b]) behind (by simp [hsplit])).atMostOnce
    rw [overlapped_concat, turn_globals_of_lists _ b hlists, afterCheck_checks,
      List.length_append, List.length_singleton] at hatMost
    have hpos := List.length_pos_of_ne_nil hstarted
    omega
  · intro hnone before behind hsplit
    refine ⟨overlapped_atMostOnce w libstdcxxPath before ?_, ?_⟩
    · intro before' b behind' hsplit' hlate
      exact hnone ⟨before', b, behind' ++ behind, by simp [hsplit, hsplit'], hlate⟩
    · intro hstarted thread d
      exact turn_event_of_disabled _ thread d
        ((overlapped_disabled_iff w libstdcxxPath before).mpr hstarted)

/-! ### Handlers That Do Not Overlap -/

/-- The events of a session in one thread, each with the end of its handler. -/
def oneByOne (ds : List Delivery) : List Turn :=
  ds.flatMap fun d => [.event 0 d, .lddEnds 0 d.world]

/-- A handler that ends before the next event does what the hook does. -/
theorem turn_oneByOne (o : Overlap) (d : Delivery) (h : o.waiting = fun _ => []) :
    turn (turn o (.event 0 d)) (.lddEnds 0 d.world) = ⟨deliver o.globals d, fun _ => []⟩ := by
  have hempty : o = ⟨o.globals, fun _ => []⟩ := by rw [← h]
  unfold deliver
  by_cases hregistered : o.globals.registered = true
  · rw [if_pos hregistered, hook_halves, turn_event o 0 d hregistered, h]
    cases (hookBeforeLdd d.world d.event d.args o.globals).2 with
    | none =>
        -- Nothing is pushed, so there is nothing that could end.
        simp [turn_lddEnds_idle]
    | some libPath => simp [turn_lddEnds _ 0 d.world libPath []]
  · rw [if_neg hregistered, turn_event_unregistered o 0 d (by simpa using hregistered)]
    rw [turn_lddEnds_idle o 0 d.world (by rw [h]), ← hempty]

/-- Handlers that do not overlap make up a session. -/
theorem overlapped_oneByOne (w : World) (libstdcxxPath : PyStr) (ds : List Delivery) :
    overlapped w libstdcxxPath (oneByOne ds) = ⟨session w libstdcxxPath ds, fun _ => []⟩ := by
  induction ds using List.reverseRecOn with
  | nil => rfl
  | append_singleton ds d ih =>
      have hsplit : oneByOne (ds ++ [d]) = oneByOne ds ++ [.event 0 d] ++ [.lddEnds 0 d.world] := by
        simp [oneByOne]
      rw [hsplit, overlapped_concat, overlapped_concat, ih, turn_oneByOne _ d rfl, session_snoc]

/-! ### Two Threads -/

/-- Two threads import a library that needs the C++ library, and `ldd` has not
    answered for the first when the second one is announced. -/
def twoImports : List Turn :=
  [.event 0 importOfLibzmq, .event 1 importOfLibzmq, .lddEnds 0 sampleWorld,
    .lddEnds 1 sampleWorld]

/-- The comparison starts in both of them. -/
theorem twoImports_startTwice : ¬ StartsOnce sampleWorld shippedLibstdcxx twoImports := by
  intro honce
  have hatMost := (honce twoImports [] (List.append_nil _).symm).atMostOnce
  have hlength :
      (overlapped sampleWorld shippedLibstdcxx twoImports).globals.checks.length = 2 := by
    decide +kernel
  omega

end AuditLibstdcxx
