import AuditLibstdcxx.Core.PyAudit

/-!
# Which Loads the Python Hook Notices

The hook runs the comparison at the first event that triggers it, and ignores
every event after that. An event triggers it when it is an import or a library
load by the names the hook listens to, when its file name ends in `.so`, and
when `ldd` finds the C++ library among the dependencies of that file. A name
that ends in `.so` is never that of the C++ library itself, so no event gets
to the comparison without `ldd`.

The interpreter announces the loads of `ctypes` under a name of its own, which
is not one that the hook listens to. So the comparison is made in time for
every load of a library that needs the C++ library only in a run whose loads
of that kind are imports of files ending in `.so`, or come after one.

## Main definitions

* `DependsOnLibstdcxx`, `Triggers`: What makes the hook run the comparison.
* `afterCheck`: The globals after the comparison.
* `Covered`: An event that announces a load of a library that needs the C++
  library, or is it.
* `HookCovers`: The comparison has been made by the end of every such event.

## Theorems

* `checkSharedLibDependencies_of_depends`: The function in terms of the dependency.
* `auditHook_of_triggers`, `auditHook_of_not_triggers`: A call of the hook.
* `session_follows`: The globals after any sequence of events.
* `hookCovers_iff`: Exactly when the hook covers a run.
-/

namespace AuditLibstdcxx

open Exceptions

/-- The file exists, and `ldd` lists the C++ library among its dependencies. -/
def DependsOnLibstdcxx (w : World) (libPath : PyStr) : Prop :=
  w.pathExists libPath = true ∧ ∃ output, w.lddOutput libPath = .ok output ∧ libstdcxxSo <:+: output

/-- The globals after the comparison has been made. -/
def afterCheck (w : World) (s : HookState) : HookState :=
  { s with
    disabled := true
    checks := s.checks ++ [checkAndLoadCompatibleLibstdcxxVersion w s.libstdcxxPath] }

@[simp] theorem afterCheck_disabled (w : World) (s : HookState) :
    (afterCheck w s).disabled = true := rfl

@[simp] theorem afterCheck_registered (w : World) (s : HookState) :
    (afterCheck w s).registered = s.registered := rfl

@[simp] theorem afterCheck_libstdcxxPath (w : World) (s : HookState) :
    (afterCheck w s).libstdcxxPath = s.libstdcxxPath := rfl

@[simp] theorem afterCheck_checks (w : World) (s : HookState) :
    (afterCheck w s).checks =
      s.checks ++ [checkAndLoadCompatibleLibstdcxxVersion w s.libstdcxxPath] := rfl

/-- What the comparison hands to its caller: nothing, or an exception. -/
def checkResult (w : World) (s : HookState) : Except PyException Unit :=
  (checkAndLoadCompatibleLibstdcxxVersion w s.libstdcxxPath).map fun _ => ()

/-! ### The Dependencies of One File -/

/-- A name that ends in `.so` is not that of the C++ library. -/
theorem basename_ne_of_so (text : PyStr) (h : dotSo <:+ text) : basename text ≠ libstdcxxSo := by
  intro hbase
  have hsuffix : basename text <:+ text := List.rtakeWhile_suffix _ text
  rw [hbase] at hsuffix
  have hnested : dotSo <:+ libstdcxxSo :=
    List.suffix_of_suffix_length_le h hsuffix (by decide)
  exact absurd hnested (by decide)

/-- The C++ library itself goes to the comparison at once. -/
theorem checkSharedLibDependencies_of_basename (w : World) (libPath : PyStr) (s : HookState)
    (h : basename libPath = libstdcxxSo) :
    checkSharedLibDependencies w libPath s = (checkResult w s, afterCheck w s) := by
  rw [checkSharedLibDependencies, if_pos h]
  rfl

/-- A file that depends on the C++ library goes there as well. -/
theorem checkSharedLibDependencies_of_depends (w : World) (libPath : PyStr) (s : HookState)
    (h : DependsOnLibstdcxx w libPath) :
    checkSharedLibDependencies w libPath s = (checkResult w s, afterCheck w s) := by
  by_cases hbase : basename libPath = libstdcxxSo
  · exact checkSharedLibDependencies_of_basename w libPath s hbase
  · rcases h with ⟨hexists, output, hldd, hinfix⟩
    have hself : basename libstdcxxSo = libstdcxxSo := by decide
    rw [checkSharedLibDependencies, if_neg hbase, if_neg (by simp [hexists])]
    simp only [hldd, if_pos hinfix]
    exact checkSharedLibDependencies_of_basename w libstdcxxSo s hself

/-- Any other file changes nothing. -/
theorem checkSharedLibDependencies_of_not_depends (w : World) (libPath : PyStr) (s : HookState)
    (hbase : basename libPath ≠ libstdcxxSo) (h : ¬ DependsOnLibstdcxx w libPath) :
    checkSharedLibDependencies w libPath s = (.ok (), s) := by
  rw [checkSharedLibDependencies, if_neg hbase]
  by_cases hexists : w.pathExists libPath = false
  · rw [if_pos hexists]
  · rw [if_neg hexists]
    cases hldd : w.lddOutput libPath with
    | error e => rfl
    | ok output =>
        have hinfix : ¬ libstdcxxSo <:+: output := fun hinfix =>
          h ⟨by simpa using hexists, output, hldd, hinfix⟩
        simp only [if_neg hinfix]

/-! ### One Event -/

/-- The event makes the hook run the comparison, unless it was made before. -/
def Triggers (d : Delivery) : Prop :=
  ∃ text, selectFilename d.event d.args = some (.str text) ∧ dotSo <:+ text ∧
    DependsOnLibstdcxx d.world text

/-- A hook that is disabled does nothing. -/
theorem auditHook_of_disabled (w : World) (event : PyStr) (args : List PyValue) (s : HookState)
    (h : s.disabled = true) : auditHook w event args s = (.ok (), s) := by
  rw [auditHook, if_pos h]

/-- The names the hook goes on with are the strings that end in `.so`. -/
theorem sharedLibraryName_eq_some (filename : PyValue) (text : PyStr) :
    sharedLibraryName filename = .ok (some text) ↔ filename = .str text ∧ dotSo <:+ text := by
  cases filename with
  | none => simp [sharedLibraryName]
  | bytes b => by_cases hb : b = [] <;> simp [sharedLibraryName, hb]
  | object truthy => cases truthy <;> simp [sharedLibraryName]
  | str f =>
      have hne : dotSo <:+ f → f ≠ [] := by
        intro hso hnil
        rw [hnil] at hso
        exact absurd hso (by decide)
      simp only [sharedLibraryName, Except.ok.injEq, Option.ite_none_right_eq_some,
        Option.some.injEq, PyValue.str.injEq]
      refine ⟨fun h => ⟨h.2, h.2 ▸ h.1.2⟩, fun h => ?_⟩
      rcases h with ⟨rfl, hso⟩
      exact ⟨⟨hne hso, hso⟩, rfl⟩

/-- An event that triggers the hook. -/
theorem auditHook_of_triggers (d : Delivery) (s : HookState) (hs : s.disabled = false)
    (h : Triggers d) :
    auditHook d.world d.event d.args s = (checkResult d.world s, afterCheck d.world s) := by
  rcases h with ⟨text, hselect, hso, hdepends⟩
  have hname : sharedLibraryName (.str text) = .ok (some text) :=
    (sharedLibraryName_eq_some (.str text) text).mpr ⟨rfl, hso⟩
  rw [auditHook, if_neg (by simp [hs])]
  simp only [hselect, hname]
  exact checkSharedLibDependencies_of_depends d.world text s hdepends

/-- An event that does not trigger the hook leaves the globals alone, and the
    only exception it can raise is that of asking the file name for its end. -/
theorem auditHook_of_not_triggers (d : Delivery) (s : HookState) (hs : s.disabled = false)
    (h : ¬ Triggers d) :
    (auditHook d.world d.event d.args s).2 = s ∧
      (Returns (auditHook d.world d.event d.args s).1 ↔
        ∀ filename, selectFilename d.event d.args = some filename →
          Returns (sharedLibraryName filename)) := by
  rw [auditHook, if_neg (by simp [hs])]
  cases hselect : selectFilename d.event d.args with
  | none => simp
  | some filename =>
      cases hname : sharedLibraryName filename with
      | error e => simp [hname]
      | ok name =>
          cases name with
          | none => simp [hname]
          | some text =>
              rcases (sharedLibraryName_eq_some filename text).mp hname with ⟨rfl, hso⟩
              have hdepends : ¬ DependsOnLibstdcxx d.world text := fun hdepends =>
                h ⟨text, hselect, hso, hdepends⟩
              simp [hname, checkSharedLibDependencies_of_not_depends d.world text s
                (basename_ne_of_so text hso) hdepends]

/-! ### Sequences of Events -/

section Sessions

variable (w : World) (libstdcxxPath : PyStr)

theorem session_snoc (ds : List Delivery) (d : Delivery) :
    session w libstdcxxPath (ds ++ [d]) = deliver (session w libstdcxxPath ds) d := by
  simp only [session, List.foldl_append, List.foldl_cons, List.foldl_nil]

/-- What the globals say of the events so far, once the hook is installed. -/
structure Follows (ds : List Delivery) (s : HookState) : Prop where
  registered : s.registered = true
  libstdcxxPath : s.libstdcxxPath = (setHooksAndAudit w libstdcxxPath {}).libstdcxxPath
  disabled : s.disabled = true ↔ ∃ d ∈ ds, Triggers d
  checks : s.checks ≠ [] ↔ s.disabled = true

variable {w libstdcxxPath}

/-- The next event keeps them true. -/
theorem Follows.deliver {ds : List Delivery} {s : HookState} (h : Follows w libstdcxxPath ds s)
    (d : Delivery) : Follows w libstdcxxPath (ds ++ [d]) (deliver s d) := by
  rw [AuditLibstdcxx.deliver, if_pos h.registered]
  by_cases hs : s.disabled = true
  · rw [auditHook_of_disabled d.world d.event d.args s hs]
    rcases h.disabled.mp hs with ⟨d', hd', htriggers⟩
    refine ⟨h.registered, h.libstdcxxPath, ?_, h.checks⟩
    exact iff_of_true hs ⟨d', List.mem_append_left _ hd', htriggers⟩
  · have hbefore : ¬ ∃ d' ∈ ds, Triggers d' := fun hex => hs (h.disabled.mpr hex)
    rw [Bool.not_eq_true] at hs
    by_cases hd : Triggers d
    · rw [auditHook_of_triggers d s hs hd]
      refine ⟨h.registered, h.libstdcxxPath, ?_, ?_⟩
      · exact iff_of_true rfl ⟨d, List.mem_append_right _ (List.mem_singleton_self d), hd⟩
      · simp
    · rw [(auditHook_of_not_triggers d s hs hd).1]
      refine ⟨h.registered, h.libstdcxxPath, ?_, h.checks⟩
      have hnone : ¬ ∃ d' ∈ ds ++ [d], Triggers d' := by
        intro hex
        rcases hex with ⟨d', hd', htriggers⟩
        rcases List.mem_append.mp hd' with hmem | hmem
        · exact hbefore ⟨d', hmem, htriggers⟩
        · exact hd (List.mem_singleton.mp hmem ▸ htriggers)
      simp only [hs, Bool.false_eq_true, hnone]

variable (w libstdcxxPath)

/-- The globals after any sequence of events. -/
theorem session_follows (hlinux : w.isLinux = true) (ds : List Delivery) :
    Follows w libstdcxxPath ds (session w libstdcxxPath ds) := by
  induction ds using List.reverseRecOn with
  | nil =>
      refine ⟨?_, rfl, ?_, ?_⟩
      · simp [session, setHooksAndAudit, hlinux]
      · simp [session, setHooksAndAudit]
      · simp [session, setHooksAndAudit]
  | append_singleton ds d ih =>
      rw [session_snoc]
      exact ih.deliver d

end Sessions

/-! ### Coverage -/

/-- `"ctypes.dlopen"`, the event of a library load by `ctypes`. -/
def dlopenEvent : PyStr := "ctypes.dlopen".toList

/-- The argument in which the interpreter announces the file it is about to
    load. -/
def announced (event : PyStr) (args : List PyValue) : Option PyValue :=
  if event = importEvent then args[1]?
  else if event = dlopenEvent then args[0]?
  else none

/-- The file that an argument names. -/
def namedFile : PyValue → Option PyStr
  | .str text => some text
  | .bytes text => some text
  | _ => none

/-- The event announces the load of an existing file that is the C++ library
    itself or, by `ldd`, depends on it. -/
def Covered (d : Delivery) : Prop :=
  ∃ value file, announced d.event d.args = some value ∧ namedFile value = some file ∧
    d.world.pathExists file = true ∧
      (basename file = libstdcxxSo ∨
        ∃ output, d.world.lddOutput file = .ok output ∧ libstdcxxSo <:+: output)

/-- By the end of every such event the comparison has been made. -/
def HookCovers (w : World) (libstdcxxPath : PyStr) (ds : List Delivery) : Prop :=
  ∀ before d behind, ds = before ++ d :: behind → Covered d →
    (session w libstdcxxPath (before ++ [d])).checks ≠ []

/-- The import of a file whose name ends in `.so`. -/
def ImportsSo (d : Delivery) : Prop :=
  d.event = importEvent ∧ ∃ text, d.args[1]? = some (.str text) ∧ dotSo <:+ text

/-- An event that is to be covered triggers the hook exactly when it is such an
    import. -/
theorem triggers_iff_of_covered (d : Delivery) (h : Covered d) : Triggers d ↔ ImportsSo d := by
  rcases h with ⟨value, file, hannounced, hfile, hexists, hneeds⟩
  refine ⟨fun htriggers => ?_, fun himports => ?_⟩
  · rcases htriggers with ⟨text, hselect, hso, _⟩
    unfold selectFilename at hselect
    by_cases himport : d.event = importEvent
    · by_cases hlen : 1 < d.args.length
      · rw [if_pos ⟨himport, hlen⟩] at hselect
        exact ⟨himport, text, hselect, hso⟩
      · rw [announced, if_pos himport, List.getElem?_eq_none (by omega)] at hannounced
        cases hannounced
    · -- A load that is announced as one of `ctypes` is not one the hook listens to.
      have hdlopen : d.event = dlopenEvent := by
        by_contra hdlopen
        rw [announced, if_neg himport, if_neg hdlopen] at hannounced
        cases hannounced
      have hdlload : d.event ≠ dlloadEvent := by
        rw [hdlopen]
        decide
      rw [if_neg (fun h => himport h.1), if_neg (fun h => hdlload h.1)] at hselect
      cases hselect
  · rcases himports with ⟨himport, text, harg, hso⟩
    rw [announced, if_pos himport, harg] at hannounced
    cases hannounced
    rw [← Option.some.inj hfile] at hexists hneeds
    rcases hneeds with hbase | hldd
    · exact absurd hbase (basename_ne_of_so text hso)
    · have hlen : 1 < d.args.length := (List.getElem?_eq_some_iff.mp harg).1
      refine ⟨text, ?_, hso, hexists, hldd⟩
      rw [selectFilename, if_pos ⟨himport, hlen⟩]
      exact harg

/-- The hook covers a run exactly when every event to be covered is the import
    of a file whose name ends in `.so`, or comes after an event that triggered
    the hook. -/
theorem hookCovers_iff (w : World) (libstdcxxPath : PyStr) (ds : List Delivery)
    (hlinux : w.isLinux = true) :
    HookCovers w libstdcxxPath ds ↔
      ∀ before d behind, ds = before ++ d :: behind → Covered d →
        ImportsSo d ∨ ∃ d' ∈ before, Triggers d' := by
  refine forall_congr' fun before => forall_congr' fun d => forall_congr' fun behind =>
    forall_congr' fun _ => forall_congr' fun hcovered => ?_
  have hfollows := session_follows w libstdcxxPath hlinux (before ++ [d])
  rw [hfollows.checks, hfollows.disabled]
  simp only [List.mem_append, List.mem_singleton, or_and_right, exists_or, exists_eq_left,
    triggers_iff_of_covered d hcovered]
  exact or_comm

/-! ### A Process on Linux -/

/-- The system's library. -/
def systemLibstdcxx : PyStr := "/usr/lib/libstdc++.so.6".toList

/-- The shipped library. -/
def shippedLibstdcxx : PyStr := "/opt/app/lib/libstdc++.so.6".toList

/-- A library that needs the C++ library. -/
def libzmq : PyStr := "/usr/lib/libzmq.so".toList

/-- A process that has not loaded any C++ library, where the shipped one is
    newer than the system's. -/
def sampleWorld : World where
  isLinux := true
  isfile path := decide (path ∈ [systemLibstdcxx, shippedLibstdcxx, libzmq])
  pathExists path := decide (path ∈ [systemLibstdcxx, shippedLibstdcxx, libzmq])
  lddOutput path :=
    if path = libzmq then .ok "libstdc++.so.6 => /usr/lib/libstdc++.so.6".toList
    else .error .calledProcessError
  findLibrary name := if name = stdcxx then some libstdcxxSo else some "libdl.so.2".toList
  cdll mode _ := if mode = .noload then none else some 1
  hasDlinfo _ := true
  linkMapName _ := .ok systemLibstdcxx
  lookupOutput := .ok "/usr/lib/libstdc++.so.6\n".toList
  versionNames path :=
    if path = shippedLibstdcxx then .ok (some [.ok "GLIBCXX_3.4.33".toList])
    else .ok (some [.ok "GLIBCXX_3.4.30".toList])
  intMaxStrDigits := 4300

/-- The import of an extension module from that library. -/
def importOfLibzmq : Delivery where
  event := importEvent
  args := [.str "zmq".toList, .str libzmq, .none, .none, .none]
  world := sampleWorld

/-- `ctypes.CDLL("/usr/lib/libzmq.so")` -/
def dlopenOfLibzmq : Delivery where
  event := dlopenEvent
  args := [.str libzmq]
  world := sampleWorld

/-- An import of it is covered by itself, and so is a load that follows. -/
theorem sampleRun_covers :
    HookCovers sampleWorld shippedLibstdcxx [importOfLibzmq, dlopenOfLibzmq] := by
  have himports : ImportsSo importOfLibzmq := ⟨rfl, libzmq, rfl, by decide⟩
  refine (hookCovers_iff sampleWorld shippedLibstdcxx _ rfl).mpr ?_
  intro before d behind hsplit _
  cases before with
  | nil =>
      rw [List.nil_append, List.cons.injEq] at hsplit
      rw [← hsplit.1]
      exact Or.inl himports
  | cons d' before =>
      rw [List.cons_append, List.cons.injEq] at hsplit
      rw [← hsplit.1]
      refine Or.inr ⟨importOfLibzmq, List.mem_cons_self, libzmq, rfl, by decide, rfl, ?_⟩
      exact ⟨_, rfl, by decide⟩

/-- A load of it by `ctypes` alone is not. -/
theorem dlopenOfLibzmq_not_covered :
    ¬ HookCovers sampleWorld shippedLibstdcxx [dlopenOfLibzmq] := by
  intro h
  have hcovered : Covered dlopenOfLibzmq :=
    ⟨.str libzmq, libzmq, rfl, rfl, rfl, Or.inr ⟨_, rfl, by decide⟩⟩
  exact h [] dlopenOfLibzmq [] rfl hcovered rfl

end AuditLibstdcxx
