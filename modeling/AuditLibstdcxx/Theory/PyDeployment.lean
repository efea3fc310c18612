import AuditLibstdcxx.Theory.PyLookup
import AuditLibstdcxx.Theory.PySite
import AuditLibstdcxx.Theory.PyTemplate

/-!
# From the Build to the First Import

The pieces of the Python side put together, in the order in which they come into
play. CMake fills in the template for a library. Python imports the module when
it starts, together with the templates of other packages. The hook lets events go
by until one of them announces a library that needs the C++ library. It then asks
another process for the library of the system, compares the two files, and loads
the newer one of them if it is not the system's.

A path goes through three texts on this way: a string literal, the path that the
interpreter searches, and a line that a process prints.

## Main definitions

* `Deployed`: The template that was filled in for a library has the last word.
* `FirstUse`: What there is when the comparison starts.

## Theorems

* `session_checks`: The first event that triggers the hook decides.
* `templates_of_deployed`: The library that the hook goes by.
* `deployed_newer`: The process gets the newer of the two libraries.
-/

namespace AuditLibstdcxx

open Exceptions

section Sessions

theorem foldl_deliver_of_disabled (ds : List Delivery) (s : HookState) (h : s.disabled = true) :
    ds.foldl deliver s = s := by
  induction ds with
  | nil => rfl
  | cons d ds ih =>
      have hnothing : deliver s d = s := by
        unfold deliver
        rw [auditHook_of_disabled d.world d.event d.args s h, ite_self]
      rw [List.foldl_cons, hnothing, ih]

/-- The first event that triggers the hook decides, and no other one does. -/
theorem session_checks (w : World) (libstdcxxPath : PyStr) (hlinux : w.isLinux = true)
    (quiet later : List Delivery) (d : Delivery) (hquiet : ∀ q ∈ quiet, ¬Triggers q)
    (hd : Triggers d) : (session w libstdcxxPath (quiet ++ d :: later)).checks =
      [checkAndLoadCompatibleLibstdcxxVersion d.world
        (setHooksAndAudit w libstdcxxPath {}).libstdcxxPath] := by
  have hfollows := session_follows w libstdcxxPath hlinux quiet
  have hdisabled : (session w libstdcxxPath quiet).disabled = false := by
    rw [← Bool.not_eq_true, hfollows.disabled]
    rintro ⟨q, hq, htriggers⟩
    exact hquiet q hq htriggers
  have hchecks : (session w libstdcxxPath quiet).checks = [] := by
    by_contra hchecks
    have hset := hfollows.checks.mp hchecks
    rw [hdisabled] at hset
    cases hset
  -- The event finds the hook still enabled, and disables it.
  have hdeliver : deliver (session w libstdcxxPath quiet) d =
      afterCheck d.world (session w libstdcxxPath quiet) := by
    unfold deliver
    rw [if_pos hfollows.registered, auditHook_of_triggers d _ hdisabled hd]
  have hsession : session w libstdcxxPath (quiet ++ d :: later) =
      later.foldl deliver (deliver (session w libstdcxxPath quiet) d) := by
    unfold session
    rw [List.foldl_append, List.foldl_cons]
  rw [hsession, hdeliver, foldl_deliver_of_disabled later _ rfl]
  simp [hchecks, hfollows.libstdcxxPath]

end Sessions

/-- The template that was filled in for a library is installed, in front of any
    other module and behind all other templates that are. -/
structure Deployed (w : SiteWorld) (sysPath : List PyStr) (resolvedPath : PyStr) : Prop where
  ready : SiteReady w sysPath
  linux : w.world.isLinux = true
  isfile : w.world.isfile resolvedPath = true
  installed : ∃ unicodeName definition before entry behind file,
    sysPath = before ++ entry :: behind ∧
    w.find entry = (templateModule unicodeName
      (configureSitecustomize definition resolvedPath)).map (fun module => (file, module)) ∧
    (∀ x ∈ before, otherAt w x = none) ∧ templates w behind = []

/-- What there is when the comparison starts: no C++ library in the process, one
    with this version in the system, under a path that arrives, and the one that
    was shipped. -/
structure FirstUse (w child : World) (shipped name : PyStr) (v s : VersionTuple) : Prop where
  unloaded : UnloadedProcess w
  named : w.findLibrary stdcxx ≠ none
  lookup : w.lookupOutput = runLookup child
  loads : LoadsLibrary child name
  isfile : w.isfile (arriving name) = true
  version : getGlibcxxVersions w (arriving name) = .ok v
  shipped : ShippedLibrary w shipped s

/-- The library that the hook goes by is the one that CMake was given. -/
theorem templates_of_deployed {w : SiteWorld} {sysPath : List PyStr} {resolvedPath : PyStr}
    (h : Deployed w sysPath resolvedPath) (hplain : PlainPath resolvedPath) :
    ∃ before file, templates w sysPath = before ++ [(file, resolvedPath)] := by
  rcases h.installed with
    ⟨unicodeName, definition, before, entry, behind, file, hsplit, hfind, hbefore, hbehind⟩
  rw [hplain.templateModule_eq definition, Option.map_some] at hfind
  refine ⟨templates w before, file, ?_⟩
  have htemplate : templateAt w entry = some (file, resolvedPath) := by
    unfold templateAt
    rw [hfind]
  -- None of the modules in front of the template ends the search.
  have hall : ∀ x ∈ before, (otherAt w x).isNone = true := fun x hx => by rw [hbefore x hx]; rfl
  have hfirst : beforeOther w before = before := List.takeWhile_eq_self_iff.mpr hall
  have hrest : beforeOther w sysPath = before ++ entry :: beforeOther w behind := by
    unfold beforeOther
    rw [hsplit, List.takeWhile_append_of_pos hall,
      List.takeWhile_cons_of_pos (by rw [otherAt_of_template hfind]; rfl)]
  unfold templates at hbehind ⊢
  rw [hrest, hfirst, List.filterMap_append, List.filterMap_cons, htemplate, hbehind]

theorem FirstUse.checkAndLoad_eq {w child : World} {shipped name : PyStr} {v s : VersionTuple}
    (h : FirstUse w child shipped name v s) :
    checkAndLoadCompatibleLibstdcxxVersion w (some shipped) =
      .ok (if v < s then some shipped else none) := by
  have hfile := (systemFile_lookup h.lookup).mpr ⟨h.named, name, h.loads, rfl, h.isfile⟩
  rw [checkAndLoad_found h.unloaded h.shipped.isfile hfile,
    compareVersions_readable h.shipped h.version]

theorem FirstUse.processVersion_eq {w child : World} {shipped name : PyStr} {v s : VersionTuple}
    (h : FirstUse w child shipped name v s) :
    processVersion w s (if v < s then some shipped else none) = some (max v s) := by
  have hfile := (systemFile_lookup h.lookup).mpr ⟨h.named, name, h.loads, rfl, h.isfile⟩
  have hversion : systemVersion w = some v := by
    rw [systemVersion, hfile, Option.bind_some, h.version]
    rfl
  by_cases hlower : v < s
  · simp [processVersion, hlower, max_eq_right hlower.le]
  · simp [processVersion, hversion, hlower, max_eq_left (not_lt.mp hlower)]

/-- A library whose path is plain is compared at the first event that needs one,
    and at no other, and the process gets the newer of the two. -/
theorem deployed_newer (w : SiteWorld) (sysPath : List PyStr) (resolvedPath : PyStr) (depth : Nat)
    (quiet later : List Delivery) (d : Delivery) (child : World) (name : PyStr)
    (v s : VersionTuple) (hplain : PlainPath resolvedPath)
    (hdeployed : Deployed w sysPath resolvedPath) (hdepth : sysPath.length < depth)
    (hquiet : ∀ q ∈ quiet, ¬Triggers q) (hd : Triggers d)
    (huse : FirstUse d.world child resolvedPath name v s) :
    ∃ loaded, ((quiet ++ d :: later).foldl
      (deliverCopies (importSitecustomize w depth { sysPath := sysPath }).2.registrations)
      (importSitecustomize w depth { sysPath := sysPath }).2.hook).checks = [.ok loaded] ∧
        (loaded = some resolvedPath ↔ v < s) ∧
          processVersion d.world s loaded = some (max v s) := by
  rcases templates_of_deployed hdeployed hplain with ⟨before, file, htemplates⟩
  -- There are no more templates on the path than entries.
  have hlength : (templates w sysPath).length < depth :=
    Nat.lt_of_le_of_lt ((List.length_filterMap_le _ _).trans
      (List.takeWhile_prefix _).length_le) hdepth
  rw [importSitecustomize_eq (s := { sysPath := sysPath }) hdeployed.ready hlength]
  refine ⟨if v < s then some resolvedPath else none, ?_, ?_, huse.processVersion_eq⟩
  · have hpath : (setHooksAndAudit w.world resolvedPath {}).libstdcxxPath = some resolvedPath := by
      simp [setHooksAndAudit, hdeployed.isfile]
    rw [afterImport_session w htemplates, session_checks w.world resolvedPath hdeployed.linux
      quiet later d hquiet hd, hpath, huse.checkAndLoad_eq]
  · by_cases hlower : v < s <;> simp [hlower]

/-! ### A Deployment -/

/-- The two packages, in a process that has loaded no C++ library. -/
def deployedSite : SiteWorld :=
  { sampleSite with world := unloadedWorld }

theorem shippedLibstdcxx_plain : PlainPath shippedLibstdcxx :=
  .of_chars (by decide +kernel)

theorem deployedSite_deployed : Deployed deployedSite samplePath shippedLibstdcxx where
  ready := ⟨sampleSite_ready.own, sampleSite_ready.distinct⟩
  linux := rfl
  isfile := by decide +kernel
  installed := by
    refine ⟨fun _ => none, fun _ => [], ["/empty".toList, "/first".toList], "/second".toList,
      ["/user".toList], "/second/sitecustomize.py".toList, rfl, ?_, ?_, ?_⟩
    · rw [shippedLibstdcxx_plain.templateModule_eq]
      rfl
    · decide +kernel
    · decide +kernel

/-- The import of the sample library into that process. -/
def firstImport : Delivery :=
  { importOfLibzmq with world := unloadedWorld }

theorem firstImport_use : FirstUse firstImport.world sampleWorld shippedLibstdcxx
    systemLibstdcxx (versionTuple 3 4 30) (versionTuple 3 4 33) where
  unloaded := unloadedWorld_unloaded
  named := by decide
  lookup := unloadedWorld_asks
  loads := sampleWorld_loads
  isfile := by decide +kernel
  version := by decide +kernel
  shipped := unloadedWorld_ships

/-- The shipped library is loaded, which is newer. -/
theorem deployedSite_newer :
    ∃ loaded, (([dlopenOfLibzmq] ++ firstImport :: [importOfLibzmq]).foldl
      (deliverCopies (importSitecustomize deployedSite 5 { sysPath := samplePath }).2.registrations)
      (importSitecustomize deployedSite 5 { sysPath := samplePath }).2.hook).checks = [.ok loaded] ∧
        (loaded = some shippedLibstdcxx ↔ versionTuple 3 4 30 < versionTuple 3 4 33) ∧
          processVersion firstImport.world (versionTuple 3 4 33) loaded =
            some (max (versionTuple 3 4 30) (versionTuple 3 4 33)) := by
  refine deployed_newer deployedSite samplePath shippedLibstdcxx 5 [dlopenOfLibzmq]
    [importOfLibzmq] firstImport sampleWorld systemLibstdcxx _ _ shippedLibstdcxx_plain
    deployedSite_deployed (by decide) ?_ ?_ firstImport_use
  · intro q hq
    rw [List.mem_singleton.mp hq]
    rintro ⟨text, hselect, _⟩
    have hnone : selectFilename dlopenOfLibzmq.event dlopenOfLibzmq.args = none := by
      decide +kernel
    rw [hnone] at hselect
    cases hselect
  · exact ⟨libzmq, by decide +kernel, by decide +kernel, by decide +kernel,
      "libstdc++.so.6 => /usr/lib/libstdc++.so.6".toList, by decide +kernel, by decide +kernel⟩

end AuditLibstdcxx
