import AuditLibstdcxx.Core.PySite
import AuditLibstdcxx.Theory.PyCoverage

/-!
# Several Packages With a Template

What comes of it when several packages have installed the template, each with a
library of its own, and the user has a `sitecustomize` too.

Python makes the entries of `sys.path` absolute and removes duplicates before it
looks for the module. Then every template takes itself off the path and nothing
else, so they are executed one after the other, in the order of the path, and
the first module that is none of them is executed last. The hook does what it
would do with the last template alone: all of them set one and the same path,
and it does not matter how often the hook is registered.

A template whose entry is spelled otherwise than its directory stays on the path,
finds itself again, and is executed until there is no room for one more import.

## Main definitions

* `SiteReady`: The path is one that Python has prepared.
* `templates`, `firstOther`, `keptPath`: What there is on a path.
* `ImportsItself`: A template stays on the path.

## Theorems

* `importSitecustomize_eq`: What the import comes to.
* `deliverCopies_eq`: Copies of the hook do what one does.
* `sitecustomize_session`: The last template decides.
* `sitecustomize_recursion_iff`: When the imports do not end.
-/

namespace AuditLibstdcxx

section Chain

variable (w : SiteWorld)

/-- The path is one that Python has prepared: no directory is on it twice, and a
    template is found in the directory that its entry stands for. -/
structure SiteReady (sysPath : List PyStr) : Prop where
  own : ∀ entry ∈ sysPath, ∀ file path, w.find entry = some (file, .template path) →
    osPathDirname file = w.abspath entry
  distinct : (sysPath.map w.abspath).Nodup

/-- A template under an entry, with the path filled in. -/
def templateAt (entry : PyStr) : Option (PyStr × PyStr) :=
  match w.find entry with
  | some (file, .template path) => some (file, path)
  | _ => none

/-- Another module under an entry, with what it ends in. -/
def otherAt (entry : PyStr) : Option (PyStr × Except PyException Unit) :=
  match w.find entry with
  | some (file, .other outcome) => some (file, outcome)
  | _ => none

/-- The entries in front of the first with another module. -/
def beforeOther (sysPath : List PyStr) : List PyStr :=
  sysPath.takeWhile fun entry => (otherAt w entry).isNone

/-- The templates that get their turn. -/
def templates (sysPath : List PyStr) : List (PyStr × PyStr) :=
  (beforeOther w sysPath).filterMap (templateAt w)

/-- The module that is executed last, if there is one. -/
def firstOther (sysPath : List PyStr) : Option (PyStr × Except PyException Unit) :=
  sysPath.findSome? (otherAt w)

/-- What is left of the path. -/
def keptPath (sysPath : List PyStr) : List PyStr :=
  ((beforeOther w sysPath).filter fun entry => (templateAt w entry).isNone) ++
    sysPath.dropWhile fun entry => (otherAt w entry).isNone

/-- What the import ends in. -/
def importOutcome (sysPath : List PyStr) : Except SiteError Unit :=
  match firstOther w sysPath with
  | none => .error .notFound
  | some (_, outcome) => outcome.mapError .raised

/-- What the import leaves behind, on a path that begins with entries under which
    there is nothing. -/
def afterImport (skipped sysPath : List PyStr) (s : Interpreter) : Interpreter where
  sysPath := skipped ++ keptPath w sysPath
  hook := (templates w sysPath).foldl (fun hook t => setHooksAndAudit w.world t.2 hook) s.hook
  registrations := s.registrations + (templates w sysPath).length * if w.world.isLinux then 1 else 0
  executed := s.executed ++ (templates w sysPath).map Prod.fst ++
    ((firstOther w sysPath).map Prod.fst).toList

variable {w} {entry file path : PyStr} {rest skipped : List PyStr}
  {outcome : Except PyException Unit} {s : Interpreter}

/-! ### Along the Path -/

/-- An entry under which there is nothing stays where it is. -/
theorem afterImport_nothing (skipped rest : List PyStr) (s : Interpreter)
    (h : w.find entry = none) :
    importOutcome w (entry :: rest) = importOutcome w rest ∧
    templates w (entry :: rest) = templates w rest ∧
    afterImport w skipped (entry :: rest) s = afterImport w (skipped ++ [entry]) rest s := by
  have hother : otherAt w entry = none := by
    unfold otherAt
    rw [h]
  have htemplate : templateAt w entry = none := by
    unfold templateAt
    rw [h]
  simp [importOutcome, afterImport, firstOther, templates, keptPath, beforeOther, hother, htemplate]

/-- A template is executed and goes. -/
theorem afterImport_template (rest : List PyStr) (h : w.find entry = some (file, .template path)) :
    importOutcome w (entry :: rest) = importOutcome w rest ∧
    templates w (entry :: rest) = (file, path) :: templates w rest ∧
    keptPath w (entry :: rest) = keptPath w rest ∧
    firstOther w (entry :: rest) = firstOther w rest := by
  have hother : otherAt w entry = none := by
    unfold otherAt
    rw [h]
  have htemplate : templateAt w entry = some (file, path) := by
    unfold templateAt
    rw [h]
  simp [importOutcome, firstOther, templates, keptPath, beforeOther, hother, htemplate]

/-- Another module ends it. -/
theorem afterImport_other (skipped rest : List PyStr) (s : Interpreter)
    (h : w.find entry = some (file, .other outcome)) :
    importOutcome w (entry :: rest) = outcome.mapError .raised ∧
    afterImport w skipped (entry :: rest) s =
      { s with sysPath := skipped ++ entry :: rest, executed := s.executed ++ [file] } := by
  have hother : otherAt w entry = some (file, outcome) := by
    unfold otherAt
    rw [h]
  simp [importOutcome, afterImport, firstOther, templates, keptPath, beforeOther, hother]

/-- Executing a template takes off its own entry and nothing else. -/
theorem filter_own (hready : SiteReady w (skipped ++ entry :: rest))
    (h : w.find entry = some (file, .template path)) :
    ((skipped ++ entry :: rest).filter fun path => decide (w.abspath path ≠ osPathDirname file)) =
      skipped ++ rest := by
  have hown := hready.own entry (by simp) file path h
  have hdistinct := hready.distinct
  rw [List.map_append, List.map_cons, List.nodup_middle, List.nodup_cons,
    List.mem_append] at hdistinct
  -- No other entry stands for the same directory, so none goes with it.
  have hothers : ∀ x, x ∈ skipped ∨ x ∈ rest → w.abspath x ≠ w.abspath entry := by
    intro x hx heq
    refine hdistinct.1 ?_
    rw [← heq]
    exact hx.imp (List.mem_map_of_mem) (List.mem_map_of_mem)
  rw [hown, List.filter_append, List.filter_cons_of_neg (by simp)]
  rw [List.filter_eq_self.mpr fun x hx => decide_eq_true (hothers x (Or.inl hx)),
    List.filter_eq_self.mpr fun x hx => decide_eq_true (hothers x (Or.inr hx))]

theorem SiteReady.filter {sysPath : List PyStr} (h : SiteReady w sysPath) (q : PyStr → Bool) :
    SiteReady w (sysPath.filter q) :=
  ⟨fun entry hentry => h.own entry (List.mem_of_mem_filter hentry),
    h.distinct.sublist (List.filter_sublist.map _)⟩

/-- With room for the templates on the path, the import comes to what the path
    says. -/
theorem importSitecustomize_skipped (rest : List PyStr) : ∀ (skipped : List PyStr) (depth : Nat)
    (s : Interpreter), s.sysPath = skipped ++ rest → (∀ x ∈ skipped, w.find x = none) →
    SiteReady w (skipped ++ rest) → (templates w rest).length < depth →
    importSitecustomize w depth s = (importOutcome w rest, afterImport w skipped rest s) := by
  induction rest with
  | nil =>
      intro skipped depth s hpath hskipped _ hdepth
      cases depth with
      | zero => exact absurd hdepth (Nat.not_lt_zero _)
      | succ depth =>
          have hnothing : s.sysPath.findSome? w.find = none := by
            rw [hpath, List.append_nil]
            exact List.findSome?_eq_none_iff.mpr hskipped
          unfold importSitecustomize
          rw [hnothing]
          simp [importOutcome, afterImport, firstOther, templates, keptPath, beforeOther, ← hpath]
  | cons entry rest ih =>
      intro skipped depth s hpath hskipped hready hdepth
      cases hfind : w.find entry with
      | none =>
          rcases afterImport_nothing skipped rest s hfind with ⟨houtcome, htemplates, hafter⟩
          rw [htemplates] at hdepth
          rw [houtcome, hafter]
          -- The entry is one more under which there is nothing.
          refine ih (skipped ++ [entry]) depth s (by simp [hpath]) ?_ (by simpa using hready) hdepth
          intro x hx
          rcases List.mem_append.mp hx with hx | hx
          · exact hskipped x hx
          · rwa [List.mem_singleton.mp hx]
      | some found =>
          have hfirst : s.sysPath.findSome? w.find = some found := by
            rw [hpath, List.findSome?_append, List.findSome?_eq_none_iff.mpr hskipped,
              List.findSome?_cons, hfind]
            rfl
          cases depth with
          | zero => exact absurd hdepth (Nat.not_lt_zero _)
          | succ depth =>
              unfold importSitecustomize
              rw [hfirst]
              rcases found with ⟨file, module⟩
              cases module with
              | other outcome =>
                  rcases afterImport_other skipped rest s hfind with ⟨houtcome, hafter⟩
                  rw [houtcome, hafter, ← hpath]
              | template path =>
                  rcases afterImport_template rest hfind with
                    ⟨houtcome, htemplates, hkept, hother⟩
                  rw [htemplates, List.length_cons] at hdepth
                  -- The template takes itself off, and the next import starts from what is left.
                  have hleft := filter_own hready hfind
                  rw [← hpath] at hleft
                  have hready' : SiteReady w (skipped ++ rest) := by
                    rw [← hleft, hpath]
                    exact hready.filter _
                  refine (ih skipped depth _ hleft hskipped hready' (by omega)).trans ?_
                  rw [houtcome]
                  unfold afterImport executeTemplate
                  cases w.world.isLinux with
                  | false => simp [htemplates, hkept, hother]
                  | true => simp [htemplates, hkept, hother, Nat.add_comm, Nat.add_left_comm]

/-- The import comes to what the path says. -/
theorem importSitecustomize_eq {depth : Nat} (hready : SiteReady w s.sysPath)
    (hdepth : (templates w s.sysPath).length < depth) : importSitecustomize w depth s =
      (importOutcome w s.sysPath, afterImport w [] s.sysPath s) :=
  importSitecustomize_skipped s.sysPath [] depth s rfl
    (fun _ hx => absurd hx List.not_mem_nil) hready hdepth

end Chain

section Copies

/-- The hook changes nothing, or is done for good. -/
theorem auditHook_again (d : Delivery) (s : HookState) :
    (auditHook d.world d.event d.args s).2 = s ∨
      (auditHook d.world d.event d.args s).2 = afterCheck d.world s := by
  by_cases hs : s.disabled = true
  · rw [auditHook_of_disabled d.world d.event d.args s hs]
    exact Or.inl rfl
  · rw [Bool.not_eq_true] at hs
    by_cases ht : Triggers d
    · rw [auditHook_of_triggers d s hs ht]
      exact Or.inr rfl
    · exact Or.inl (auditHook_of_not_triggers d s hs ht).1

/-- Copies of the hook do what one does. -/
theorem deliverCopies_eq (n : Nat) (s : HookState) (d : Delivery) :
    deliverCopies (n + 1) s d = (auditHook d.world d.event d.args s).2 := by
  induction n generalizing s with
  | zero =>
      unfold deliverCopies
      rcases auditHook d.world d.event d.args s with ⟨r, s'⟩
      cases r with
      | error e => rfl
      | ok _ => rfl
  | succ n ih =>
      have hagain := auditHook_again d s
      unfold deliverCopies
      cases h : auditHook d.world d.event d.args s with
      | mk r s' =>
          rw [h] at hagain
          cases r with
          | error e => rfl
          | ok _ =>
              simp only
              rw [ih]
              -- The second copy does the same again, or finds the hook disabled by the first.
              rcases hagain with hsame | hdone
              · rw [show s' = s from hsame, h]
                exact hsame
              · rw [auditHook_of_disabled _ _ _ _ (by rw [show s' = _ from hdone]; rfl)]

theorem auditHook_registered (d : Delivery) (s : HookState) :
    (auditHook d.world d.event d.args s).2.registered = s.registered := by
  rcases auditHook_again d s with h | h
  · rw [h]
  · rw [h]
    rfl

/-- Events reach any number of copies as they reach one. -/
theorem foldl_deliverCopies (n : Nat) (ds : List Delivery) (s : HookState)
    (h : s.registered = decide (0 < n)) : ds.foldl (deliverCopies n) s = ds.foldl deliver s := by
  induction ds generalizing s with
  | nil => rfl
  | cons d ds ih =>
      rw [List.foldl_cons, List.foldl_cons]
      cases n with
      | zero =>
          have hnone : deliver s d = s := if_neg (by simp [h])
          rw [hnone]
          exact ih s h
      | succ n =>
          have hone : deliver s d = (auditHook d.world d.event d.args s).2 := if_pos (by simp [h])
          rw [hone, deliverCopies_eq]
          exact ih _ ((auditHook_registered d s).trans h)

/-- The last path set is the one that stays. -/
theorem foldl_setHooksAndAudit (w : World) (paths : List PyStr) (last : PyStr) (s : HookState) :
    (paths ++ [last]).foldl (fun hook path => setHooksAndAudit w path hook) s =
      setHooksAndAudit w last s := by
  induction paths generalizing s with
  | nil => rfl
  | cons path paths ih =>
      rw [List.cons_append, List.foldl_cons, ih]
      simp [setHooksAndAudit]

end Copies

/-- After the import the hook behaves as if the last template were the only one. -/
theorem afterImport_session (w : SiteWorld) {sysPath : List PyStr}
    {before : List (PyStr × PyStr)} {last : PyStr × PyStr}
    (htemplates : templates w sysPath = before ++ [last]) (ds : List Delivery) :
    ds.foldl (deliverCopies (afterImport w [] sysPath { sysPath := sysPath }).registrations)
      (afterImport w [] sysPath { sysPath := sysPath }).hook = session w.world last.2 ds := by
  have hhook : (templates w sysPath).foldl (fun hook t => setHooksAndAudit w.world t.2 hook) {} =
      setHooksAndAudit w.world last.2 {} := by
    have hpaths := foldl_setHooksAndAudit w.world (before.map Prod.snd) last.2 {}
    rw [← List.map_singleton (f := Prod.snd), ← List.map_append, List.foldl_map] at hpaths
    rw [htemplates]
    exact hpaths
  have hlength : (templates w sysPath).length = before.length + 1 := by
    rw [htemplates, List.length_append, List.length_singleton]
  unfold afterImport session
  simp only [hhook, hlength]
  refine foldl_deliverCopies _ ds _ ?_
  cases hlinux : w.world.isLinux with
  | false => simp [setHooksAndAudit, hlinux]
  | true => simp [setHooksAndAudit, hlinux]

/-- On a path that Python has prepared, the templates in front of the first other
    module are executed in order, that module after them, and the path keeps all
    other entries. From then on the hook behaves as if the last of these templates
    were the only one. -/
theorem sitecustomize_session (w : SiteWorld) (sysPath : List PyStr) (depth : Nat)
    (before : List (PyStr × PyStr)) (last : PyStr × PyStr) (ds : List Delivery)
    (hready : SiteReady w sysPath) (htemplates : templates w sysPath = before ++ [last])
    (hdepth : before.length + 1 < depth) :
    (importSitecustomize w depth { sysPath := sysPath }).1 = importOutcome w sysPath ∧
    (importSitecustomize w depth { sysPath := sysPath }).2.sysPath = keptPath w sysPath ∧
    (importSitecustomize w depth { sysPath := sysPath }).2.executed =
      (before ++ [last]).map Prod.fst ++ ((firstOther w sysPath).map Prod.fst).toList ∧
    ds.foldl (deliverCopies (importSitecustomize w depth { sysPath := sysPath }).2.registrations)
      (importSitecustomize w depth { sysPath := sysPath }).2.hook =
        session w.world last.2 ds := by
  have hlength : (templates w sysPath).length < depth := by
    rw [htemplates, List.length_append, List.length_singleton]
    exact hdepth
  rw [importSitecustomize_eq (s := { sysPath := sysPath }) hready hlength]
  refine ⟨rfl, List.nil_append _, ?_, afterImport_session w htemplates ds⟩
  unfold afterImport
  rw [htemplates]
  rfl

/-! ### Two Packages -/

/-- The directory that an entry of the path stands for. -/
def siteAbspath (entry : PyStr) : PyStr :=
  if entry = "first".toList then "/first".toList else entry

/-- The modules of two packages and of the user. -/
def siteModule (directory : PyStr) : Option SiteModule :=
  if directory = "/first".toList then some (.template "/first/lib".toList)
  else if directory = "/second".toList then some (.template shippedLibstdcxx)
  else if directory = "/user".toList then some (.other (.ok ()))
  else none

/-- A process with these modules. -/
def sampleSite : SiteWorld where
  world := sampleWorld
  find entry :=
    (siteModule (siteAbspath entry)).map fun module =>
      (entry ++ "/sitecustomize.py".toList, module)
  abspath := siteAbspath

/-- The path, as Python prepares it. -/
def samplePath : List PyStr :=
  ["/empty".toList, "/first".toList, "/second".toList, "/user".toList]

theorem sampleSite_ready : SiteReady sampleSite samplePath where
  own := by
    have hown : ∀ entry ∈ samplePath,
        osPathDirname (entry ++ "/sitecustomize.py".toList) = siteAbspath entry := by
      decide +kernel
    intro entry hentry file path hfound
    rcases Option.map_eq_some_iff.mp hfound with ⟨module, _, heq⟩
    cases heq
    exact hown entry hentry
  distinct := by decide +kernel

/-- The second package has the last word, and the module of the user is executed. -/
theorem sampleSite_session :
    (importSitecustomize sampleSite 3 { sysPath := samplePath }).1 =
      importOutcome sampleSite samplePath ∧
    (importSitecustomize sampleSite 3 { sysPath := samplePath }).2.sysPath =
      keptPath sampleSite samplePath ∧
    (importSitecustomize sampleSite 3 { sysPath := samplePath }).2.executed =
      [("/first/sitecustomize.py".toList, "/first/lib".toList),
        ("/second/sitecustomize.py".toList, shippedLibstdcxx)].map Prod.fst ++
        ((firstOther sampleSite samplePath).map Prod.fst).toList ∧
    [importOfLibzmq, dlopenOfLibzmq].foldl
      (deliverCopies (importSitecustomize sampleSite 3 { sysPath := samplePath }).2.registrations)
      (importSitecustomize sampleSite 3 { sysPath := samplePath }).2.hook =
        session sampleWorld shippedLibstdcxx [importOfLibzmq, dlopenOfLibzmq] :=
  sitecustomize_session sampleSite samplePath 3
    [("/first/sitecustomize.py".toList, "/first/lib".toList)]
    ("/second/sitecustomize.py".toList, shippedLibstdcxx) [importOfLibzmq, dlopenOfLibzmq]
    sampleSite_ready (by decide +kernel) (by decide)

section Itself

/-- A template in front of the first other module stays on the path: its entry is
    spelled otherwise than its directory, and none of the templates in front of it
    takes it off. -/
def ImportsItself (w : SiteWorld) (sysPath : List PyStr) : Prop :=
  ∃ before entry after file path, sysPath = before ++ entry :: after ∧
    w.find entry = some (file, .template path) ∧ w.abspath entry ≠ osPathDirname file ∧
    ∀ x ∈ before, otherAt w x = none ∧
      ∀ f p, w.find x = some (f, .template p) → osPathDirname f = w.abspath x →
        w.abspath x ≠ w.abspath entry

variable {w : SiteWorld}

theorem otherAt_of_template {entry file path : PyStr}
    (h : w.find entry = some (file, .template path)) : otherAt w entry = none := by
  unfold otherAt
  rw [h]

theorem otherAt_of_nothing {entry : PyStr} (h : w.find entry = none) : otherAt w entry = none := by
  unfold otherAt
  rw [h]

/-- The first template found is one that stays, if it is spelled so. -/
theorem ImportsItself.of_first {before after : List PyStr} {entry file path : PyStr}
    (hnothing : ∀ x ∈ before, w.find x = none) (hfound : w.find entry = some (file, .template path))
    (hstays : w.abspath entry ≠ osPathDirname file) :
    ImportsItself w (before ++ entry :: after) := by
  refine ⟨before, entry, after, file, path, rfl, hfound, hstays, fun x hx => ⟨?_, ?_⟩⟩
  · exact otherAt_of_nothing (hnothing x hx)
  · intro f p htemplate
    rw [hnothing x hx] at htemplate
    cases htemplate

/-- A template is found, and what it leaves of the path is such a path again. -/
theorem ImportsItself.next {sysPath : List PyStr} (h : ImportsItself w sysPath) :
    ∃ file path, sysPath.findSome? w.find = some (file, .template path) ∧
      ImportsItself w
        (sysPath.filter fun path => decide (w.abspath path ≠ osPathDirname file)) := by
  rcases h with ⟨before, entry, after, file, path, hsplit, hfound, hstays, hbefore⟩
  cases hfirst : before.findSome? w.find with
  | none =>
      have hnothing := List.findSome?_eq_none_iff.mp hfirst
      refine ⟨file, path, ?_, ?_⟩
      · rw [hsplit, List.findSome?_append, hfirst, List.findSome?_cons, hfound]
        rfl
      · rw [hsplit, List.filter_append, List.filter_cons_of_pos (by simpa using hstays)]
        exact .of_first (fun x hx => hnothing x (List.mem_of_mem_filter hx)) hfound hstays
  | some found =>
      rcases List.findSome?_eq_some_iff.mp hfirst with ⟨front, x, back, hfront, hx, hnothing⟩
      have hmem : x ∈ before := by
        rw [hfront]
        exact List.mem_append_right _ List.mem_cons_self
      rcases found with ⟨f, module⟩
      cases module with
      | other outcome =>
          have hnone := (hbefore x hmem).1
          unfold otherAt at hnone
          rw [hx] at hnone
          cases hnone
      | template p =>
          refine ⟨f, p, ?_, ?_⟩
          · rw [hsplit, List.findSome?_append, hfirst]
            rfl
          -- A template in front of it goes, or is one that stays itself.
          · by_cases hown : osPathDirname f = w.abspath x
            · have hkept : w.abspath entry ≠ osPathDirname f := by
                rw [hown]
                exact ((hbefore x hmem).2 f p hx hown).symm
              rw [hsplit, List.filter_append, List.filter_cons_of_pos (by simpa using hkept)]
              exact ⟨_, entry, _, file, path, rfl, hfound, hstays,
                fun y hy => hbefore y (List.mem_of_mem_filter hy)⟩
            · have hkept : w.abspath x ≠ osPathDirname f := Ne.symm hown
              rw [hsplit, hfront, List.append_assoc, List.cons_append, List.filter_append,
                List.filter_cons_of_pos (by simpa using hkept)]
              exact .of_first (fun y hy => hnothing y (List.mem_of_mem_filter hy)) hx hkept

/-- However much room there is, it is used up. -/
theorem ImportsItself.recursion (depth : Nat) (s : Interpreter) (h : ImportsItself w s.sysPath) :
    (importSitecustomize w depth s).1 = .error .recursion := by
  induction depth generalizing s with
  | zero => rfl
  | succ depth ih =>
      rcases h.next with ⟨file, path, hfound, hrest⟩
      unfold importSitecustomize
      rw [hfound]
      exact ih (executeTemplate w file path s) hrest

/-- Where a directory has one module however it is spelled, taking a template off
    its path brings no other template to stay. -/
theorem ImportsItself.of_filter {sysPath : List PyStr} {entry file path : PyStr}
    (hsame : ∀ x y, w.abspath x = w.abspath y →
      (w.find x).map Prod.snd = (w.find y).map Prod.snd)
    (hfound : w.find entry = some (file, .template path))
    (hown : w.abspath entry = osPathDirname file)
    (h : ImportsItself w
      (sysPath.filter fun path => decide (w.abspath path ≠ osPathDirname file))) :
    ImportsItself w sysPath := by
  rcases h with ⟨before', x, after', f, p, hleft, hx, hstays, hbefore⟩
  rcases List.filter_eq_append_iff.mp hleft with ⟨front, back, hfront, hbefore', hback⟩
  rcases List.filter_eq_cons_iff.mp hback with ⟨gone, rest, hgone, hdropped, hkept, -⟩
  have hkept : w.abspath x ≠ osPathDirname file := by simpa using hkept
  refine ⟨front ++ gone, x, rest, f, p, ?_, hx, hstays, ?_⟩
  · rw [hfront, hgone, List.append_assoc]
  · intro y hy
    by_cases hyfile : w.abspath y = osPathDirname file
    · -- It went with the template, which is the module that it has as well.
      have hmodule := hsame y entry (hyfile.trans hown.symm)
      rw [hfound] at hmodule
      refine ⟨?_, fun _ _ _ _ => hyfile ▸ hkept.symm⟩
      cases hfy : w.find y with
      | none => exact otherAt_of_nothing hfy
      | some found =>
          rw [hfy] at hmodule
          rcases found with ⟨g, module⟩
          cases hmodule
          exact otherAt_of_template hfy
    · refine hbefore y ?_
      rcases List.mem_append.mp hy with hy | hy
      · rw [← hbefore']
        exact List.mem_filter.mpr ⟨hy, by simpa using hyfile⟩
      · exact absurd (hdropped y hy) (by simpa using hyfile)

/-- A template that does not stay leaves a shorter path, which is why there is an
    end to it. -/
theorem exists_depth_of_not_importsItself
    (hsame : ∀ x y, w.abspath x = w.abspath y →
      (w.find x).map Prod.snd = (w.find y).map Prod.snd)
    (s : Interpreter) (h : ¬ImportsItself w s.sysPath) :
    ∃ depth, (importSitecustomize w depth s).1 ≠ .error .recursion := by
  induction hn : s.sysPath.length using Nat.strongRecOn generalizing s with
  | ind n ih =>
      cases hfirst : s.sysPath.findSome? w.find with
      | none =>
          refine ⟨1, ?_⟩
          unfold importSitecustomize
          rw [hfirst]
          simp
      | some found =>
          rcases found with ⟨file, module⟩
          cases module with
          | other outcome =>
              refine ⟨1, ?_⟩
              unfold importSitecustomize
              rw [hfirst]
              cases outcome with
              | error e => simp [Except.mapError]
              | ok _ => simp [Except.mapError]
          | template path =>
              rcases List.findSome?_eq_some_iff.mp hfirst with
                ⟨before, entry, after, hsplit, hfound, hnothing⟩
              -- The template is found first, so if it stayed the imports would not end.
              have hown : w.abspath entry = osPathDirname file := by
                by_contra hstays
                rw [hsplit] at h
                exact h (.of_first hnothing hfound hstays)
              have hshorter : (executeTemplate w file path s).sysPath.length < n := by
                rw [← hn]
                refine List.length_filter_lt_length_iff_exists.mpr ⟨entry, ?_, by simp [hown]⟩
                rw [hsplit]
                exact List.mem_append_right _ List.mem_cons_self
              rcases ih _ hshorter (executeTemplate w file path s)
                (fun hrest => h (.of_filter hsame hfound hown hrest)) rfl with
                ⟨depth, hdepth⟩
              refine ⟨depth + 1, ?_⟩
              unfold importSitecustomize
              rw [hfirst]
              exact hdepth

/-- Where a directory has one module however it is spelled, the imports never end
    if and only if a template in front of the first other module stays. -/
theorem sitecustomize_recursion_iff (w : SiteWorld) (s : Interpreter)
    (hsame : ∀ x y, w.abspath x = w.abspath y →
      (w.find x).map Prod.snd = (w.find y).map Prod.snd) :
    (∀ depth, (importSitecustomize w depth s).1 = .error .recursion) ↔
      ImportsItself w s.sysPath := by
  constructor
  · intro hnever
    by_contra h
    rcases exists_depth_of_not_importsItself hsame s h with ⟨depth, hdepth⟩
    exact hdepth (hnever depth)
  · intro h depth
    exact h.recursion depth s

/-- With a relative entry for the first package there is no end to it. -/
theorem sampleSite_recursion :
    ImportsItself sampleSite ["first".toList, "/second".toList, "/user".toList] ∧
    ∀ depth, (importSitecustomize sampleSite depth
      { sysPath := ["first".toList, "/second".toList, "/user".toList] }).1 = .error .recursion := by
  have hitself : ImportsItself sampleSite ["first".toList, "/second".toList, "/user".toList] :=
    .of_first (List.forall_mem_nil _) rfl (by decide +kernel)
  refine ⟨hitself, (sitecustomize_recursion_iff sampleSite
    { sysPath := ["first".toList, "/second".toList, "/user".toList] } ?_).mpr hitself⟩
  intro x y h
  have h : siteAbspath x = siteAbspath y := h
  simp [sampleSite, h]

end Itself

end AuditLibstdcxx
