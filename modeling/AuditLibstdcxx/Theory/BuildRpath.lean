import AuditLibstdcxx.Core.BuildRpath

/-!
# What the Walk Does to the Run Paths

Going through all targets of a build should append an expression to the run
path of every target that is linked, and change nothing else.

The walk comes to every target once. The text in which the targets are
collected is at every level that of the targets below it, since the name of a
target is not empty and has no separator in it. So what is left is what is done
to one target. There the run path that is appended to is read from the property
`BUILD_RPATH_` and written to `BUILD_RPATH`: a run path that was in
`BUILD_RPATH` before is kept only if it is also in the other property.

## Main definitions

* `BuildDir.allTargets`: The targets of a directory and of those below it.
* `BuildTree`: A build in which no two targets have the same name.
* `IsLinked`: A target that is linked.
* `RpathsAppended`: What the walk should do.
* `customRpath`: The run path that is appended to.

## Theorems

* `sprGetAllCmakeTargets_eq`: What the walk collects.
* `walkAllTargets_eq`: The targets that the walk comes to.
* `foldl_apply_of_mem`: What the walk does to one target.
* `rpathsAppended_iff`: Exactly when the run paths are appended to.
-/

namespace AuditLibstdcxx

open SepList

mutual

/-- The targets of a directory, and of those below it. -/
def BuildDir.allTargets : BuildDir → List CMakeStr
  | .mk targets subdirs => targets ++ allTargetsOf subdirs

/-- The targets of several directories. -/
def allTargetsOf : List BuildDir → List CMakeStr
  | [] => []
  | subdir :: subdirs => subdir.allTargets ++ allTargetsOf subdirs

end

/-- A build. The name of a target is not empty, has no separator in it, and is
    that of no other target. -/
structure BuildTree where
  sourceDir : BuildDir
  ne_nil : [] ∉ sourceDir.allTargets
  noSep : ∀ target ∈ sourceDir.allTargets, semicolon ∉ target
  nodup : sourceDir.allTargets.Nodup

/-- A shared library, a module or an executable. -/
def IsLinked (props : Properties) (target : CMakeStr) : Prop :=
  ∃ targetType ∈ linkedTypes, props target typeProperty = some targetType

/-- The targets in the order in which the walk comes to them. -/
def visited (tree : BuildTree) : List CMakeStr :=
  walkAllTargets (fun targets target => targets ++ [target]) tree.sourceDir []

/-- The walk comes to every target once, appends the expression to the run path
    of those that are linked, and changes nothing else. -/
structure RpathsAppended (tree : BuildTree) (before after : Properties) : Prop where
  visits : ∀ target, (visited tree).count target =
    if target ∈ tree.sourceDir.allTargets then 1 else 0
  appended : ∀ target ∈ tree.sourceDir.allTargets, IsLinked before target →
    after target buildRpath = some (append semicolon ((before target buildRpath).getD [])
      (rpathExpression target))
  otherTargets : ∀ target, ¬ (target ∈ tree.sourceDir.allTargets ∧ IsLinked before target) →
    after target = before target
  otherProperties : ∀ target property, property ≠ buildRpath →
    after target property = before target property

/-! ### The Walk -/

mutual

/-- What the walk collects in a directory is the text of its targets. -/
theorem sprGetAllCmakeTargets_eq : ∀ d : BuildDir, [] ∉ d.allTargets →
    (∀ target ∈ d.allTargets, semicolon ∉ target) →
    sprGetAllCmakeTargets d = encode semicolon d.allTargets
  | .mk targets subdirs, hnil, hsep => by
      rw [BuildDir.allTargets] at hnil hsep ⊢
      rw [sprGetAllCmakeTargets, appendSubdirTargets_eq subdirs targets hnil hsep,
        expand_encode hsep hnil]

/-- The loop over the subdirectories continues the text with their targets. -/
theorem appendSubdirTargets_eq : ∀ (subdirs : List BuildDir) (targets : List CMakeStr),
    [] ∉ targets ++ allTargetsOf subdirs →
    (∀ target ∈ targets ++ allTargetsOf subdirs, semicolon ∉ target) →
    appendSubdirTargets (encode semicolon targets) subdirs =
      encode semicolon (targets ++ allTargetsOf subdirs)
  | [], targets, _, _ => by rw [appendSubdirTargets, allTargetsOf, List.append_nil]
  | subdir :: subdirs, targets, hnil, hsep => by
      rw [allTargetsOf, ← List.append_assoc] at hnil hsep ⊢
      have hfirst : [] ∉ targets ++ subdir.allTargets := fun h =>
        hnil (List.mem_append_left _ h)
      have htargets : [] ∉ targets := fun h => hfirst (List.mem_append_left _ h)
      have hsubdir : [] ∉ subdir.allTargets := fun h => hfirst (List.mem_append_right _ h)
      have hsepSubdir : ∀ target ∈ subdir.allTargets, semicolon ∉ target := fun target h =>
        hsep target (List.mem_append_left _ (List.mem_append_right _ h))
      -- The targets of the subdirectory come back as they were collected there.
      rw [appendSubdirTargets, sprGetAllCmakeTargets_eq subdir hsubdir hsepSubdir,
        expand_encode hsepSubdir hsubdir, appendAll_encode htargets]
      exact appendSubdirTargets_eq subdirs (targets ++ subdir.allTargets) hnil hsep

end

/-- The walk comes to the targets of the build, one after the other. -/
theorem walkAllTargets_eq {σ : Type} (callback : σ → CMakeStr → σ) (tree : BuildTree) (s : σ) :
    walkAllTargets callback tree.sourceDir s = tree.sourceDir.allTargets.foldl callback s := by
  rw [walkAllTargets, sprGetAllCmakeTargets_eq tree.sourceDir tree.ne_nil tree.noSep,
    elems_encode tree.noSep, kept_of_notMem tree.ne_nil]

theorem visited_eq (tree : BuildTree) : visited tree = tree.sourceDir.allTargets := by
  have hconcat : ∀ targets before : List CMakeStr,
      targets.foldl (fun targets target => targets ++ [target]) before = before ++ targets := by
    intro targets
    induction targets with
    | nil =>
        intro before
        rw [List.foldl_nil, List.append_nil]
    | cons target targets ih =>
        intro before
        rw [List.foldl_cons, ih, List.append_assoc, List.singleton_append]
  rw [visited, walkAllTargets_eq, hconcat, List.nil_append]

/-! ### One Target -/

/-- The run path in `BUILD_RPATH_`, if it is one. -/
def customRpath (props : Properties) (target : CMakeStr) : CMakeStr :=
  match props target buildRpathCustom with
  | none => []
  | some value => if isFalse value then [] else value

section Apply

variable {props : Properties} {target : CMakeStr}

theorem linkedTypes_contains :
    linkedTypes.contains (getTargetProperty props targetTypeName target typeProperty) = true ↔
      IsLinked props target := by
  rw [List.contains_iff_mem]
  unfold getTargetProperty IsLinked
  cases props target typeProperty with
  | none =>
      have hnot : notFound targetTypeName ∉ linkedTypes := by decide
      rw [Option.getD_none]
      refine iff_of_false hnot ?_
      rintro ⟨targetType, _, h⟩
      cases h
  | some targetType => simp

/-- What a target that is linked gets for a run path. -/
theorem apply_of_linked (h : IsLinked props target) :
    applyTransitiveRpathToLibAndExe props target = setTargetProperty props target buildRpath
      (append semicolon (customRpath props target) (rpathExpression target)) := by
  unfold applyTransitiveRpathToLibAndExe
  rw [if_pos (linkedTypes_contains.mpr h)]
  refine congrArg (setTargetProperty props target buildRpath) ?_
  unfold getTargetProperty customRpath
  cases props target buildRpathCustom with
  | none =>
      rw [Option.getD_none, if_pos (Or.inl (isFalse_notFound tgtBuildRpathName))]
      rfl
  | some value =>
      by_cases hfalse : isFalse value = true
      · simp [hfalse, append]
      · -- A value that is none of the false ones is not that of a property that was not found.
        rw [Bool.not_eq_true] at hfalse
        have hne := ne_notFound_of_true hfalse tgtBuildRpathName
        simp [hfalse, hne]

theorem apply_of_not_linked (h : ¬ IsLinked props target) :
    applyTransitiveRpathToLibAndExe props target = props := by
  unfold applyTransitiveRpathToLibAndExe
  rw [if_neg fun hc => h (linkedTypes_contains.mp hc)]

/-- Other targets keep their properties. -/
theorem apply_other {other : CMakeStr} (h : other ≠ target) :
    applyTransitiveRpathToLibAndExe props target other = props other := by
  by_cases hlinked : IsLinked props target
  · rw [apply_of_linked hlinked, setTargetProperty, Function.update_of_ne h]
  · rw [apply_of_not_linked hlinked]

/-- What is done to a target depends on its own properties. -/
theorem apply_congr {props' : Properties} (h : props' target = props target) :
    applyTransitiveRpathToLibAndExe props' target target =
      applyTransitiveRpathToLibAndExe props target target := by
  have hlinked : IsLinked props' target ↔ IsLinked props target := by
    unfold IsLinked
    rw [h]
  have hcustom : customRpath props' target = customRpath props target := by
    unfold customRpath
    rw [h]
  by_cases hprops : IsLinked props target
  · rw [apply_of_linked hprops, apply_of_linked (hlinked.mpr hprops), hcustom, setTargetProperty,
      setTargetProperty, Function.update_self, Function.update_self, h]
  · rw [apply_of_not_linked hprops, apply_of_not_linked fun hc => hprops (hlinked.mp hc), h]

end Apply

/-! ### All Targets -/

section Walk

variable {targets : List CMakeStr} {target : CMakeStr}

/-- A target that the walk does not come to keeps its properties. -/
theorem foldl_apply_of_notMem (props : Properties) (h : target ∉ targets) :
    targets.foldl applyTransitiveRpathToLibAndExe props target = props target := by
  induction targets generalizing props with
  | nil => rfl
  | cons first targets ih =>
      rw [List.mem_cons, not_or] at h
      rw [List.foldl_cons, ih _ h.2, apply_other h.1]

/-- A target that it comes to once is changed as if there were no other. -/
theorem foldl_apply_of_mem (props : Properties) (hnodup : targets.Nodup) (h : target ∈ targets) :
    targets.foldl applyTransitiveRpathToLibAndExe props target =
      applyTransitiveRpathToLibAndExe props target target := by
  induction targets generalizing props with
  | nil => exact absurd h List.not_mem_nil
  | cons first targets ih =>
      rw [List.nodup_cons] at hnodup
      rw [List.foldl_cons]
      rcases List.mem_cons.mp h with rfl | hmem
      · exact foldl_apply_of_notMem _ hnodup.1
      · have hne : target ≠ first := fun hc => hnodup.1 (hc ▸ hmem)
        rw [ih _ hnodup.2 hmem, apply_congr (apply_other hne)]

end Walk

/-- The run path of every linked target is appended to, and nothing else is
    changed, exactly when each of them has in `BUILD_RPATH` what it has in
    `BUILD_RPATH_`: the same run path, or none. -/
theorem rpathsAppended_iff (tree : BuildTree) (props : Properties) :
    RpathsAppended tree props
        (walkAllTargets applyTransitiveRpathToLibAndExe tree.sourceDir props) ↔
      ∀ target ∈ tree.sourceDir.allTargets, IsLinked props target →
        (props target buildRpath).getD [] = customRpath props target := by
  rw [walkAllTargets_eq]
  have hlinked : ∀ target ∈ tree.sourceDir.allTargets, IsLinked props target →
      tree.sourceDir.allTargets.foldl applyTransitiveRpathToLibAndExe props target =
        Function.update (props target) buildRpath
          (some (append semicolon (customRpath props target) (rpathExpression target))) := by
    intro target hmem htarget
    rw [foldl_apply_of_mem props tree.nodup hmem, apply_of_linked htarget, setTargetProperty,
      Function.update_self]
  have hother : ∀ target, ¬ (target ∈ tree.sourceDir.allTargets ∧ IsLinked props target) →
      tree.sourceDir.allTargets.foldl applyTransitiveRpathToLibAndExe props target =
        props target := by
    intro target hnot
    by_cases hmem : target ∈ tree.sourceDir.allTargets
    · rw [foldl_apply_of_mem props tree.nodup hmem, apply_of_not_linked fun hc => hnot ⟨hmem, hc⟩]
    · exact foldl_apply_of_notMem props hmem
  constructor
  · intro happended target hmem htarget
    have hvalue := happended.appended target hmem htarget
    rw [hlinked target hmem htarget, Function.update_self] at hvalue
    exact (append_left_inj.mp (Option.some.inj hvalue)).symm
  · intro hsame
    refine ⟨fun target => ?_, fun target hmem htarget => ?_, hother, fun target property hne => ?_⟩
    · rw [visited_eq]
      by_cases hmem : target ∈ tree.sourceDir.allTargets
      · rw [if_pos hmem, List.count_eq_one_of_mem tree.nodup hmem]
      · rw [if_neg hmem, List.count_eq_zero_of_not_mem hmem]
    · rw [hlinked target hmem htarget, Function.update_self, hsame target hmem htarget]
    · by_cases htarget : target ∈ tree.sourceDir.allTargets ∧ IsLinked props target
      · rw [hlinked target htarget.1 htarget.2, Function.update_of_ne hne]
      · rw [hother target htarget]

/-! ### A Build with One Executable -/

/-- The executable. -/
def appTarget : CMakeStr := "app".toList

def appTree : BuildTree where
  sourceDir := .mk [] [.mk [appTarget] []]
  ne_nil := by decide
  noSep := by decide +kernel
  nodup := by decide

/-- It has a run path of its own. -/
def appProperties : Properties := fun target property =>
  if target = appTarget ∧ property = typeProperty then some "EXECUTABLE".toList
  else if target = appTarget ∧ property = buildRpath then some "/opt/app/lib".toList
  else none

/-- The run path it had is lost. -/
theorem appTree_not_appended : ¬ RpathsAppended appTree appProperties
    (walkAllTargets applyTransitiveRpathToLibAndExe appTree.sourceDir appProperties) := by
  intro happended
  have hmem : appTarget ∈ appTree.sourceDir.allTargets := by decide
  have hlinked : IsLinked appProperties appTarget := ⟨"EXECUTABLE".toList, by decide, rfl⟩
  have hvalue := happended.appended appTarget hmem hlinked
  have hlost : walkAllTargets applyTransitiveRpathToLibAndExe appTree.sourceDir appProperties
      appTarget buildRpath = some (rpathExpression appTarget) := by decide +kernel
  rw [hlost, Option.some.injEq] at hvalue
  exact absurd hvalue (by decide +kernel)

end AuditLibstdcxx
