import AuditLibstdcxx.Core.CMake

/-!
# The Run Path of Every Target

`custom_transitive_build_rpath`, which goes through all targets of a build and
sets the run path of those that are linked. The targets of a build stand in its
directories, and a directory knows the ones that were added below it. A CMake
function hands a list to its caller by setting a variable of the caller, so
what the walk collects is a text that grows on the way up.

Every target has properties, which are texts under names. A property that was
never set has no value, and reading it gives a text that counts as false.

## Main definitions

* `BuildDir`: A directory, with its targets and subdirectories.
* `sprGetAllCmakeTargets`, `walkAllTargets`: The walk.
* `Properties`, `getTargetProperty`, `setTargetProperty`: Properties of targets.
* `applyTransitiveRpathToLibAndExe`: What is done to one target.
-/

namespace AuditLibstdcxx

/-- A directory of a build: the property `BUILDSYSTEM_TARGETS`, and the
    directories of the property `SUBDIRECTORIES`. -/
inductive BuildDir where
  | mk (targets : List CMakeStr) (subdirs : List BuildDir)

mutual

/-- `spr_get_all_cmake_targets`, with what it leaves in the variable of its
    caller. -/
def sprGetAllCmakeTargets : BuildDir → CMakeStr
  | .mk targets subdirs =>
      SepList.encode semicolon (SepList.expand semicolon
        (appendSubdirTargets (SepList.encode semicolon targets) subdirs))

/-- `foreach(subdir ${subdirs})` -/
def appendSubdirTargets (targets : CMakeStr) : List BuildDir → CMakeStr
  | [] => targets
  | subdir :: subdirs =>
      appendSubdirTargets (SepList.appendAll semicolon targets
        (SepList.expand semicolon (sprGetAllCmakeTargets subdir))) subdirs

end

/-- `walk_all_targets`, from the directory of the project. -/
def walkAllTargets {σ : Type} (callback : σ → CMakeStr → σ) (sourceDir : BuildDir) (s : σ) : σ :=
  (SepList.elems semicolon (sprGetAllCmakeTargets sourceDir)).foldl callback s

/-- The properties of the targets. -/
abbrev Properties : Type := CMakeStr → CMakeStr → Option CMakeStr

/-- `get_target_property` -/
def getTargetProperty (props : Properties) (variableName target property : CMakeStr) : CMakeStr :=
  (props target property).getD (notFound variableName)

/-- `set_target_properties`, of one property of one target. -/
def setTargetProperty (props : Properties) (target property value : CMakeStr) : Properties :=
  Function.update props target (Function.update (props target) property (some value))

/-- `"TYPE"` -/
def typeProperty : CMakeStr := "TYPE".toList

/-- `"BUILD_RPATH"` -/
def buildRpath : CMakeStr := "BUILD_RPATH".toList

/-- `"BUILD_RPATH_"` -/
def buildRpathCustom : CMakeStr := "BUILD_RPATH_".toList

/-- `"target_type"` -/
def targetTypeName : CMakeStr := "target_type".toList

/-- `"tgt_build_rpath"` -/
def tgtBuildRpathName : CMakeStr := "tgt_build_rpath".toList

/-- The types of targets that are linked. -/
def linkedTypes : List CMakeStr :=
  ["SHARED_LIBRARY".toList, "MODULE_LIBRARY".toList, "EXECUTABLE".toList]

/-- `"$<TARGET_PROPERTY:${target},BUILD_RPATH_>"` -/
def rpathExpression (target : CMakeStr) : CMakeStr :=
  "$<TARGET_PROPERTY:".toList ++ target ++ ",BUILD_RPATH_>".toList

/-- `apply_transitive_rpath_to_lib_and_exe` -/
def applyTransitiveRpathToLibAndExe (props : Properties) (target : CMakeStr) : Properties :=
  if linkedTypes.contains (getTargetProperty props targetTypeName target typeProperty) then
    let tgtBuildRpath := getTargetProperty props tgtBuildRpathName target buildRpathCustom
    setTargetProperty props target buildRpath
      (if isFalse tgtBuildRpath ∨ tgtBuildRpath = notFound tgtBuildRpathName then
        rpathExpression target
      else SepList.append semicolon tgtBuildRpath (rpathExpression target))
  else props

end AuditLibstdcxx
