import AuditLibstdcxx.Theory.Hooks

/-!
# What the Library Hands Out

The answers of `la_objsearch` over a run, held against the file that is at the
shipped path. An answer is right if it does not hand out a library of a lower
version than the other one, nor one whose version could not be read.

The version the library compares with is that of the shipped file only until a
newer system library has been let through: then the version is taken over, but
the path is not. From there on a system library between the two is turned away
in favour of the shipped file, which is the lower one. And a library without a
version counts as version 0, so it is turned away only by a version above 0.

## Main definitions

* `OpenFile.Native`: A file of the native class.
* `Searched`: A call of a run that was answered while the path was held.
* `AnswerRight`: The answer is right.
* `FairlyCompared`: The versions examined before do not mislead.
* `AnswersRight`, `NeverMisled`: The two, for every such call of a run.

## Theorems

* `fairlyCompared_iff`: The same by the version that is compared with.
* `answerRight_iff`: When a single answer is right.
* `answersRight_iff`: When all answers of a run are.
-/

namespace AuditLibstdcxx

open Checked CString

section Answers

/-- A file of the native class. -/
def OpenFile.Native (file : OpenFile) : Prop :=
  ∃ m, file = .mapped m ∧ m.IsElf ∧ m.IsNative

/-- A call of a run, with the calls before it, the state it was made in, the
    path held there, the file it looked at and its answer. -/
structure Searched (p : Process) (fuel : Nat) (s₀ : AuditState) (hooks before : List HookCall)
    (s : AuditState) (b : PathBuffer) (file : OpenFile) (a : Answer) : Prop where
  native : file.Native
  held : s.shippedLibstdcxxPath = some b
  run : Runs (hook p fuel) before s₀ s
  call : ∃ name flag behind s', hooks = before ++ .objsearch name flag :: behind ∧
    Examines p name flag file ∧ laObjsearch p fuel name flag s = .ok (a, s')

/-- The answer is right: a name only for a version that was read and is not
    below that of the file at the shipped path, and a path only for a version
    below that of the file there, or for one that could not be read. -/
structure AnswerRight (p : Process) (b : PathBuffer) (file : OpenFile) (a : Answer) : Prop where
  name : a = .name → ∃ v, Reads file (.version v) ∧ ∃ shipped S,
    p.files b.path = some shipped ∧ Reads shipped (.version S) ∧ S ≤ v
  path : ∀ b', a = .shipped b' → (∀ v, ¬ Reads file (.version v)) ∨
    ∃ v, Reads file (.version v) ∧ ∃ shipped S,
      p.files b'.path = some shipped ∧ Reads shipped (.version S) ∧ v < S

/-- The versions examined before do not mislead: a version that is read is
    below that of the shipped file, or none of them is above it, and a file
    without a version comes after one above 0. -/
def FairlyCompared (p : Process) (before : List HookCall) (b : PathBuffer) (file : OpenFile) :
    Prop :=
  ∀ shipped S, p.files b.path = some shipped → Reads shipped (.version S) →
    (∀ v, Reads file (.version v) → v < S ∨ ∀ u ∈ examinedVersions p before, u ≤ v) ∧
    (Reads file .unreadable → ∃ u ∈ insert S (examinedVersions p before), 0 < u)

/-- Every answer of a run is right. -/
def AnswersRight (p : Process) (fuel : Nat) (s₀ : AuditState) (hooks : List HookCall) : Prop :=
  ∀ before s b file a, Searched p fuel s₀ hooks before s b file a → AnswerRight p b file a

/-- The versions examined never mislead in a run. -/
def NeverMisled (p : Process) (fuel : Nat) (s₀ : AuditState) (hooks : List HookCall) : Prop :=
  ∀ before s b file a, Searched p fuel s₀ hooks before s b file a → FairlyCompared p before b file

variable {p : Process} {fuel : Nat} {s₀ s : AuditState} {hooks before : List HookCall}
  {b : PathBuffer} {file shipped : OpenFile} {a : Answer} {S : Nat} {x : Reading}

/-- While the path is held, `LA_ACT_CONSISTENT` has not been. -/
theorem not_consistent_of_held (hrun : Runs (hook p fuel) hooks s₀ s)
    (hb : s.shippedLibstdcxxPath = some b) : ∀ h ∈ hooks, h ≠ .activity laActConsistent := by
  rintro h hmem rfl
  rcases List.append_of_mem hmem with ⟨before, behind, hsplit⟩
  rw [hsplit] at hrun
  rcases (runs_append _ _ _ _).mp hrun with ⟨u, _, hrest⟩
  -- Behind a consistent state there is no path.
  rw [(runs_consistent hrest).2] at hb
  cases hb

/-- What is held in a run from `la_version` on: a path of a file that was read,
    and the greatest version examined. -/
theorem held_spec (hinit : laVersion p fuel {} = .ok s₀) (hrun : Runs (hook p fuel) hooks s₀ s)
    (hb : s.shippedLibstdcxxPath = some b) :
    ∃ shipped S, p.files b.path = some shipped ∧ Reads shipped (.version S) ∧
      Holding p b S hooks s := by
  rcases laVersion_spec hinit with ⟨b₀, shipped, S, hb₀, hS, hfile, hread, _⟩ | ⟨hnone, _, _⟩
  · -- A path is there, so the run kept what `la_version` found.
    have hhold := runs_version hread.version_lt hb₀ hS (not_consistent_of_held hrun hb) hrun
    have hsame : b₀ = b := Option.some.inj (hhold.path.symm.trans hb)
    rw [hsame] at hfile hhold
    exact ⟨shipped, S, hfile, hread, hhold⟩
  · rw [Runs.stays (hook_inactive hnone) hrun, hnone] at hb
    cases hb

section Answer

variable (hshipped : p.files b.path = some shipped) (hS : Reads shipped (.version S))

include hshipped hS

/-- There is one file at the shipped path, and it has one version. -/
theorem shipped_version_unique {shipped' : OpenFile} {S' : Nat}
    (h : p.files b.path = some shipped') (hread : Reads shipped' (.version S')) : S' = S := by
  rw [Option.some.inj (h.symm.trans hshipped)] at hread
  exact Reading.version.inj (hread.unique hS)

variable (hhold : Holding p b S before s)

include hhold

/-- The version compared with is the greatest of those, so it tells. -/
theorem fairlyCompared_iff : FairlyCompared p before b file ↔
    (∀ v, Reads file (.version v) → v < S ∨ s.shippedGlibcxxVersion ≤ v) ∧
      (Reads file .unreadable → 0 < s.shippedGlibcxxVersion) := by
  have hgreatest := hhold.greatest
  constructor
  · intro hfair
    rcases hfair shipped S hshipped hS with ⟨hread, hunreadable⟩
    refine ⟨fun v hv => ?_, fun hu => ?_⟩
    · rcases Nat.lt_or_ge v S with hlt | hge
      · exact Or.inl hlt
      · rcases hread v hv with hlt | hbound
        · exact Or.inl hlt
        · exact Or.inr (hgreatest.1.elim (fun heq => heq ▸ hge) fun hmem => hbound _ hmem)
    · rcases hunreadable hu with ⟨u, hmem, hpos⟩
      exact Nat.lt_of_lt_of_le hpos (hgreatest.2 hmem)
  · rintro ⟨hread, hunreadable⟩ shipped' S' hshipped' hS'
    rw [shipped_version_unique hshipped hS hshipped' hS']
    refine ⟨fun v hv => ?_, fun hu => ⟨_, hgreatest.1, hunreadable hu⟩⟩
    exact (hread v hv).imp id fun hle u hmem =>
      Nat.le_trans (hgreatest.2 (Set.mem_insert_of_mem S hmem)) hle

/-- When a single answer is right. -/
theorem answerRight_iff (hx : Reads file x) (hnative : x ≠ .otherClass)
    (ha : a = (x.answer b s.shippedGlibcxxVersion).1) :
    AnswerRight p b file a ↔ FairlyCompared p before b file := by
  have hle : S ≤ s.shippedGlibcxxVersion := hhold.greatest.2 (Set.mem_insert S _)
  rw [fairlyCompared_iff hshipped hS hhold]
  cases x with
  | version v =>
      have honly : ∀ u, Reads file (.version u) → u = v :=
        fun u hu => Reading.version.inj (hu.unique hx)
      have hread : ¬ Reads file .unreadable := fun h => Reading.noConfusion (h.unique hx)
      by_cases hlt : v < s.shippedGlibcxxVersion
      · -- The shipped path is handed out, which is right below the shipped version.
        rw [show a = .shipped b by rw [ha]; simp only [Reading.answer, if_pos hlt]]
        constructor
        · intro hright
          refine ⟨fun u hu => Or.inl ?_, fun h => absurd h hread⟩
          rcases hright.path b rfl with hnone | ⟨v', hv', shipped', S', hs', hread', hlt'⟩
          · exact absurd hx (hnone v)
          · rw [honly u hu]
            rwa [honly v' hv', shipped_version_unique hshipped hS hs' hread'] at hlt'
        · intro hfair
          refine ⟨fun h => Answer.noConfusion h, fun b' hb' => Or.inr ⟨v, hx, shipped, S, ?_⟩⟩
          rw [← Answer.shipped.inj hb']
          rcases hfair.1 v hx with h | h
          · exact ⟨hshipped, hS, h⟩
          · exact absurd hlt (Nat.not_lt.mpr h)
      · rw [show a = .name by rw [ha]; simp only [Reading.answer, if_neg hlt]]
        -- The name is handed back, for a version not below the one compared with.
        refine iff_of_true ⟨fun _ => ⟨v, hx, shipped, S, hshipped, hS, by omega⟩,
          fun b' h => Answer.noConfusion h⟩ ⟨fun u hu => Or.inr ?_, fun h => absurd h hread⟩
        rw [honly u hu]
        omega
  | unreadable =>
      have hnone : ∀ v, ¬ Reads file (.version v) := hx.not_version ErrorCode.noConfusion
      by_cases hpos : 0 < s.shippedGlibcxxVersion
      · rw [show a = .shipped b by rw [ha]; simp only [Reading.answer, if_pos hpos]]
        exact iff_of_true ⟨fun h => Answer.noConfusion h, fun _ _ => Or.inl hnone⟩
          ⟨fun v h => absurd h (hnone v), fun _ => hpos⟩
      · -- A version of 0 lets everything through.
        rw [show a = .name by rw [ha]; simp only [Reading.answer, if_neg hpos]]
        refine iff_of_false (fun hright => ?_) (fun hfair => hpos (hfair.2 hx))
        rcases hright.name rfl with ⟨v, hv, _⟩
        exact hnone v hv
  | otherClass => exact absurd rfl hnative

end Answer

/-- A native file is not of the other class. -/
theorem OpenFile.Native.not_otherClass (h : file.Native) : ¬ Reads file .otherClass := by
  rcases h with ⟨m, rfl, _, hnative⟩
  exact fun hread => (reads_mapped_iff.mp hread).2.2 hnative

end Answers

/-- All answers of a run are right exactly when the versions examined never
    mislead. -/
theorem answersRight_iff (p : Process) (fuel : Nat) (s₀ : AuditState) (hooks : List HookCall)
    (hinit : laVersion p fuel {} = .ok s₀) :
    AnswersRight p fuel s₀ hooks ↔ NeverMisled p fuel s₀ hooks := by
  have hcall : ∀ before s b file a, Searched p fuel s₀ hooks before s b file a →
      (AnswerRight p b file a ↔ FairlyCompared p before b file) := by
    rintro before s b file a ⟨hnative, hheld, hrun, name, flag, behind, s', _, hex, hcall⟩
    rcases held_spec hinit hrun hheld with ⟨shipped, S, hfile, hS, hhold⟩
    -- The state of the call is one of the run, so its version is a valid one.
    have hvalid := valid_of_lt (hhold.version_lt hS.version_lt)
    rcases laObjsearch_examines hheld hvalid hex hcall with ⟨x, hx, ha, _, _⟩
    refine answerRight_iff hfile hS hhold hx ?_ ha
    rintro rfl
    exact hnative.not_otherClass hx
  constructor
  · exact fun h before s b file a hs => (hcall before s b file a hs).mp (h before s b file a hs)
  · exact fun h before s b file a hs => (hcall before s b file a hs).mpr (h before s b file a hs)

section Sample

theorem singleLibrary_reads : Reads (.mapped (sampleLibrary false)) (.version 0x030400) :=
  ⟨1, 3, 0, _, (getLibstdcxxVersion_eq_ok 1 3 0 ⟨_, _, _⟩).mpr ⟨sampleLibrary_scan false, rfl⟩⟩

theorem newerLibrary_reads : Reads (.mapped newerLibrary) (.version 0x030500) := by
  have hscan : scanImage 1 newerLibrary 0 = .ok (.success, 0x030500) := by
    decide +kernel
  exact ⟨1, 3, 0, _, (getLibstdcxxVersion_eq_ok 1 3 0 ⟨_, _, _⟩).mpr ⟨hscan, rfl⟩⟩

/-- Shown the newer library only, the sample process answers right. -/
theorem sampleNewer_answersRight :
    AnswersRight sampleProcess 2 sampleInit [.objsearch sampleNewer 0x40] := by
  refine (answersRight_iff sampleProcess 2 sampleInit [.objsearch sampleNewer 0x40]
    sampleProcess_init).mpr ?_
  rintro before s b file a ⟨_, _, _, name, flag, behind, _, hsplit, hex, _⟩
  -- There is only one call, so nothing is before it.
  have hbefore : before = [] := by
    cases before with
    | nil => rfl
    | cons h before => exact absurd (List.cons.inj hsplit).2.symm (by simp)
  rw [hbefore] at hsplit
  have hcall := HookCall.objsearch.inj (List.cons.inj hsplit).1
  have hfile : file = .mapped newerLibrary := by
    have hopens := hex.opens
    rw [← hcall.1] at hopens
    exact (Option.some.inj hopens).symm
  rw [hfile, hbefore]
  refine fun shipped S _ _ => ⟨fun v _ => Or.inr ?_,
    fun h => Reading.noConfusion (h.unique newerLibrary_reads)⟩
  rintro u ⟨_, _, _, hmem, _⟩
  exact absurd hmem List.not_mem_nil

/-- Shown the older library after the newer one, it hands out the shipped path
    in place of a library that is not below it. -/
theorem sampleHooks_not_answersRight : laVersion sampleProcess 2 {} = .ok sampleInit ∧
    ¬ AnswersRight sampleProcess 2 sampleInit sampleHooks := by
  refine ⟨sampleProcess_init, fun hright => ?_⟩
  have hcall : laObjsearch sampleProcess 2 sampleOlder 0x40
      (sampleAfter [.objsearch sampleNewer 0x40]) =
      .ok (.shipped ⟨0x20000, sampleShipped ++ [0]⟩, sampleAfter sampleHooks) := by
    decide +kernel
  have hrun : Runs (hook sampleProcess 2) [.objsearch sampleNewer 0x40] sampleInit
      (sampleAfter [.objsearch sampleNewer 0x40]) := by
    unfold Runs
    decide +kernel
  -- The second call meets the version of the newer library.
  have hsearched : Searched sampleProcess 2 sampleInit sampleHooks [.objsearch sampleNewer 0x40]
      (sampleAfter [.objsearch sampleNewer 0x40]) ⟨0x20000, sampleShipped ++ [0]⟩
      (.mapped (sampleLibrary false)) (.shipped ⟨0x20000, sampleShipped ++ [0]⟩) :=
    ⟨⟨_, rfl, by decide +kernel, by decide +kernel⟩, by decide +kernel, hrun,
      sampleOlder, 0x40, [], _, rfl, ⟨by decide, by decide, by rfl⟩, hcall⟩
  rcases (hright _ _ _ _ _ hsearched).path _ rfl with hnone | ⟨v, hv, shipped, S, hfile, hS, hlt⟩
  · exact hnone _ singleLibrary_reads
  · have hshipped : .mapped (sampleLibrary false) = shipped := Option.some.inj hfile
    rw [← hshipped] at hS
    rw [Reading.version.inj (hv.unique hS)] at hlt
    exact Nat.lt_irrefl S hlt

end Sample

end AuditLibstdcxx
