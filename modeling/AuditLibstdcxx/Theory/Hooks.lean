import AuditLibstdcxx.Lib.Runs
import AuditLibstdcxx.Theory.Init

/-!
# Runs of the Audit Library

One `la_version`, and then calls of the other two hooks in any order. A call of
`la_objsearch` either changes nothing at all, or it examines a file: the name
is one of a `libstdc++`, the search is not along a run path, and the file can
be opened. Which of the two it is depends on the call alone, as long as there
is a shipped library to offer.

Examining a file changes the version and nothing else, and the version after it
is the greater of the two. So over a run the version is the greatest of those
examined, whatever comes in between and in whichever order.

## Main definitions

* `AuditState.Active`: There is a shipped library to offer.
* `Examines`: A call looks at a file.
* `Reading.answer`: The answer to a file that was read.
* `examinedVersions`: The versions of the files examined in a run.

## Theorems

* `searchesLibstdcxx_eq`: The test on a name is a test of its end.
* `laObjsearch_examines`, `laObjsearch_passes`: The two kinds of call.
* `hook_cases`: What a call does to the globals.
* `runs_version`: The version is the greatest examined.
* `auditRun_versions`: The versions of a run, from `la_version` on.
-/

namespace AuditLibstdcxx

open Checked CString

section Calls

/-- There is a shipped library to offer. -/
def AuditState.Active (s : AuditState) : Prop :=
  s.shippedLibstdcxxPath ≠ none ∧ s.shippedGlibcxxVersion ≠ invalidGlibcxxVersion

instance (s : AuditState) : Decidable s.Active :=
  inferInstanceAs (Decidable (_ ∧ _))

/-- A call looks at a file, given that there is a shipped library. -/
structure Examines (p : Process) (name : Path) (flag : Nat) (file : OpenFile) : Prop where
  libstdcxx : libstdcxxRelPath <:+ name
  notRunpath : flag ≠ laSerRunpath
  opens : p.files name = some file

/-- The answer to a file that was read, and the version behind it. -/
def Reading.answer (shipped : PathBuffer) (current : Nat) : Reading → Answer × Nat
  | .version v => if v < current then (.shipped shipped, current) else (.name, v)
  | .unreadable => if 0 < current then (.shipped shipped, current) else (.name, 0)
  | .otherClass => (.null, current)

/-- Short of a file of the other class, the answer is by the value that is left
    in the output. -/
theorem Reading.answer_compared {x : Reading} (h : x ≠ .otherClass) (shipped : PathBuffer)
    (current : Nat) : x.answer shipped current =
      if x.value 0 < current then (.shipped shipped, current) else (.name, x.value 0) := by
  cases x with
  | version v => rfl
  | unreadable => rfl
  | otherClass => exact absurd rfl h

/-- The test on a name is a test of its end. -/
theorem searchesLibstdcxx_eq (name : Path) :
    searchesLibstdcxx name = .ok (decide (libstdcxxRelPath <:+ name)) := by
  have hrel := length_libstdcxxRelPath
  unfold searchesLibstdcxx
  by_cases hshort : name.length < lenLibstdcxxRelPath
  · have hno : ¬ libstdcxxRelPath <:+ name := by
      intro h
      have hle := h.length_le
      omega
    rw [if_pos hshort, decide_eq_false hno]
    rfl
  · rw [if_neg hshort,
      strncmpEq_eq_decide libstdcxxRelPath_noZero (List.mem_append_right _ List.mem_cons_self)]
    congr 1
    rw [decide_eq_decide, List.suffix_iff_eq_drop, hrel]
    -- The end of the name is as long as the library's, so the terminator does not count.
    have hlen : libstdcxxRelPath.length =
        (name.drop (name.length - lenLibstdcxxRelPath)).length := by
      rw [List.length_drop]
      omega
    constructor
    · intro h
      exact (List.prefix_of_prefix_length_le h (List.prefix_append _ _) hlen.le).eq_of_length hlen
    · intro h
      rw [← h]
      exact List.prefix_append _ _

variable {p : Process} {fuel : Nat} {name : Path} {flag : Nat} {file : OpenFile}
  {s s' : AuditState} {a : Answer} {b : PathBuffer}

/-- A call that examines no file changes nothing. -/
theorem laObjsearch_passes (h : s.Active → ∀ file, ¬ Examines p name flag file) :
    laObjsearch p fuel name flag s = .ok
      (if s.Active ∧ libstdcxxRelPath <:+ name ∧ flag = laSerRunpath then .null else .name, s) := by
  unfold laObjsearch
  cases hpath : s.shippedLibstdcxxPath with
  | none =>
      have hactive : ¬ s.Active := fun hc => hc.1 hpath
      rw [if_neg fun hc => hactive hc.1]
      rfl
  | some b =>
      simp only
      by_cases hinvalid : s.shippedGlibcxxVersion = invalidGlibcxxVersion
      · have hactive : ¬ s.Active := fun hc => hc.2 hinvalid
        rw [if_pos hinvalid, if_neg fun hc => hactive hc.1]
        rfl
      · have hactive : s.Active := ⟨by rw [hpath]; exact Option.some_ne_none b, hinvalid⟩
        -- There is a library to offer, so the name and the flag decide.
        rw [if_neg hinvalid, searchesLibstdcxx_eq, ok_bind]
        by_cases hname : libstdcxxRelPath <:+ name
        · rw [if_pos (decide_eq_true hname)]
          unfold searchSystem
          by_cases hflag : flag = laSerRunpath
          · rw [if_pos hflag, if_pos ⟨hactive, hname, hflag⟩]
            rfl
          · rw [if_neg hflag, if_neg fun hc => hflag hc.2.2]
            cases hfile : p.files name with
            | none => rfl
            | some file => exact absurd ⟨hname, hflag, hfile⟩ (h hactive file)
        · rw [if_neg fun hc => hname (of_decide_eq_true hc), if_neg fun hc => hname hc.2.1]
          rfl

/-- The comparison is by what the file is. -/
theorem compareSystem_eq {x : Reading} {r : VersionResult} (herr : r.error = x.error)
    (hversion : r.glibcxxVersion = x.value 0) :
    compareSystem b r s = ((x.answer b s.shippedGlibcxxVersion).1,
      { s with shippedGlibcxxVersion := (x.answer b s.shippedGlibcxxVersion).2 }) := by
  unfold compareSystem
  rw [herr, hversion]
  by_cases hother : x = .otherClass
  · rw [hother]
    rfl
  · -- The one error that is set aside is that of the other class.
    have hcompared : x.error ≠ .nonFatalError := by
      cases x with
      | version v => exact ErrorCode.noConfusion
      | unreadable => exact ErrorCode.noConfusion
      | otherClass => exact absurd rfl hother
    rw [if_neg hcompared, Reading.answer_compared hother]
    by_cases h : x.value 0 < s.shippedGlibcxxVersion
    · simp only [if_pos h]
    · simp only [if_neg h]

/-- A call that examines a file reads it. -/
theorem laObjsearch_reads (hb : s.shippedLibstdcxxPath = some b)
    (hvalid : s.shippedGlibcxxVersion ≠ invalidGlibcxxVersion) (hex : Examines p name flag file) :
    laObjsearch p fuel name flag s =
      getLibstdcxxVersion fuel (p.nextFd s.calls) file 0 >>= fun r =>
        .ok (compareSystem b r
          { s with calls := s.calls ++ .openFile name (p.nextFd s.calls) :: r.calls }) := by
  have hsearch : laObjsearch p fuel name flag s = searchSystem p fuel b name flag s := by
    unfold laObjsearch
    simp only [hb, if_neg hvalid, searchesLibstdcxx_eq, ok_bind]
    rw [if_pos (decide_eq_true hex.libstdcxx)]
  rw [hsearch]
  unfold searchSystem
  simp only [if_neg hex.notRunpath, hex.opens]
  rfl

/-- A call that examines a file answers by what the file is, and changes nothing
    but the version. -/
theorem laObjsearch_examines (hb : s.shippedLibstdcxxPath = some b)
    (hvalid : s.shippedGlibcxxVersion ≠ invalidGlibcxxVersion) (hex : Examines p name flag file)
    (h : laObjsearch p fuel name flag s = .ok (a, s')) :
    ∃ x, Reads file x ∧ a = (x.answer b s.shippedGlibcxxVersion).1 ∧
      s'.shippedGlibcxxVersion = (x.answer b s.shippedGlibcxxVersion).2 ∧
      s'.shippedLibstdcxxPath = some b := by
  rw [laObjsearch_reads hb hvalid hex] at h
  rcases (bind_eq_ok _ _ _).mp h with ⟨r, hr, h⟩
  rcases reads_of_ok hr with ⟨x, hx, herr, hversion⟩
  rw [compareSystem_eq herr hversion] at h
  -- The answer and the version are those of the comparison.
  have ha := congrArg Prod.fst (Except.ok.inj h)
  have hs' := congrArg Prod.snd (Except.ok.inj h)
  refine ⟨x, hx, ha.symm, ?_, ?_⟩
  · exact (congrArg AuditState.shippedGlibcxxVersion hs').symm
  · exact (congrArg AuditState.shippedLibstdcxxPath hs').symm.trans hb

/-- The version behind an examination is the greater of the two. -/
theorem answer_version (x : Reading) (b : PathBuffer) (current : Nat) :
    (x.answer b current).2 = max current (x.value 0) := by
  by_cases hother : x = .otherClass
  · rw [hother]
    exact (max_eq_left (Nat.zero_le current)).symm
  · rw [Reading.answer_compared hother]
    by_cases h : x.value 0 < current
    · rw [if_pos h]
      exact (max_eq_left h.le).symm
    · rw [if_neg h]
      exact (max_eq_right (Nat.le_of_not_lt h)).symm

end Calls

section Hooks

variable {p : Process} {fuel : Nat} {s s' t : AuditState} {b : PathBuffer}

/-- Without a shipped library no call changes anything. -/
theorem hook_inactive (hpath : s.shippedLibstdcxxPath = none) (h : HookCall) :
    hook p fuel s h = .ok s := by
  have hactive : ¬ s.Active := fun hc => hc.1 hpath
  cases h with
  | objsearch name flag =>
      change laObjsearch p fuel name flag s >>= _ = _
      rw [laObjsearch_passes fun hc => absurd hc hactive, ok_bind]
      rfl
  | activity flag =>
      unfold hook laActivity
      rw [hpath]
      rfl

/-- What a call does to the globals: nothing, an examination, or the end of the
    shipped path. -/
theorem hook_cases {h : HookCall} (hb : s.shippedLibstdcxxPath = some b)
    (hvalid : s.shippedGlibcxxVersion ≠ invalidGlibcxxVersion) (hstep : hook p fuel s h = .ok s') :
    (s' = s ∧ h ≠ .activity laActConsistent ∧
      ∀ name flag file, h = .objsearch name flag → ¬ Examines p name flag file) ∨
    (∃ name flag file x, h = .objsearch name flag ∧ Examines p name flag file ∧ Reads file x ∧
      s'.shippedGlibcxxVersion = max s.shippedGlibcxxVersion (x.value 0) ∧
      s'.shippedLibstdcxxPath = some b) ∨
    (h = .activity laActConsistent ∧ s'.shippedLibstdcxxPath = none ∧
      s'.shippedGlibcxxVersion = s.shippedGlibcxxVersion) := by
  cases h with
  | objsearch name flag =>
      rcases (bind_eq_ok _ _ _).mp hstep with ⟨r, hr, hs'⟩
      -- Whether a file is looked at depends on the call alone.
      by_cases hex : ∃ file, Examines p name flag file
      · rcases hex with ⟨file, hex⟩
        rcases laObjsearch_examines hb hvalid hex hr with ⟨x, hx, _, hversion, hpath⟩
        rw [← Except.ok.inj hs']
        rw [answer_version] at hversion
        exact Or.inr (Or.inl ⟨name, flag, file, x, rfl, hex, hx, hversion, hpath⟩)
      · have hnone : ∀ file, ¬ Examines p name flag file := fun file hc => hex ⟨file, hc⟩
        rw [laObjsearch_passes fun _ => hnone] at hr
        rw [← Except.ok.inj hs', ← Except.ok.inj hr]
        refine Or.inl ⟨rfl, HookCall.noConfusion, fun name' flag' file heq => ?_⟩
        cases heq
        exact hnone file
  | activity flag =>
      have hs' := Except.ok.inj hstep
      unfold laActivity at hs'
      rw [hb] at hs'
      -- Only the consistent state ends the path.
      by_cases hflag : flag = laActConsistent
      · simp only [if_pos hflag] at hs'
        rw [← hs', hflag]
        exact Or.inr (Or.inr ⟨rfl, rfl, rfl⟩)
      · simp only [if_neg hflag] at hs'
        rw [← hs']
        exact Or.inl ⟨rfl, fun hc => hflag (HookCall.activity.inj hc),
          fun _ _ _ => HookCall.noConfusion⟩

end Hooks

section Versions

/-- The versions of the files examined in a run, of those that were read. -/
def examinedVersions (p : Process) (hooks : List HookCall) : Set Nat :=
  {v | ∃ name flag file, HookCall.objsearch name flag ∈ hooks ∧ Examines p name flag file ∧
    Reads file (.version v)}

/-- A call that can change the version: it examines a file that is not of the
    other class. -/
def IsCandidate (p : Process) (name : Path) (flag : Nat) : Prop :=
  ∃ file, Examines p name flag file ∧ ¬ Reads file .otherClass

/-- What is held in a run that has not come to `LA_ACT_CONSISTENT`, from a
    shipped library of version `S`. -/
structure Holding (p : Process) (b : PathBuffer) (S : Nat) (hooks : List HookCall)
    (s : AuditState) : Prop where
  path : s.shippedLibstdcxxPath = some b
  greatest : IsGreatest (insert S (examinedVersions p hooks)) s.shippedGlibcxxVersion

variable {p : Process} {fuel : Nat} {s s' t : AuditState} {b : PathBuffer} {S : Nat}
  {hooks hooks' : List HookCall}

theorem examinedVersions_lt {v : Nat} (h : v ∈ examinedVersions p hooks) : v < 2 ^ 24 := by
  rcases h with ⟨_, _, _, _, _, hread⟩
  exact hread.version_lt

theorem examinedVersions_concat (h : HookCall) :
    examinedVersions p (hooks ++ [h]) =
      examinedVersions p hooks ∪ examinedVersions p [h] := by
  ext v
  simp only [examinedVersions, Set.mem_ofPred_eq, Set.mem_union, List.mem_append]
  constructor
  · rintro ⟨name, flag, file, hmem | hmem, hex, hread⟩
    · exact Or.inl ⟨name, flag, file, hmem, hex, hread⟩
    · exact Or.inr ⟨name, flag, file, hmem, hex, hread⟩
  · rintro (⟨name, flag, file, hmem, hex, hread⟩ | ⟨name, flag, file, hmem, hex, hread⟩)
    · exact ⟨name, flag, file, Or.inl hmem, hex, hread⟩
    · exact ⟨name, flag, file, Or.inr hmem, hex, hread⟩

theorem examinedVersions_append {before behind : List HookCall} :
    examinedVersions p before ⊆ examinedVersions p (before ++ behind) := by
  rintro v ⟨name, flag, file, hmem, hex, hread⟩
  exact ⟨name, flag, file, List.mem_append_left _ hmem, hex, hread⟩

/-- Calls that examine nothing have no versions. -/
theorem examinedVersions_passes {h : HookCall}
    (hpass : ∀ name flag file, h = .objsearch name flag → ¬ Examines p name flag file) :
    examinedVersions p [h] = ∅ := by
  refine Set.eq_empty_iff_forall_notMem.mpr ?_
  rintro v ⟨name, flag, file, hmem, hex, _⟩
  exact hpass name flag file (List.mem_singleton.mp hmem).symm hex

/-- The versions of an examination are those of its file. -/
theorem examinedVersions_examines {name : Path} {flag : Nat} {file : OpenFile}
    (hex : Examines p name flag file) :
    examinedVersions p [.objsearch name flag] = {v | Reads file (.version v)} := by
  ext v
  constructor
  · rintro ⟨name', flag', file', hmem, hex', hread⟩
    -- The call looks at the one file there is under its name.
    cases List.mem_singleton.mp hmem
    have hsame : file' = file := Option.some.inj (hex'.opens.symm.trans hex.opens)
    rw [hsame] at hread
    exact hread
  · exact fun hread => ⟨name, flag, file, List.mem_singleton.mpr rfl, hex, hread⟩

/-- Only candidates have versions. -/
theorem examinedVersions_congr (h : ∀ name flag, IsCandidate p name flag →
    (.objsearch name flag ∈ hooks' ↔ .objsearch name flag ∈ hooks)) :
    examinedVersions p hooks' = examinedVersions p hooks := by
  -- A file with a version is not of the other class.
  have hcandidate : ∀ {name flag file v}, Examines p name flag file → Reads file (.version v) →
      IsCandidate p name flag :=
    fun hex hread => ⟨_, hex, fun hother => Reading.noConfusion (hread.unique hother)⟩
  ext v
  constructor
  · rintro ⟨name, flag, file, hmem, hex, hread⟩
    exact ⟨name, flag, file, (h name flag (hcandidate hex hread)).mp hmem, hex, hread⟩
  · rintro ⟨name, flag, file, hmem, hex, hread⟩
    exact ⟨name, flag, file, (h name flag (hcandidate hex hread)).mpr hmem, hex, hread⟩

theorem Holding.version_lt (h : Holding p b S hooks s) (hS : S < 2 ^ 24) :
    s.shippedGlibcxxVersion < 2 ^ 24 := by
  rcases h.greatest.1 with heq | hmem
  · rw [heq]
    exact hS
  · exact examinedVersions_lt hmem

/-- A version that fits in 24 bits is not the invalid one. -/
theorem valid_of_lt {v : Nat} (h : v < 2 ^ 24) : v ≠ invalidGlibcxxVersion := by
  unfold invalidGlibcxxVersion
  omega

/-- A file that is read brings its version, if it has one. -/
theorem greatest_read {T : Set Nat} {u : Nat} {file : OpenFile} {x : Reading}
    (h : IsGreatest T u) (hread : Reads file x) :
    IsGreatest (T ∪ {v | Reads file (.version v)}) (max u (x.value 0)) := by
  have hnothing : x.error ≠ .success → x.value 0 = 0 →
      IsGreatest (T ∪ {v | Reads file (.version v)}) (max u (x.value 0)) := by
    intro herror hvalue
    have hnone : {v | Reads file (.version v)} = ∅ :=
      Set.eq_empty_iff_forall_notMem.mpr (hread.not_version herror)
    rw [hnone, hvalue, Set.union_empty, max_eq_left (Nat.zero_le u)]
    exact h
  cases x with
  | version v =>
      have honly : {u | Reads file (.version u)} = {v} := by
        ext u
        exact ⟨fun hu => Reading.version.inj (hu.unique hread), fun hu => by rwa [hu]⟩
      rw [honly]
      exact h.union isGreatest_singleton
  | unreadable => exact hnothing ErrorCode.noConfusion rfl
  | otherClass => exact hnothing ErrorCode.noConfusion rfl

/-- One call keeps what is held, unless it is the end of the shipped path. -/
theorem Holding.step {h : HookCall} (hS : S < 2 ^ 24) (hhold : Holding p b S hooks s)
    (hstep : hook p fuel s h = .ok s') (hne : h ≠ .activity laActConsistent) :
    Holding p b S (hooks ++ [h]) s' := by
  have hvalid := valid_of_lt (hhold.version_lt hS)
  -- The versions of this call come on top of those before.
  have hset : insert S (examinedVersions p (hooks ++ [h])) =
      insert S (examinedVersions p hooks) ∪ examinedVersions p [h] := by
    rw [examinedVersions_concat, Set.insert_union]
  rcases hook_cases hhold.path hvalid hstep with ⟨rfl, _, hpass⟩ |
    ⟨name, flag, file, x, rfl, hex, hread, hversion, hpath⟩ | ⟨hend, _, _⟩
  · refine ⟨hhold.path, ?_⟩
    rw [hset, examinedVersions_passes hpass, Set.union_empty]
    exact hhold.greatest
  · refine ⟨hpath, ?_⟩
    rw [hset, examinedVersions_examines hex, hversion]
    exact greatest_read hhold.greatest hread
  · exact absurd hend hne

/-- Over a run that has not come to `LA_ACT_CONSISTENT`, the version is the
    greatest of those examined. -/
theorem runs_version (hS : S < 2 ^ 24) (hb : s.shippedLibstdcxxPath = some b)
    (hversion : s.shippedGlibcxxVersion = S)
    (hends : ∀ h ∈ hooks, h ≠ .activity laActConsistent) (hrun : Runs (hook p fuel) hooks s t) :
    Holding p b S hooks t := by
  -- Before the first call only the shipped version counts.
  have hinit : Holding p b S [] s := by
    refine ⟨hb, ?_⟩
    have hempty : examinedVersions p [] = ∅ := by
      refine Set.eq_empty_iff_forall_notMem.mpr ?_
      rintro v ⟨_, _, _, hmem, _⟩
      exact absurd hmem List.not_mem_nil
    rw [hempty, hversion, insert_empty_eq]
    exact isGreatest_singleton
  -- The inputs taken so far are all that the invariant asks about.
  refine Runs.invariant
    (fun before u => (∀ h ∈ before, h ≠ .activity laActConsistent) → Holding p b S before u)
    ?_ (fun _ => hinit) hrun hends
  intro before u h u' hI hstep hbefore
  have hhold := hI fun h' hmem => hbefore h' (List.mem_append_left _ hmem)
  exact hhold.step hS hstep (hbefore h (List.mem_append_right _ List.mem_cons_self))

/-- After `LA_ACT_CONSISTENT` nothing changes any more. -/
theorem runs_consistent (hrun : Runs (hook p fuel) (.activity laActConsistent :: hooks) s t) :
    t.shippedGlibcxxVersion = s.shippedGlibcxxVersion ∧ t.shippedLibstdcxxPath = none := by
  rcases (runs_cons _ _ _ _).mp hrun with ⟨u, hu, hrest⟩
  have hu := Except.ok.inj hu
  -- The call itself drops the path, and nothing brings it back.
  have hnone : u.shippedLibstdcxxPath = none ∧
      u.shippedGlibcxxVersion = s.shippedGlibcxxVersion := by
    rw [← hu]
    unfold laActivity
    cases hpath : s.shippedLibstdcxxPath with
    | none => exact ⟨hpath, rfl⟩
    | some b => exact ⟨rfl, rfl⟩
  rw [Runs.stays (hook_inactive hnone.1) hrest]
  exact ⟨hnone.2, hnone.1⟩

end Versions

/-- The versions of a run, from `la_version` on. Without a shipped library
    nothing ever changes. With one, the version is the greatest of those
    examined until `LA_ACT_CONSISTENT`, whatever else is called and in whichever
    order, and after it nothing changes any more. -/
theorem auditRun_versions (p : Process) (fuel : Nat) (s₀ s : AuditState) (hooks : List HookCall)
    (hinit : laVersion p fuel {} = .ok s₀) (hrun : Runs (hook p fuel) hooks s₀ s) :
    (¬ s₀.Active → s = s₀ ∧ ∀ name flag, laObjsearch p fuel name flag s = .ok (.name, s)) ∧
    (s₀.Active → (∀ h ∈ hooks, h ≠ .activity laActConsistent) →
      IsGreatest (insert s₀.shippedGlibcxxVersion (examinedVersions p hooks))
        s.shippedGlibcxxVersion ∧
      s.shippedGlibcxxVersion < 2 ^ 24 ∧ s.shippedGlibcxxVersion ≠ invalidGlibcxxVersion ∧
      (∀ before behind t, hooks = before ++ behind → Runs (hook p fuel) before s₀ t →
        t.shippedGlibcxxVersion ≤ s.shippedGlibcxxVersion) ∧
      (∀ hooks' s', Runs (hook p fuel) hooks' s₀ s' →
        (∀ h ∈ hooks', h ≠ .activity laActConsistent) →
        (∀ name flag, IsCandidate p name flag →
          (.objsearch name flag ∈ hooks' ↔ .objsearch name flag ∈ hooks)) →
        s'.shippedGlibcxxVersion = s.shippedGlibcxxVersion)) ∧
    (∀ before behind t, hooks = before ++ .activity laActConsistent :: behind →
      Runs (hook p fuel) before s₀ t →
      s.shippedGlibcxxVersion = t.shippedGlibcxxVersion ∧
      ∀ name flag, laObjsearch p fuel name flag s = .ok (.name, s)) := by
  -- Without a library to offer, every name is handed back.
  have hanswers : ∀ u : AuditState, ¬ u.Active → ∀ name flag,
      laObjsearch p fuel name flag u = .ok (.name, u) := by
    intro u hu name flag
    rw [laObjsearch_passes fun hc => absurd hc hu, if_neg fun hc => hu hc.1]
  refine ⟨?_, ?_, ?_⟩
  · intro hinactive
    -- Not active means that no path was found, since a version that was read is valid.
    have hpath : s₀.shippedLibstdcxxPath = none := by
      rcases laVersion_spec hinit with ⟨b, file, v, hb, hv, _, hread, _⟩ | ⟨hpath, _, _⟩
      · refine absurd ⟨by rw [hb]; exact Option.some_ne_none b, ?_⟩ hinactive
        rw [hv]
        exact valid_of_lt hread.version_lt
      · exact hpath
    have hstays := Runs.stays (hook_inactive hpath) hrun
    rw [hstays]
    exact ⟨rfl, hanswers s₀ hinactive⟩
  · intro hactive hends
    rcases laVersion_spec hinit with ⟨b, file, v, hb, hv, _, hread, _⟩ | ⟨hpath, _, _⟩
    · have hlt := hread.version_lt
      have hhold := runs_version hlt hb hv hends hrun
      rw [hv]
      refine ⟨hhold.greatest, hhold.version_lt hlt, valid_of_lt (hhold.version_lt hlt), ?_, ?_⟩
      · intro before behind t hsplit hbefore
        have hends' : ∀ h ∈ before, h ≠ .activity laActConsistent := fun h hmem =>
          hends h (hsplit ▸ List.mem_append_left _ hmem)
        -- The versions examined before are among those examined in all.
        refine (runs_version hlt hb hv hends' hbefore).greatest.mono hhold.greatest ?_
        rw [hsplit]
        exact Set.insert_subset_insert examinedVersions_append
      · intro hooks' s' hrun' hends' hsame
        -- Both versions are the greatest of the same set.
        have hhold' := runs_version hlt hb hv hends' hrun'
        have hgreatest := hhold'.greatest
        rw [examinedVersions_congr hsame] at hgreatest
        exact hgreatest.unique hhold.greatest
    · exact absurd hpath hactive.1
  · intro before behind t hsplit hbefore
    rw [hsplit] at hrun
    rcases (runs_append _ _ _ _).mp hrun with ⟨u, hu, hrest⟩
    rw [hbefore.unique hu]
    rcases runs_consistent hrest with ⟨hversion, hpath⟩
    exact ⟨hversion, hanswers s fun hc => hc.1 hpath⟩

section Sample

/-- Where a run of the sample process ends. -/
def sampleAfter (hooks : List HookCall) : AuditState :=
  (hooks.foldlM (hook sampleProcess 2) sampleInit).toOption.getD {}

/-- The sample process shows the newer library, and the older one after it. -/
def sampleHooks : List HookCall :=
  [.objsearch sampleNewer 0x40, .objsearch sampleOlder 0x40]

theorem sampleHooks_run : Runs (hook sampleProcess 2) sampleHooks sampleInit
    (sampleAfter sampleHooks) := by
  unfold Runs
  decide +kernel

/-- The version of the newer library is the one that stays. -/
theorem sampleHooks_version :
    IsGreatest (insert 0x030400 (examinedVersions sampleProcess sampleHooks)) 0x030500 := by
  have hversions := (auditRun_versions sampleProcess 2 sampleInit (sampleAfter sampleHooks)
    sampleHooks sampleProcess_init sampleHooks_run).2.1 (by decide) (by decide)
  have hafter : (sampleAfter sampleHooks).shippedGlibcxxVersion = 0x030500 := by
    decide +kernel
  have hgreatest := hversions.1
  rw [hafter] at hgreatest
  exact hgreatest

end Sample

end AuditLibstdcxx
