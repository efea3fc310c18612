import AuditLibstdcxx.Theory.Request

/-!
# Loading a Process

All that happens from `la_version` on: requests for a `libstdc++.so.6`, one for
every library that needs it, and calls of the hooks for everything else, in any
order. This is what the audit library is there for: until the loader reports
that it is done, no process gets to load a `libstdc++` older than the one it
ships.

The library raises the version it compares with when it lets a newer one
through. So a library of the system that is loaded is no older than anything
seen before it, while the shipped one, which takes the place of those that are
refused, is only known to be no older than itself.

Once the loader has reported `LA_ACT_CONSISTENT` the library stays out of the
way. A request is then decided by the loader alone, and any library that can be
loaded will do.

## Main definitions

* `LoadEvent`, `load`: What happens to a process, and what it does to the state.
* `LoadEvent.examined`: The versions that are seen on the way.
* `RequestEnds`: What a request comes to.
* `Loading`: What is known of a process that is being loaded.

## Theorems

* `request_spec`: What a request comes to, and the state behind it.
* `runs_loading`: What is known after any number of events.
* `requests_safe`: No request ends with an older library.
* `requests_consistent`: What a request ends with once the loader is done.
-/

namespace AuditLibstdcxx

open Checked CString

/-- What happens to a process while it runs: a request for a `libstdc++.so.6`,
    or a call of a hook about something else. -/
inductive LoadEvent where
  | hook (h : HookCall)
  | request (cs : List Candidate)

/-- What an event does to the globals of the library. -/
def load (p : Process) (fuel : Nat) (s : AuditState) : LoadEvent → Run AuditState
  | .hook h => AuditLibstdcxx.hook p fuel s h
  | .request cs => do
    let r ← AuditLibstdcxx.request p fuel cs s
    return r.2

/-- The versions that are seen in an event. -/
def LoadEvent.examined (p : Process) : LoadEvent → Set Nat
  | .hook h => examinedVersions p [h]
  | .request cs => {v | ∃ c file, Decides p cs c ∧ p.files c.path = some file ∧
      Reads file (.version v)}

/-- The event is the loader's report that it is done. -/
def LoadEvent.IsEnd (e : LoadEvent) : Prop :=
  e = .hook (.activity laActConsistent)

section Requests

variable {p : Process} {fuel : Nat} {s s' : AuditState} {b : PathBuffer} {S : Nat}
  {c : Candidate} {cs : List Candidate} {outcome : Option Path}

theorem not_decides_nil : ¬ Decides p [] c := by
  rintro ⟨before, behind, hsplit, _⟩
  exact absurd hsplit.symm (List.append_ne_nil_of_right_ne_nil _ (List.cons_ne_nil _ _))

/-- What a request comes to, by the candidate that decides it, and the version
    behind it. -/
def RequestEnds (p : Process) (b : PathBuffer) (S : Nat) (cs : List Candidate)
    (outcome : Option Path) (version : Nat) : Prop :=
  (∃ c file x, Decides p cs c ∧ p.files c.path = some file ∧ Reads file x ∧
    outcome = some (x.resolves b.path c.path S) ∧ version = max S (x.value 0)) ∨
  ((∀ c, ¬ Decides p cs c) ∧ outcome = none ∧ version = S)

/-- A request comes to what its deciding candidate comes to, and raises the
    version to that of the file. -/
theorem request_spec (hoff : Offering p b S s) (h : request p fuel cs s = .ok (outcome, s')) :
    s'.shippedLibstdcxxPath = some b ∧ RequestEnds p b S cs outcome s'.shippedGlibcxxVersion := by
  induction cs generalizing s with
  | nil =>
      cases h
      exact ⟨hoff.path, Or.inr ⟨fun c => not_decides_nil, rfl, hoff.version⟩⟩
  | cons c cs ih =>
      rcases (bind_eq_ok _ _ _).mp h with ⟨⟨a, t⟩, hcall, hrest⟩
      by_cases hc : IsCandidate p c.path c.flag
      · -- The request ends with the answer to this candidate.
        rcases hc with ⟨file, hex, hnot⟩
        rcases laObjsearch_examines hoff.path hoff.current_valid hex hcall with
          ⟨x, hx, ha, hversion, hpath⟩
        have hne : x ≠ .otherClass := fun hother => hnot (hother ▸ hx)
        have haccepts := accepts_answer hoff hex.opens hx hne
        rw [hoff.version] at ha hversion
        rw [answer_version] at hversion
        rw [← ha] at haccepts
        simp only [haccepts] at hrest
        cases hrest
        have hdecides : Decides p (c :: cs) c := (decides_candidate ⟨file, hex, hnot⟩).mpr rfl
        exact ⟨hpath, Or.inl ⟨c, file, x, hdecides, hex.opens, hx, rfl, hversion⟩⟩
      · -- It is passed over.
        rcases answer_skip hoff hc ⟨fuel, hcall⟩ with ⟨hnone, hoff'⟩
        simp only [hnone] at hrest
        rcases ih hoff' hrest with ⟨hpath, hout⟩
        refine ⟨hpath, ?_⟩
        unfold RequestEnds
        simp only [decides_skip hc]
        exact hout

/-- A request comes to its end when the reader gets through the file that
    decides it, if there is one. -/
theorem request_returns_iff (hoff : Offering p b S s) :
    (∃ fuel outcome s', request p fuel cs s = .ok (outcome, s')) ↔
      ∀ c file, Decides p cs c → p.files c.path = some file → ∃ x, Reads file x := by
  constructor
  · rintro ⟨fuel, outcome, s', h⟩ c file hc hfile
    rcases (request_spec hoff h).2 with ⟨c', file', x, hdecides, hopens, hx, _⟩ | ⟨hno, _⟩
    · rw [hdecides.unique hc, hfile] at hopens
      rw [← Option.some.inj hopens] at hx
      exact ⟨x, hx⟩
    · exact absurd hc (hno c)
  · intro h
    induction cs generalizing s with
    | nil => exact ⟨0, _, _, rfl⟩
    | cons c cs ih =>
        by_cases hc : IsCandidate p c.path c.flag
        · rcases hc with ⟨file, hex, hnot⟩
          have hdecides : Decides p (c :: cs) c := (decides_candidate ⟨file, hex, hnot⟩).mpr rfl
          rcases h c file hdecides hex.opens with ⟨x, hx⟩
          have hyields : ∃ t, Yields (fun n => request p n (c :: cs) s)
              (some (x.resolves b.path c.path S), t) :=
            (request_candidate hoff ⟨file, hex, hnot⟩).mpr ⟨file, x, hex.opens, hx, rfl⟩
          rcases hyields with ⟨t, fuel, hfuel⟩
          exact ⟨fuel, _, t, hfuel⟩
        -- The call for a candidate that is passed over comes back with nothing.
        · rcases yields_skip hoff hc with ⟨a, t, ha⟩
          rcases answer_skip hoff hc ha with ⟨hnone, hoff'⟩
          rcases ih hoff' fun c' file hc' => h c' file ((decides_skip hc).mpr hc') with
            ⟨fuel, outcome, s', hrest⟩
          rcases (request_cons (outcome, s')).mpr ⟨a, t, ha, Or.inr ⟨hnone, fuel, hrest⟩⟩ with
            ⟨fuel', hfuel'⟩
          exact ⟨fuel', outcome, s', hfuel'⟩

end Requests

section Runs

variable {p : Process} {fuel : Nat} {s s₀ s' t : AuditState} {b : PathBuffer} {S : Nat}
  {cs : List Candidate} {outcome : Option Path} {events : List LoadEvent}

/-- The versions that are seen in a number of events. -/
def seen (p : Process) (events : List LoadEvent) : Set Nat :=
  {v | ∃ e ∈ events, v ∈ e.examined p}

theorem seen_concat (events : List LoadEvent) (e : LoadEvent) :
    seen p (events ++ [e]) = seen p events ∪ e.examined p := by
  ext v
  simp [seen, or_and_right, exists_or]

/-- What is known of a process that is being loaded, and ships a library of
    version `S`. -/
structure Loading (p : Process) (b : PathBuffer) (S : Nat) (events : List LoadEvent)
    (s : AuditState) : Prop where
  path : s.shippedLibstdcxxPath = some b
  greatest : IsGreatest (insert S (seen p events)) s.shippedGlibcxxVersion

/-- The versions seen in a request are those of the file that decides it. -/
theorem examined_request {c : Candidate} {file : OpenFile} (hc : Decides p cs c)
    (hfile : p.files c.path = some file) :
    (LoadEvent.request cs).examined p = {v | Reads file (.version v)} := by
  ext v
  constructor
  · rintro ⟨c', file', hc', hfile', hv⟩
    rw [hc'.unique hc, hfile] at hfile'
    rwa [← Option.some.inj hfile'] at hv
  · exact fun hv => ⟨c, file, hc, hfile, hv⟩

theorem examined_lt {e : LoadEvent} {v : Nat} (hv : v ∈ e.examined p) : v < 2 ^ 24 := by
  cases e with
  | hook h => exact examinedVersions_lt hv
  | request cs =>
      rcases hv with ⟨_, _, _, _, hread⟩
      exact hread.version_lt

theorem Loading.version_lt (h : Loading p b S events s) (hS : S < 2 ^ 24) :
    s.shippedGlibcxxVersion < 2 ^ 24 := by
  rcases Set.mem_insert_iff.mp h.greatest.1 with heq | ⟨e, _, hv⟩
  · rw [heq]
    exact hS
  · exact examined_lt hv

theorem Loading.le (h : Loading p b S events s) : S ≤ s.shippedGlibcxxVersion :=
  h.greatest.2 (Set.mem_insert S _)

/-- A shipped library that can be loaded is on offer all the time. -/
theorem Loading.offering (h : Loading p b S events s) (hS : S < 2 ^ 24) (hpos : 0 < S)
    (hloads : p.loads b.path = true) : Offering p b s.shippedGlibcxxVersion s :=
  ⟨h.path, rfl, valid_of_lt (h.version_lt hS), Nat.lt_of_lt_of_le hpos h.le, hloads⟩

/-- One event keeps what is known, unless it is the end. -/
theorem Loading.step {e : LoadEvent} (h : Loading p b S events s) (hS : S < 2 ^ 24) (hpos : 0 < S)
    (hloads : p.loads b.path = true) (hstep : load p fuel s e = .ok s') (hend : ¬ e.IsEnd) :
    Loading p b S (events ++ [e]) s' := by
  have hset : insert S (seen p (events ++ [e])) = insert S (seen p events) ∪ e.examined p := by
    rw [seen_concat, Set.insert_union]
  cases e with
  | hook call =>
      rcases hook_cases h.path (valid_of_lt (h.version_lt hS)) hstep with ⟨rfl, _, hpass⟩ |
        ⟨name, flag, file, x, rfl, hex, hread, hversion, hpath⟩ | ⟨hc, _, _⟩
      -- A call that passes sees no version and changes nothing.
      · refine ⟨h.path, ?_⟩
        rw [hset, LoadEvent.examined, examinedVersions_passes hpass, Set.union_empty]
        exact h.greatest
      -- A library that is examined adds its version to those seen.
      · refine ⟨hpath, ?_⟩
        rw [hset, LoadEvent.examined, examinedVersions_examines hex, hversion]
        exact greatest_read h.greatest hread
      -- The report that the loader is done is not among the events.
      · exact absurd (congrArg LoadEvent.hook hc) hend
  | request cs =>
      rcases (bind_eq_ok _ _ _).mp hstep with ⟨⟨outcome, t⟩, hrequest, ht⟩
      rcases request_spec (h.offering hS hpos hloads) hrequest with ⟨hpath, hout⟩
      rw [← Except.ok.inj ht]
      refine ⟨hpath, ?_⟩
      rcases hout with ⟨c, file, x, hdecides, hopens, hx, _, hversion⟩ | ⟨hno, _, hversion⟩
      · rw [hset, examined_request hdecides hopens, hversion]
        exact greatest_read h.greatest hx
      · have hempty : (LoadEvent.request cs).examined p = ∅ := by
          refine Set.eq_empty_iff_forall_notMem.mpr ?_
          rintro v ⟨c, _, hc, _⟩
          exact hno c hc
        rw [hset, hempty, Set.union_empty, hversion]
        exact h.greatest

/-- What is known from `la_version` on, after any number of events. -/
theorem runs_loading (hinit : laVersion p fuel {} = .ok s₀) (hb : s₀.shippedLibstdcxxPath = some b)
    (hpos : 0 < s₀.shippedGlibcxxVersion) (hrun : Runs (load p fuel) events s₀ t)
    (hends : ∀ e ∈ events, ¬ e.IsEnd) :
    Loading p b s₀.shippedGlibcxxVersion events t ∧ Offering p b t.shippedGlibcxxVersion t ∧
      ∃ file, p.files b.path = some file ∧ Reads file (.version s₀.shippedGlibcxxVersion) := by
  rcases laVersion_spec hinit with ⟨b', file, S, hb', hS, hfile, hread, _⟩ | ⟨hnone, _, _⟩
  · have hsame : b' = b := Option.some.inj (hb'.symm.trans hb)
    rw [hsame] at hfile
    rw [← hS] at hread
    have hlt := hread.version_lt
    have hloads := loads_of_version hfile hread
    have hfirst : Loading p b s₀.shippedGlibcxxVersion [] s₀ := by
      refine ⟨hb, ?_⟩
      have hempty : seen p [] = ∅ := Set.eq_empty_iff_forall_notMem.mpr (by simp [seen])
      rw [hempty, insert_empty_eq]
      exact isGreatest_singleton
    -- What one event keeps, a run of them keeps.
    have hall : Loading p b s₀.shippedGlibcxxVersion events t := by
      refine Runs.invariant
        (fun before u => (∀ e ∈ before, ¬ e.IsEnd) → Loading p b s₀.shippedGlibcxxVersion before u)
        ?_ (fun _ => hfirst) hrun hends
      intro before u e u' hI hstep hbefore
      have hloading := hI fun e' hmem => hbefore e' (List.mem_append_left _ hmem)
      exact hloading.step hlt hpos hloads hstep
        (hbefore e (List.mem_append_right _ List.mem_cons_self))
    exact ⟨hall, hall.offering hlt hpos hloads, file, hfile, hread⟩
  · rw [hnone] at hb
    cases hb

/-- What a request ends with is no older than the shipped library, and unless it
    is that one, no older than anything seen before. -/
theorem Loading.not_older (h : Loading p b S events t)
    (hoff : Offering p b t.shippedGlibcxxVersion t) {shipped : OpenFile}
    (hfile : p.files b.path = some shipped) (hread : Reads shipped (.version S))
    {loaded : Path} (hrequest : request p fuel cs t = .ok (some loaded, s')) :
    ∃ file v, p.files loaded = some file ∧ Reads file (.version v) ∧ S ≤ v ∧
      (loaded ≠ b.path → ∀ u ∈ seen p events, u ≤ v) := by
  rcases (request_spec hoff hrequest).2 with ⟨c, file, x, _, hopens, hx, hloaded, _⟩ | ⟨_, hnone, _⟩
  · rw [Option.some.inj hloaded]
    -- Either the file itself is loaded, or the shipped library in its place.
    by_cases hown : ∃ v, x = .version v ∧ t.shippedGlibcxxVersion ≤ v
    · rcases hown with ⟨v, rfl, hle⟩
      have hresolves :
          (Reading.version v).resolves b.path c.path t.shippedGlibcxxVersion = c.path :=
        if_neg (Nat.not_lt.mpr hle)
      rw [hresolves]
      refine ⟨file, v, hopens, hx, h.le.trans hle, fun _ u hu => ?_⟩
      exact (h.greatest.2 (Set.mem_insert_of_mem _ hu)).trans hle
    · have hresolves : x.resolves b.path c.path t.shippedGlibcxxVersion = b.path := by
        cases x with
        | version v => exact if_pos (Nat.lt_of_not_le fun hle => hown ⟨v, rfl, hle⟩)
        | unreadable => rfl
        | otherClass => rfl
      rw [hresolves]
      -- The shipped library is not older than itself, whatever was let through before.
      exact ⟨shipped, _, hfile, hread, le_rfl, fun hne => absurd rfl hne⟩
  · cases hnone

/-- Without a shipped path a request is the loader's own: it ends with the first
    library that can be loaded. -/
theorem request_inactive (hpath : s.shippedLibstdcxxPath = none) (fuel : Nat)
    (cs : List Candidate) : request p fuel cs s =
      .ok ((cs.find? fun c => p.loads c.path).map Candidate.path, s) := by
  have hactive : ¬ s.Active := fun hc => hc.1 hpath
  induction cs with
  | nil => rfl
  | cons c cs ih =>
      unfold request
      rw [laObjsearch_passes fun hc => absurd hc hactive, if_neg fun hc => hactive hc.1, ok_bind]
      have haccepts : p.accepts c.path .name = if p.loads c.path then some c.path else none :=
        Option.filter_some
      rw [List.find?_cons]
      cases hloads : p.loads c.path with
      | true =>
          simp only [haccepts, hloads, if_true]
          rfl
      | false =>
          simp only [haccepts, hloads, Bool.false_eq_true, if_false]
          exact ih

theorem load_inactive (hpath : s.shippedLibstdcxxPath = none) (e : LoadEvent) :
    load p fuel s e = .ok s := by
  cases e with
  | hook h => exact hook_inactive hpath h
  | request cs =>
      change request p fuel cs s >>= _ = _
      rw [request_inactive hpath, ok_bind]
      rfl

end Runs

/-- Until the loader is done no request ends with a library older than the
    shipped one, whatever happened before it. One that is not the shipped library
    is no older than anything seen so far, and a request is left without a
    library only when no candidate decides it. -/
theorem requests_safe (p : Process) (fuel : Nat) (s₀ t : AuditState) (b : PathBuffer)
    (events : List LoadEvent) (cs : List Candidate) (hinit : laVersion p fuel {} = .ok s₀)
    (hb : s₀.shippedLibstdcxxPath = some b) (hpos : 0 < s₀.shippedGlibcxxVersion)
    (hrun : Runs (load p fuel) events s₀ t) (hends : ∀ e ∈ events, ¬ e.IsEnd) :
    (∀ fuel' outcome t', request p fuel' cs t = .ok (outcome, t') →
      (outcome = none ↔ ∀ c, ¬ Decides p cs c) ∧
      ∀ path, outcome = some path → ∃ file v, p.files path = some file ∧
        Reads file (.version v) ∧ s₀.shippedGlibcxxVersion ≤ v ∧
        (path ≠ b.path → ∀ u ∈ seen p events, u ≤ v)) ∧
    ((∃ fuel' outcome t', request p fuel' cs t = .ok (outcome, t')) ↔
      ∀ c file, Decides p cs c → p.files c.path = some file → ∃ x, Reads file x) := by
  rcases runs_loading hinit hb hpos hrun hends with ⟨hloading, hoff, shipped, hfile, hread⟩
  refine ⟨fun fuel' outcome t' hrequest => ⟨?_, ?_⟩, request_returns_iff hoff⟩
  · rcases (request_spec hoff hrequest).2 with ⟨c, _, _, hdecides, _, _, rfl, _⟩ | ⟨hno, rfl, _⟩
    · exact iff_of_false (Option.some_ne_none _) fun hno => hno c hdecides
    · exact iff_of_true rfl hno
  · rintro path rfl
    exact hloading.not_older hoff hfile hread hrequest

/-- Once the loader is done, a request is the loader's own affair and leaves the
    library as it is. -/
theorem requests_consistent (p : Process) (fuel : Nat) (s t : AuditState)
    (before behind : List LoadEvent) (cs : List Candidate)
    (hrun : Runs (load p fuel) (before ++ .hook (.activity laActConsistent) :: behind) s t)
    (fuel' : Nat) : request p fuel' cs t =
      .ok ((cs.find? fun c => p.loads c.path).map Candidate.path, t) := by
  rcases (runs_append _ _ _ _).mp hrun with ⟨u, _, hrest⟩
  rcases (runs_cons _ _ _ _).mp hrest with ⟨u', hu', hbehind⟩
  have hpath : u'.shippedLibstdcxxPath = none := by
    rw [← Except.ok.inj hu']
    unfold laActivity
    cases hb : u.shippedLibstdcxxPath with
    | none => exact hb
    | some b => rfl
  -- Nothing that happens behind the report changes the state again.
  rw [Runs.stays (load_inactive hpath) hbehind]
  exact request_inactive hpath fuel' cs

section Sample

/-- A request that the newer library of the system decides. -/
def newerRequest : LoadEvent :=
  .request [⟨sampleNewer, 0x40, by decide⟩]

/-- The state of the sample process after some events. -/
def loadedAfter (events : List LoadEvent) : AuditState :=
  (events.foldlM (load sampleProcess 2) sampleInit).toOption.getD {}

/-- After the newer library was let through, what takes the place of the older
    one is no older than it should be. -/
theorem newerRequest_safe : ∃ file v, sampleProcess.files sampleShipped = some file ∧
    Reads file (.version v) ∧ 0x030400 ≤ v := by
  have hrun : Runs (load sampleProcess 2) [newerRequest] sampleInit
      (loadedAfter [newerRequest]) := by
    unfold Runs
    decide +kernel
  have hrequest : request sampleProcess 2 sampleCandidates (loadedAfter [newerRequest]) =
      .ok (some (PathBuffer.path ⟨0x20000, sampleShipped ++ [0]⟩),
        loadedAfter [newerRequest, .request sampleCandidates]) := by
    decide +kernel
  rcases ((requests_safe sampleProcess 2 sampleInit _ ⟨0x20000, sampleShipped ++ [0]⟩
    [newerRequest] sampleCandidates sampleProcess_init rfl (by decide) hrun
    (by simp [newerRequest, LoadEvent.IsEnd])).1 2 _ _ hrequest).2 _ rfl with
    ⟨file, v, hfile, hread, hle, _⟩
  exact ⟨file, v, hfile, hread, hle⟩

/-- Once the loader is done, the older library is loaded after all. -/
theorem consistentRequest_older : request sampleProcess 2
    [⟨sampleOlder, 0x40, by decide⟩]
    (loadedAfter [newerRequest, .hook (.activity laActConsistent)]) =
      .ok (some sampleOlder, loadedAfter [newerRequest, .hook (.activity laActConsistent)]) := by
  have hrun : Runs (load sampleProcess 2)
      ([newerRequest] ++ .hook (.activity laActConsistent) :: []) sampleInit
      (loadedAfter [newerRequest, .hook (.activity laActConsistent)]) := by
    unfold Runs
    decide +kernel
  exact requests_consistent sampleProcess 2 sampleInit _ [newerRequest] []
    [⟨sampleOlder, 0x40, by decide⟩] hrun 2

end Sample

end AuditLibstdcxx
