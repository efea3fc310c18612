import AuditLibstdcxx.Theory.Answers

/-!
# A Request for libstdc++

The loader looking for one `libstdc++.so.6`, with the library listening. It
goes through the places where the library may be, asks `la_objsearch` about
each, and loads the first answer that opens as a library of the native class.

The library decides the request at the first place that is not on a run path
and holds a file that is not of the other class: it answers with that file or
with the shipped one, and both can be loaded. At every place before that it
answers with nothing to load. So a request is decided by one file, and a
request without such a file fails, although there is a shipped library.

## Main definitions

* `Candidate`: A place where the loader looks.
* `request`: The loader's search.
* `Decides`: The candidate that decides a request.
* `Reading.resolves`: The library a file decides for.
* `Resolved`: The request ends with the right library.

## Theorems

* `request_yields_iff`: A request ends where it is decided.
* `resolved_iff`: When a request ends with the right library.
-/

namespace AuditLibstdcxx

open Checked CString

section Request

/-- A place where the loader looks for `libstdc++.so.6`, with the flag that says
    which search it belongs to. -/
structure Candidate where
  path : Path
  flag : Nat
  libstdcxx : libstdcxxRelPath <:+ path

/-- The path opens as a library of the native class. -/
def Process.loads (p : Process) (path : Path) : Bool :=
  match p.files path with
  | some (.mapped m) => decide (m.IsElf ∧ m.IsNative)
  | _ => false

/-- The path the loader is told to try. -/
def Answer.target (name : Path) : Answer → Option Path
  | .null => none
  | .name => some name
  | .shipped b => some b.path

/-- The path the loader loads by an answer, if there is one. -/
def Process.accepts (p : Process) (name : Path) (a : Answer) : Option Path :=
  (a.target name).filter p.loads

/-- The loader's search for a `libstdc++.so.6`. -/
def request (p : Process) (fuel : Nat) : List Candidate → AuditState →
    Run (Option Path × AuditState)
  | [], s => return (none, s)
  | c :: cs, s => do
    let r ← laObjsearch p fuel c.path c.flag s
    match p.accepts c.path r.1 with
    | none => request p fuel cs r.2
    | some path => return (some path, r.2)

/-- The candidate that decides a request: the first that is not on a run path
    and holds a file that is not of the other class. -/
def Decides (p : Process) (cs : List Candidate) (c : Candidate) : Prop :=
  ∃ before behind, cs = before ++ c :: behind ∧ IsCandidate p c.path c.flag ∧
    ∀ c' ∈ before, ¬ IsCandidate p c'.path c'.flag

/-- The library a file decides for: itself or the shipped one. -/
def Reading.resolves (shipped name : Path) (S : Nat) : Reading → Path
  | .version v => if v < S then shipped else name
  | _ => shipped

variable {p : Process} {fuel : Nat} {s s' t : AuditState} {b : PathBuffer} {S : Nat}
  {c c' : Candidate} {cs : List Candidate} {file : OpenFile} {x : Reading} {loaded : Path}

theorem decides_candidate (h : IsCandidate p c.path c.flag) :
    Decides p (c :: cs) c' ↔ c' = c := by
  constructor
  · rintro ⟨before, behind, hsplit, _, hbefore⟩
    cases before with
    | nil => exact (List.cons.inj hsplit).1.symm
    | cons c'' before =>
        rw [← (List.cons.inj hsplit).1] at hbefore
        exact absurd h (hbefore c List.mem_cons_self)
  · rintro rfl
    exact ⟨[], cs, rfl, h, fun _ hmem => absurd hmem List.not_mem_nil⟩

theorem decides_skip (h : ¬ IsCandidate p c.path c.flag) :
    Decides p (c :: cs) c' ↔ Decides p cs c' := by
  constructor
  · rintro ⟨before, behind, hsplit, hc', hbefore⟩
    cases before with
    | nil =>
        rw [← (List.cons.inj hsplit).1] at hc'
        exact absurd hc' h
    | cons c'' before =>
        exact ⟨before, behind, (List.cons.inj hsplit).2, hc',
          fun d hd => hbefore d (List.mem_cons_of_mem _ hd)⟩
  · rintro ⟨before, behind, rfl, hc', hbefore⟩
    refine ⟨c :: before, behind, rfl, hc', fun d hd => ?_⟩
    rcases List.mem_cons.mp hd with rfl | hd
    · exact h
    · exact hbefore d hd

theorem Decides.unique (h : Decides p cs c) (h' : Decides p cs c') : c = c' := by
  induction cs with
  | nil =>
      rcases h with ⟨before, behind, hsplit, _⟩
      exact absurd hsplit.symm (List.append_ne_nil_of_right_ne_nil _ (List.cons_ne_nil _ _))
  | cons d cs ih =>
      -- The first candidate decides, or does not matter.
      by_cases hd : IsCandidate p d.path d.flag
      · rw [(decides_candidate hd).mp h, (decides_candidate hd).mp h']
      · exact ih ((decides_skip hd).mp h) ((decides_skip hd).mp h')

/-- A file with a version can be loaded. -/
theorem loads_of_version {path : Path} {v : Nat} (hfile : p.files path = some file)
    (h : Reads file (.version v)) : p.loads path = true := by
  rcases h.native with ⟨m, rfl, helf, hnative, _⟩
  unfold Process.loads
  rw [hfile]
  exact decide_eq_true ⟨helf, hnative⟩

theorem settled_laObjsearch (name : Path) (flag : Nat) (s : AuditState) :
    Settled (fun n => laObjsearch p n name flag s) := by
  unfold laObjsearch
  cases s.shippedLibstdcxxPath with
  | none => exact settled_const _
  | some b =>
      simp only
      by_cases hinvalid : s.shippedGlibcxxVersion = invalidGlibcxxVersion
      · simp only [if_pos hinvalid]
        exact settled_const _
      · simp only [if_neg hinvalid]
        refine (settled_const _).bind fun searched => ?_
        cases searched with
        | false => exact settled_const _
        | true =>
            simp only [if_true]
            unfold searchSystem
            by_cases hflag : flag = laSerRunpath
            · simp only [if_pos hflag]
              exact settled_const _
            · simp only [if_neg hflag]
              cases p.files name with
              | none => exact settled_const _
              | some file =>
                  -- The reader is the only part that uses fuel.
                  exact (settled_getLibstdcxxVersion _ _ _).bind fun r => settled_const _

theorem settled_request : ∀ (cs : List Candidate) (s : AuditState),
    Settled (fun n => request p n cs s) := by
  intro cs
  induction cs with
  | nil => exact fun s => settled_const _
  | cons c cs ih =>
      intro s
      refine (settled_laObjsearch c.path c.flag s).bind fun r => ?_
      cases p.accepts c.path r.1 with
      | none => exact ih r.2
      | some path => exact settled_const _

/-- A request starts with a call about its first candidate. -/
theorem request_cons (r : Option Path × AuditState) :
    Yields (fun n => request p n (c :: cs) s) r ↔
      ∃ a s', Yields (fun n => laObjsearch p n c.path c.flag s) (a, s') ∧
        ((∃ path, p.accepts c.path a = some path ∧ r = (some path, s')) ∨
          (p.accepts c.path a = none ∧ Yields (fun n => request p n cs s') r)) := by
  -- What follows the first call is settled, whichever way it goes.
  have hrest : ∀ u : Answer × AuditState, Settled (fun n =>
      match p.accepts c.path u.1 with
      | none => request p n cs u.2
      | some path => return (some path, u.2)) := by
    intro u
    cases p.accepts c.path u.1 with
    | none => exact settled_request cs u.2
    | some path => exact settled_const _
  have hbind := yields_bind (settled_laObjsearch (p := p) c.path c.flag s) hrest r
  constructor
  · intro h
    rcases hbind.mp h with ⟨⟨a, s'⟩, ha, hr⟩
    refine ⟨a, s', ha, ?_⟩
    cases haccepts : p.accepts c.path a with
    | none =>
        simp only [haccepts] at hr
        exact Or.inr ⟨rfl, hr⟩
    | some path =>
        simp only [haccepts] at hr
        exact Or.inl ⟨path, rfl, (Except.ok.inj ((yields_const _ _).mp hr)).symm⟩
  · rintro ⟨a, s', ha, hr⟩
    refine hbind.mpr ⟨(a, s'), ha, ?_⟩
    rcases hr with ⟨path, haccepts, rfl⟩ | ⟨haccepts, hr⟩
    · simp only [haccepts]
      exact (yields_const _ _).mpr rfl
    · simp only [haccepts]
      exact hr

/-- There is a shipped library of a version that is not invalid, and it can be
    loaded. -/
structure Offering (p : Process) (b : PathBuffer) (S : Nat) (s : AuditState) : Prop where
  path : s.shippedLibstdcxxPath = some b
  version : s.shippedGlibcxxVersion = S
  valid : S ≠ invalidGlibcxxVersion
  positive : 0 < S
  loads : p.loads b.path = true

theorem Offering.current_valid (h : Offering p b S s) :
    s.shippedGlibcxxVersion ≠ invalidGlibcxxVersion := by
  rw [h.version]
  exact h.valid

/-- A file that is looked at and does not decide is of the other class. -/
theorem reads_otherClass (hc : ¬ IsCandidate p c.path c.flag)
    (hex : Examines p c.path c.flag file) : Reads file .otherClass := by
  by_contra hnot
  exact hc ⟨file, hex, hnot⟩

/-- A call that examines a file yields what the file is worth. -/
theorem yields_examines (h : Offering p b S s) {name : Path} {flag : Nat}
    (hex : Examines p name flag file) (hx : Reads file x) :
    ∃ s', Yields (fun n => laObjsearch p n name flag s) ((x.answer b S).1, s') ∧
      s'.shippedGlibcxxVersion = (x.answer b S).2 ∧ s'.shippedLibstdcxxPath = some b := by
  rcases hx.yields (p.nextFd s.calls) 0 with ⟨calls, n, hn⟩
  rcases hcompare : compareSystem b ⟨x.error, x.value 0, calls⟩
    { s with calls := s.calls ++ .openFile name (p.nextFd s.calls) :: calls } with ⟨a, s'⟩
  have hcall : laObjsearch p n name flag s = .ok (a, s') := by
    rw [laObjsearch_reads h.path h.current_valid hex]
    change getLibstdcxxVersion n (p.nextFd s.calls) file 0 = _ at hn
    rw [hn, ok_bind, hcompare]
  -- The call yields, so it yields what the file is worth.
  rcases laObjsearch_examines h.path h.current_valid hex hcall with ⟨y, hy, ha, hversion, hpath⟩
  rw [hy.unique hx, h.version] at ha hversion
  rw [← ha]
  exact ⟨s', ⟨n, hcall⟩, hversion, hpath⟩

/-- The answer to a file that decides can be loaded. -/
theorem accepts_answer (hoff : Offering p b S s) {name : Path} (hfile : p.files name = some file)
    (hx : Reads file x) (hne : x ≠ .otherClass) :
    p.accepts name (x.answer b S).1 = some (x.resolves b.path name S) := by
  -- The shipped library can always be loaded.
  have hshipped : p.accepts name (.shipped b) = some b.path := by
    unfold Process.accepts
    rw [Answer.target, Option.filter_some, if_pos hoff.loads]
  cases x with
  | version v =>
      by_cases hlt : v < S
      · simp only [Reading.answer, Reading.resolves, if_pos hlt]
        exact hshipped
      · simp only [Reading.answer, Reading.resolves, if_neg hlt]
        unfold Process.accepts
        rw [Answer.target, Option.filter_some, if_pos (loads_of_version hfile hx)]
  | unreadable =>
      simp only [Reading.answer, Reading.resolves, if_pos hoff.positive]
      exact hshipped
  | otherClass => exact absurd rfl hne

/-- A call about a candidate that does not decide gives the loader nothing to
    load and changes nothing of what is offered. -/
theorem answer_skip (hoff : Offering p b S s) (hc : ¬ IsCandidate p c.path c.flag) {a : Answer}
    (h : Yields (fun n => laObjsearch p n c.path c.flag s) (a, s')) :
    p.accepts c.path a = none ∧ Offering p b S s' := by
  rcases h with ⟨n, hn⟩
  change laObjsearch p n c.path c.flag s = _ at hn
  by_cases hex : ∃ file, Examines p c.path c.flag file
  · rcases hex with ⟨file, hex⟩
    -- The file is of the other class: the answer is a null pointer.
    rcases laObjsearch_examines hoff.path hoff.current_valid hex hn with
      ⟨x, hx, ha, hversion, hpath⟩
    rw [hx.unique (reads_otherClass hc hex)] at ha hversion
    rw [ha]
    exact ⟨rfl, hpath, hversion.trans hoff.version, hoff.valid, hoff.positive, hoff.loads⟩
  · have hnone : ∀ file, ¬ Examines p c.path c.flag file := fun file hc' => hex ⟨file, hc'⟩
    -- No file is looked at: the state is as it was.
    rw [laObjsearch_passes fun _ => hnone] at hn
    have ha := congrArg Prod.fst (Except.ok.inj hn)
    have hs' := congrArg Prod.snd (Except.ok.inj hn)
    simp only at ha hs'
    rw [← hs', ← ha]
    refine ⟨?_, hoff⟩
    by_cases hflag : c.flag = laSerRunpath
    · have hactive : s.Active :=
        ⟨by rw [hoff.path]; exact Option.some_ne_none b, hoff.current_valid⟩
      rw [if_pos ⟨hactive, c.libstdcxx, hflag⟩]
      rfl
    · rw [if_neg fun hc' => hflag hc'.2.2]
      -- The name is handed back, but there is no file under it.
      have hfile : p.files c.path = none :=
        Option.eq_none_iff_forall_ne_some.mpr fun file hfile =>
          hnone file ⟨c.libstdcxx, hflag, hfile⟩
      have hloads : p.loads c.path = false := by
        unfold Process.loads
        rw [hfile]
      unfold Process.accepts
      rw [Answer.target, Option.filter_some, hloads, if_neg Bool.false_ne_true]

/-- Such a call always answers. -/
theorem yields_skip (hoff : Offering p b S s) (hc : ¬ IsCandidate p c.path c.flag) :
    ∃ a s', Yields (fun n => laObjsearch p n c.path c.flag s) (a, s') := by
  by_cases hex : ∃ file, Examines p c.path c.flag file
  · rcases hex with ⟨file, hex⟩
    rcases yields_examines hoff hex (reads_otherClass hc hex) with ⟨s', hyields, _⟩
    exact ⟨_, s', hyields⟩
  · exact ⟨_, s, 0, laObjsearch_passes fun _ file hc' => hex ⟨file, hc'⟩⟩

/-- A request whose first path is a candidate ends with the library that its
    file decides for. -/
theorem request_candidate (hoff : Offering p b S s) (hc : IsCandidate p c.path c.flag) :
    (∃ t, Yields (fun n => request p n (c :: cs) s) (some loaded, t)) ↔
      ∃ file x, p.files c.path = some file ∧ Reads file x ∧
        loaded = x.resolves b.path c.path S := by
  rcases hc with ⟨file, hex, hnot⟩
  have hne : ∀ x, Reads file x → x ≠ .otherClass := by
    rintro x hx rfl
    exact hnot hx
  constructor
  · rintro ⟨t, ht⟩
    rcases (request_cons _).mp ht with ⟨a, s', ⟨n, hn⟩, hr⟩
    rcases laObjsearch_examines hoff.path hoff.current_valid hex hn with ⟨x, hx, ha, _, _⟩
    rw [hoff.version] at ha
    have haccepts := accepts_answer hoff hex.opens hx (hne x hx)
    rw [← ha] at haccepts
    refine ⟨file, x, hex.opens, hx, ?_⟩
    rcases hr with ⟨path, hpath, heq⟩ | ⟨hnone, _⟩
    · rw [haccepts] at hpath
      rw [Option.some.inj hpath]
      exact Option.some.inj (Prod.ext_iff.mp heq).1
    · rw [haccepts] at hnone
      cases hnone
  · rintro ⟨file', x, hfile', hx, hloaded⟩
    have hsame : file' = file := Option.some.inj (hfile'.symm.trans hex.opens)
    rw [hsame] at hx
    rcases yields_examines hoff hex hx with ⟨s', hyields, _, _⟩
    refine ⟨s', (request_cons _).mpr ⟨_, s', hyields, Or.inl ⟨_, ?_, rfl⟩⟩⟩
    rw [accepts_answer hoff hex.opens hx (hne x hx), hloaded]

/-- Any other path is passed over, and what is offered stays the same. -/
theorem request_skip (cs : List Candidate) (loaded : Path) (hoff : Offering p b S s)
    (hc : ¬ IsCandidate p c.path c.flag) :
    ∃ s', Offering p b S s' ∧
      ((∃ t, Yields (fun n => request p n (c :: cs) s) (some loaded, t)) ↔
        ∃ t, Yields (fun n => request p n cs s') (some loaded, t)) := by
  rcases yields_skip hoff hc with ⟨a, s', ha⟩
  rcases answer_skip hoff hc ha with ⟨hnone, hoff'⟩
  refine ⟨s', hoff', fun h => ?_, fun h => ?_⟩
  · rcases h with ⟨t, ht⟩
    rcases (request_cons _).mp ht with ⟨a', s'', ha', hr⟩
    -- The call has one answer, so this is the one that is passed over.
    have hsame := (settled_laObjsearch c.path c.flag s).yields_unique ha ha'
    rcases Prod.mk.inj hsame with ⟨rfl, rfl⟩
    rcases hr with ⟨path, hpath, _⟩ | ⟨_, hrest⟩
    · rw [hnone] at hpath
      cases hpath
    · exact ⟨t, hrest⟩
  · rcases h with ⟨t, ht⟩
    exact ⟨t, (request_cons _).mpr ⟨a, s', ha, Or.inr ⟨hnone, ht⟩⟩⟩

/-- A request ends where it is decided, with the library the file decides for. -/
theorem request_yields_iff (hoff : Offering p b S s) :
    (∃ t, Yields (fun n => request p n cs s) (some loaded, t)) ↔
      ∃ c file x, Decides p cs c ∧ p.files c.path = some file ∧ Reads file x ∧
        loaded = x.resolves b.path c.path S := by
  induction cs generalizing s with
  | nil =>
      refine iff_of_false ?_ ?_
      · rintro ⟨t, n, hn⟩
        cases hn
      · rintro ⟨c, _, _, ⟨before, behind, hsplit, _⟩, _⟩
        exact absurd hsplit.symm (List.append_ne_nil_of_right_ne_nil _ (List.cons_ne_nil _ _))
  | cons c cs ih =>
      by_cases hc : IsCandidate p c.path c.flag
      · -- The first candidate decides, so the request ends with its answer.
        rw [request_candidate hoff hc]
        simp only [decides_candidate hc]
        constructor
        · rintro ⟨file, x, hfile, hx, hloaded⟩
          exact ⟨c, file, x, rfl, hfile, hx, hloaded⟩
        · rintro ⟨c', file, x, rfl, hfile, hx, hloaded⟩
          exact ⟨file, x, hfile, hx, hloaded⟩
      · -- The first one does not decide, so the request goes on as if without it.
        rcases request_skip cs loaded hoff hc with ⟨s', hoff', hskip⟩
        simp only [decides_skip hc]
        exact hskip.trans (ih hoff')

end Request

section Resolved

/-- The request ends with the right library: the file that decides it if its
    version was read and is not below that of the shipped library, and the
    shipped library otherwise. -/
def Resolved (p : Process) (shipped : Path) (S : Nat) (cs : List Candidate) (s : AuditState) :
    Prop :=
  ∃ loaded, (∃ t, Yields (fun n => request p n cs s) (some loaded, t)) ∧
    ((∃ c file v, Decides p cs c ∧ p.files c.path = some file ∧ Reads file (.version v) ∧
        S ≤ v ∧ loaded = c.path) ∨
      ((¬ ∃ c file v, Decides p cs c ∧ p.files c.path = some file ∧ Reads file (.version v) ∧
        S ≤ v) ∧ loaded = shipped))

end Resolved

/-- Right after `la_version` found a shipped library of a version above 0, a
    request ends with the right library exactly when some candidate decides it
    and the reader comes back with an answer for that candidate's file. -/
theorem resolved_iff (p : Process) (fuel : Nat) (s : AuditState) (b : PathBuffer)
    (cs : List Candidate) (hinit : laVersion p fuel {} = .ok s)
    (hb : s.shippedLibstdcxxPath = some b) (hpos : 0 < s.shippedGlibcxxVersion) :
    Resolved p b.path s.shippedGlibcxxVersion cs s ↔
      ∃ c file x, Decides p cs c ∧ p.files c.path = some file ∧ Reads file x := by
  -- The shipped library was read, so it can be loaded.
  have hoff : Offering p b s.shippedGlibcxxVersion s := by
    rcases laVersion_spec hinit with ⟨b', file, v, hb', hv, hfile, hread, _⟩ | ⟨hnone, _, _⟩
    · have hsame : b' = b := Option.some.inj (hb'.symm.trans hb)
      rw [hsame] at hfile
      refine ⟨hb, rfl, ?_, hpos, loads_of_version hfile hread⟩
      rw [hv]
      exact valid_of_lt hread.version_lt
    · rw [hnone] at hb
      cases hb
  constructor
  · rintro ⟨loaded, hrequest, _⟩
    rcases (request_yields_iff hoff).mp hrequest with ⟨c, file, x, hdecides, hfile, hx, _⟩
    exact ⟨c, file, x, hdecides, hfile, hx⟩
  · rintro ⟨c, file, x, hdecides, hfile, hx⟩
    refine ⟨_, (request_yields_iff hoff).mpr ⟨c, file, x, hdecides, hfile, hx, rfl⟩, ?_⟩
    -- The deciding file is the only one that can be meant.
    have honly : (∃ c file v, Decides p cs c ∧ p.files c.path = some file ∧
        Reads file (.version v) ∧ s.shippedGlibcxxVersion ≤ v) →
        ∃ v, x = .version v ∧ s.shippedGlibcxxVersion ≤ v := by
      rintro ⟨c', file', v, hdecides', hfile', hv, hle⟩
      rw [hdecides'.unique hdecides, hfile] at hfile'
      rw [← Option.some.inj hfile'] at hv
      exact ⟨v, hx.unique hv, hle⟩
    cases x with
    | version v =>
        by_cases hlt : v < s.shippedGlibcxxVersion
        · refine Or.inr ⟨fun hc => ?_, if_pos hlt⟩
          rcases honly hc with ⟨u, hu, hle⟩
          rw [← Reading.version.inj hu] at hle
          omega
        · exact Or.inl ⟨c, file, v, hdecides, hfile, hx, Nat.le_of_not_lt hlt, if_neg hlt⟩
    | unreadable =>
        refine Or.inr ⟨fun hc => ?_, rfl⟩
        rcases honly hc with ⟨u, hu, _⟩
        cases hu
    | otherClass =>
        refine Or.inr ⟨fun hc => ?_, rfl⟩
        rcases honly hc with ⟨u, hu, _⟩
        cases hu

section Sample

/-- The places of a request: the shipped library along the run path, and the
    older library of the system. -/
def sampleCandidates : List Candidate :=
  [⟨sampleShipped, laSerRunpath, by decide⟩, ⟨sampleOlder, 0x40, by decide⟩]

/-- With the system's library among the places, the request is resolved. -/
theorem sampleCandidates_resolved :
    Resolved sampleProcess (PathBuffer.path ⟨0x20000, sampleShipped ++ [0]⟩) 0x030400
      sampleCandidates sampleInit := by
  refine (resolved_iff sampleProcess 2 sampleInit ⟨0x20000, sampleShipped ++ [0]⟩ sampleCandidates
    sampleProcess_init rfl (by decide)).mpr ?_
  refine ⟨⟨sampleOlder, 0x40, by decide⟩, .mapped (sampleLibrary false), _, ?_, by rfl,
    singleLibrary_reads⟩
  refine ⟨[⟨sampleShipped, laSerRunpath, by decide⟩], [], rfl, ?_, ?_⟩
  · exact ⟨_, ⟨by decide, by decide, by rfl⟩,
      fun h => Reading.noConfusion (h.unique singleLibrary_reads)⟩
  · rintro c hc ⟨file, hex, _⟩
    rw [List.mem_singleton.mp hc] at hex
    exact hex.notRunpath rfl

/-- With the shipped library as the only one there is, the request fails. -/
theorem runpathOnly_not_resolved : laVersion sampleProcess 2 {} = .ok sampleInit ∧
    ¬ Resolved sampleProcess (PathBuffer.path ⟨0x20000, sampleShipped ++ [0]⟩) 0x030400
      [⟨sampleShipped, laSerRunpath, by decide⟩] sampleInit := by
  refine ⟨sampleProcess_init, ?_⟩
  rintro ⟨loaded, ⟨t, n, hn⟩, _⟩
  have hrequest : request sampleProcess n [⟨sampleShipped, laSerRunpath, by decide⟩] sampleInit =
      .ok (none, sampleInit) := by
    unfold request
    rw [laObjsearch_passes fun _ file hex => hex.notRunpath rfl, ok_bind]
    rfl
  cases hn.symm.trans hrequest

end Sample

end AuditLibstdcxx
