import AuditLibstdcxx.Theory.Hooks
import AuditLibstdcxx.Theory.Search

/-!
# The Resources of the Audit Library

What the audit library maps and opens, and whether it gives it back. The calls
are kept in the state, so they make up a ledger: of mappings, by address and
length, and of descriptors.

The buffer with the path of the shipped library is the one mapping that
outlives a call. It is handed from the search to the globals, and given back
when the version cannot be read, or at the first consistent state. The copy of
the path of the executable is given back under the address that `dirname`
returned, and only on the way out that comes after the search. So the ledger
balances when `dirname` cuts the copy off in place and there is a run path to
search.

## Main definitions

* `mapEntries`, `fdEntries`: The ledgers in a list of calls.
* `Owns`: What is mapped and open after some calls.
* `heldBy`, `LedgerSettled`: The ledgers say what the globals say.
* `HoldsCopy`: The copy of the path of the executable is mapped besides.
* `HasRunPath`: There is a run path to search.
* `LedgerKept`: The ledgers are settled after `la_version` and every later call.

## Theorems

* `searchRunPaths_settles`: A search leaves its buffer and its descriptor.
* `HoldsCopy.munmap_iff`: What has to be given back to settle the ledger.
* `laVersion_settled_iff`: When `la_version` leaves nothing behind.
* `runs_settled`: Every run of later calls keeps the ledgers.
* `ledgerKept_iff`: Exactly when the ledger is kept.
-/

namespace AuditLibstdcxx

open Checked CString Ledger

/-! ### The Ledgers -/

/-- The mappings made and given back. -/
def mapEntries (calls : List SysCall) : List (Entry Area) :=
  calls.filterMap fun c => match c with
    | .mmap addr len => some (.acquire ⟨addr, len⟩)
    | .munmap addr len => some (.release ⟨addr, len⟩)
    | _ => none

/-- The descriptors opened and closed. -/
def fdEntries (calls : List SysCall) : List (Entry Nat) :=
  calls.filterMap fun c => match c with
    | .openFile _ fd => some (.acquire fd)
    | .close fd => some (.release fd)
    | _ => none

theorem mapEntries_append (calls more : List SysCall) :
    mapEntries (calls ++ more) = mapEntries calls ++ mapEntries more :=
  List.filterMap_append

theorem fdEntries_append (calls more : List SysCall) :
    fdEntries (calls ++ more) = fdEntries calls ++ fdEntries more :=
  List.filterMap_append

/-- The mappings and the descriptors held after some calls. -/
structure Owns (calls : List SysCall) (maps : List Area) (fds : List Nat) : Prop where
  maps : settle [] (mapEntries calls) = some maps
  fds : settle [] (fdEntries calls) = some fds

section Calls

variable {calls : List SysCall} {maps : List Area} {fds : List Nat} (h : Owns calls maps fds)

include h

/-- Calls that follow. -/
theorem Owns.append {more : List SysCall} {maps' : List Area} {fds' : List Nat}
    (hmaps : settle maps (mapEntries more) = some maps')
    (hfds : settle fds (fdEntries more) = some fds') : Owns (calls ++ more) maps' fds' :=
  ⟨by rw [mapEntries_append, settle_append_of_some h.maps, hmaps],
    by rw [fdEntries_append, settle_append_of_some h.fds, hfds]⟩

theorem Owns.mmap (addr len : Nat) : Owns (calls ++ [.mmap addr len]) (⟨addr, len⟩ :: maps) fds :=
  h.append rfl rfl

theorem Owns.munmap (addr len : Nat) (hheld : ⟨addr, len⟩ ∈ maps) :
    Owns (calls ++ [.munmap addr len]) (maps.erase ⟨addr, len⟩) fds :=
  h.append (settle_release hheld []) rfl

theorem Owns.openFile (path : Path) (fd : Nat) :
    Owns (calls ++ [.openFile path fd]) maps (fd :: fds) :=
  h.append rfl rfl

end Calls

/-- Reading a version closes the descriptor and leaves nothing else behind. -/
theorem Owns.version {calls : List SysCall} {maps : List Area} {fds : List Nat} {fuel fd out : Nat}
    {file : OpenFile} {r : VersionResult} (h : Owns calls maps (fd :: fds))
    (hr : getLibstdcxxVersion fuel fd file out = .ok r) : Owns (calls ++ r.calls) maps fds := by
  have hclose : settle (fd :: fds) [Entry.release fd] = some fds := settle_release_head fds fd []
  cases file with
  | noStat =>
      rw [← Except.ok.inj hr]
      exact h.append rfl hclose
  | noMap =>
      rw [← Except.ok.inj hr]
      exact h.append rfl hclose
  | mapped m =>
      rw [((getLibstdcxxVersion_eq_ok fuel fd out r).mp hr).2]
      -- The file is mapped and unmapped in between.
      have hmap : settle maps [Entry.acquire (⟨m.mapped, m.size⟩ : Area),
          .release ⟨m.mapped, m.size⟩] = some maps := by
        rw [settle_acquire, settle_release_head, settle_nil]
      exact h.append hmap hclose

/-- The buffer held in the globals, by the length they keep with it. -/
def heldBy (s : AuditState) : List Area :=
  s.shippedLibstdcxxPath.toList.map fun b => ⟨b.addr, s.lenShippedPathBuffer⟩

theorem heldBy_some {s : AuditState} {b : PathBuffer} (h : s.shippedLibstdcxxPath = some b) :
    heldBy s = [⟨b.addr, s.lenShippedPathBuffer⟩] := by
  unfold heldBy
  rw [h]
  rfl

/-- The ledgers say what the globals say: the buffer is mapped, nothing else
    is, and nothing is open. -/
def LedgerSettled (s : AuditState) : Prop :=
  Owns s.calls (heldBy s) []

/-! ### The Search -/

section Search

variable {p : Process}

/-- The calls of a search are a ledger of its buffers. -/
theorem pathOps_logs : LogsBuffers p.pathOps fun s => mapEntries s.calls where
  mmap_some len s a h := by
    unfold Process.pathOps at h ⊢
    cases hmmap : p.mmapAnon s.calls len with
    | none =>
        simp only [hmmap] at h
        cases h
    | some addr =>
        simp only [hmmap, Option.some.injEq] at h ⊢
        rw [mapEntries_append, h]
        rfl
  mmap_none len s h := by
    unfold Process.pathOps at h ⊢
    cases hmmap : p.mmapAnon s.calls len with
    | none => simp only [hmmap]
    | some addr =>
        simp only [hmmap] at h
        cases h
  munmap addr len s := mapEntries_append s.calls _
  trypath path s := by
    simp only [Process.pathOps, Process.trypath]
    cases p.files path with
    | none => rfl
    | some file =>
        simp only [mapEntries_append]
        exact List.append_nil _

/-- What is open is the descriptor found, if there is one. -/
def OneFd (s : SearchState) : Prop :=
  settle [] (fdEntries s.calls) = some (s.fd.toList.map Prod.fst)

theorem releaseArea_fd (area : Option Area) (s : SearchState) :
    fdEntries (releaseArea p.pathOps area s).calls = fdEntries s.calls ∧
      (releaseArea p.pathOps area s).fd = s.fd := by
  cases area with
  | none => exact ⟨rfl, rfl⟩
  | some a =>
      refine ⟨?_, rfl⟩
      change fdEntries (s.calls ++ [_]) = _
      rw [fdEntries_append]
      exact List.append_nil _

theorem reserveArea_fd (needed : Nat) (area : Option Area) (s : SearchState) :
    fdEntries (reserveArea p.pathOps needed area s).2.calls = fdEntries s.calls ∧
      (reserveArea p.pathOps needed area s).2.fd = s.fd := by
  have hrelease := releaseArea_fd (p := p) area s
  unfold reserveArea
  by_cases hneeded : needed > area.elim 0 Area.len
  · rw [if_pos hneeded]
    -- Neither giving back nor mapping opens a descriptor.
    generalize releaseArea p.pathOps area s = s' at hrelease
    rw [← hrelease.1, ← hrelease.2]
    unfold Process.pathOps
    cases hmmap : p.mmapAnon s'.calls needed with
    | none => simp only [hmmap, and_self]
    | some addr =>
        simp only [hmmap, fdEntries_append, and_true]
        exact List.append_nil _
  · rw [if_neg hneeded]
    exact ⟨rfl, rfl⟩

/-- A search that finds nothing leaves nothing open, and one that does leaves
    the descriptor of what it found. -/
theorem tryPaths_fd (paths : List Path) (area : Option Area) (s : SearchState) (h : OneFd s)
    (hnone : s.fd = none) : OneFd (tryPaths p.pathOps paths area s).world ∧
      ((tryPaths p.pathOps paths area s).found = none →
        (tryPaths p.pathOps paths area s).world.fd = none) := by
  induction paths generalizing area s with
  | nil =>
      have hrelease := releaseArea_fd (p := p) area s
      refine ⟨?_, fun _ => hrelease.2.trans hnone⟩
      change settle [] (fdEntries (releaseArea p.pathOps area s).calls) =
        some ((releaseArea p.pathOps area s).fd.toList.map Prod.fst)
      rw [hrelease.1, hrelease.2]
      exact h
  | cons path paths ih =>
      have hreserved := reserveArea_fd (p := p) (path.length + 1) area s
      unfold tryPaths
      rcases hreserve : reserveArea p.pathOps (path.length + 1) area s with ⟨area', s'⟩
      rw [hreserve] at hreserved
      -- The descriptors are as they were before the buffer was asked for.
      have hs' : OneFd s' := by
        unfold OneFd
        rw [hreserved.1, hreserved.2]
        exact h
      have hnone' : s'.fd = none := hreserved.2.trans hnone
      cases area' with
      | none => exact ⟨hs', fun _ => hnone'⟩
      | some a =>
          cases hfile : p.files path with
          | none =>
              simp only [trypath_missing hfile, reduceCtorEq, if_false]
              exact ih (some a) s' hs' hnone'
          | some file =>
              simp only [trypath_opens hfile, if_true]
              -- The file that is found is the first one opened.
              refine ⟨?_, fun hfound => by cases hfound⟩
              unfold OneFd at hs' ⊢
              simp only [fdEntries_append]
              rw [settle_append_of_some hs', hnone']
              rfl

/-- What a search leaves behind, besides what was held before it: its buffer
    and its descriptor. -/
structure SearchOwns (held : List Area) (r : ErrorCode × AuditState × Option (Nat × OpenFile)) :
    Prop where
  buffer : OneBuffer (fun s : SearchState => mapEntries s.calls) held
    (r.2.1.shippedLibstdcxxPath.map PathBuffer.area) ⟨r.2.1.calls, r.2.2⟩
  fd : OneFd ⟨r.2.1.calls, r.2.2⟩
  nothing : r.2.1.shippedLibstdcxxPath = none → r.2.2 = none
  len : r.2.1.lenShippedPathBuffer = lenPathBuffer r.2.1.shippedLibstdcxxPath

/-- A search that starts without a buffer and without a descriptor. -/
theorem findShipped_settles {held : List Area} {addr : Nat}
    {r r' : ErrorCode × AuditState × Option (Nat × OpenFile)} (h : SearchOwns held r)
    (hnone : r.2.1.shippedLibstdcxxPath = none)
    (hfind : findShipped p (p.stringAt addr) p.originDir r.2.1 r.2.2 = .ok r') :
    SearchOwns held r' := by
  rcases findLibstdcxx_process (p := p) addr ⟨r.2.1.calls, r.2.2⟩ with ⟨result, hresult, hview⟩
  unfold findShipped at hfind
  rw [hresult, ok_bind] at hfind
  rw [← Except.ok.inj hfind]
  -- The search starts without a buffer of its own.
  have hbuffer := h.buffer
  rw [hnone, Option.map_none] at hbuffer
  have hsettles := tryPaths_settles (pathOps_logs (p := p))
    ((sections (p.stringAt addr)).map (expand p.originDir)) hbuffer
  have hfds := tryPaths_fd (p := p) ((sections (p.stringAt addr)).map (expand p.originDir)) none _
    h.fd (h.nothing hnone)
  rw [← hview] at hsettles hfds
  simp only [DtPathResult.view, Option.map_map] at hsettles hfds
  refine ⟨hsettles, hfds.1, fun hfound => hfds.2 ?_, rfl⟩
  rw [show result.buffer = none from hfound]
  rfl

/-- The search in `DT_RPATH`, if there is anything left to search for. -/
theorem searchRpath_settles {held : List Area} {list : List Path} {rpath : Nat} {s : AuditState}
    {r r' : ErrorCode × AuditState × Option (Nat × OpenFile)} (h : SearchOwns held r)
    (houtcome : Outcome p list s r) (hsearch : searchRpath p rpath p.originDir r = .ok r') :
    SearchOwns held r' := by
  unfold searchRpath at hsearch
  by_cases hfound : r.1 = .success
  · rw [if_pos hfound] at hsearch
    rw [← Except.ok.inj hsearch]
    exact h
  · rw [if_neg hfound] at hsearch
    -- Nothing was found, so there is no buffer to lose.
    rcases houtcome.2 with ⟨hsuccess, _⟩ | ⟨_, hnone, _⟩
    · exact absurd hsuccess hfound
    · exact findShipped_settles h hnone hsearch

/-- Both searches leave the buffer and the descriptor of what was found. -/
theorem searchRunPaths_settles {held : List Area} {paths : RunPaths} {s : AuditState}
    {r : ErrorCode × AuditState × Option (Nat × OpenFile)}
    (h : SearchOwns held (.fatalError, s, none)) (hnone : s.shippedLibstdcxxPath = none)
    (hsearch : searchRunPaths p paths p.originDir s = .ok r) : SearchOwns held r := by
  unfold searchRunPaths at hsearch
  by_cases hempty : p.stringAt paths.runpath = []
  · rw [if_neg (not_not_intro hempty)] at hsearch
    have houtcome : Outcome p [] s (.fatalError, s, none) :=
      ⟨rfl, Or.inr ⟨rfl, hnone, fun _ => rfl⟩⟩
    exact searchRpath_settles h houtcome hsearch
  · rw [if_pos hempty] at hsearch
    rcases findShipped_spec (p := p) paths.runpath s none with ⟨r₁, hr₁, houtcome⟩
    rw [hr₁, ok_bind] at hsearch
    exact searchRpath_settles (findShipped_settles h hnone hr₁) houtcome hsearch

end Search

/-! ### `la_version` -/

section Init

variable {p : Process} {fuel : Nat} {s t : AuditState} {copy : Area}

/-- The globals keep the length of the buffer. -/
theorem heldBy_eq (hlen : s.lenShippedPathBuffer = lenPathBuffer s.shippedLibstdcxxPath) :
    heldBy s = (s.shippedLibstdcxxPath.map PathBuffer.area).toList := by
  unfold heldBy
  rw [hlen]
  cases s.shippedLibstdcxxPath with
  | none => rfl
  | some b => rfl

/-- The copy comes after the buffer, and without it the buffer is left. -/
theorem heldBy_erase (copy : Area) (s : AuditState) :
    (heldBy s ++ [copy]).erase copy = heldBy s := by
  unfold heldBy
  cases s.shippedLibstdcxxPath with
  | none => exact List.erase_cons_head copy []
  | some b =>
      change List.erase [⟨b.addr, s.lenShippedPathBuffer⟩, copy] copy = [_]
      by_cases hb : (⟨b.addr, s.lenShippedPathBuffer⟩ : Area) = copy
      · rw [hb, List.erase_cons_head]
        exact congrArg (fun a => [a]) hb.symm
      · rw [List.erase_cons_tail (by simpa using hb), List.erase_cons_head]

/-- What is held while the copy of the path of the executable is. -/
def HoldsCopy (copy : Area) (s : AuditState) : Prop :=
  Owns s.calls (heldBy s ++ [copy]) []

/-- The copy is missed if it is not given back. -/
theorem HoldsCopy.not_settled (h : HoldsCopy copy s) : ¬ LedgerSettled s := by
  intro hsettled
  have hsame := Option.some.inj (h.maps.symm.trans hsettled.maps)
  have hlen := congrArg List.length hsame
  rw [List.length_append, List.length_singleton] at hlen
  omega

/-- Giving back the copy settles the ledger, and giving back anything else of
    its length does not. -/
theorem HoldsCopy.munmap_iff (h : HoldsCopy copy s) (addr : Nat) :
    LedgerSettled (s.call (.munmap addr copy.len)) ↔ addr = copy.addr := by
  -- The call releases one mapping, on top of everything before it.
  have hentries : settle [] (mapEntries (s.calls ++ [.munmap addr copy.len])) =
      settle (heldBy s ++ [copy]) [Entry.release (⟨addr, copy.len⟩ : Area)] := by
    rw [mapEntries_append, settle_append_of_some h.maps]
    rfl
  constructor
  · intro hsettled
    have hmaps := hentries.symm.trans hsettled.maps
    change _ = some (heldBy s) at hmaps
    by_cases hheld : (⟨addr, copy.len⟩ : Area) ∈ heldBy s ++ [copy]
    · rw [settle_release hheld, settle_nil] at hmaps
      by_contra hne
      have hother : (⟨addr, copy.len⟩ : Area) ≠ copy := fun hc => hne (congrArg Area.addr hc)
      -- The copy is still there, on top of what the globals hold.
      have hcount := congrArg (List.count copy) (Option.some.inj hmaps)
      rw [List.count_erase_of_ne hother.symm, List.count_append, List.count_singleton_self]
        at hcount
      omega
    · rw [settle_release_foreign hheld] at hmaps
      cases hmaps
  · intro haddr
    have hcopy : (⟨addr, copy.len⟩ : Area) = copy := by rw [haddr]
    have hmem : copy ∈ heldBy s ++ [copy] := List.mem_append_right _ List.mem_cons_self
    have herase := heldBy_erase copy s
    have howns := h.munmap addr copy.len (by rw [hcopy]; exact hmem)
    rw [hcopy, herase] at howns
    exact howns

/-- Taking down the version closes the descriptor, and gives the buffer back if
    there is no version. -/
theorem recordVersion_holds {fd : Option (Nat × OpenFile)} {b : PathBuffer}
    (h : Owns s.calls (heldBy s ++ [copy]) (fd.toList.map Prod.fst))
    (hb : s.shippedLibstdcxxPath = some b) (hrecord : recordVersion fuel s fd = .ok t) :
    HoldsCopy copy t := by
  cases fd with
  | none => cases hrecord
  | some fd =>
      rcases (bind_eq_ok _ _ _).mp hrecord with ⟨r, hr, hrecord⟩
      -- Reading closes the descriptor, whatever comes of it.
      have hread : Owns (s.calls ++ r.calls) (heldBy s ++ [copy]) [] := h.version hr
      rw [← Except.ok.inj hrecord]
      unfold AuditState.recordShipped
      by_cases herr : r.error = .success
      · simp only [herr, ne_eq, not_true_eq_false, if_false]
        exact hread
      · simp only [herr, ne_eq, not_false_eq_true, if_true, AuditState.unmapShipped, hb]
        rw [heldBy_some hb] at hread
        have howns := hread.munmap b.addr s.lenShippedPathBuffer List.mem_cons_self
        rw [List.singleton_append, List.erase_cons_head] at howns
        exact howns

/-- Every way out that comes after the search gives back what `dirname`
    returned, with the length of the copy. -/
theorem initShipped_holds {paths : RunPaths} {origin : Nat × Path}
    (hlen : copy.len = p.execfn.length) (hstart : SearchOwns [copy] (.fatalError, s, none))
    (hnone : s.shippedLibstdcxxPath = none) (hdir : origin.2 = p.originDir)
    (herr : paths.error = .success)
    (h : initShipped p fuel paths origin s = .ok t) :
    ∃ u, HoldsCopy copy u ∧ t = u.call (.munmap origin.1 copy.len) := by
  unfold initShipped at h
  rw [if_neg (not_not_intro herr), hdir, ← hlen] at h
  rcases searchRunPaths_spec (p := p) paths s hnone with ⟨r, hr, _, houtcome⟩
  have howns := searchRunPaths_settles hstart hnone hr
  rw [hr, ok_bind] at h
  -- After the search the copy, the buffer and the descriptor are held.
  have hheld : Owns r.2.1.calls (heldBy r.2.1 ++ [copy]) (r.2.2.toList.map Prod.fst) :=
    ⟨by rw [heldBy_eq howns.len]; exact howns.buffer.settled, howns.fd⟩
  rcases houtcome with ⟨hfound, b, n, file, hb, hfd, _, _⟩ | ⟨hfound, hb, _⟩
  · simp only [hfound, ne_eq, not_true_eq_false, if_false] at h
    rcases (bind_eq_ok _ _ _).mp h with ⟨u, hu, h⟩
    exact ⟨u, recordVersion_holds hheld hb hu, (Except.ok.inj h).symm⟩
  · simp only [hfound, ne_eq, reduceCtorEq, not_false_eq_true, if_true] at h
    rw [unmapShipped_none hb] at h
    rw [howns.nothing hb] at hheld
    exact ⟨r.2.1, hheld, (Except.ok.inj h).symm⟩

/-- There is a `DT_RUNPATH` or a `DT_RPATH`. -/
def HasRunPath (p : Process) : Prop :=
  ∃ d ∈ p.dynamic, d.dTag = dtRunpath ∨ d.dTag = dtRpath

/-- The run paths are handed back without an error when there is one of them. -/
theorem runPaths_success {r : RunPaths}
    (h : getParentExecutableRunpathRpath p.wordBits p.dynamicAt p.phdrAddr p.phdr p.noPathAddr
      p.noPathAddr = .ok r) : r.error = .success ↔ HasRunPath p := by
  rw [getParentExecutableRunpathRpath_eq h]
  exact error_eq_success p.dynamic

/-- `dirname` returns the copy, or its own `"."` if it finds no directory there. -/
theorem origin_addr {addr : Nat} {r : Nat × Path} (h : p.origin addr = .ok r)
    (hdot : addr ≠ p.dotAddr) : r.1 = addr ↔ dirname p.execfn ≠ none := by
  unfold Process.origin at h
  by_cases hpage : p.execfn.length % p.pageSize = 0
  · rw [if_pos hpage] at h
    cases h
  · rw [if_neg hpage] at h
    cases hdir : dirname p.execfn with
    | none =>
        rw [hdir] at h
        rw [← Except.ok.inj h]
        exact iff_of_false hdot.symm fun hc => hc rfl
    | some dir =>
        rw [hdir] at h
        rw [← Except.ok.inj h]
        exact iff_of_true rfl (Option.some_ne_none dir)

/-- `la_version` leaves nothing behind but what the globals hold, if there was
    nothing to begin with, or if it comes to give back the copy. -/
theorem laVersion_settled_iff (hdot : p.mmapAnon [] p.execfn.length ≠ some p.dotAddr)
    (h : laVersion p fuel {} = .ok s) :
    LedgerSettled s ↔
      p.mmapAnon [] p.execfn.length = none ∨ (dirname p.execfn ≠ none ∧ HasRunPath p) := by
  have h := ((require_bind_eq_ok _ _ _).mp h).2
  cases hmmap : p.mmapAnon [] p.execfn.length with
  | none =>
      simp only [hmmap] at h
      rw [← Except.ok.inj h]
      exact iff_of_true ⟨rfl, rfl⟩ (Or.inl rfl)
  | some originLocal =>
      simp only [hmmap] at h
      rcases (bind_eq_ok _ _ _).mp h with ⟨origin, horigin, h⟩
      rcases (bind_eq_ok _ _ _).mp h with ⟨paths, hpaths, h⟩
      have haddr := origin_addr horigin fun hc => hdot (by rw [hmmap, hc])
      have hsuccess := runPaths_success hpaths
      set s₀ : AuditState := AuditState.call {} (.mmap originLocal p.execfn.length) with hs₀
      -- Before the search the copy is all that is held.
      have hstart : SearchOwns [⟨originLocal, p.execfn.length⟩] (.fatalError, s₀, none) := by
        refine ⟨⟨rfl, ?_⟩, rfl, fun _ => rfl, rfl⟩
        have hnone : AtMost 2 ([] : List Area) [] := atMost_nil (Nat.zero_le 2)
        exact hnone.concat rfl (Nat.le_succ _)
      simp only [reduceCtorEq, false_or]
      by_cases herr : paths.error = .success
      · rcases initShipped_holds rfl hstart rfl (origin_eq_ok horigin) herr h with ⟨u, hu, rfl⟩
        rw [hu.munmap_iff origin.1, haddr]
        exact ⟨fun hdir => ⟨hdir, hsuccess.mp herr⟩, fun hboth => hboth.1⟩
      · -- Without run paths the function returns before it gives the copy back.
        unfold initShipped at h
        rw [if_pos herr] at h
        have hcopy : HoldsCopy ⟨originLocal, p.execfn.length⟩ s := by
          rw [← Except.ok.inj h]
          exact ⟨rfl, rfl⟩
        exact iff_of_false hcopy.not_settled fun hboth => herr (hsuccess.mpr hboth.2)

end Init

/-! ### The Later Calls -/

section Hooks

variable {p : Process} {fuel flag : Nat} {name : Path} {s s' t : AuditState} {a : Answer}

/-- A comparison hands out nothing but the buffer, and makes no call. -/
theorem compareSystem_keeps (b : PathBuffer) (r : VersionResult) (s : AuditState) :
    (compareSystem b r s).2.calls = s.calls ∧ heldBy (compareSystem b r s).2 = heldBy s ∧
      ∀ b', (compareSystem b r s).1 = .shipped b' → b' = b := by
  unfold compareSystem
  by_cases hclass : r.error = .nonFatalError
  · rw [if_pos hclass]
    exact ⟨rfl, rfl, fun b' => Answer.noConfusion⟩
  · rw [if_neg hclass]
    by_cases hlower : r.glibcxxVersion < s.shippedGlibcxxVersion
    · rw [if_pos hlower]
      exact ⟨rfl, rfl, fun b' hb' => (Answer.shipped.inj hb').symm⟩
    · rw [if_neg hlower]
      exact ⟨rfl, rfl, fun b' => Answer.noConfusion⟩

/-- `la_objsearch` closes what it opens, and hands out nothing but the buffer. -/
theorem laObjsearch_settled (h : LedgerSettled s)
    (hcall : laObjsearch p fuel name flag s = .ok (a, s')) :
    LedgerSettled s' ∧ ∀ b, a = .shipped b → s.shippedLibstdcxxPath = some b := by
  by_cases hex : s.Active ∧ ∃ file, Examines p name flag file
  · rcases hex with ⟨⟨hpath, hvalid⟩, file, hex⟩
    rcases Option.ne_none_iff_exists'.mp hpath with ⟨b, hb⟩
    rw [laObjsearch_reads hb hvalid hex] at hcall
    rcases (bind_eq_ok _ _ _).mp hcall with ⟨r, hr, hcall⟩
    have hcall := Except.ok.inj hcall
    rcases compareSystem_keeps b r { s with
      calls := s.calls ++ .openFile name (p.nextFd s.calls) :: r.calls } with ⟨hcalls, hheld, hans⟩
    rw [hcall] at hcalls hheld hans
    refine ⟨?_, fun b' hb' => ?_⟩
    · -- The file is opened, and closed by the reader.
      have howns := (Owns.openFile h name (p.nextFd s.calls)).version hr
      rw [List.append_assoc, List.singleton_append] at howns
      unfold LedgerSettled
      rw [hcalls, hheld]
      exact howns
    · rw [hb, hans b' hb']
  · have hnone : s.Active → ∀ file, ¬ Examines p name flag file :=
      fun hactive file hc => hex ⟨hactive, file, hc⟩
    rw [laObjsearch_passes hnone] at hcall
    rcases Prod.ext_iff.mp (Except.ok.inj hcall) with ⟨ha, hs'⟩
    simp only at ha hs'
    rw [← hs', ← ha]
    refine ⟨h, fun b hb => ?_⟩
    -- A call that looks at no file hands out no path.
    by_cases hnull : s.Active ∧ libstdcxxRelPath <:+ name ∧ flag = laSerRunpath
    · rw [if_pos hnull] at hb
      cases hb
    · rw [if_neg hnull] at hb
      cases hb

/-- `la_activity` gives back what the globals hold, or does nothing. -/
theorem laActivity_settled (h : LedgerSettled s) : LedgerSettled (laActivity flag s) := by
  unfold laActivity
  cases hb : s.shippedLibstdcxxPath with
  | none => exact h
  | some b =>
      simp only
      by_cases hflag : flag = laActConsistent
      · rw [if_pos hflag]
        unfold LedgerSettled at h
        rw [heldBy_some hb] at h
        have howns := h.munmap b.addr s.lenShippedPathBuffer List.mem_cons_self
        rw [List.erase_cons_head] at howns
        exact howns
      · rw [if_neg hflag]
        exact h

/-- A consistent state leaves no path. -/
theorem laActivity_consistent (s : AuditState) :
    (laActivity laActConsistent s).shippedLibstdcxxPath = none := by
  unfold laActivity
  cases hb : s.shippedLibstdcxxPath with
  | none => exact hb
  | some b => rfl

/-- Every call keeps the ledgers. -/
theorem hook_settled {call : HookCall} (h : LedgerSettled s) (hstep : hook p fuel s call = .ok s') :
    LedgerSettled s' := by
  cases call with
  | objsearch name flag =>
      rcases (bind_eq_ok _ _ _).mp hstep with ⟨r, hr, hs'⟩
      rw [← Except.ok.inj hs']
      exact (laObjsearch_settled h hr).1
  | activity flag =>
      rw [← Except.ok.inj hstep]
      exact laActivity_settled h

/-- Every run of calls keeps the ledgers, and behind a consistent state there is
    no path. -/
theorem runs_settled {hooks : List HookCall} (h : LedgerSettled s)
    (hrun : Runs (hook p fuel) hooks s t) :
    LedgerSettled t ∧ (.activity laActConsistent ∈ hooks → t.shippedLibstdcxxPath = none) := by
  refine Runs.invariant (fun hooks t => LedgerSettled t ∧
    (.activity laActConsistent ∈ hooks → t.shippedLibstdcxxPath = none)) ?_
    ⟨h, fun hmem => absurd hmem List.not_mem_nil⟩ hrun
  rintro before u call u' ⟨hsettled, hnone⟩ hstep
  refine ⟨hook_settled hsettled hstep, fun hmem => ?_⟩
  -- Behind a consistent state the path stays away.
  rcases List.mem_append.mp hmem with hbefore | hlast
  · rw [hook_inactive (hnone hbefore)] at hstep
    rw [← Except.ok.inj hstep]
    exact hnone hbefore
  · rw [← List.mem_singleton.mp hlast] at hstep
    rw [← Except.ok.inj hstep]
    exact laActivity_consistent u

/-- The ledgers are kept after `la_version` and every later call: they say what
    the globals say, `la_objsearch` hands out no buffer but the one that is
    mapped, and nothing is mapped behind a consistent state. -/
structure LedgerKept (p : Process) (s : AuditState) : Prop where
  settled : LedgerSettled s
  runs : ∀ fuel hooks t, Runs (hook p fuel) hooks s t → LedgerSettled t
  answers : ∀ fuel hooks t name flag b t', Runs (hook p fuel) hooks s t →
    laObjsearch p fuel name flag t = .ok (.shipped b, t') →
    heldBy t = [⟨b.addr, t.lenShippedPathBuffer⟩]
  consistent : ∀ fuel hooks t, .activity laActConsistent ∈ hooks →
    Runs (hook p fuel) hooks s t → Owns t.calls [] []

/-- What holds of `la_version` holds of everything after it. -/
theorem LedgerSettled.kept (h : LedgerSettled s) : LedgerKept p s where
  settled := h
  runs _ _ _ hrun := (runs_settled h hrun).1
  answers _ _ _ _ _ b _ hrun hcall :=
    heldBy_some ((laObjsearch_settled (runs_settled h hrun).1 hcall).2 b rfl)
  consistent _ _ t hmem hrun := by
    rcases runs_settled h hrun with ⟨hsettled, hnone⟩
    unfold LedgerSettled heldBy at hsettled
    rw [hnone hmem] at hsettled
    exact hsettled

end Hooks

/-- The ledger is kept when the kernel grants no copy of the path of the
    executable, or `dirname` cuts the path off in place and the executable has a
    run path. The kernel maps nothing where `dirname` keeps its `"."`. -/
theorem ledgerKept_iff (p : Process) (hdot : p.mmapAnon [] p.execfn.length ≠ some p.dotAddr)
    (fuel : Nat) (s : AuditState) (h : laVersion p fuel {} = .ok s) :
    LedgerKept p s ↔
      p.mmapAnon [] p.execfn.length = none ∨ (dirname p.execfn ≠ none ∧ HasRunPath p) := by
  rw [← laVersion_settled_iff hdot h]
  exact ⟨LedgerKept.settled, LedgerSettled.kept⟩

theorem sampleInit_kept : sampleProcess.mmapAnon [] sampleProcess.execfn.length ≠
      some sampleProcess.dotAddr ∧ LedgerKept sampleProcess sampleInit := by
  have hdot : sampleProcess.mmapAnon [] sampleProcess.execfn.length ≠
      some sampleProcess.dotAddr := by decide +kernel
  refine ⟨hdot, (ledgerKept_iff sampleProcess hdot 2 sampleInit sampleProcess_init).mpr ?_⟩
  refine Or.inr ⟨by decide +kernel, ⟨dtRunpath, 1⟩, by decide +kernel, Or.inl rfl⟩

/-- The sample process, started by a name without a slash. -/
def bareNameProcess : Process :=
  { sampleProcess with
    execfn := pathOf "app"
    execfn_noZero := by decide
    strings_fit := by
      intro a
      have hroom := sampleProcess.strings_fit a
      change 8 + _ + 32 < _ at hroom
      change 3 + _ + 32 < _
      omega }

/-- What `la_version` leaves behind there. -/
def bareNameInit : AuditState where
  calls := [.mmap 0x10000 3, .mmap 0x20000 24, .munmap 0x20000 24, .munmap 0x4000 3]

/-- `munmap` gets the address of the static `"."`, and the copy stays mapped. -/
theorem bareName_not_kept : laVersion bareNameProcess 2 {} = .ok bareNameInit ∧
    ¬ LedgerKept bareNameProcess bareNameInit := by
  refine ⟨by decide +kernel, fun hkept => ?_⟩
  have hforeign : settle [] (mapEntries bareNameInit.calls) = none := by decide
  rw [hkept.settled.maps] at hforeign
  cases hforeign

end AuditLibstdcxx
