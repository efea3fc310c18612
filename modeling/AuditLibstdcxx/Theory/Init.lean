import AuditLibstdcxx.Core.Audit
import AuditLibstdcxx.Theory.DtPath
import AuditLibstdcxx.Theory.Reading
import AuditLibstdcxx.Theory.Reference
import AuditLibstdcxx.Theory.RunPaths

/-!
# Finding the Shipped Library

What `la_version` leaves behind. The search list of a process is read off its
dynamic array and its file name, and the shipped library is the first file of
that list which can be opened. The globals are set together or not at all: to
its path and version if the file has one, and to no path and the invalid
version in every other case.

## Main definitions

* `Process.MmapSucceeds`: The kernel grants every mapping asked for.
* `Process.searchList`: The paths to try.
* `Process.firstOpenable`: The first path that can be opened, and its file.
* `Outcome`: What a search leaves behind.

## Theorems

* `getParentExecutableRunpathRpath_eq`: What is handed back, by the dynamic array.
* `getParentExecutableRunpathRpath_spec`: The run paths of the dynamic array.
* `tryPaths_spec`: A search stops at the first path that can be opened.
* `searchRunPaths_spec`: Both searches make up one along the whole list.
* `laVersion_spec`: The globals are set together or not at all.
* `laVersion_pair`: They are those of the first file that can be opened.
-/

namespace AuditLibstdcxx

open Checked CString

section Process

variable (p : Process)

/-- The kernel grants a mapping for the path of the executable, and every
    mapping of a length that is not zero. -/
def Process.MmapSucceeds : Prop :=
  ∀ calls len, len = p.execfn.length ∨ 0 < len → ∃ addr, p.mmapAnon calls len = some addr

/-- The directory of the executable. -/
def Process.originDir : Path :=
  (dirname p.execfn).getD ['.'.toUInt8]

/-- The entries of the dynamic array, none if the executable has no such array. -/
def Process.dynamic : List Dyn :=
  match p.phdr.find? (fun h => h.pType = ptDynamic) with
  | none => []
  | some h => (p.dynamicAt ((baseAddress p.wordBits p.phdrAddr p.phdr + h.pVaddr) %
      2 ^ p.wordBits)).takeWhile (fun d => d.dTag ≠ dtNull)

/-- The run path under a tag, empty if there is none. -/
def Process.runPath (tag : Int) : List UInt8 :=
  ((pathAddr p.wordBits ((lastValue p.dynamic dtStrtab).getD 0) p.dynamic tag).map
    p.stringAt).getD []

/-- The paths to try: those of `DT_RUNPATH`, then those of `DT_RPATH`. -/
def Process.searchList : List Path :=
  (sections (p.runPath dtRunpath) ++ sections (p.runPath dtRpath)).map (expand p.originDir)

/-- The first path that can be opened, and its file. -/
def Process.firstOpenable (list : List Path) : Option (Path × OpenFile) :=
  list.findSome? fun path => (p.files path).map fun file => (path, file)

variable {p}

theorem Process.firstOpenable_cons (path : Path) (list : List Path) :
    p.firstOpenable (path :: list) =
      ((p.files path).map fun file => (path, file)).or (p.firstOpenable list) := by
  unfold Process.firstOpenable
  rw [List.findSome?_cons]
  cases p.files path with
  | none => rfl
  | some file => rfl

theorem Process.firstOpenable_append (l l' : List Path) :
    p.firstOpenable (l ++ l') = (p.firstOpenable l).or (p.firstOpenable l') :=
  List.findSome?_append

theorem originDir_noZero : 0 ∉ p.originDir := by
  unfold Process.originDir
  cases h : dirname p.execfn with
  | none =>
      rw [Option.getD_none]
      decide
  | some dir =>
      rw [Option.getD_some]
      exact fun hc => p.execfn_noZero ((dirname_isPrefix h).subset hc)

theorem originDir_length : p.originDir.length ≤ p.execfn.length + 1 := by
  unfold Process.originDir
  cases h : dirname p.execfn with
  | none =>
      rw [Option.getD_none, List.length_singleton]
      omega
  | some dir =>
      rw [Option.getD_some]
      have := (dirname_isPrefix h).length_le
      omega

/-- A directory that came through is the one of the executable. -/
theorem origin_eq_ok {addr : Nat} {r : Nat × Path} (h : p.origin addr = .ok r) :
    r.2 = p.originDir := by
  unfold Process.origin at h
  by_cases hpage : p.execfn.length % p.pageSize = 0
  · rw [if_pos hpage] at h
    cases h
  · rw [if_neg hpage] at h
    unfold Process.originDir
    cases hdir : dirname p.execfn with
    | none =>
        rw [hdir] at h
        rw [← Except.ok.inj h, Option.getD_none]
    | some dir =>
        rw [hdir] at h
        rw [← Except.ok.inj h, Option.getD_some]

end Process

section Search

variable {p : Process}

/-- What a search along a list of paths leaves behind: a buffer with a path
    that can be opened, and a descriptor of its file, or nothing. If the kernel
    grants every mapping, the path is the first that can be opened. -/
def Outcome (p : Process) (list : List Path) (s : AuditState)
    (r : ErrorCode × AuditState × Option (Nat × OpenFile)) : Prop :=
  r.2.1.shippedGlibcxxVersion = s.shippedGlibcxxVersion ∧
  ((r.1 = .success ∧ ∃ b n file, r.2.1.shippedLibstdcxxPath = some b ∧ r.2.2 = some (n, file) ∧
      p.files b.path = some file ∧
      (p.MmapSucceeds → p.firstOpenable list = some (b.path, file))) ∨
    (r.1 = .fatalError ∧ r.2.1.shippedLibstdcxxPath = none ∧
      (p.MmapSucceeds → p.firstOpenable list = none)))

theorem pathOps_mmap {len addr : Nat} {world : SearchState}
    (h : p.mmapAnon world.calls len = some addr) : p.pathOps.mmap len world =
      (some addr, { world with calls := world.calls ++ [.mmap addr len] }) := by
  unfold Process.pathOps
  simp only [h]

/-- A search that is granted its mappings always has an area for a path. -/
theorem reserveArea_some (hmmap : p.MmapSucceeds) (n : Nat) (area : Option Area)
    (world : SearchState) : (reserveArea p.pathOps (n + 1) area world).1 ≠ none := by
  rcases hmmap (releaseArea p.pathOps area world).calls (n + 1) (Or.inr (Nat.succ_pos n)) with
    ⟨addr, haddr⟩
  refine reserveArea_ne_none ?_
  rw [pathOps_mmap haddr]
  exact Option.some_ne_none addr

/-- A path under which there is no file is rejected. -/
theorem trypath_missing {path : Path} (h : p.files path = none) (world : SearchState) :
    p.pathOps.trypath path world = (.fatalError, world) := by
  simp only [Process.pathOps, Process.trypath, h]

/-- A path with a file is accepted, and its file is left open. -/
theorem trypath_opens {path : Path} {file : OpenFile} (h : p.files path = some file)
    (world : SearchState) : p.pathOps.trypath path world = (.success,
      ⟨world.calls ++ [.openFile path (p.nextFd world.calls)],
        some (p.nextFd world.calls, file)⟩) := by
  simp only [Process.pathOps, Process.trypath, h]

/-- A search stops at the first path that can be opened. -/
theorem tryPaths_spec (list : List Path) (area : Option Area) (world : SearchState) :
    ((tryPaths p.pathOps list area world).error = .success ∧ ∃ a path n file,
      (tryPaths p.pathOps list area world).found = some (a, path) ∧
      (tryPaths p.pathOps list area world).world.fd = some (n, file) ∧
      p.files path = some file ∧
      (p.MmapSucceeds → p.firstOpenable list = some (path, file))) ∨
    ((tryPaths p.pathOps list area world).error = .fatalError ∧
      (tryPaths p.pathOps list area world).found = none ∧
      (p.MmapSucceeds → p.firstOpenable list = none)) := by
  induction list generalizing area world with
  | nil => exact Or.inr ⟨rfl, rfl, fun _ => rfl⟩
  | cons path list ih =>
      unfold tryPaths
      rcases hreserve : reserveArea p.pathOps (path.length + 1) area world with ⟨area', world'⟩
      cases area' with
      | none =>
          -- Without an area the search fails, which a granted mapping rules out.
          refine Or.inr ⟨rfl, rfl, fun hmmap => ?_⟩
          exact absurd (by rw [hreserve]) (reserveArea_some hmmap path.length area world)
      | some a =>
          rw [Process.firstOpenable_cons]
          cases hfile : p.files path with
          | none =>
              -- The file cannot be opened, so the first that can is further on.
              simp only [trypath_missing hfile, reduceCtorEq, if_false, Option.map_none,
                Option.none_or]
              exact ih (some a) world'
          | some file =>
              -- The file is opened, and the search is over.
              simp only [trypath_opens hfile, if_true, Option.map_some, Option.some_or]
              exact Or.inl ⟨trivial, a, path, _, file, rfl, rfl, hfile, fun _ => rfl⟩

/-- The function, on the strings of the process, is a search along its paths. -/
theorem findLibstdcxx_process (addr : Nat) (world : SearchState) :
    ∃ r, findLibstdcxxFromDtPath p.wordBits p.pathOps (p.stringAt addr) p.originDir world =
        .ok r ∧
      r.view = tryPaths p.pathOps ((sections (p.stringAt addr)).map (expand p.originDir)) none
        world := by
  -- The strings lie in one address space, so the path of a section has room.
  have hlen := originDir_length (p := p)
  have hroom := p.strings_fit addr
  have hfit : p.originDir.length + (p.stringAt addr).length + lenLibstdcxxRelPath + 1 <
      2 ^ p.wordBits := by
    unfold lenLibstdcxxRelPath Process.wordBits
    omega
  exact findLibstdcxxFromDtPath_eq (p.stringAt_noZero addr) originDir_noZero hfit p.pathOps world

/-- One search, with the globals it writes to. -/
theorem findShipped_spec (addr : Nat) (s : AuditState) (fd : Option (Nat × OpenFile)) :
    ∃ r, findShipped p (p.stringAt addr) p.originDir s fd = .ok r ∧
      Outcome p ((sections (p.stringAt addr)).map (expand p.originDir)) s r := by
  rcases findLibstdcxx_process (p := p) addr ⟨s.calls, fd⟩ with ⟨r, hr, hview⟩
  refine ⟨_, by unfold findShipped; rw [hr, ok_bind]; rfl, rfl, ?_⟩
  have hspec := tryPaths_spec (p := p) ((sections (p.stringAt addr)).map (expand p.originDir)) none
    ⟨s.calls, fd⟩
  rw [← hview] at hspec
  rcases hspec with ⟨herr, a, path, n, file, hfound, hfd, hfile, hfirst⟩ | ⟨herr, hfound, hfirst⟩
  · rcases Option.map_eq_some_iff.mp hfound with ⟨b, hb, hpath⟩
    have hbpath : b.path = path := (Prod.ext_iff.mp hpath).2
    rw [← hbpath] at hfile hfirst
    exact Or.inl ⟨herr, b, n, file, hb, hfd, hfile, hfirst⟩
  · exact Or.inr ⟨herr, Option.map_eq_none_iff.mp hfound, hfirst⟩

/-- The search in `DT_RPATH` takes over where the one in `DT_RUNPATH` ended. -/
theorem searchRpath_spec {list : List Path} {s : AuditState}
    {r : ErrorCode × AuditState × Option (Nat × OpenFile)} (h : Outcome p list s r)
    (rpath : Nat) : ∃ r', searchRpath p rpath p.originDir r = .ok r' ∧
      Outcome p (list ++ (sections (p.stringAt rpath)).map (expand p.originDir)) s r' := by
  unfold searchRpath
  rcases h with ⟨hversion, ⟨herr, b, n, file, hb, hfd, hfile, hfirst⟩ | ⟨herr, _, hfirst⟩⟩
  · -- A file was found, and the second search is not made.
    refine ⟨r, by rw [if_pos herr]; rfl, hversion, Or.inl ⟨herr, b, n, file, hb, hfd, hfile, ?_⟩⟩
    intro hmmap
    rw [Process.firstOpenable_append, hfirst hmmap, Option.some_or]
  · -- Nothing was found, so the first openable path is one of the second list.
    rcases findShipped_spec (p := p) rpath r.2.1 r.2.2 with ⟨r', hr', hversion', houtcome⟩
    refine ⟨r', by rw [if_neg (by rw [herr]; decide), hr'], hversion'.trans hversion, ?_⟩
    have happend : p.MmapSucceeds → p.firstOpenable
        (list ++ (sections (p.stringAt rpath)).map (expand p.originDir)) =
        p.firstOpenable ((sections (p.stringAt rpath)).map (expand p.originDir)) := by
      intro hmmap
      rw [Process.firstOpenable_append, hfirst hmmap, Option.none_or]
    rcases houtcome with ⟨herr', b, n, file, hb, hfd, hfile, hfirst'⟩ | ⟨herr', hb, hfirst'⟩
    · refine Or.inl ⟨herr', b, n, file, hb, hfd, hfile, fun hmmap => ?_⟩
      rw [happend hmmap, hfirst' hmmap]
    · refine Or.inr ⟨herr', hb, fun hmmap => ?_⟩
      rw [happend hmmap, hfirst' hmmap]

/-- Both searches make up one along the whole list. -/
theorem searchRunPaths_spec (paths : RunPaths) (s : AuditState)
    (hnone : s.shippedLibstdcxxPath = none) :
    ∃ r, searchRunPaths p paths p.originDir s = .ok r ∧
      Outcome p ((sections (p.stringAt paths.runpath) ++ sections (p.stringAt paths.rpath)).map
        (expand p.originDir)) s r := by
  unfold searchRunPaths
  rw [List.map_append]
  by_cases hempty : p.stringAt paths.runpath = []
  · -- Without a `DT_RUNPATH` there is only the second search.
    rw [if_neg (not_not_intro hempty), hempty]
    exact searchRpath_spec ⟨rfl, Or.inr ⟨rfl, hnone, fun _ => rfl⟩⟩ paths.rpath
  · rw [if_pos hempty]
    rcases findShipped_spec (p := p) paths.runpath s none with ⟨r, hr, houtcome⟩
    rw [hr, ok_bind]
    exact searchRpath_spec houtcome paths.rpath

end Search

section Init

variable {p : Process}

/-- What is handed back, by the dynamic array: an error if it has neither tag,
    and for each tag it has the place of the last entry. -/
theorem getParentExecutableRunpathRpath_eq {r : RunPaths}
    (h : getParentExecutableRunpathRpath p.wordBits p.dynamicAt p.phdrAddr p.phdr p.noPathAddr
      p.noPathAddr = .ok r) :
    r = ⟨if lastValue p.dynamic dtRunpath = none ∧ lastValue p.dynamic dtRpath = none
        then .fatalError else .success,
      (pathAddr p.wordBits (strtabOf p.dynamic) p.dynamic dtRunpath).getD p.noPathAddr,
      (pathAddr p.wordBits (strtabOf p.dynamic) p.dynamic dtRpath).getD p.noPathAddr⟩ := by
  unfold getParentExecutableRunpathRpath at h
  have h := ((require_bind_eq_ok _ _ _).mp h).2
  unfold Process.dynamic
  cases hfind : p.phdr.find? (fun h => h.pType = ptDynamic) with
  | none =>
      -- An executable without a dynamic array is one whose array is empty.
      rw [hfind] at h
      exact (Except.ok.inj h).symm
  | some header =>
      rw [hfind] at h
      rcases (bind_eq_ok _ _ _).mp h with ⟨entries, hentries, hrest⟩
      have hr := ((require_bind_eq_ok _ _ _).mp hrest).2
      rw [recordRunPath_foldl, dynEntries_eq_ok hentries] at hr
      exact (Except.ok.inj hr).symm

/-- The run paths that are handed back are those of the dynamic array, and an
    error means that there is none. -/
theorem getParentExecutableRunpathRpath_spec {r : RunPaths}
    (h : getParentExecutableRunpathRpath p.wordBits p.dynamicAt p.phdrAddr p.phdr p.noPathAddr
      p.noPathAddr = .ok r) :
    p.stringAt r.runpath = p.runPath dtRunpath ∧ p.stringAt r.rpath = p.runPath dtRpath ∧
    (r.error ≠ .success → p.runPath dtRunpath = [] ∧ p.runPath dtRpath = []) := by
  -- An output that is not written keeps an address without a string.
  have hget : ∀ o : Option Nat, p.stringAt (o.getD p.noPathAddr) = (o.map p.stringAt).getD [] := by
    intro o
    cases o with
    | none => exact p.stringAt_noPath
    | some a => rfl
  rw [getParentExecutableRunpathRpath_eq h]
  unfold Process.runPath
  rw [← strtabOf_eq]
  refine ⟨hget _, hget _, fun herr => ?_⟩
  -- The error says that neither tag was found.
  by_cases hboth : lastValue p.dynamic dtRunpath = none ∧ lastValue p.dynamic dtRpath = none
  · simp only [pathAddr, hboth, Option.map_none, Option.getD_none, and_self]
  · exact absurd (if_neg hboth) herr

/-- Taking down the version of a file sets both globals or neither. -/
theorem recordVersion_spec {fuel n : Nat} {file : OpenFile} {s s' : AuditState} {b : PathBuffer}
    (hb : s.shippedLibstdcxxPath = some b)
    (h : recordVersion fuel s (some (n, file)) = .ok s') :
    (∃ v, Reads file (.version v) ∧ s'.shippedLibstdcxxPath = some b ∧
      s'.shippedGlibcxxVersion = v) ∨
    ((∀ v, ¬ Reads file (.version v)) ∧ s'.shippedLibstdcxxPath = none ∧
      s'.shippedGlibcxxVersion = invalidGlibcxxVersion) := by
  rcases (bind_eq_ok _ _ _).mp h with ⟨r, hr, hrecord⟩
  rcases reads_of_ok hr with ⟨x, hx, herr, hversion⟩
  rw [← Except.ok.inj hrecord]
  unfold AuditState.recordShipped
  by_cases hread : x.error = .success
  · -- Only a version goes without an error, and both globals are set.
    have hv : ∃ v, x = .version v := by
      cases x with
      | version v => exact ⟨v, rfl⟩
      | unreadable => cases hread
      | otherClass => cases hread
    rcases hv with ⟨v, rfl⟩
    simp only [herr, hversion, Reading.error, Reading.value, ne_eq, not_true_eq_false, if_false]
    exact Or.inl ⟨v, hx, hb, rfl⟩
  · simp only [herr, ne_eq, hread, not_false_eq_true, if_true, and_true]
    exact Or.inr (hx.not_version hread)

/-- The globals are those of a file that was read, or there is no shipped
    library. If the kernel grants every mapping, the file is the first of the
    search list that can be opened, and it is the only one that counts. -/
def Initialised (p : Process) (s : AuditState) : Prop :=
  (∃ b file v, s.shippedLibstdcxxPath = some b ∧ s.shippedGlibcxxVersion = v ∧
    p.files b.path = some file ∧ Reads file (.version v) ∧
    (p.MmapSucceeds → p.firstOpenable p.searchList = some (b.path, file))) ∨
  (s.shippedLibstdcxxPath = none ∧ s.shippedGlibcxxVersion = invalidGlibcxxVersion ∧
    (p.MmapSucceeds → ∀ path file v, p.firstOpenable p.searchList = some (path, file) →
      ¬ Reads file (.version v)))

/-- Nothing that can be opened leaves the globals as they were. -/
theorem Initialised.nothing {s : AuditState} (hpath : s.shippedLibstdcxxPath = none)
    (hversion : s.shippedGlibcxxVersion = invalidGlibcxxVersion)
    (hnone : p.MmapSucceeds → p.firstOpenable p.searchList = none) : Initialised p s := by
  refine Or.inr ⟨hpath, hversion, fun hmmap path file v hopen => ?_⟩
  rw [hnone hmmap] at hopen
  cases hopen

/-- Without a path there is nothing to unmap. -/
theorem unmapShipped_none {s : AuditState} (h : s.shippedLibstdcxxPath = none) :
    s.unmapShipped = s := by
  unfold AuditState.unmapShipped
  rw [h]

/-- What follows once the run paths are there. -/
theorem initShipped_spec {fuel : Nat} {paths : RunPaths} {origin : Nat × Path} {s s' : AuditState}
    (hpath : s.shippedLibstdcxxPath = none)
    (hversion : s.shippedGlibcxxVersion = invalidGlibcxxVersion)
    (hdir : origin.2 = p.originDir)
    (hrunpath : p.stringAt paths.runpath = p.runPath dtRunpath)
    (hrpath : p.stringAt paths.rpath = p.runPath dtRpath)
    (herror : paths.error ≠ .success → p.runPath dtRunpath = [] ∧ p.runPath dtRpath = [])
    (h : initShipped p fuel paths origin s = .ok s') : Initialised p s' := by
  unfold initShipped at h
  by_cases herr : paths.error = .success
  · rw [if_neg (not_not_intro herr), hdir] at h
    rcases searchRunPaths_spec (p := p) paths s hpath with ⟨r, hr, hkept, houtcome⟩
    rw [hr, ok_bind] at h
    rw [hrunpath, hrpath] at houtcome
    rcases houtcome with ⟨hfound, b, n, file, hb, hfd, hfile, hfirst⟩ | ⟨hfound, hb, hfirst⟩
    · simp only [hfound, ne_eq, not_true_eq_false, if_false, hfd] at h
      rcases (bind_eq_ok _ _ _).mp h with ⟨t, ht, h⟩
      rw [← Except.ok.inj h]
      rcases recordVersion_spec hb ht with ⟨v, hv, hpath', hrecorded⟩ | ⟨hv, hpath', hrecorded⟩
      · exact Or.inl ⟨b, file, v, hpath', hrecorded, hfile, hv, hfirst⟩
      · refine Or.inr ⟨hpath', hrecorded, fun hmmap path file' v hopen hread => ?_⟩
        -- The first file that can be opened is the one that was read.
        have hsame := Option.some.inj (hopen.symm.trans (hfirst hmmap))
        have hfile' : file' = file := (Prod.ext_iff.mp hsame).2
        rw [hfile'] at hread
        exact hv v hread
    · simp only [hfound, ne_eq, reduceCtorEq, not_false_eq_true, if_true] at h
      rw [← Except.ok.inj h]
      rw [unmapShipped_none hb]
      exact Initialised.nothing hb (hkept.trans hversion) hfirst
  · rw [if_pos herr] at h
    rw [← Except.ok.inj h]
    -- Without run paths there is nothing to search.
    refine Initialised.nothing hpath hversion fun _ => ?_
    rw [Process.searchList, (herror herr).1, (herror herr).2]
    rfl

/-- The globals are set together or not at all. -/
theorem laVersion_spec {fuel : Nat} {s : AuditState} (h : laVersion p fuel {} = .ok s) :
    Initialised p s := by
  have h := ((require_bind_eq_ok _ _ _).mp h).2
  cases hmmap : p.mmapAnon [] p.execfn.length with
  | none =>
      simp only [hmmap] at h
      refine Or.inr ⟨by rw [← Except.ok.inj h], by rw [← Except.ok.inj h], fun hsucceeds => ?_⟩
      -- This is the one mapping that was refused.
      rcases hsucceeds [] p.execfn.length (Or.inl rfl) with ⟨addr, haddr⟩
      rw [hmmap] at haddr
      cases haddr
  | some originLocal =>
      simp only [hmmap] at h
      rcases (bind_eq_ok _ _ _).mp h with ⟨origin, horigin, h⟩
      rcases (bind_eq_ok _ _ _).mp h with ⟨paths, hpaths, h⟩
      rcases getParentExecutableRunpathRpath_spec hpaths with ⟨hrunpath, hrpath, herror⟩
      exact initShipped_spec rfl rfl (origin_eq_ok horigin) hrunpath hrpath herror h

end Init

/-- With the kernel granting every mapping, `la_version` leaves the path and the
    version of the first file on the search list that can be opened, if its
    version can be read, and otherwise no path and the invalid version. -/
theorem laVersion_pair (p : Process) (hmmap : p.MmapSucceeds) (fuel : Nat) (s : AuditState)
    (h : laVersion p fuel {} = .ok s) :
    (∃ path file v, p.firstOpenable p.searchList = some (path, file) ∧
      Reads file (.version v) ∧ s.shippedLibstdcxxPath.map PathBuffer.path = some path ∧
      s.shippedGlibcxxVersion = v) ∨
    ((¬ ∃ path file v, p.firstOpenable p.searchList = some (path, file) ∧
        Reads file (.version v)) ∧
      s.shippedLibstdcxxPath = none ∧ s.shippedGlibcxxVersion = invalidGlibcxxVersion) := by
  rcases laVersion_spec h with ⟨b, file, v, hb, hv, hfile, hread, hfirst⟩ |
    ⟨hpath, hversion, hnone⟩
  · refine Or.inl ⟨b.path, file, v, hfirst hmmap, hread, ?_, hv⟩
    rw [hb, Option.map_some]
  · refine Or.inr ⟨?_, hpath, hversion⟩
    rintro ⟨path, file, v, hopen, hread⟩
    exact hnone hmmap path file v hopen hread

section Sample

/-- A library that defines `GLIBCXX_3.5`. -/
def newerLibrary : Image where
  target := ⟨.elf32, false⟩
  mapped := 0x20000
  bytes := sampleBytes 31 1
  nonempty := by decide +kernel
  fits := by decide +kernel
  offT := by decide +kernel

/-- The characters of a path. -/
def pathOf (s : String) : Path :=
  s.toList.map Char.toUInt8

/-- The library the sample process ships, of version 3.4. -/
def sampleShipped : Path :=
  pathOf "/opt/lib/libstdc++.so.6"

/-- A library of the system, of version 3.5. -/
def sampleNewer : Path :=
  pathOf "/usr/lib/libstdc++.so.6"

/-- Another library of the system, of version 3.4. -/
def sampleOlder : Path :=
  pathOf "/lib/libstdc++.so.6"

def sampleFiles (path : Path) : Option OpenFile :=
  if path = sampleShipped ∨ path = sampleOlder then some (.mapped (sampleLibrary false))
  else if path = sampleNewer then some (.mapped newerLibrary)
  else none

/-- A process that ships a library in a directory below that of its executable. -/
def sampleProcess : Process where
  target := ⟨.elf32, false⟩
  pageSize := 4096
  execfn := pathOf "/opt/app"
  phdrAddr := 0x1034
  phdr := [⟨ptPhdr, 0x34⟩, ⟨ptDynamic, 0x100⟩]
  dynamicAt a := if a = 0x1100 then [⟨dtRunpath, 1⟩, ⟨dtStrtab, 0x2000⟩, ⟨dtNull, 0⟩] else []
  stringAt a := if a = 0x2001 then pathOf "/missing::$ORIGIN/lib" else []
  files := sampleFiles
  mmapAnon calls _ := some (0x10000 * (calls.length + 1))
  nextFd _ := 3
  dotAddr := 0x4000
  noPathAddr := 0x5000
  pageSize_pos := by decide
  execfn_noZero := by decide
  stringAt_noZero := by
    intro a
    by_cases h : a = 0x2001
    · rw [if_pos h]
      decide
    · rw [if_neg h]
      exact List.not_mem_nil
  stringAt_noPath := if_neg (by decide)
  strings_fit := by
    intro a
    by_cases h : a = 0x2001
    · rw [if_pos h]
      decide
    · rw [if_neg h]
      decide
  files_target := by
    intro path m h
    unfold sampleFiles at h
    by_cases hold : path = sampleShipped ∨ path = sampleOlder
    · rw [if_pos hold] at h
      rw [← OpenFile.mapped.inj (Option.some.inj h)]
      rfl
    · rw [if_neg hold] at h
      by_cases hnew : path = sampleNewer
      · rw [if_pos hnew] at h
        rw [← OpenFile.mapped.inj (Option.some.inj h)]
        rfl
      · rw [if_neg hnew] at h
        cases h

/-- What `la_version` leaves behind in the sample process. -/
def sampleInit : AuditState where
  shippedGlibcxxVersion := 0x030400
  shippedLibstdcxxPath := some ⟨0x20000, sampleShipped ++ [0]⟩
  lenShippedPathBuffer := 24
  calls := [.mmap 0x10000 8, .mmap 0x20000 24, .openFile sampleShipped 3, .mmap 0x10000 252,
    .close 3, .munmap 0x10000 252, .munmap 0x10000 8]

theorem sampleProcess_init : laVersion sampleProcess 2 {} = .ok sampleInit := by
  decide +kernel

theorem sampleProcess_mmapSucceeds : sampleProcess.MmapSucceeds :=
  fun _ _ _ => ⟨_, rfl⟩

/-- The sample process ships a library of version 3.4. -/
theorem sampleProcess_pair : ∃ path file, sampleProcess.firstOpenable sampleProcess.searchList =
    some (path, file) ∧ Reads file (.version 0x030400) ∧ path = sampleShipped := by
  rcases laVersion_pair sampleProcess sampleProcess_mmapSucceeds 2 sampleInit sampleProcess_init
    with ⟨path, file, v, hopen, hread, hpath, hv⟩ | ⟨_, hpath, _⟩
  · rw [← hv] at hread
    refine ⟨path, file, hopen, hread, ?_⟩
    rw [← Option.some.inj hpath]
    decide
  · cases hpath

end Sample

end AuditLibstdcxx
