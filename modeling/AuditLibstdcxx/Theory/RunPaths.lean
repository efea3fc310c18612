import AuditLibstdcxx.Core.Phdr
import AuditLibstdcxx.Lib.Occurrence

/-!
# The Run Paths of an Executable

What `get_parent_executable_runpath_rpath` hands back. The dynamic array should
be read where the executable was loaded, and each output should be the string
of the last entry of its tag, in whichever order the string table and the run
paths come.

Three things have to be true for that besides what the headers and the array
have in them. The load bias is worked out from the first `PT_PHDR`, so this has
to be the one that describes the headers; a file has no other. And an address
of zero is not told apart from a missing one, so neither the headers nor the
string table may be there: either stops at an `ASSERT`.

## Main definitions

* `lastValue`: The value of the last entry with a tag.
* `LoadedExecutable`: Headers and a dynamic array at a load bias.
* `IsOutput`: What an output should be.
* `ReadsRunPaths`: What the function should do.

## Theorems

* `recordRunPath_foldl`: What the second pass over an array records.
* `dynEntries_terminated`: The entries of an array with a `DT_NULL`.
* `biased_iff`: When the array is read where it is.
* `readsRunPaths_iff`: Exactly when the function does what it should.
-/

namespace AuditLibstdcxx

open Checked Occurrence

section Dynamic

/-- The value of the last entry with a tag. -/
def lastValue (entries : List Dyn) (tag : Int) : Option Nat :=
  (entries.reverse.find? (fun d => d.dTag = tag)).map Dyn.dUn

theorem lastValue_concat (entries : List Dyn) (d : Dyn) (tag : Int) :
    lastValue (entries ++ [d]) tag =
      if d.dTag = tag then some d.dUn else lastValue entries tag := by
  unfold lastValue
  -- Searched from the end, the new entry is the first.
  rw [List.reverse_append, List.reverse_singleton, List.singleton_append, List.find?_cons]
  by_cases h : d.dTag = tag
  · simp only [h, decide_true, if_true, Option.map_some]
  · simp only [h, decide_false, if_false]

theorem lastValue_eq_some (entries : List Dyn) (tag : Int) (value : Nat) :
    lastValue entries tag = some value ↔
      ∃ d, IsLast (fun d => d.dTag = tag) entries d ∧ d.dUn = value := by
  unfold lastValue
  simp only [Option.map_eq_some_iff, reverse_find?_eq_some_iff]

theorem lastValue_eq_none (entries : List Dyn) (tag : Int) :
    lastValue entries tag = none ↔ ∀ d ∈ entries, d.dTag ≠ tag := by
  unfold lastValue
  simp only [Option.map_eq_none_iff, List.find?_eq_none, List.mem_reverse, decide_eq_true_eq, ne_eq]

/-- The order of the entries does not matter for a tag that occurs once. -/
theorem lastValue_perm {entries entries' : List Dyn} {tag : Int} (hperm : entries'.Perm entries)
    (honce : entries.countP (fun d => d.dTag = tag) ≤ 1) :
    lastValue entries' tag = lastValue entries tag := by
  unfold lastValue
  rw [reverse_find?_perm hperm honce]

theorem strtabOf_eq (entries : List Dyn) :
    strtabOf entries = (lastValue entries dtStrtab).getD 0 :=
  foldl_overwrite Dyn.dUn entries 0

/-- Where a path entry of the dynamic array points, if there is one. -/
def pathAddr (w strtab : Nat) (entries : List Dyn) (tag : Int) : Option Nat :=
  (lastValue entries tag).map fun v => (strtab + v) % 2 ^ w

theorem pathAddr_concat (w strtab : Nat) (entries : List Dyn) (d : Dyn) (tag : Int) :
    pathAddr w strtab (entries ++ [d]) tag =
      if d.dTag = tag then some ((strtab + d.dUn) % 2 ^ w)
      else pathAddr w strtab entries tag := by
  unfold pathAddr
  rw [lastValue_concat]
  by_cases h : d.dTag = tag
  · rw [if_pos h, if_pos h, Option.map_some]
  · rw [if_neg h, if_neg h]

/-- The second pass over the array: the last entry of each tag wins, and an
    output without one keeps what it held. -/
theorem recordRunPath_foldl (w strtab runpath rpath : Nat) (entries : List Dyn) :
    entries.foldl (recordRunPath w strtab) ⟨.fatalError, runpath, rpath⟩ =
      ⟨if lastValue entries dtRunpath = none ∧ lastValue entries dtRpath = none then .fatalError
        else .success,
        (pathAddr w strtab entries dtRunpath).getD runpath,
        (pathAddr w strtab entries dtRpath).getD rpath⟩ := by
  induction entries using List.reverseRecOn with
  | nil => rfl
  | append_singleton entries d ih =>
      rw [List.foldl_concat, ih]
      simp only [recordRunPath, lastValue_concat, pathAddr_concat]
      -- An entry is of one of the two tags, or of neither.
      have hne : dtRunpath ≠ dtRpath := by decide
      by_cases hrun : d.dTag = dtRunpath
      · have hr : d.dTag ≠ dtRpath := by
          rw [hrun]
          exact hne
        simp only [hrun, hne, if_true, if_false, reduceCtorEq, false_and, Option.getD_some]
      · by_cases hr : d.dTag = dtRpath
        · simp only [hr, hne.symm, if_true, if_false, reduceCtorEq, and_false, Option.getD_some]
        · simp only [hrun, hr, if_false]

/-- An array that is read to its end has a `DT_NULL`, and its entries are those
    before it. -/
theorem dynEntries_eq_ok {ds entries : List Dyn} (h : dynEntries ds = .ok entries) :
    entries = ds.takeWhile (fun d => d.dTag ≠ dtNull) := by
  induction ds generalizing entries with
  | nil => cases h
  | cons d ds ih =>
      unfold dynEntries at h
      by_cases hnull : d.dTag = dtNull
      · rw [if_pos hnull] at h
        rw [← Except.ok.inj h, List.takeWhile_cons, if_neg (by simp only [hnull]; decide)]
      · rw [if_neg hnull] at h
        -- The entry is kept, and the rest is read to its end.
        rcases (bind_eq_ok _ _ _).mp h with ⟨rest, hrest, hcons⟩
        rw [← Except.ok.inj hcons, List.takeWhile_cons, if_pos (decide_eq_true hnull), ih hrest]

/-- An array with a `DT_NULL` is read up to it, whatever comes behind. -/
theorem dynEntries_terminated {entries behind : List Dyn} {null : Dyn}
    (hentries : ∀ d ∈ entries, d.dTag ≠ dtNull) (hnull : null.dTag = dtNull) :
    dynEntries (entries ++ null :: behind) = .ok entries := by
  induction entries with
  | nil => exact if_pos hnull
  | cons d ds ih =>
      have hrest := ih fun e he => hentries e (List.mem_cons_of_mem d he)
      rw [List.cons_append, dynEntries, if_neg (hentries d List.mem_cons_self), hrest, ok_bind]
      rfl

/-- The second pass finds a run path if there is one. -/
theorem error_eq_success (entries : List Dyn) :
    (if lastValue entries dtRunpath = none ∧ lastValue entries dtRpath = none
      then ErrorCode.fatalError else .success) = .success ↔
      ∃ d ∈ entries, d.dTag = dtRunpath ∨ d.dTag = dtRpath := by
  simp only [lastValue_eq_none]
  by_cases hboth : (∀ d ∈ entries, d.dTag ≠ dtRunpath) ∧ ∀ d ∈ entries, d.dTag ≠ dtRpath
  · rw [if_pos hboth]
    refine iff_of_false ErrorCode.noConfusion ?_
    rintro ⟨d, hd, hrun | hr⟩
    · exact hboth.1 d hd hrun
    · exact hboth.2 d hd hr
  · rw [if_neg hboth]
    refine iff_of_true rfl ?_
    -- One of the tags is there, or both would be missing.
    by_contra hnone
    exact hboth ⟨fun d hd hrun => hnone ⟨d, hd, Or.inl hrun⟩,
      fun d hd hr => hnone ⟨d, hd, Or.inr hr⟩⟩

/-- What is done with the entries of an array once they are there. -/
def recordRunPaths (w runpath rpath : Nat) (entries : List Dyn) : Run RunPaths := do
  require (strtabOf entries ≠ 0)
  return entries.foldl (recordRunPath w (strtabOf entries)) ⟨.fatalError, runpath, rpath⟩

theorem recordRunPaths_eq (w runpath rpath : Nat) {entries : List Dyn}
    (hstrtab : strtabOf entries ≠ 0) : recordRunPaths w runpath rpath entries =
      .ok ⟨if lastValue entries dtRunpath = none ∧ lastValue entries dtRpath = none
          then .fatalError else .success,
        (pathAddr w (strtabOf entries) entries dtRunpath).getD runpath,
        (pathAddr w (strtabOf entries) entries dtRpath).getD rpath⟩ := by
  rw [recordRunPaths, require, if_pos hstrtab, ok_bind, recordRunPath_foldl]
  rfl

/-- It does not depend on the order of the entries if each tag occurs once. -/
theorem recordRunPaths_perm (w runpath rpath : Nat) {entries entries' : List Dyn}
    (hperm : entries'.Perm entries)
    (honce : ∀ tag ∈ [dtStrtab, dtRunpath, dtRpath],
      entries.countP (fun d => d.dTag = tag) ≤ 1) :
    recordRunPaths w runpath rpath entries' = recordRunPaths w runpath rpath entries := by
  have hstrtab := lastValue_perm hperm (honce dtStrtab (by decide))
  have hrunpath := lastValue_perm hperm (honce dtRunpath (by decide))
  have hrpath := lastValue_perm hperm (honce dtRpath (by decide))
  unfold recordRunPaths
  rw [recordRunPath_foldl, recordRunPath_foldl, strtabOf_eq, strtabOf_eq, hstrtab]
  simp only [pathAddr, hrunpath, hrpath]

end Dynamic

section Bias

variable {w : Nat}

/-- The difference is what has to be added again. -/
theorem sizeSub_add {a v : Nat} (ha : a < 2 ^ w) (hv : v < 2 ^ w) :
    (sizeSub w a v + v) % 2 ^ w = a := by
  unfold sizeSub
  rw [Nat.mod_add_mod, Nat.sub_add_cancel (by omega), Nat.add_mod_right, Nat.mod_eq_of_lt ha]

/-- A header that is taken to be at its address in the file and is at another
    one in memory gives the load bias exactly if the two differ by it. -/
theorem biased_iff {bias a v : Nat} (ha : a < 2 ^ w) (hv : v < 2 ^ w) (k : Nat) :
    (sizeSub w a v + k) % 2 ^ w = (bias + k) % 2 ^ w ↔ a = (bias + v) % 2 ^ w := by
  have hbase := sizeSub_add ha hv
  constructor
  · intro h
    have hbias : sizeSub w a v ≡ bias [MOD 2 ^ w] := Nat.ModEq.add_right_cancel' k h
    exact hbase.symm.trans (hbias.add_right v)
  · intro h
    have hsame : sizeSub w a v + v ≡ bias + v [MOD 2 ^ w] := hbase.trans h
    exact (Nat.ModEq.add_right_cancel' v hsame).add_right k

end Bias

/-! ### The Executable -/

/-- The entries of an array, `DT_NULL` and whatever comes behind are at an
    address. -/
def ArrayAt (dynamicAt : Nat → List Dyn) (addr : Nat) (entries : List Dyn) : Prop :=
  ∃ null behind, dynamicAt addr = entries ++ null :: behind ∧ null.dTag = dtNull

/-- An executable at a load bias. One of its headers describes the headers
    themselves, and the first one of a dynamic array leads to an array with a
    string table. -/
structure LoadedExecutable (w : Nat) where
  bias : Nat
  phdrAddr : Nat
  phdr : List Phdr
  dynamicAt : Nat → List Dyn
  /-- The first `PT_DYNAMIC`. -/
  dynamic : Phdr
  /-- The dynamic array, without its `DT_NULL`. -/
  entries : List Dyn
  pVaddr_lt : ∀ h ∈ phdr, h.pVaddr < 2 ^ w
  described : ∃ h ∈ phdr, h.pType = ptPhdr ∧ phdrAddr = (bias + h.pVaddr) % 2 ^ w
  firstDynamic : IsFirst (fun h => h.pType = ptDynamic) phdr dynamic
  noNull : ∀ d ∈ entries, d.dTag ≠ dtNull
  hasStrtab : ∃ d ∈ entries, d.dTag = dtStrtab
  terminated : ArrayAt dynamicAt ((bias + dynamic.pVaddr) % 2 ^ w) entries

namespace LoadedExecutable

variable {w : Nat} (x : LoadedExecutable w)

/-- Where the dynamic array is. -/
def dynamicAddr : Nat :=
  (x.bias + x.dynamic.pVaddr) % 2 ^ w

/-- Where the function looks for it. -/
def readAddr : Nat :=
  (baseAddress w x.phdrAddr x.phdr + x.dynamic.pVaddr) % 2 ^ w

/-- What the function does with the headers, and with the arrays in a memory. -/
def runPaths (dynamicAt : Nat → List Dyn) (runpath rpath : Nat) : Run RunPaths :=
  getParentExecutableRunpathRpath w dynamicAt x.phdrAddr x.phdr runpath rpath

/-- The first `PT_PHDR` describes the headers. -/
def FirstDescribes : Prop :=
  ∃ h, IsFirst (fun h => h.pType = ptPhdr) x.phdr h ∧ x.phdrAddr = (x.bias + h.pVaddr) % 2 ^ w

end LoadedExecutable

/-- What an output should be: the address of the last string table plus the
    value of the last entry of its tag, or what it was if there is no entry. -/
structure IsOutput (w : Nat) (entries : List Dyn) (tag : Int) (untouched out : Nat) : Prop where
  written : ∀ strtab d, IsLast (fun d => d.dTag = dtStrtab) entries strtab →
    IsLast (fun d => d.dTag = tag) entries d → out = (strtab.dUn + d.dUn) % 2 ^ w
  left : (∀ d ∈ entries, d.dTag ≠ tag) → out = untouched

/-- What the function should do: read the array where it is and nothing else,
    hand back the run paths, and not mind the order of the entries where no tag
    occurs twice. -/
structure ReadsRunPaths {w : Nat} (x : LoadedExecutable w) (runpath rpath : Nat) : Prop where
  reads : ∀ dynamicAt : Nat → List Dyn, dynamicAt x.dynamicAddr = x.dynamicAt x.dynamicAddr →
    x.runPaths dynamicAt runpath rpath = x.runPaths x.dynamicAt runpath rpath
  handsBack : ∃ r, x.runPaths x.dynamicAt runpath rpath = .ok r ∧
    (r.error = .success ↔ ∃ d ∈ x.entries, d.dTag = dtRunpath ∨ d.dTag = dtRpath) ∧
    IsOutput w x.entries dtRunpath runpath r.runpath ∧
    IsOutput w x.entries dtRpath rpath r.rpath
  anyOrder : (∀ tag ∈ [dtStrtab, dtRunpath, dtRpath],
      x.entries.countP (fun d => d.dTag = tag) ≤ 1) →
    ∀ (dynamicAt : Nat → List Dyn) (entries : List Dyn), entries.Perm x.entries →
      ArrayAt dynamicAt x.dynamicAddr entries →
      x.runPaths dynamicAt runpath rpath = x.runPaths x.dynamicAt runpath rpath

section Executable

variable {w : Nat} {x : LoadedExecutable w} {runpath rpath : Nat}

theorem isOutput_pathAddr (entries : List Dyn) (tag : Int) (untouched : Nat) :
    IsOutput w entries tag untouched
      ((pathAddr w (strtabOf entries) entries tag).getD untouched) := by
  constructor
  · intro strtab d hstrtab hd
    have hstr := (lastValue_eq_some entries dtStrtab strtab.dUn).mpr ⟨strtab, hstrtab, rfl⟩
    have hval := (lastValue_eq_some entries tag d.dUn).mpr ⟨d, hd, rfl⟩
    rw [pathAddr, hval, strtabOf_eq, hstr, Option.getD_some, Option.map_some, Option.getD_some]
  · intro hnone
    rw [pathAddr, (lastValue_eq_none entries tag).mpr hnone, Option.map_none, Option.getD_none]

/-- The string table is that of the last entry, and it is missing if this is null. -/
theorem strtabOf_ne_zero_iff (hstrtab : ∃ d ∈ x.entries, d.dTag = dtStrtab) :
    strtabOf x.entries ≠ 0 ↔
      ∃ d, IsLast (fun d => d.dTag = dtStrtab) x.entries d ∧ d.dUn ≠ 0 := by
  rw [strtabOf_eq]
  cases hlast : lastValue x.entries dtStrtab with
  | none =>
      rcases hstrtab with ⟨d, hd, htag⟩
      exact absurd htag ((lastValue_eq_none _ _).mp hlast d hd)
  | some v =>
      rw [Option.getD_some]
      constructor
      · intro hv
        rcases (lastValue_eq_some _ _ _).mp hlast with ⟨d, hd, rfl⟩
        exact ⟨d, hd, hv⟩
      · rintro ⟨d, hd, hne⟩
        have hsame := (lastValue_eq_some _ _ _).mpr ⟨d, hd, rfl⟩
        rw [hlast, Option.some.injEq] at hsame
        rwa [hsame]

/-- The array is looked for where it is exactly if the first `PT_PHDR`
    describes the headers. -/
theorem readAddr_eq_iff : x.readAddr = x.dynamicAddr ↔ x.FirstDescribes := by
  rcases x.described with ⟨described, hmem, htype, haddr⟩
  have hlt : x.phdrAddr < 2 ^ w := by
    rw [haddr]
    exact Nat.mod_lt _ (Nat.two_pow_pos w)
  cases hfind : x.phdr.find? (fun h => h.pType = ptPhdr) with
  | none =>
      have hno := List.find?_eq_none.mp hfind described hmem
      rw [htype] at hno
      exact absurd (decide_eq_true rfl) hno
  | some first =>
      have hfirst := find?_eq_some_iff.mp hfind
      have hbase : baseAddress w x.phdrAddr x.phdr = sizeSub w x.phdrAddr first.pVaddr := by
        rw [baseAddress, hfind]
      rw [LoadedExecutable.readAddr, LoadedExecutable.dynamicAddr, hbase,
        biased_iff hlt (x.pVaddr_lt first (List.mem_of_find?_eq_some hfind))]
      constructor
      · exact fun h => ⟨first, hfirst, h⟩
      · rintro ⟨h, hh, hdescribes⟩
        -- There is only one first header of a type.
        rw [find?_eq_some_iff.mpr hh, Option.some.injEq] at hfind
        rwa [← hfind]

/-- The function reads one array, and records what is in it. -/
theorem runPaths_eq (hphdr : x.phdrAddr ≠ 0) (dynamicAt : Nat → List Dyn) :
    x.runPaths dynamicAt runpath rpath =
      dynEntries (dynamicAt x.readAddr) >>= recordRunPaths w runpath rpath := by
  have hne : x.phdr ≠ [] := by
    rcases x.described with ⟨h, hmem, _⟩
    exact List.ne_nil_of_mem hmem
  unfold LoadedExecutable.runPaths getParentExecutableRunpathRpath
  rw [require, if_pos ⟨hphdr, hne⟩, ok_bind, find?_eq_some_iff.mpr x.firstDynamic]
  rfl

/-- So with the array where it is looked for, all that counts is its entries. -/
theorem runPaths_arrayAt (runpath rpath : Nat) (hphdr : x.phdrAddr ≠ 0)
    (hfirst : x.FirstDescribes) {dynamicAt : Nat → List Dyn} {entries : List Dyn}
    (hnoNull : ∀ d ∈ entries, d.dTag ≠ dtNull) (hat : ArrayAt dynamicAt x.dynamicAddr entries) :
    x.runPaths dynamicAt runpath rpath = recordRunPaths w runpath rpath entries := by
  rcases hat with ⟨null, behind, harray, hnull⟩
  rw [runPaths_eq hphdr, readAddr_eq_iff.mpr hfirst, harray, dynEntries_terminated hnoNull hnull,
    ok_bind]

/-- Headers at address zero stop at an `ASSERT`. -/
theorem ReadsRunPaths.phdrAddr_ne (h : ReadsRunPaths x runpath rpath) : x.phdrAddr ≠ 0 := by
  intro hphdr
  rcases h.handsBack with ⟨r, hr, _⟩
  have hrequire := ((require_bind_eq_ok _ _ _).mp hr).1
  exact hrequire.1 hphdr

/-- Where another `PT_PHDR` comes first, the function looks elsewhere, and does
    not come through if there is nothing. -/
theorem ReadsRunPaths.firstDescribes (h : ReadsRunPaths x runpath rpath) : x.FirstDescribes := by
  by_contra hnot
  have hne : x.readAddr ≠ x.dynamicAddr := fun hsame => hnot (readAddr_eq_iff.mp hsame)
  rcases h.handsBack with ⟨r, hr, _⟩
  -- A memory with the array of the executable in it and no other.
  have hreads := h.reads (Function.update (fun _ => []) x.dynamicAddr (x.dynamicAt x.dynamicAddr))
    (Function.update_self _ _ _)
  rw [hr, runPaths_eq h.phdrAddr_ne, Function.update_of_ne hne] at hreads
  cases hreads

/-- A string table at address zero stops at the other `ASSERT`. -/
theorem ReadsRunPaths.strtabOf_ne (h : ReadsRunPaths x runpath rpath) :
    strtabOf x.entries ≠ 0 := by
  rcases h.handsBack with ⟨r, hr, _⟩
  rw [runPaths_arrayAt _ _ h.phdrAddr_ne h.firstDescribes x.noNull x.terminated] at hr
  exact ((require_bind_eq_ok _ _ _).mp hr).1

theorem not_readsRunPaths_of_error {e : Stop}
    (hstop : x.runPaths x.dynamicAt runpath rpath = .error e) :
    ¬ ReadsRunPaths x runpath rpath := by
  intro h
  rcases h.handsBack with ⟨r, hr, _⟩
  rw [hstop] at hr
  cases hr

/-- The function reads the dynamic array where it is, hands back the run paths
    in it and does not mind the order of its entries, exactly when the headers
    are not at address zero, their first `PT_PHDR` describes them and the last
    string table is not at address zero. -/
theorem readsRunPaths_iff (x : LoadedExecutable w) (runpath rpath : Nat) :
    ReadsRunPaths x runpath rpath ↔ x.phdrAddr ≠ 0 ∧ x.FirstDescribes ∧
      ∃ d, IsLast (fun d => d.dTag = dtStrtab) x.entries d ∧ d.dUn ≠ 0 := by
  rw [← strtabOf_ne_zero_iff x.hasStrtab]
  constructor
  · exact fun h => ⟨h.phdrAddr_ne, h.firstDescribes, h.strtabOf_ne⟩
  · rintro ⟨hphdr, hfirst, hstrtab⟩
    have hrun := runPaths_arrayAt runpath rpath hphdr hfirst x.noNull x.terminated
    refine ⟨fun dynamicAt hsame => ?_, ?_, fun honce dynamicAt entries hperm hat => ?_⟩
    · rw [runPaths_eq hphdr, runPaths_eq hphdr, readAddr_eq_iff.mpr hfirst, hsame]
    · refine ⟨_, hrun.trans (recordRunPaths_eq w runpath rpath hstrtab), ?_, ?_, ?_⟩
      · exact error_eq_success x.entries
      · exact isOutput_pathAddr x.entries dtRunpath runpath
      · exact isOutput_pathAddr x.entries dtRpath rpath
    · have hnoNull : ∀ d ∈ entries, d.dTag ≠ dtNull := fun d hd =>
        x.noNull d (hperm.mem_iff.mp hd)
      rw [hrun, runPaths_arrayAt _ _ hphdr hfirst hnoNull hat,
        recordRunPaths_perm w _ _ hperm honce]

end Executable

/-! ### Four Executables -/

/-- An array with a string table behind a `DT_RUNPATH`. -/
def sampleEntries (strtab : Nat) : List Dyn :=
  [⟨dtRunpath, 1⟩, ⟨dtStrtab, strtab⟩]

/-- The array at an address, and nothing anywhere else. -/
def sampleMemory (addr strtab a : Nat) : List Dyn :=
  if a = addr then sampleEntries strtab ++ [⟨dtNull, 0⟩] else []

/-- An executable with a load bias of `0x1000`. -/
def sampleExecutable : LoadedExecutable 64 where
  bias := 0x1000
  phdrAddr := 0x1040
  phdr := [⟨ptPhdr, 0x40⟩, ⟨ptDynamic, 0x100⟩]
  dynamicAt := sampleMemory 0x1100 0x2000
  dynamic := ⟨ptDynamic, 0x100⟩
  entries := sampleEntries 0x2000
  pVaddr_lt := by decide
  described := ⟨⟨ptPhdr, 0x40⟩, by decide, rfl, by decide⟩
  firstDynamic := ⟨[⟨ptPhdr, 0x40⟩], [], rfl, rfl, by decide⟩
  noNull := by decide
  hasStrtab := ⟨⟨dtStrtab, 0x2000⟩, by decide, rfl⟩
  terminated := ⟨⟨dtNull, 0⟩, [], rfl, rfl⟩

/-- Its string table comes last, and its run path is found. -/
theorem sampleExecutable_readsRunPaths : ReadsRunPaths sampleExecutable 0 0 := by
  refine (readsRunPaths_iff sampleExecutable 0 0).mpr ⟨by decide, ?_, ?_⟩
  · exact ⟨⟨ptPhdr, 0x40⟩, ⟨[], [⟨ptDynamic, 0x100⟩], rfl, rfl, by decide⟩, by decide⟩
  · exact ⟨⟨dtStrtab, 0x2000⟩, ⟨[⟨dtRunpath, 1⟩], [], rfl, rfl, by decide⟩, by decide⟩

/-- The same with a load bias that puts the headers at address zero. -/
def nullHeaders : LoadedExecutable 64 :=
  { sampleExecutable with
    bias := 2 ^ 64 - 0x40
    phdrAddr := 0
    dynamicAt := sampleMemory 0xc0 0x2000
    described := ⟨⟨ptPhdr, 0x40⟩, by decide, rfl, by decide⟩
    terminated := ⟨⟨dtNull, 0⟩, [], rfl, rfl⟩ }

/-- The same with another `PT_PHDR` in front of the one that describes the
    headers. -/
def otherPhdrFirst : LoadedExecutable 64 :=
  { sampleExecutable with
    phdr := [⟨ptPhdr, 0x80⟩, ⟨ptPhdr, 0x40⟩, ⟨ptDynamic, 0x100⟩]
    pVaddr_lt := by decide
    described := ⟨⟨ptPhdr, 0x40⟩, by decide, rfl, by decide⟩
    firstDynamic := ⟨[⟨ptPhdr, 0x80⟩, ⟨ptPhdr, 0x40⟩], [], rfl, rfl, by decide⟩ }

/-- The same with its string table at address zero. -/
def nullStrtab : LoadedExecutable 64 :=
  { sampleExecutable with
    dynamicAt := sampleMemory 0x1100 0
    entries := sampleEntries 0
    noNull := by decide
    hasStrtab := ⟨⟨dtStrtab, 0⟩, by decide, rfl⟩
    terminated := ⟨⟨dtNull, 0⟩, [], rfl, rfl⟩ }

/-- None of the last three comes through. -/
theorem stopped_not_readsRunPaths : ¬ ReadsRunPaths nullHeaders 0 0 ∧
    ¬ ReadsRunPaths otherPhdrFirst 0 0 ∧ ¬ ReadsRunPaths nullStrtab 0 0 := by
  have hheaders : nullHeaders.runPaths nullHeaders.dynamicAt 0 0 = .error .assert := by
    decide +kernel
  have hother : otherPhdrFirst.runPaths otherPhdrFirst.dynamicAt 0 0 = .error .outOfRange := by
    decide +kernel
  have hstrtab : nullStrtab.runPaths nullStrtab.dynamicAt 0 0 = .error .assert := by
    decide +kernel
  exact ⟨not_readsRunPaths_of_error hheaders, not_readsRunPaths_of_error hother,
    not_readsRunPaths_of_error hstrtab⟩

end AuditLibstdcxx
