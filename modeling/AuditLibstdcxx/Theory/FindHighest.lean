import AuditLibstdcxx.Core.CMake
import AuditLibstdcxx.Lib.FirstHighest

/-!
# The Library Found at Build Time

Which libraries `find_highest_libstdcxx` looks at, and which of them it
chooses. The choice is that of the first library with the highest version,
whatever the libraries are; what takes an argument is which libraries they are.

The default search stands in the list of directories as an element that is
empty, behind the directories that were listed. Such an element survives the
commands that follow as long as there is another one beside it. When all that
was listed were keywords, and the directory of the compiler where it is
excluded, there is none: the element is the only one, the text of the list is
empty, and the default search is lost. So it is the directories left of the
list that decide, and they are a condition on what the function is given.

## Main definitions

* `PathList`: A list of directories and keywords.
* `compilerDirectory`, `listedDirectories`: The directories to search.
* `candidates`: The libraries to look at.
* `reportedVersion`: The version the tool reports.
* `FindsHighest`: Looking at them and choosing the highest.

## Theorems

* `versionToolOutput_reads`: What the tool prints is read back.
* `searchPathElements_eq`: The elements that the loop goes through.
* `findHighest_loop`: What the loop does with them.
* `findsHighest_iff`: Exactly when the function looks at the right libraries.
-/

namespace AuditLibstdcxx

open SepList FirstHighest

/-! ### What the Function Is For -/

/-- A list of directories to search, with each of the two keywords at most
    once. A directory has a name, without a separator in it. -/
structure PathList where
  paths : List CMakeStr
  ne_nil : [] ∉ paths
  noSep : ∀ x ∈ paths, semicolon ∉ x
  noDefault_once : paths.count noDefaultPath ≤ 1
  noCompiler_once : paths.count noCompilerPath ≤ 1

/-- A keyword is in the list. -/
def PathList.hasKeyword (l : PathList) (keyword : CMakeStr) : Bool :=
  l.paths.contains keyword

@[simp] theorem hasKeyword_iff (l : PathList) (keyword : CMakeStr) :
    l.hasKeyword keyword = true ↔ keyword ∈ l.paths :=
  List.contains_iff_mem

/-- The directory of the compiler's library, if it has one. -/
def compilerDirectory (w : CMakeWorld) : Option CMakeStr :=
  let path := findCompilerLibstdcxx w absLibstdcxxPath
  if isFalse path = false then some path else none

/-- The directories listed, without that of the compiler where it is
    excluded. -/
def listedDirectories (w : CMakeWorld) (l : PathList) : List CMakeStr :=
  l.paths.filter fun path => path ≠ noDefaultPath ∧ path ≠ noCompilerPath ∧
    (l.hasKeyword noCompilerPath = true → some path ≠ compilerDirectory w)

/-- The libraries to look at: those in the directories listed, the one of the
    default search unless it is excluded, and the one in the directory of the
    compiler unless that is. -/
def candidates (w : CMakeWorld) (l : PathList) : List CMakeStr :=
  (listedDirectories w l).filterMap w.findLibrary ++
    (if l.hasKeyword noDefaultPath then [] else w.findLibraryDefault.toList) ++
    (if l.hasKeyword noCompilerPath then []
      else ((compilerDirectory w).bind w.findLibrary).toList)

/-- The version the tool reports for a library, `0` if it reports none. -/
def reportedVersion (w : CMakeWorld) (lib : CMakeStr) : Nat :=
  match w.versionResult lib with
  | none => 0
  | some r => if r.error = .success then r.glibcxxVersion else 0

/-- The function looks at the candidates, and chooses the first one with the
    highest version. It finds nothing if all of them are of version 0. -/
structure FindsHighest (w : CMakeWorld) (optimalLibstdcxx : CMakeStr) (l : PathList) : Prop where
  considered : (findHighestLibstdcxx w optimalLibstdcxx (encode semicolon l.paths)).considered =
    candidates w l
  notFound : (findHighestLibstdcxx w optimalLibstdcxx (encode semicolon l.paths)).value =
    notFound optimalLibstdcxx ↔ ∀ lib ∈ candidates w l, reportedVersion w lib = 0
  highest : (∃ lib ∈ candidates w l, reportedVersion w lib ≠ 0) →
    IsFirstHighest (reportedVersion w) (candidates w l)
      (findHighestLibstdcxx w optimalLibstdcxx (encode semicolon l.paths)).value

/-! ### The Tool -/

theorem digitChar_isHexDigit : ∀ d : Fin 16, isHexDigit (Nat.digitChar d) = true := by decide

theorem digitChar_value : ∀ d : Fin 16, hexValue (Nat.digitChar d).toLower = d := by decide

theorem digitChar_notSpace : ∀ d : Fin 16, Nat.digitChar d ∉ [' ', '\t', '\n', '\r'] := by decide

theorem hex08_digits {version : Nat} {c : Char} (h : c ∈ hex08 version) :
    ∃ d : Fin 16, c = Nat.digitChar d := by
  rcases List.mem_map.mp h with ⟨i, _, rfl⟩
  exact ⟨⟨version / 16 ^ i % 16, Nat.mod_lt _ (by decide)⟩, rfl⟩

theorem hex08_matches (version : Nat) : matchesHex (hex08 version) = true := by
  have hall : (hex08 version).all isHexDigit = true := by
    refine List.all_eq_true.mpr fun c hc => ?_
    rcases hex08_digits hc with ⟨d, rfl⟩
    exact digitChar_isHexDigit d
  rw [matchesHex, hall]
  rfl

/-- A digit is what is missing from the value of the digits in front of it. -/
theorem next_digit (version i : Nat) :
    version / 16 ^ (i + 1) * 16 + version / 16 ^ i % 16 = version / 16 ^ i := by
  rw [Nat.pow_succ, ← Nat.div_div_eq_div_mul]
  exact Nat.div_add_mod' _ 16

/-- Eight digits are enough for a `uint32_t`. -/
theorem hex08_value (version : Nat) (h : version < 2 ^ 32) :
    mathExprHex ((hex08 version).map Char.toLower) = version := by
  have hdigit : ∀ n, hexValue (Nat.digitChar (n % 16)).toLower = n % 16 :=
    fun n => digitChar_value ⟨n % 16, Nat.mod_lt _ (by decide)⟩
  have hnone : version / 16 ^ 8 = 0 := Nat.div_eq_of_lt h
  have hfirst := next_digit version 7
  rw [hnone] at hfirst
  simp only [mathExprHex, hex08, List.map_cons, List.map_nil, List.foldl_cons, List.foldl_nil,
    hdigit]
  -- Each digit is put behind the value of those before it.
  rw [hfirst, next_digit version 6, next_digit version 5, next_digit version 4,
    next_digit version 3, next_digit version 2, next_digit version 1, next_digit version 0]
  exact Nat.div_one version

/-- The line break is all that is stripped. -/
theorem hex08_strip (version : Nat) :
    stripTrailingWhitespace (hex08 version ++ ['\n']) = hex08 version := by
  unfold stripTrailingWhitespace
  rw [List.rdropWhile_concat_pos _ _ _ (by decide)]
  refine List.rdropWhile_eq_self_iff.mpr fun hne => ?_
  rcases hex08_digits (List.getLast_mem hne) with ⟨d, hlast⟩
  rw [hlast, decide_eq_true_iff]
  exact digitChar_notSpace d

/-- What the tool prints is read back: its version, or nothing. -/
theorem versionToolOutput_reads (w : CMakeWorld) (lib : CMakeStr) :
    (reportedVersion w lib = 0 ∧
      matchesHex (stripTrailingWhitespace (versionToolOutput (w.versionResult lib))) = false) ∨
    (matchesHex (stripTrailingWhitespace (versionToolOutput (w.versionResult lib))) = true ∧
      mathExprHex ((stripTrailingWhitespace
        (versionToolOutput (w.versionResult lib))).map Char.toLower) = reportedVersion w lib) := by
  unfold reportedVersion
  cases hresult : w.versionResult lib with
  | none => exact Or.inl ⟨rfl, rfl⟩
  | some r =>
      by_cases herror : r.error = .success
      · have hvalue := hex08_value _ (w.versionResult_lt lib r hresult)
        simp only [versionToolOutput, if_pos herror, hex08_strip, hex08_matches, hvalue]
        exact Or.inr ⟨trivial, trivial⟩
      · simp only [versionToolOutput, if_neg herror]
        exact Or.inl ⟨trivial, rfl⟩

/-! ### The Directories -/

theorem compilerDirectory_eq_some {w : CMakeWorld} {dir : CMakeStr}
    (h : compilerDirectory w = some dir) :
    findCompilerLibstdcxx w absLibstdcxxPath = dir ∧ isFalse dir = false := by
  unfold compilerDirectory at h
  by_cases htrue : isFalse (findCompilerLibstdcxx w absLibstdcxxPath) = false
  · rw [if_pos htrue] at h
    rw [← Option.some.inj h]
    exact ⟨rfl, htrue⟩
  · rw [if_neg htrue] at h
    cases h

theorem compilerDirectory_ne_nil {w : CMakeWorld} {dir : CMakeStr}
    (h : compilerDirectory w = some dir) : dir ≠ [] := by
  intro hnil
  have htrue := (compilerDirectory_eq_some h).2
  rw [hnil, isFalse_nil] at htrue
  cases htrue

theorem compilerDirectory_noSep {w : CMakeWorld} {dir : CMakeStr}
    (h : compilerDirectory w = some dir) : semicolon ∉ dir := by
  rcases compilerDirectory_eq_some h with ⟨rfl, htrue⟩
  unfold findCompilerLibstdcxx at htrue ⊢
  by_cases hgnu : w.compilerIsGnu = false
  · rw [if_pos hgnu, isFalse_notFound] at htrue
    cases htrue
  · rw [if_neg hgnu] at htrue ⊢
    by_cases hname : isFalse w.printFileName = false
    · rw [if_pos hname]
      exact w.realDirectory_noSep w.printFileName
    · rw [if_neg hname, isFalse_notFound] at htrue
      cases htrue

/-- `ABS_LIBSTDCXX_PATH` is used if there is a directory of the compiler. -/
theorem usable_elim {β : Type} (w : CMakeWorld) (without : β) (used : CMakeStr → β) :
    (if isFalse (findCompilerLibstdcxx w absLibstdcxxPath) = false ∧
        findCompilerLibstdcxx w absLibstdcxxPath ≠ notFound absLibstdcxxPath then
      used (findCompilerLibstdcxx w absLibstdcxxPath)
    else without) = (compilerDirectory w).elim without used := by
  unfold compilerDirectory
  by_cases htrue : isFalse (findCompilerLibstdcxx w absLibstdcxxPath) = false
  · rw [if_pos ⟨htrue, ne_notFound_of_true htrue _⟩, if_pos htrue, Option.elim_some]
  · rw [if_neg fun h => htrue h.1, if_neg htrue, Option.elim_none]

section Elements

variable (w : CMakeWorld) (l : PathList)

/-- What stands for the default search. -/
def defaultElement : List CMakeStr :=
  if l.hasKeyword noDefaultPath then [] else [[]]

theorem defaultElement_of_mem (h : noDefaultPath ∈ l.paths) : defaultElement l = [] :=
  if_pos ((hasKeyword_iff l noDefaultPath).mpr h)

theorem defaultElement_of_notMem (h : noDefaultPath ∉ l.paths) : defaultElement l = [[]] :=
  if_neg fun hc => h ((hasKeyword_iff l noDefaultPath).mp hc)

/-- The list without its first keyword, and with the default search. -/
def withDefault : List CMakeStr :=
  l.paths.filter (· ≠ noDefaultPath) ++ defaultElement l

theorem semicolon_notMem_withDefault : ∀ x ∈ withDefault l, semicolon ∉ x := by
  intro x hx
  rcases List.mem_append.mp hx with hx | hx
  · exact l.noSep x (List.mem_filter.mp hx).1
  · have hnil : x = [] := by
      by_cases hdefault : noDefaultPath ∈ l.paths
      · simp [defaultElement_of_mem l hdefault] at hx
      · simpa [defaultElement_of_notMem l hdefault] using hx
    rw [hnil]
    exact List.not_mem_nil

/-- Putting in the default search, or taking out the keyword. -/
theorem withDefaultPath_encode :
    withDefaultPath (encode semicolon l.paths) = encode semicolon (withDefault l) := by
  have hkept : kept l.paths = l.paths := kept_of_notMem l.ne_nil
  unfold withDefaultPath withDefault
  rw [find_encode l.noSep, hkept]
  cases hfind : l.paths.idxOf? noDefaultPath with
  | none =>
      have hmem : noDefaultPath ∉ l.paths := List.idxOf?_eq_none_iff.mp hfind
      simp only [append_encode, hkept, filter_ne_of_notMem hmem, defaultElement_of_notMem l hmem]
  | some i =>
      have hmem : noDefaultPath ∈ l.paths := by
        by_contra hmem
        rw [List.idxOf?_eq_none_iff.mpr hmem] at hfind
        cases hfind
      have hremoved : ∀ x ∈ l.paths.filter (· ≠ noDefaultPath), x ∈ l.paths :=
        fun x hx => (List.mem_filter.mp hx).1
      have hnil : [] ∉ l.paths.filter (· ≠ noDefaultPath) := fun h => l.ne_nil (hremoved _ h)
      simp only [removeAt_encode l.noSep, hkept, eraseIdx_eq_filter hfind l.noDefault_once]
      rw [removeItem_encode fun x hx => l.noSep x (hremoved x hx), kept_of_notMem hnil,
        filter_ne_of_notMem hnil, defaultElement_of_mem l hmem, List.append_nil]

/-- An element that is empty is lost if it is the only one. -/
theorem kept_append_default {listed : List CMakeStr} (h : [] ∉ listed) :
    kept (listed ++ defaultElement l) =
      listed ++ (if listed = [] then [] else defaultElement l) := by
  by_cases hdefault : noDefaultPath ∈ l.paths
  · rw [defaultElement_of_mem l hdefault, List.append_nil, kept_of_notMem h, ite_self,
      List.append_nil]
  · rw [defaultElement_of_notMem l hdefault]
    cases listed with
    | nil => simp
    | cons x xs => simp [kept]

/-- Without the second keyword, what is listed is the list without the first. -/
theorem listedDirectories_of_notMem (h : noCompilerPath ∉ l.paths) :
    listedDirectories w l = l.paths.filter (· ≠ noDefaultPath) := by
  refine List.filter_congr fun path hpath => ?_
  have hne : path ≠ noCompilerPath := fun hc => h (hc ▸ hpath)
  simp [h, hne]

/-- With it, the directory of the compiler is taken out as well. -/
theorem listedDirectories_of_mem (h : noCompilerPath ∈ l.paths) :
    listedDirectories w l =
      (compilerDirectory w).elim ((l.paths.filter (· ≠ noDefaultPath)).filter (· ≠ noCompilerPath))
        fun dir => ((l.paths.filter (· ≠ noDefaultPath)).filter (· ≠ noCompilerPath)).filter
          (· ≠ dir) := by
  cases hdir : compilerDirectory w with
  | none =>
      rw [Option.elim_none, List.filter_filter]
      refine List.filter_congr fun path _ => ?_
      simp [hdir, and_comm]
  | some dir =>
      rw [Option.elim_some, List.filter_filter, List.filter_filter]
      refine List.filter_congr fun path _ => ?_
      simp [h, hdir, Bool.and_comm, Bool.and_assoc]

theorem nil_notMem_filter (p : CMakeStr → Bool) : [] ∉ l.paths.filter p :=
  fun h => l.ne_nil (List.mem_filter.mp h).1

/-- The second keyword is found where the first one is not. -/
theorem noCompilerPath_mem_withDefault :
    noCompilerPath ∈ withDefault l ↔ noCompilerPath ∈ l.paths := by
  have hne : noCompilerPath ≠ noDefaultPath := by decide
  have hdefault : noCompilerPath ∉ defaultElement l := by
    by_cases hmem : noDefaultPath ∈ l.paths
    · simp [defaultElement_of_mem l hmem]
    · rw [defaultElement_of_notMem l hmem]
      decide
  simp [withDefault, hdefault, hne]

/-- An empty element is none that a command takes out. -/
theorem filter_defaultElement {x : CMakeStr} (h : x ≠ []) :
    (defaultElement l).filter (· ≠ x) = defaultElement l := by
  by_cases hmem : noDefaultPath ∈ l.paths
  · simp [defaultElement_of_mem l hmem]
  · simp [defaultElement_of_notMem l hmem, h.symm]

/-- The second keyword occurs once where the default search was put in. -/
theorem count_withDefault_noCompilerPath : (withDefault l).count noCompilerPath ≤ 1 := by
  have hzero : (defaultElement l).count noCompilerPath = 0 := by
    by_cases hdefault : noDefaultPath ∈ l.paths
    · rw [defaultElement_of_mem l hdefault, List.count_nil]
    · rw [defaultElement_of_notMem l hdefault]
      decide
  have hle := (List.filter_sublist (l := l.paths) (p := (· ≠ noDefaultPath))).count_le
    noCompilerPath
  have honce := l.noCompiler_once
  rw [withDefault, List.count_append]
  omega

/-- Taking it out leaves the default search in its place. -/
theorem filter_withDefault_noCompilerPath : (withDefault l).filter (· ≠ noCompilerPath) =
    (l.paths.filter (· ≠ noDefaultPath)).filter (· ≠ noCompilerPath) ++ defaultElement l := by
  rw [withDefault, List.filter_append, filter_defaultElement l (by decide)]

/-- The elements, if the directory of the compiler is not excluded. -/
theorem searchPathElements_of_notMem (h : noCompilerPath ∉ l.paths) :
    searchPathElements w (encode semicolon l.paths) =
      kept (withDefault l) ++ (compilerDirectory w).toList := by
  have hfind : find semicolon (encode semicolon (withDefault l)) noCompilerPath = none := by
    rw [find_encode (semicolon_notMem_withDefault l), List.idxOf?_eq_none_iff]
    exact fun hmem => h ((noCompilerPath_mem_withDefault l).mp (mem_of_mem_kept hmem))
  unfold searchPathElements withCompilerPath
  rw [withDefaultPath_encode]
  simp only [hfind, usable_elim w _ (append semicolon _)]
  cases hdir : compilerDirectory w with
  | none =>
      rw [Option.elim_none, elems_encode (semicolon_notMem_withDefault l), Option.toList_none,
        List.append_nil]
  | some dir =>
      have hnoSep : ∀ x ∈ kept (withDefault l) ++ [dir], semicolon ∉ x := by
        intro x hx
        rcases List.mem_append.mp hx with hx | hx
        · exact semicolon_notMem_withDefault l x (mem_of_mem_kept hx)
        · rw [List.mem_singleton.mp hx]
          exact compilerDirectory_noSep hdir
      have hne : dir ≠ [] := compilerDirectory_ne_nil hdir
      have hlast : kept (withDefault l) ++ [dir] ≠ [[]] := by
        intro hc
        have hmem : dir ∈ [[]] := hc ▸ List.mem_append_right _ (List.mem_singleton_self dir)
        exact hne (List.mem_singleton.mp hmem)
      rw [Option.elim_some, append_encode, elems_encode hnoSep, kept_of_ne hlast,
        Option.toList_some]

/-- The elements, if it is. -/
theorem searchPathElements_of_mem (h : noCompilerPath ∈ l.paths) :
    searchPathElements w (encode semicolon l.paths) =
      listedDirectories w l ++
        if listedDirectories w l = [] then [] else defaultElement l := by
  have hmem := (noCompilerPath_mem_withDefault l).mpr h
  have hkept : kept (withDefault l) = withDefault l := by
    refine kept_of_ne fun hlost => ?_
    rw [hlost] at hmem
    exact absurd hmem (by decide)
  have hfilter := filter_withDefault_noCompilerPath l
  have hnil : [] ∉ (l.paths.filter (· ≠ noDefaultPath)).filter (· ≠ noCompilerPath) :=
    fun hc => nil_notMem_filter l _ (List.mem_filter.mp hc).1
  have hnoSep : ∀ x ∈ (withDefault l).filter (· ≠ noCompilerPath), semicolon ∉ x :=
    fun x hx => semicolon_notMem_withDefault l x (List.mem_filter.mp hx).1
  unfold searchPathElements withCompilerPath
  rw [withDefaultPath_encode, find_encode (semicolon_notMem_withDefault l), hkept]
  cases hfind : (withDefault l).idxOf? noCompilerPath with
  | none => exact absurd hmem (List.idxOf?_eq_none_iff.mp hfind)
  | some i =>
      simp only [usable_elim w _ (removeItem semicolon _)]
      rw [removeAt_encode (semicolon_notMem_withDefault l), hkept, eraseIdx_eq_filter hfind
        (count_withDefault_noCompilerPath l), listedDirectories_of_mem w l h]
      cases hdir : compilerDirectory w with
      | none =>
          rw [Option.elim_none, Option.elim_none, elems_encode hnoSep, hfilter,
            kept_append_default l hnil]
      | some dir =>
          have hdirNil : dir ≠ [] := compilerDirectory_ne_nil hdir
          rw [Option.elim_some, Option.elim_some, removeItem_encode hnoSep,
            elems_encode fun x hx => hnoSep x (mem_of_mem_kept (List.mem_filter.mp hx).1), hfilter,
            kept_append_default l hnil]
          generalize (l.paths.filter (· ≠ noDefaultPath)).filter (· ≠ noCompilerPath) = listed
            at hnil
          -- The element for the default search is lost with the keyword, or else with the
          -- directory of the compiler.
          by_cases hlisted : listed = []
          · simp [hlisted, kept]
          · have hnil' : [] ∉ listed.filter (· ≠ dir) := fun hc => hnil (List.mem_filter.mp hc).1
            rw [if_neg hlisted, List.filter_append, filter_defaultElement l hdirNil,
              kept_append_default l hnil']

/-- The elements that the loop goes through: the directories listed, the
    default search unless it is excluded or lost, and the directory of the
    compiler unless that is excluded. -/
theorem searchPathElements_eq :
    searchPathElements w (encode semicolon l.paths) =
      listedDirectories w l ++ (if listedDirectories w l = [] then [] else defaultElement l) ++
        (if l.hasKeyword noCompilerPath then [] else (compilerDirectory w).toList) := by
  by_cases h : l.hasKeyword noCompilerPath = true
  · rw [searchPathElements_of_mem w l ((hasKeyword_iff l _).mp h), if_pos h, List.append_nil]
  · have hnot : noCompilerPath ∉ l.paths := fun hc => h ((hasKeyword_iff l _).mpr hc)
    rw [searchPathElements_of_notMem w l hnot, if_neg h, listedDirectories_of_notMem w l hnot,
      withDefault, kept_append_default l (nil_notMem_filter l _)]

end Elements

/-! ### The Loop -/

section Loop

variable (w : CMakeWorld)

/-- The library found for an element. -/
def searchElement (path : CMakeStr) : Option CMakeStr :=
  if path = [] then w.findLibraryDefault else w.findLibrary path

theorem searchElement_path {path lib : CMakeStr} (h : searchElement w path = some lib) :
    isFalse lib = false := by
  unfold searchElement at h
  by_cases hpath : path = []
  · rw [if_pos hpath] at h
    exact w.findLibraryDefault_path lib h
  · rw [if_neg hpath] at h
    exact w.findLibrary_path path lib h

theorem considerPath_none {path : CMakeStr} (s : HighestState)
    (h : searchElement w path = none) : considerPath w s path = s := by
  have hnot : libFound w path = notFound libFoundName := by
    rw [libFound, ← searchElement, h, Option.getD_none]
  rw [considerPath, if_neg fun hc => hc.2 hnot]

theorem considerPath_some {path lib : CMakeStr} (s : HighestState)
    (h : searchElement w path = some lib) : considerPath w s path = considerLibrary w lib s := by
  have hfound : libFound w path = lib := by
    rw [libFound, ← searchElement, h, Option.getD_some]
  have htrue := searchElement_path w h
  rw [considerPath, hfound, if_pos ⟨htrue, ne_notFound_of_true htrue _⟩]

/-- What the variables of the loop say of the libraries looked at. -/
structure Highest (libs : List CMakeStr) (s : HighestState) : Prop where
  considered : s.considered = libs
  found : s.foundLibrary = s.optimal.isSome
  scanned : Scanned (reportedVersion w) libs s.highestValue s.optimal

variable {w}

/-- Looking at one library more. -/
theorem Highest.consider {libs : List CMakeStr} {s : HighestState} (h : Highest w libs s)
    (lib : CMakeStr) : Highest w (libs ++ [lib]) (considerLibrary w lib s) := by
  unfold considerLibrary
  rcases versionToolOutput_reads w lib with ⟨hzero, hmatches⟩ | ⟨hmatches, hvalue⟩
  · have hle : reportedVersion w lib ≤ s.highestValue := by omega
    simp only [hmatches, Bool.false_eq_true, if_false]
    exact ⟨by simp [h.considered], h.found, h.scanned.lower hle⟩
  · simp only [hmatches, hvalue, if_true]
    by_cases hhigher : reportedVersion w lib > s.highestValue
    · simp only [if_pos hhigher]
      exact ⟨by simp [h.considered], rfl, h.scanned.higher hhigher⟩
    · simp only [if_neg hhigher]
      exact ⟨by simp [h.considered], h.found, h.scanned.lower (not_lt.mp hhigher)⟩

/-- What the loop does with its elements. -/
theorem findHighest_loop (elements : List CMakeStr) :
    Highest w (elements.filterMap (searchElement w)) (elements.foldl (considerPath w) {}) := by
  induction elements using List.reverseRecOn with
  | nil => exact ⟨rfl, rfl, scanned_nil⟩
  | append_singleton elements path ih =>
      rw [List.foldl_concat, List.filterMap_append]
      cases hsearch : searchElement w path with
      | none =>
          rw [considerPath_none w _ hsearch]
          simpa [hsearch] using ih
      | some lib =>
          rw [considerPath_some w _ hsearch]
          simpa [hsearch] using ih.consider lib

end Loop

section Result

variable (w : CMakeWorld) (optimalLibstdcxx : CMakeStr) (l : PathList)

theorem filterMap_listed :
    (listedDirectories w l).filterMap (searchElement w) =
      (listedDirectories w l).filterMap w.findLibrary := by
  refine List.filterMap_congr fun path hpath => ?_
  have hne : path ≠ [] := by
    intro hnil
    rw [hnil] at hpath
    exact l.ne_nil (List.mem_filter.mp hpath).1
  exact if_neg hne

theorem filterMap_compiler :
    (compilerDirectory w).toList.filterMap (searchElement w) =
      ((compilerDirectory w).bind w.findLibrary).toList := by
  cases hdir : compilerDirectory w with
  | none => rfl
  | some dir =>
      have hsearch : searchElement w dir = w.findLibrary dir :=
        if_neg (compilerDirectory_ne_nil hdir)
      cases hlib : w.findLibrary dir with
      | none => simp [hsearch, hlib]
      | some lib => simp [hsearch, hlib]

theorem filterMap_default :
    (defaultElement l).filterMap (searchElement w) =
      if l.hasKeyword noDefaultPath then [] else w.findLibraryDefault.toList := by
  by_cases hmem : noDefaultPath ∈ l.paths
  · simp [defaultElement_of_mem l hmem, hmem]
  · cases hlib : w.findLibraryDefault with
    | none => simp [defaultElement_of_notMem l hmem, hmem, searchElement, hlib]
    | some lib => simp [defaultElement_of_notMem l hmem, hmem, searchElement, hlib]

/-- The libraries that are looked at are the candidates, but for that of the
    default search if it is lost. -/
theorem considered_eq :
    (findHighestLibstdcxx w optimalLibstdcxx (encode semicolon l.paths)).considered =
      (listedDirectories w l).filterMap w.findLibrary ++
        (if listedDirectories w l = [] ∨ l.hasKeyword noDefaultPath = true then []
          else w.findLibraryDefault.toList) ++
        (if l.hasKeyword noCompilerPath then []
          else ((compilerDirectory w).bind w.findLibrary).toList) := by
  refine (findHighest_loop (searchPathElements w (encode semicolon l.paths))).considered.trans ?_
  rw [searchPathElements_eq, List.filterMap_append, List.filterMap_append, filterMap_listed]
  congr 1
  · congr 1
    by_cases hlisted : listedDirectories w l = []
    · simp [hlisted]
    · simp [hlisted, filterMap_default]
  · by_cases hcompiler : noCompilerPath ∈ l.paths
    · simp [hcompiler]
    · simp [hcompiler, filterMap_compiler]

/-- Nothing is chosen if all libraries looked at are of version 0, and otherwise
    the first of those with the highest version. -/
theorem value_spec {libs : List CMakeStr}
    (h : (findHighestLibstdcxx w optimalLibstdcxx (encode semicolon l.paths)).considered = libs) :
    ((findHighestLibstdcxx w optimalLibstdcxx (encode semicolon l.paths)).value =
        notFound optimalLibstdcxx ∧ ∀ lib ∈ libs, reportedVersion w lib = 0) ∨
    ((findHighestLibstdcxx w optimalLibstdcxx (encode semicolon l.paths)).value ≠
        notFound optimalLibstdcxx ∧
      IsFirstHighest (reportedVersion w) libs
        (findHighestLibstdcxx w optimalLibstdcxx (encode semicolon l.paths)).value) := by
  have hloop := findHighest_loop (w := w) (searchPathElements w (encode semicolon l.paths))
  have hlibs : (searchPathElements w (encode semicolon l.paths)).filterMap (searchElement w) =
      libs := hloop.considered.symm.trans h
  rw [hlibs] at hloop
  unfold findHighestLibstdcxx
  cases hoptimal : ((searchPathElements w (encode semicolon l.paths)).foldl
      (considerPath w) {}).optimal with
  | none =>
      have hfound := hloop.found
      have hscanned := hloop.scanned
      rw [hoptimal] at hfound hscanned
      simp only [hfound, Option.isSome_none, Bool.false_eq_true, if_false]
      exact Or.inl ⟨trivial, hscanned.2⟩
  | some lib =>
      have hfound := hloop.found
      have hscanned := hloop.scanned
      rw [hoptimal] at hfound hscanned
      simp only [hfound, Option.isSome_some, if_true, hoptimal, Option.getD_some]
      refine Or.inr ⟨fun hnot => ?_, hscanned.found⟩
      -- What is chosen was found, and so it is no false value.
      rcases hscanned.found with ⟨before, behind, hsplit, _⟩
      rw [hsplit] at hlibs
      have hmem : lib ∈ before ++ lib :: behind := List.mem_append_right _ List.mem_cons_self
      rw [← hlibs] at hmem
      rcases List.mem_filterMap.mp hmem with ⟨path, _, hsearch⟩
      exact ne_notFound_of_true (searchElement_path w hsearch) optimalLibstdcxx hnot

end Result

/-- The function looks at the right libraries, and chooses the first of those
    with the highest version, exactly when the default search is excluded, or
    finds nothing, or has company: a directory that is listed and is not that of
    the compiler where it is excluded. -/
theorem findsHighest_iff (w : CMakeWorld) (optimalLibstdcxx : CMakeStr) (l : PathList) :
    FindsHighest w optimalLibstdcxx l ↔
      noDefaultPath ∈ l.paths ∨ w.findLibraryDefault = none ∨ listedDirectories w l ≠ [] := by
  constructor
  · intro h
    have hconsidered := h.considered
    rw [considered_eq] at hconsidered
    by_contra hlost
    simp only [not_or, not_not, ne_eq] at hlost
    rcases hlost with ⟨hdefault, hfound, hlisted⟩
    rcases Option.ne_none_iff_exists'.mp hfound with ⟨lib, hlib⟩
    simp [candidates, hlisted, hdefault, hlib] at hconsidered
  · intro h
    have hconsidered : (findHighestLibstdcxx w optimalLibstdcxx
        (encode semicolon l.paths)).considered = candidates w l := by
      rw [considered_eq, candidates]
      congr 2
      rcases h with hdefault | hfound | hlisted
      · simp [hdefault]
      · simp [hfound]
      · simp [hlisted]
    rcases value_spec w optimalLibstdcxx l hconsidered with ⟨hvalue, hzero⟩ | ⟨hvalue, hhighest⟩
    · refine ⟨hconsidered, iff_of_true hvalue hzero, fun hex => ?_⟩
      rcases hex with ⟨lib, hmem, hne⟩
      exact absurd (hzero lib hmem) hne
    · refine ⟨hconsidered, iff_of_false hvalue fun hzero => ?_, fun _ => hhighest⟩
      rcases hhighest with ⟨before, behind, hsplit, hpos, _, _⟩
      have hmem : (findHighestLibstdcxx w optimalLibstdcxx (encode semicolon l.paths)).value ∈
          candidates w l := by
        rw [hsplit]
        exact List.mem_append_right _ List.mem_cons_self
      have hvalueZero := hzero _ hmem
      omega

/-! ### A System with One Library -/

/-- The library that the default search finds. -/
def defaultLibrary : CMakeStr := "/usr/lib/libstdc++.so.6".toList

/-- A compiler that is not GCC, and a library of version 3.4.30 in a default
    directory. -/
def defaultOnlyWorld : CMakeWorld where
  compilerIsGnu := false
  printFileName := []
  realDirectory path := if semicolon ∈ path then [] else path
  findLibrary _ := none
  findLibraryDefault := some defaultLibrary
  versionResult _ := some ⟨.success, 0x03041e, []⟩
  realDirectory_noSep path := by
    by_cases h : semicolon ∈ path
    · simp [h]
    · simp [h]
  findLibrary_path _ _ h := by cases h
  findLibraryDefault_path lib h := by
    rw [← Option.some.inj h]
    decide +kernel
  versionResult_lt lib r h := by
    rw [← Option.some.inj h]
    decide

/-- Nothing is listed. -/
def emptyPathList : PathList where
  paths := []
  ne_nil := List.not_mem_nil
  noSep _ h := absurd h List.not_mem_nil
  noDefault_once := Nat.zero_le 1
  noCompiler_once := Nat.zero_le 1

/-- The library of the default search is not looked at. -/
theorem emptyPathList_not_findsHighest :
    ¬ FindsHighest defaultOnlyWorld "LIBSTDCXXSO_PATH".toList emptyPathList := by
  intro h
  have hcandidates : candidates defaultOnlyWorld emptyPathList = [defaultLibrary] := by
    decide +kernel
  have hconsidered : (findHighestLibstdcxx defaultOnlyWorld "LIBSTDCXXSO_PATH".toList
      (encode semicolon emptyPathList.paths)).considered = [] := by decide +kernel
  have hsame := h.considered
  rw [hcandidates, hconsidered] at hsame
  cases hsame

end AuditLibstdcxx
