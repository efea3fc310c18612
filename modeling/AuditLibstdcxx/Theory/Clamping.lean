import AuditLibstdcxx.Theory.Selectors

/-!
# Components of Any Size

The encoder against its documentation, on every string. What is documented is
said of numbers of any size: the longest prefix that is made of digits and of
at most two dots, the runs of digits between the dots, and each of them
clamped to 255. The encoder reads the same runs, but adds their digits up in
32 bits and clamps at the end, so what it clamps is a remainder.

A component shows that only where it is `2 ^ 32` or more, and then only where
its remainder is below the clamp. Everywhere else the encoding is the
documented one, and it orders versions as their clamped components do. That is
not the order of the versions themselves: two that first differ in a component
beyond the clamp are told apart by what comes behind it.

## Main definitions

* `Versionlike`, `versionPrefix`: The longest prefix that reads as a version.
* `component`, `documentedEncoding`: The documented encoding.
* `KeepsClamp`: The remainder of a number is clamped to what the number is.
* `clampTuple`, `KeepsClamps`: Versions, component by component.
* `Separated`: Versions that the clamp does not tell apart the wrong way.

## Theorems

* `split_version`: A string begins with runs of digits between dots.
* `versionPrefix_eq`: These are its longest prefix that reads as a version.
* `versionStringToInt_eq`: What a string encodes to.
* `versionStringToInt_documented_iff`: When the encoding is the documented one.
* `versionStringToInt_le_iff`: The order of encodings.
-/

namespace AuditLibstdcxx

open Checked

/-! ### The Documented Encoding -/

/-- Digits and at most two dots. -/
def Versionlike (p : List UInt8) : Prop :=
  p.all (fun c => decide (IsDigitByte c ∨ c = '.'.toUInt8)) = true ∧ p.count '.'.toUInt8 ≤ 2

instance : DecidablePred Versionlike :=
  fun _ => inferInstanceAs (Decidable (_ ∧ _))

/-- The longest prefix of a string that is made of digits and at most two dots. -/
def versionPrefix (s : List UInt8) : List UInt8 :=
  s.take (Nat.findGreatest (fun n => Versionlike (s.take n)) s.length)

/-- The `i`-th run of digits of a version, as a number. A run that is empty or
    missing is zero. -/
def component (p : List UInt8) (i : Nat) : Nat :=
  decimal ((p.splitOn '.'.toUInt8).getD i [])

/-- `0x00AABBCC`, with every component clamped to 255. -/
def documentedEncoding (s : List UInt8) : Nat :=
  min (component (versionPrefix s) 0) 255 * 65536 +
    min (component (versionPrefix s) 1) 255 * 256 + min (component (versionPrefix s) 2) 255

/-- The remainder of the number is clamped to what the number is clamped to. -/
def KeepsClamp (n : Nat) : Prop :=
  n < 2 ^ 32 ∨ 255 ≤ n % 2 ^ 32

instance : DecidablePred KeepsClamp :=
  fun _ => inferInstanceAs (Decidable (_ ∨ _))

theorem keepsClamp_iff (n : Nat) : KeepsClamp n ↔ min (n % 2 ^ 32) 255 = min n 255 := by
  unfold KeepsClamp
  omega

/-! ### The Runs of a String -/

theorem Versionlike.of_prefix {p q : List UInt8} (h : Versionlike q) (hpq : p <+: q) :
    Versionlike p := by
  refine ⟨List.all_eq_true.mpr fun c hc => ?_, ?_⟩
  · exact List.all_eq_true.mp h.1 c (hpq.subset hc)
  · exact Nat.le_trans (hpq.sublist.count_le _) h.2

/-- The longest prefix ends where one more character is too many. -/
theorem versionPrefix_eq {p rest : List UInt8} (hp : Versionlike p)
    (hrest : rest = [] ∨ ∃ c r, rest = c :: r ∧ ¬ Versionlike (p ++ [c])) :
    versionPrefix (p ++ rest) = p := by
  have hgreatest : Nat.findGreatest (fun n => Versionlike ((p ++ rest).take n))
      (p ++ rest).length = p.length := by
    rw [Nat.findGreatest_eq_iff]
    refine ⟨by rw [List.length_append]; omega, fun _ => by rwa [List.take_left], ?_⟩
    intro n hlt hle hn
    rcases hrest with rfl | ⟨c, r, rfl, hstop⟩
    · rw [List.append_nil] at hle
      omega
    · have hnext : p ++ [c] <+: (p ++ c :: r).take n := by
        rw [List.prefix_take_iff, List.length_append, List.length_singleton]
        exact ⟨⟨r, by rw [List.append_assoc, List.singleton_append]⟩, hlt⟩
      exact hstop (hn.of_prefix hnext)
  rw [versionPrefix, hgreatest, List.take_left]

/-- A string begins with a run of digits. -/
theorem split_digits (s : List UInt8) : ∃ digits rest, s = digits ++ rest ∧
    (∀ c ∈ digits, IsDigitByte c) ∧ (rest = [] ∨ ∃ c r, rest = c :: r ∧ ¬ IsDigitByte c) := by
  induction s with
  | nil => exact ⟨[], [], rfl, by simp, Or.inl rfl⟩
  | cons c s ih =>
      by_cases hc : IsDigitByte c
      · rcases ih with ⟨digits, rest, hs, hdigits, hrest⟩
        refine ⟨c :: digits, rest, by rw [hs, List.cons_append], ?_, hrest⟩
        intro d hd
        rcases List.mem_cons.mp hd with rfl | hd
        · exact hc
        · exact hdigits d hd
      · exact ⟨[], c :: s, rfl, by simp, Or.inr ⟨c, s, rfl, hc⟩⟩

/-- The text behind some runs of digits is none that the next run could go on
    with: no digit, and a dot only where no more dots count. -/
def Stops (dots : Nat) (rest : List UInt8) : Prop :=
  rest = [] ∨ ∃ c r, rest = c :: r ∧ ¬ IsDigitByte c ∧ (c = '.'.toUInt8 → dots = 0)

/-- A string begins with runs of digits between dots, as many as count. -/
theorem split_version : ∀ (dots : Nat) (s : List UInt8), ∃ run runs rest,
    s = ['.'.toUInt8].intercalate (run :: runs) ++ rest ∧
      (∀ d ∈ run :: runs, ∀ c ∈ d, IsDigitByte c) ∧ runs.length ≤ dots ∧
        Stops (dots - runs.length) rest := by
  intro dots
  induction dots with
  | zero =>
      intro s
      rcases split_digits s with ⟨digits, rest, hs, hdigits, hrest⟩
      refine ⟨digits, [], rest, by simpa [List.intercalate] using hs, by simpa using hdigits,
        Nat.le_refl 0, ?_⟩
      rcases hrest with hnil | ⟨c, r, hcons, hc⟩
      · exact Or.inl hnil
      · exact Or.inr ⟨c, r, hcons, hc, fun _ => rfl⟩
  | succ dots ih =>
      intro s
      rcases split_digits s with ⟨digits, rest, hs, hdigits, hrest⟩
      rcases hrest with hnil | ⟨c, r, hcons, hc⟩
      · exact ⟨digits, [], rest, by simpa [List.intercalate] using hs, by simpa using hdigits,
          Nat.zero_le _, Or.inl hnil⟩
      · by_cases hdot : c = '.'.toUInt8
        · rcases ih r with ⟨run, runs, rest', hr, hall, hlen, hstops⟩
          refine ⟨digits, run :: runs, rest', ?_, ?_, by simpa using hlen, by simpa using hstops⟩
          · rw [hs, hcons, hdot, hr, List.intercalate_cons_cons]
            simp
          · intro d hd
            rcases List.mem_cons.mp hd with rfl | hd
            · exact hdigits
            · exact hall d hd
        · exact ⟨digits, [], rest, by simpa [List.intercalate] using hs, by simpa using hdigits,
            Nat.zero_le _, Or.inr ⟨c, r, hcons, hc, fun h => absurd h hdot⟩⟩

section Runs

variable {run : List UInt8} {runs : List (List UInt8)}
  (hall : ∀ d ∈ run :: runs, ∀ c ∈ d, IsDigitByte c)

include hall

theorem runs_noDot : ∀ d ∈ run :: runs, '.'.toUInt8 ∉ d := by
  intro d hd hdot
  exact absurd (hall d hd _ hdot) (by decide)

/-- Runs of digits between dots are put back together by taking them apart. -/
theorem splitOn_runs : (['.'.toUInt8].intercalate (run :: runs)).splitOn '.'.toUInt8 =
    run :: runs :=
  List.splitOn_intercalate _ (runs_noDot hall) (List.cons_ne_nil _ _)

theorem intercalate_chars : ∀ c ∈ ['.'.toUInt8].intercalate (run :: runs),
    IsDigitByte c ∨ c = '.'.toUInt8 := by
  induction runs generalizing run with
  | nil =>
      intro c hc
      rw [List.intercalate_singleton] at hc
      exact Or.inl (hall run List.mem_cons_self c hc)
  | cons next runs ih =>
      intro c hc
      rw [List.intercalate_cons_cons, List.mem_append, List.mem_append] at hc
      rcases hc with (hc | hc) | hc
      · exact Or.inl (hall run List.mem_cons_self c hc)
      · exact Or.inr (List.mem_singleton.mp hc)
      · exact ih (fun d hd => hall d (List.mem_cons_of_mem _ hd)) c hc

theorem intercalate_count : (['.'.toUInt8].intercalate (run :: runs)).count '.'.toUInt8 =
    runs.length := by
  induction runs generalizing run with
  | nil =>
      rw [List.intercalate_singleton, List.length_nil, List.count_eq_zero]
      exact runs_noDot hall run List.mem_cons_self
  | cons next runs ih =>
      have hrest := ih (fun d hd => hall d (List.mem_cons_of_mem _ hd))
      have hrun : run.count '.'.toUInt8 = 0 :=
        List.count_eq_zero.mpr (runs_noDot hall run List.mem_cons_self)
      rw [List.intercalate_cons_cons, List.count_append, List.count_append, hrest, hrun,
        List.count_singleton_self, List.length_cons]
      omega

/-- The runs a string begins with are its longest prefix that reads as a
    version. -/
theorem versionPrefix_runs {rest : List UInt8} (hlen : runs.length ≤ 2)
    (hstops : Stops (2 - runs.length) rest) :
    versionPrefix (['.'.toUInt8].intercalate (run :: runs) ++ rest) =
      ['.'.toUInt8].intercalate (run :: runs) := by
  have hversion : Versionlike (['.'.toUInt8].intercalate (run :: runs)) := by
    refine ⟨List.all_eq_true.mpr fun c hc => ?_, ?_⟩
    · exact decide_eq_true (intercalate_chars hall c hc)
    · rwa [intercalate_count hall]
  refine versionPrefix_eq hversion ?_
  rcases hstops with hnil | ⟨c, r, hcons, hdigit, hdot⟩
  · exact Or.inl hnil
  · refine Or.inr ⟨c, r, hcons, fun hlonger => ?_⟩
    by_cases hc : c = '.'.toUInt8
    · -- It would be a third dot.
      have hcount := hlonger.2
      rw [hc, List.count_append, intercalate_count hall, List.count_singleton_self] at hcount
      have hfull := hdot hc
      omega
    · have hlast := List.all_eq_true.mp hlonger.1 c (by simp)
      rcases of_decide_eq_true hlast with h | h
      · exact hdigit h
      · exact hc h

theorem component_runs (i : Nat) : component (['.'.toUInt8].intercalate (run :: runs)) i =
    decimal ((run :: runs).getD i []) := by
  rw [component, splitOn_runs hall]

end Runs

/-! ### What the Encoder Reads -/

/-- What is behind the runs ends the loop. -/
theorem scanVersion_stops {rest : List UInt8} (m : MajorMinorRevision) (v : Fin 3)
    (h : Stops (2 - v.val) rest) : scanVersion m v (rest ++ [0]) = .ok m := by
  rcases h with rfl | ⟨c, r, rfl, hdigit, hdot⟩
  · rw [List.nil_append, scanVersion_zero]
  · rw [List.cons_append]
    refine scanVersion_stop hdigit m (fun hc => ?_) _
    have hlt : v.val < 2 := hc.2
    have hend := hdot hc.1
    omega

/-- The encoder reads the runs a string begins with, each modulo `2 ^ 32`. -/
theorem scanVersion_runs {run : List UInt8} {runs : List (List UInt8)} {rest : List UInt8}
    (hall : ∀ d ∈ run :: runs, ∀ c ∈ d, IsDigitByte c) (hlen : runs.length ≤ 2)
    (hstops : Stops (2 - runs.length) rest) :
    scanVersion ⟨0, 0, 0⟩ 0 (['.'.toUInt8].intercalate (run :: runs) ++ rest ++ [0]) =
      .ok ⟨decimal ((run :: runs).getD 0 []) % 2 ^ 32,
        decimal ((run :: runs).getD 1 []) % 2 ^ 32,
        decimal ((run :: runs).getD 2 []) % 2 ^ 32⟩ := by
  have hfirst := hall run List.mem_cons_self
  cases runs with
  | nil =>
      rw [List.intercalate_singleton, List.append_assoc, scanVersion_component hfirst _ 0 rfl,
        scanVersion_stops _ 0 hstops]
      rfl
  | cons second runs =>
      have hsecond := hall second (by simp)
      cases runs with
      | nil =>
          simp only [List.intercalate_cons_cons, List.intercalate_singleton, List.append_assoc,
            List.cons_append, List.nil_append]
          rw [scanVersion_component hfirst _ 0 rfl, scanVersion_dot _ (by decide),
            scanVersion_component hsecond _ (0 + 1) rfl, scanVersion_stops _ (0 + 1) hstops]
          rfl
      | cons third runs =>
          have hthird := hall third (by simp)
          have hnil : runs = [] := by
            simpa using hlen
          rw [hnil] at hstops ⊢
          simp only [List.intercalate_cons_cons, List.intercalate_singleton, List.append_assoc,
            List.cons_append, List.nil_append]
          rw [scanVersion_component hfirst _ 0 rfl, scanVersion_dot _ (by decide),
            scanVersion_component hsecond _ (0 + 1) rfl, scanVersion_dot _ (by decide),
            scanVersion_component hthird _ (0 + 1 + 1) rfl,
            scanVersion_stops _ (0 + 1 + 1) hstops]
          rfl

/-- What a string encodes to: the components of its longest prefix that reads
    as a version, each as a remainder. -/
theorem versionStringToInt_eq (s : List UInt8) : versionStringToInt (s ++ [0]) =
    .ok (packVersion ⟨component (versionPrefix s) 0 % 2 ^ 32,
      component (versionPrefix s) 1 % 2 ^ 32, component (versionPrefix s) 2 % 2 ^ 32⟩) := by
  rcases split_version 2 s with ⟨run, runs, rest, rfl, hall, hlen, hstops⟩
  rw [versionPrefix_runs hall hlen hstops, component_runs hall, component_runs hall,
    component_runs hall, versionStringToInt, scanVersion_runs hall hlen hstops]
  rfl

/-- Three clamped components can be read off their packed value. -/
theorem packed_inj {a b c a' b' c' : Nat} (hb : b < 256) (hc : c < 256) (hb' : b' < 256)
    (hc' : c' < 256) :
    a * 65536 + b * 256 + c = a' * 65536 + b' * 256 + c' ↔ a = a' ∧ b = b' ∧ c = c' := by
  omega

/-- The encoding is the documented one exactly when no component is so large
    that its remainder hides that it is clamped. -/
theorem versionStringToInt_documented_iff (s : List UInt8) :
    versionStringToInt (s ++ [0]) = .ok (documentedEncoding s) ↔
      ∀ i < 3, KeepsClamp (component (versionPrefix s) i) := by
  have hclamp : ∀ n, min n 255 < 256 := fun n => by omega
  rw [versionStringToInt_eq, Except.ok.injEq, packVersion_eq, documentedEncoding,
    packed_inj (hclamp _) (hclamp _) (hclamp _) (hclamp _),
    ← keepsClamp_iff, ← keepsClamp_iff, ← keepsClamp_iff]
  refine ⟨fun h i hi => ?_, fun h => ⟨h 0 (by omega), h 1 (by omega), h 2 (by omega)⟩⟩
  obtain rfl | rfl | rfl : i = 0 ∨ i = 1 ∨ i = 2 := by omega
  · exact h.1
  · exact h.2.1
  · exact h.2.2

/-- `"4294967296"` -/
def wrappingString : List UInt8 :=
  "4294967296".toList.map Char.toUInt8

/-- A component of `2 ^ 32` encodes as zero. -/
theorem wrappingString_not_documented :
    versionStringToInt (wrappingString ++ [0]) ≠ .ok (documentedEncoding wrappingString) := by
  decide +kernel

/-! ### The Order of Encodings -/

/-- A version with every component clamped to 255. -/
def clampTuple (t : VersionTuple) : VersionTuple :=
  versionTuple (min (ofLex t).1 255) (min (ofLex (ofLex t).2).1 255) (min (ofLex (ofLex t).2).2 255)

/-- Every component of the version keeps its clamp. -/
structure KeepsClamps (t : VersionTuple) : Prop where
  major : KeepsClamp (ofLex t).1
  minor : KeepsClamp (ofLex (ofLex t).2).1
  patch : KeepsClamp (ofLex (ofLex t).2).2

/-- Where the versions first differ in their major or their minor component,
    that of the first is below the clamp. -/
structure Separated (t u : VersionTuple) : Prop where
  major : (ofLex t).1 ≠ (ofLex u).1 → (ofLex t).1 < 255
  minor : (ofLex t).1 = (ofLex u).1 → (ofLex (ofLex t).2).1 ≠ (ofLex (ofLex u).2).1 →
    (ofLex (ofLex t).2).1 < 255

theorem clampTuple_unclamped (t : VersionTuple) : Unclamped (clampTuple t) :=
  ⟨Nat.min_le_right _ _, Nat.min_le_right _ _, Nat.min_le_right _ _⟩

theorem packVersion_keepsClamps {t : VersionTuple} (ht : KeepsClamps t) :
    packVersion (accumulated t) = pack (clampTuple t) := by
  rw [packVersion_eq, accumulated, (keepsClamp_iff _).mp ht.major, (keepsClamp_iff _).mp ht.minor,
    (keepsClamp_iff _).mp ht.patch]
  rfl

/-- Packing keeps the order of clamped versions. -/
theorem pack_clampTuple_le (t u : VersionTuple) :
    pack (clampTuple t) ≤ pack (clampTuple u) ↔ clampTuple t ≤ clampTuple u := by
  rw [← not_lt, ← not_lt, pack_lt_pack (clampTuple_unclamped u) (clampTuple_unclamped t)]

/-- Clamping keeps the order of versions that are told apart below the clamp. -/
theorem clampTuple_le {t u : VersionTuple} (h : t ≤ u) (hsep : Separated t u) :
    clampTuple t ≤ clampTuple u := by
  have hmajor := hsep.major
  have hminor := hsep.minor
  rw [← not_lt, versionTuple_lt_iff] at h ⊢
  simp only [clampTuple, versionTuple, ofLex_toLex]
  omega

/-- The encodings of two version strings are ordered as their clamped versions
    are, so they are in the order of the versions unless the clamp hides where
    these first differ. -/
theorem versionStringToInt_le_iff {a b : List Char} {t u : VersionTuple} (ha : Dotted a t)
    (hb : Dotted b u) (ht : KeepsClamps t) (hu : KeepsClamps u) :
    ∃ m n, versionStringToInt (cString a) = .ok m ∧ versionStringToInt (cString b) = .ok n ∧
      (m ≤ n ↔ clampTuple t ≤ clampTuple u) ∧ (t ≤ u → Separated t u → m ≤ n) := by
  refine ⟨_, _, versionStringToInt_dotted ha, versionStringToInt_dotted hb, ?_⟩
  rw [packVersion_keepsClamps ht, packVersion_keepsClamps hu, pack_clampTuple_le]
  exact ⟨Iff.rfl, clampTuple_le⟩

/-- The encoder never reverses the order of two versions. -/
def EncodingMonotone : Prop :=
  ∀ (a b : List Char) (t u : VersionTuple), Dotted a t → Dotted b u → t ≤ u →
    ∃ m n, versionStringToInt (cString a) = .ok m ∧ versionStringToInt (cString b) = .ok n ∧ m ≤ n

theorem dotted_minor {a b : List Char} (ha : Numeral a) (hb : Numeral b) {s : List Char}
    {t : VersionTuple} (hs : s = a ++ '.' :: b) (ht : t = versionTuple (pyInt a) (pyInt b) 0) :
    Dotted s t := by
  rw [hs, ht]
  exact Dotted.minor ha hb

/-- Version 255.200 is below version 256.100, but its encoding is above. -/
theorem not_encodingMonotone : ¬ EncodingMonotone := by
  intro h
  have ha : Dotted "255.200".toList (versionTuple 255 200 0) :=
    dotted_minor (a := "255".toList) (b := "200".toList) (by decide) (by decide) rfl rfl
  have hb : Dotted "256.100".toList (versionTuple 256 100 0) :=
    dotted_minor (a := "256".toList) (b := "100".toList) (by decide) (by decide) rfl rfl
  rcases h _ _ _ _ ha hb (by decide) with ⟨m, n, hm, hn, hle⟩
  have hm' : versionStringToInt (cString "255.200".toList) = .ok 0xFFC800 := by decide +kernel
  have hn' : versionStringToInt (cString "256.100".toList) = .ok 0xFF6400 := by decide +kernel
  rw [hm', Except.ok.injEq] at hm
  rw [hn', Except.ok.injEq] at hn
  omega

/-- Versions 3.29 and 3.300 are told apart below the clamp. -/
theorem sampleVersions_le : ∃ m n, versionStringToInt (cString "3.29".toList) = .ok m ∧
    versionStringToInt (cString "3.300".toList) = .ok n ∧ m ≤ n := by
  have ha : Dotted "3.29".toList (versionTuple 3 29 0) :=
    dotted_minor (a := "3".toList) (b := "29".toList) (by decide) (by decide) rfl rfl
  have hb : Dotted "3.300".toList (versionTuple 3 300 0) :=
    dotted_minor (a := "3".toList) (b := "300".toList) (by decide) (by decide) rfl rfl
  have ht : KeepsClamps (versionTuple 3 29 0) := ⟨by decide, by decide, by decide⟩
  have hu : KeepsClamps (versionTuple 3 300 0) := ⟨by decide, by decide, by decide⟩
  rcases versionStringToInt_le_iff ha hb ht hu with ⟨m, n, hm, hn, _, hle⟩
  exact ⟨m, n, hm, hn, hle (by decide) ⟨fun _ => by decide, fun _ _ => by decide⟩⟩

end AuditLibstdcxx
