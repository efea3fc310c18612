import AuditLibstdcxx.Theory.Scan

/-!
# What a File Is to the Library

The reader has three answers for a file: a version, nothing to compare with,
or that it is of the other class. Which one it is does not depend on the
descriptor, on what the output held before, or on how much fuel there is, so
an answer is a property of the file. A file on which an `ASSERT` fires, or
that is left on the way, has none.

## Main definitions

* `Reading`: The three answers.
* `Reads`: A file has an answer.

## Theorems

* `reads_of_ok`: What the reader hands back is the answer of the file.
* `Reads.yields`: With enough fuel it is handed back.
* `Reads.unique`: A file has at most one answer.
* `Reads.not_version`: A file with another answer has no version.
* `Reads.version_lt`: A version fits in 24 bits.
* `reads_mapped_iff`, `reads_unmapped_iff`: Which files have which answers.
-/

namespace AuditLibstdcxx

open Checked

/-- The three answers of the reader. -/
inductive Reading where
  | version (v : Nat)
  | unreadable
  | otherClass
  deriving DecidableEq, Repr

namespace Reading

/-- The error code that goes with an answer. -/
def error : Reading → ErrorCode
  | version _ => .success
  | unreadable => .fatalError
  | otherClass => .nonFatalError

/-- What is left in an output that held `out`. -/
def value (out : Nat) : Reading → Nat
  | version v => v
  | unreadable => out
  | otherClass => out

end Reading

/-- The reader gets through the file with this answer. -/
def Reads (file : OpenFile) (x : Reading) : Prop :=
  ∃ fuel fd out calls,
    getLibstdcxxVersion fuel fd file out = .ok ⟨x.error, x.value out, calls⟩

section Image

variable {m : Image}

/-- The answers in terms of what is in the file. -/
def Image.Shows (m : Image) : Reading → Prop
  | .version v => m.IsElf ∧ m.IsNative ∧ IsGreatest (walkedVersions m) v
  | .unreadable => m.IsElf → m.IsNative ∧ walkedVersions m = ∅
  | .otherClass => m.IsElf ∧ ¬ m.IsNative

theorem Image.shows_unique {x y : Reading} (hx : m.Shows x) (hy : m.Shows y) : x = y := by
  cases x with
  | version v =>
      cases y with
      | version u => rw [hx.2.2.unique hy.2.2]
      | unreadable =>
          have hmem := hx.2.2.1
          -- A file without versions has no greatest one.
          rw [(hy hx.1).2] at hmem
          exact absurd hmem (Set.notMem_empty v)
      | otherClass => exact absurd hx.2.1 hy.2
  | unreadable =>
      cases y with
      | version u =>
          have hmem := hy.2.2.1
          rw [(hx hy.1).2] at hmem
          exact absurd hmem (Set.notMem_empty u)
      | unreadable => rfl
      | otherClass => exact absurd (hx hy.1).1 hy.2
  | otherClass =>
      cases y with
      | version u => exact absurd hy.2.1 hx.2
      | unreadable => exact absurd (hy hx.1).1 hx.2
      | otherClass => rfl

/-- What the walk comes back with is what the file shows. -/
theorem scanImage_shows {out : Nat} {r : ErrorCode × Nat}
    (h : Yields (fun fuel => scanImage fuel m out) r) :
    ∃ x, m.Shows x ∧ r = (x.error, x.value out) := by
  rcases scanImage_value h with ⟨helf, hnative, herr, hv⟩ | ⟨helf, hnative, herr, hempty, hout⟩ |
    ⟨helf, hr⟩ | ⟨helf, hnative, hr⟩
  · exact ⟨.version r.2, ⟨helf, hnative, hv⟩, Prod.ext herr rfl⟩
  · exact ⟨.unreadable, fun _ => ⟨hnative, hempty⟩, Prod.ext herr hout⟩
  · exact ⟨.unreadable, fun hc => absurd hc helf, hr⟩
  · exact ⟨.otherClass, ⟨helf, hnative⟩, hr⟩

end Image

section Reads

variable {file : OpenFile} {x y : Reading}

/-- A mapped file has an answer when the reader gets through it, and then it is
    the one the file shows. -/
theorem reads_mapped_iff {m : Image} : Reads (.mapped m) x ↔ ScanPasses m ∧ m.Shows x := by
  constructor
  · rintro ⟨fuel, fd, out, calls, h⟩
    have hscan := ((getLibstdcxxVersion_eq_ok fuel fd out _).mp h).1
    refine ⟨(scanImage_yields_iff out).mp ⟨_, fuel, hscan⟩, ?_⟩
    rcases scanImage_shows ⟨fuel, hscan⟩ with ⟨y, hy, heq⟩
    have herr := (Prod.ext_iff.mp heq).1
    have hval := (Prod.ext_iff.mp heq).2
    -- The error codes tell the answers apart, and the value a version.
    cases x with
    | version v =>
        cases y with
        | version u =>
            rw [show v = u from hval]
            exact hy
        | unreadable => cases herr
        | otherClass => cases herr
    | unreadable =>
        cases y with
        | version u => cases herr
        | unreadable => exact hy
        | otherClass => cases herr
    | otherClass =>
        cases y with
        | version u => cases herr
        | unreadable => cases herr
        | otherClass => exact hy
  · rintro ⟨hpasses, hx⟩
    -- The reader comes through, and what it hands back is what is shown.
    rcases (scanImage_yields_iff 0).mpr hpasses with ⟨r, fuel, hr⟩
    rcases scanImage_shows ⟨fuel, hr⟩ with ⟨y, hy, rfl⟩
    rw [Image.shows_unique hy hx] at hr
    exact ⟨fuel, 0, 0, _, (getLibstdcxxVersion_eq_ok fuel 0 0 ⟨_, _, _⟩).mpr ⟨hr, rfl⟩⟩

/-- A file that cannot be mapped has nothing to compare with. -/
theorem reads_unmapped_iff (h : file = .noStat ∨ file = .noMap) :
    Reads file x ↔ x = .unreadable := by
  have hread : ∀ fuel fd out, getLibstdcxxVersion fuel fd file out =
      .ok ⟨.fatalError, out, [.close fd]⟩ := by
    intro fuel fd out
    rcases h with rfl | rfl
    · rfl
    · rfl
  constructor
  · rintro ⟨fuel, fd, out, calls, hx⟩
    rw [hread] at hx
    cases x with
    | version v => cases hx
    | unreadable => rfl
    | otherClass => cases hx
  · rintro rfl
    exact ⟨0, 0, 0, _, hread 0 0 0⟩

/-- What the reader hands back is the answer of the file. -/
theorem reads_of_ok {fuel fd out : Nat} {r : VersionResult}
    (h : getLibstdcxxVersion fuel fd file out = .ok r) :
    ∃ x, Reads file x ∧ r.error = x.error ∧ r.glibcxxVersion = x.value out := by
  cases file with
  | noStat =>
      cases h
      exact ⟨.unreadable, (reads_unmapped_iff (Or.inl rfl)).mpr rfl, rfl, rfl⟩
  | noMap =>
      cases h
      exact ⟨.unreadable, (reads_unmapped_iff (Or.inr rfl)).mpr rfl, rfl, rfl⟩
  | mapped m =>
      have hscan := ((getLibstdcxxVersion_eq_ok fuel fd out r).mp h).1
      rcases scanImage_shows ⟨fuel, hscan⟩ with ⟨x, hx, heq⟩
      have hpasses := (scanImage_yields_iff out).mp ⟨_, fuel, hscan⟩
      exact ⟨x, reads_mapped_iff.mpr ⟨hpasses, hx⟩, (Prod.ext_iff.mp heq).1,
        (Prod.ext_iff.mp heq).2⟩

/-- With enough fuel the answer of a file is handed back. -/
theorem Reads.yields (h : Reads file x) (fd out : Nat) :
    ∃ calls, Yields (fun fuel => getLibstdcxxVersion fuel fd file out)
      ⟨x.error, x.value out, calls⟩ := by
  cases file with
  | noStat =>
      rw [(reads_unmapped_iff (Or.inl rfl)).mp h]
      exact ⟨_, 0, rfl⟩
  | noMap =>
      rw [(reads_unmapped_iff (Or.inr rfl)).mp h]
      exact ⟨_, 0, rfl⟩
  | mapped m =>
      rcases reads_mapped_iff.mp h with ⟨hpasses, hx⟩
      -- Getting through does not depend on the output.
      rcases (scanImage_yields_iff out).mpr hpasses with ⟨r, fuel, hr⟩
      rcases scanImage_shows ⟨fuel, hr⟩ with ⟨y, hy, rfl⟩
      rw [Image.shows_unique hy hx] at hr
      exact ⟨_, fuel, (getLibstdcxxVersion_eq_ok fuel fd out ⟨_, _, _⟩).mpr ⟨hr, rfl⟩⟩

/-- A file has at most one answer. -/
theorem Reads.unique (hx : Reads file x) (hy : Reads file y) : x = y := by
  cases file with
  | noStat =>
      rw [(reads_unmapped_iff (Or.inl rfl)).mp hx, (reads_unmapped_iff (Or.inl rfl)).mp hy]
  | noMap =>
      rw [(reads_unmapped_iff (Or.inr rfl)).mp hx, (reads_unmapped_iff (Or.inr rfl)).mp hy]
  | mapped m => exact Image.shows_unique (reads_mapped_iff.mp hx).2 (reads_mapped_iff.mp hy).2

/-- A file whose answer goes with an error has no version. -/
theorem Reads.not_version (h : Reads file x) (hx : x.error ≠ .success) (v : Nat) :
    ¬ Reads file (.version v) := by
  intro hv
  rw [h.unique hv] at hx
  exact hx rfl

/-- Only a native library has a version. -/
theorem Reads.native {v : Nat} (h : Reads file (.version v)) :
    ∃ m, file = .mapped m ∧ m.IsElf ∧ m.IsNative ∧ IsGreatest (walkedVersions m) v := by
  cases file with
  | noStat => cases (reads_unmapped_iff (Or.inl rfl)).mp h
  | noMap => cases (reads_unmapped_iff (Or.inr rfl)).mp h
  | mapped m => exact ⟨m, rfl, (reads_mapped_iff.mp h).2⟩

/-- A version fits in 24 bits. -/
theorem Reads.version_lt {v : Nat} (h : Reads file (.version v)) : v < 2 ^ 24 := by
  rcases h.native with ⟨m, _, _, _, hv⟩
  exact walkedVersions_lt hv.1

end Reads

end AuditLibstdcxx
