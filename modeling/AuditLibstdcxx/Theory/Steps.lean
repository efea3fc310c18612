import AuditLibstdcxx.Core.GetVersion

/-!
# What One Pass of Each Loop Needs

The passes of the ELF reader's loops, each described by two conditions on the
file. A *passes* condition says when the pass comes through; a *reads*
condition says when no read of the pass leaves the file, whether or not an
`ASSERT` stops it half-way. Both talk about members being inside the file and
about the values they hold, never about the accumulators: where the reader
goes does not depend on what it has found.

Each pass also moves its position by a function of the file alone, `auxNext`
and `verdefNext`. That is what lets the loop rules apply, with these functions
iterated giving the positions a loop visits.

## Main definitions

* `Compares`: A comparison with a literal stops inside the file.
* `EndsVersion`: The bytes of a version come to an end.
* `NameReadable`: A name can be compared and decoded inside the file.
* `auxName`, `auxNext`: The name of an entry, and the entry after it.
* `AuxPasses`, `AuxReads`: What a pass over auxiliary entries needs.
* `verdefAux`, `verdefNext`, `stringTableOf`: Where a definition leads.
* `BodyPasses`, `BodyReads`: What the entries of a definition need.
* `VerdefPasses`, `VerdefReads`: What a pass over definitions needs.
* `InSection`: The guard of the loop over definitions.
* `Continues`, `Leaves`, `PassReads`: The three fates of that pass.

## Theorems

* `compares_iff`, `nameReadable_iff`: These are what the reader needs.
* `nameVersion_cases`: A name is decoded, or runs off the file.
* `verdauxStep_eq_ok`: What a pass over auxiliary entries does.
* `verdauxStep_ne_outOfRange`: When such a pass stays inside the file.
* `verdauxLoop_eq_ok`: When the loop over auxiliary entries comes through.
* `verdauxLoop_ne_outOfRange`: When that loop stays inside the file.
* `verdefBody_yields`: When a definition comes through.
* `verdefStep_continues`, `verdefStep_leaves`: The two ways a pass ends.
* `verdefStep_ne_outOfRange`: When a pass stays inside the file.
-/

namespace AuditLibstdcxx

open Checked

section Names

theorem scanVersion_cases : ∀ (str : List UInt8) (c : MajorMinorRevision) (v : Fin 3),
    scanVersion c v str = .error .outOfRange ∨ ∃ c', scanVersion c v str = .ok c' := by
  intro str
  induction str with
  | nil => exact fun c v => Or.inl rfl
  | cons x xs ih =>
      intro c v
      simp only [scanVersion]
      by_cases hz : x = 0
      · rw [if_pos hz]
        exact Or.inr ⟨_, rfl⟩
      · rw [if_neg hz]
        -- The character is a separator, a digit, or the end of the number.
        by_cases hd : x = '.'.toUInt8 ∧ v < 2
        · rw [if_pos hd]
          exact ih _ _
        · rw [if_neg hd]
          by_cases hn : '0'.toUInt8 ≤ x ∧ x ≤ '9'.toUInt8
          · rw [if_pos hn]
            exact ih _ _
          · rw [if_neg hn]
            exact Or.inr ⟨_, rfl⟩

theorem versionStringToInt_cases (str : List UInt8) :
    versionStringToInt str = .error .outOfRange ∨ ∃ v, versionStringToInt str = .ok v := by
  unfold versionStringToInt
  rcases scanVersion_cases str ⟨0, 0, 0⟩ 0 with h | ⟨c, h⟩
  · rw [h]
    exact Or.inl rfl
  · rw [h]
    exact Or.inr ⟨_, rfl⟩

/-- A name is decoded, or the reader runs off the file in it. -/
theorem nameVersion_cases (m : Image) (p : Nat) :
    nameVersion m p = .error .outOfRange ∨ ∃ o, nameVersion m p = .ok o := by
  unfold nameVersion
  rcases strncmpEq_cases (m.tail p) glibcxxPrefix with h | ⟨b, h⟩
  · rw [h]
    exact Or.inl rfl
  · rw [h]
    cases b with
    | false => exact Or.inr ⟨none, rfl⟩
    | true =>
        -- The name has the prefix, so the rest of it is decoded.
        rcases versionStringToInt_cases (m.tail (m.ptrAdd p 8)) with hv | ⟨v, hv⟩
        · left
          change versionStringToInt (m.tail (m.ptrAdd p 8)) >>= _ = _
          rw [hv]
          rfl
        · right
          refine ⟨some v, ?_⟩
          change versionStringToInt (m.tail (m.ptrAdd p 8)) >>= _ = _
          rw [hv]
          rfl

/-- Whether `lit` is at `p` can be told inside the file: there is room for it,
    or a byte of the file that it does not have in that place. -/
def Compares (m : Image) (p : Nat) (lit : List UInt8) : Prop :=
  p + lit.length ≤ m.size ∨ ∃ k < lit.length, ∃ c, m.bytes[p + k]? = some c ∧ lit[k]? ≠ some c

theorem compares_iff (m : Image) (p : Nat) {lit : List UInt8} (hlit : lit ≠ []) :
    Compares m p lit ↔ strncmpEq (m.tail p) lit ≠ .error .outOfRange := by
  have hpos := List.length_pos_of_ne_nil hlit
  have hroom : p + lit.length ≤ m.size ↔ lit.length ≤ (m.tail p).length := by
    simp only [Image.tail, Image.size, List.length_drop]
    omega
  unfold Compares
  rw [strncmpEq_ne_outOfRange, hroom]
  simp only [Image.tail, List.getElem?_drop]

/-- It can in a terminated string, since a literal has no terminator. -/
theorem compares_of_terminated {m : Image} {p : Nat} {lit : List UInt8} (hlit : lit ≠ [])
    (hzero : 0 ∉ lit) (h : 0 ∈ m.tail p) : Compares m p lit :=
  (compares_iff m p hlit).mpr (strncmpEq_of_terminated lit _ hzero h)

/-- The bytes of a version string: digits and the dots between them. -/
def IsVersionByte (c : UInt8) : Prop :=
  ('0'.toUInt8 ≤ c ∧ c ≤ '9'.toUInt8) ∨ c = '.'.toUInt8

/-- A version comes to an end in these bytes: at one that is neither a digit
    nor a dot, or at the third dot. -/
def EndsVersion (str : List UInt8) : Prop :=
  (∃ c ∈ str, ¬ IsVersionByte c) ∨ 3 ≤ str.count '.'.toUInt8

theorem zero_not_isVersionByte : ¬ IsVersionByte 0 := by
  unfold IsVersionByte
  decide

/-- The character loop stays inside bytes in which the version ends. Dots that
    were read before count. -/
theorem scanVersion_ne_outOfRange : ∀ (str : List UInt8) (m : MajorMinorRevision) (v : Fin 3),
    scanVersion m v str ≠ .error .outOfRange ↔
      (∃ c ∈ str, ¬ IsVersionByte c) ∨ 3 ≤ v.val + str.count '.'.toUInt8 := by
  intro str
  induction str with
  | nil =>
      intro m v
      refine iff_of_false (fun h => h rfl) ?_
      rintro (⟨c, hc, _⟩ | hdots)
      · exact List.not_mem_nil hc
      · rw [List.count_nil] at hdots
        omega
  | cons x xs ih =>
      intro m v
      rw [scanVersion, List.exists_mem_cons_iff]
      by_cases hzero : x = 0
      · rw [if_pos hzero, hzero]
        exact iff_of_true (ok_ne_error _ _) (Or.inl (Or.inl zero_not_isVersionByte))
      · rw [if_neg hzero]
        by_cases hdot : x = '.'.toUInt8
        · have hbyte : IsVersionByte x := Or.inr hdot
          rw [hdot] at hbyte ⊢
          rw [List.count_cons_self, or_iff_right (not_not_intro hbyte)]
          by_cases hv : v < 2
          · -- One more dot was read.
            have hnext : (v + 1).val = v.val + 1 := by
              rw [Fin.val_add_one_of_lt (Nat.lt_of_lt_of_le hv (by decide))]
            rw [if_pos ⟨rfl, hv⟩, ih, hnext, Nat.add_right_comm]
            rfl
          · rw [if_neg fun h => hv h.2, if_neg (by decide)]
            refine iff_of_true (ok_ne_error _ _) (Or.inr ?_)
            have hlast : 2 ≤ v.val := Nat.le_of_not_lt hv
            omega
        · rw [if_neg fun h => hdot h.1, List.count_cons_of_ne hdot]
          by_cases hdigit : '0'.toUInt8 ≤ x ∧ x ≤ '9'.toUInt8
          · have hbyte : IsVersionByte x := Or.inl hdigit
            rw [if_pos hdigit, ih, or_iff_right (not_not_intro hbyte)]
          · rw [if_neg hdigit]
            refine iff_of_true (ok_ne_error _ _) (Or.inl (Or.inl ?_))
            exact fun h => h.elim hdigit hdot

/-- It ends a terminated string at the terminator, if not before. -/
theorem scanVersion_of_terminated {str : List UInt8} (h : 0 ∈ str) (m : MajorMinorRevision)
    (v : Fin 3) : scanVersion m v str ≠ .error .outOfRange :=
  (scanVersion_ne_outOfRange str m v).mpr (Or.inl ⟨0, h, zero_not_isVersionByte⟩)

/-- Decoding stays inside bytes in which the version ends. -/
theorem versionStringToInt_ne_outOfRange (str : List UInt8) :
    versionStringToInt str ≠ .error .outOfRange ↔ EndsVersion str := by
  unfold versionStringToInt EndsVersion
  rw [ne_eq, bind_eq_error, or_iff_left fun ⟨_, _, h⟩ => pure_ne_error _ _ h, ← ne_eq,
    scanVersion_ne_outOfRange]
  rw [show ((0 : Fin 3).val) = 0 from rfl, Nat.zero_add]

/-- A name can be told from `GLIBCXX_` inside the file, and the version behind
    it ends there. -/
def NameReadable (m : Image) (p : Nat) : Prop :=
  Compares m p glibcxxPrefix ∧
    (glibcxxPrefix <+: m.tail p → EndsVersion (m.tail (p + glibcxxPrefix.length)))

theorem nameReadable_iff_ne (m : Image) (p : Nat) :
    NameReadable m p ↔ nameVersion m p ≠ .error .outOfRange := by
  unfold NameReadable nameVersion
  rw [compares_iff m p (by decide)]
  rcases strncmpEq_cases (m.tail p) glibcxxPrefix with h | ⟨b, h⟩
  · rw [h]
    exact iff_of_false (fun hc => hc.1 rfl) (fun hc => hc rfl)
  · have hprefix := strncmpEq_eq_true_iff glibcxxPrefix (m.tail p)
    rw [h] at hprefix ⊢
    rw [and_iff_right (ok_ne_error _ _), ← hprefix]
    cases b with
    | false =>
        exact iff_of_true (fun hc => absurd (Except.ok.inj hc) Bool.false_ne_true)
          (pure_ne_error _ _)
    | true =>
        -- The name has the prefix, so the rest of it is decoded.
        rcases hprefix.mp rfl with ⟨rest, hrest⟩
        have hdecoded : m.tail (m.ptrAdd p 8) = rest :=
          Image.tail_ptrAdd_of_prefix (by decide) hrest.symm
        have hbehind : m.tail (p + glibcxxPrefix.length) = rest :=
          Image.tail_add_of_prefix hrest.symm
        rw [hbehind, ← versionStringToInt_ne_outOfRange]
        simp only [true_imp_iff]
        change _ ↔ (versionStringToInt (m.tail (m.ptrAdd p 8)) >>= fun v => pure (some v)) ≠ _
        rw [hdecoded, ne_eq, ne_eq, bind_eq_error,
          or_iff_left fun ⟨_, _, hpure⟩ => pure_ne_error _ _ hpure]

theorem nameReadable_iff (m : Image) (p : Nat) :
    NameReadable m p ↔ ∃ o, nameVersion m p = .ok o := by
  rw [nameReadable_iff_ne]
  rcases nameVersion_cases m p with h | ⟨o, h⟩
  · rw [h]
    exact iff_of_false (fun hc => hc rfl) (fun ⟨_, hc⟩ => error_ne_ok _ _ hc)
  · rw [h]
    exact iff_of_true (ok_ne_error _ _) ⟨o, rfl⟩

theorem nameVersion_lt {m : Image} {p v : Nat} (h : nameVersion m p = .ok (some v)) :
    v < 2 ^ 24 := by
  rcases (bind_eq_ok _ _ _).mp h with ⟨b, _, hb⟩
  cases b with
  | false => cases hb
  | true =>
      rcases (bind_eq_ok _ _ _).mp hb with ⟨w, hw, hv⟩
      cases hv
      exact versionStringToInt_lt _ _ hw

end Names

section Aux

variable (m : Image) (stringTable : Nat)

/-- Where the name of the auxiliary entry at `p` starts. -/
def auxName (p : Nat) : Nat :=
  m.ptrAdd stringTable (m.value p vdaName)

/-- The entry the reader goes to after the one at `p`. -/
def auxNext (p : Nat) : Nat :=
  m.ptrAdd p (m.value p vdaNext * sizeofVerdaux)

/-- What a pass over the auxiliary entry at `p` needs to come through. -/
structure AuxPasses (p : Nat) : Prop where
  name : m.Has p vdaName
  below : m.addr (auxName m stringTable p) < m.endAddr
  readable : NameReadable m (auxName m stringTable p)
  next : m.Has p vdaNext

/-- What a pass over the auxiliary entry at `p` needs to stay inside the file. -/
def AuxReads (p : Nat) : Prop :=
  m.Has p vdaName ∧
    (m.addr (auxName m stringTable p) < m.endAddr →
      NameReadable m (auxName m stringTable p) ∧ m.Has p vdaNext)

variable {m stringTable}

theorem verdauxStep_eq_ok (s s' : Nat × Found) :
    verdauxStep m stringTable s = .ok s' ↔ AuxPasses m stringTable s.1 ∧
      ∃ o, nameVersion m (auxName m stringTable s.1) = .ok o ∧
        s' = (auxNext m s.1, s.2.record o) := by
  unfold verdauxStep
  rw [Image.load_bind_eq_ok, require_bind_eq_ok, bind_eq_ok]
  constructor
  · rintro ⟨hname, hbelow, o, ho, hrest⟩
    rcases (Image.load_bind_eq_ok _ _ _ _).mp hrest with ⟨hnext, hs⟩
    refine ⟨⟨hname, hbelow, (nameReadable_iff _ _).mpr ⟨o, ho⟩, hnext⟩, o, ho, ?_⟩
    exact (Except.ok.inj hs).symm
  · rintro ⟨h, o, ho, rfl⟩
    exact ⟨h.name, h.below, o, ho, (Image.load_bind_eq_ok _ _ _ _).mpr ⟨h.next, rfl⟩⟩

theorem verdauxStep_ne_outOfRange (s : Nat × Found) :
    verdauxStep m stringTable s ≠ .error .outOfRange ↔ AuxReads m stringTable s.1 := by
  unfold verdauxStep AuxReads
  rw [Image.load_bind_ne_outOfRange, require_bind_ne_outOfRange]
  refine and_congr_right fun _ => imp_congr_right fun _ => ?_
  rw [ne_eq, bind_eq_error, not_or, nameReadable_iff_ne]
  constructor
  · rintro ⟨hread, hrest⟩
    rcases (nameReadable_iff _ _).mp ((nameReadable_iff_ne _ _).mpr hread) with ⟨o, ho⟩
    -- The name was read, so the step goes on to `vda_next`.
    refine ⟨hread, by_contra fun hnext => hrest ⟨o, ho, ?_⟩⟩
    exact (bind_eq_error _ _ _).mpr (Or.inl ((Image.load_eq_outOfRange _ _).mpr hnext))
  · rintro ⟨hread, hnext⟩
    refine ⟨hread, ?_⟩
    rintro ⟨o, _, ho⟩
    refine absurd ho ((Image.load_bind_ne_outOfRange _ _ _).mpr ⟨hnext, ?_⟩)
    exact pure_ne_error _ _

theorem verdauxStep_yields (s : Nat × Found) :
    (∃ s', Yields (fun _ => verdauxStep m stringTable s) s') ↔ AuxPasses m stringTable s.1 := by
  simp only [yields_const, verdauxStep_eq_ok]
  constructor
  · rintro ⟨s', h, _⟩
    exact h
  · intro h
    rcases (nameReadable_iff _ _).mp h.readable with ⟨o, ho⟩
    exact ⟨_, h, o, ho, rfl⟩

theorem verdauxStep_next (s s' : Nat × Found)
    (h : Yields (fun _ => verdauxStep m stringTable s) s') : s'.1 = auxNext m s.1 := by
  rcases (verdauxStep_eq_ok s s').mp ((yields_const _ _).mp h) with ⟨_, o, _, rfl⟩
  rfl

/-- The loop over auxiliary entries comes through when every entry does. -/
theorem verdauxLoop_eq_ok (n : Nat) (s : Nat × Found) :
    (∃ s', countedLoop (verdauxStep m stringTable) n s = .ok s') ↔
      ∀ k < n, AuxPasses m stringTable ((auxNext m)^[k] s.1) := by
  have h := countedLoop_yields_iff (fun _ => verdauxStep m stringTable)
    (fun s => settled_const _) Prod.fst (auxNext m) (AuxPasses m stringTable)
    verdauxStep_next verdauxStep_yields n s
  simpa only [yields_const] using h

theorem verdauxLoop_ne_outOfRange (n : Nat) (s : Nat × Found) :
    countedLoop (verdauxStep m stringTable) n s ≠ .error .outOfRange ↔
      ∀ k < n, (∀ j < k, AuxPasses m stringTable ((auxNext m)^[j] s.1)) →
        AuxReads m stringTable ((auxNext m)^[k] s.1) := by
  have h := countedLoop_avoids_iff (fun _ => verdauxStep m stringTable)
    (fun s => settled_const _) Prod.fst (auxNext m) (AuxPasses m stringTable)
    verdauxStep_next verdauxStep_yields (e := .outOfRange) (by decide)
    (AuxReads m stringTable)
    (fun s => (alwaysAvoids_const _ _).trans (verdauxStep_ne_outOfRange s)) n s
  exact (alwaysAvoids_const _ _).symm.trans h

end Aux

section Verdef

variable (m : Image) (t : SectionTable) (i : Nat)

/-- Where the auxiliary entries of the definition at `p` start. -/
def verdefAux (p : Nat) : Nat :=
  m.ptrAdd p (m.value p vdAux)

/-- The definition the reader goes to after the one at `p`. -/
def verdefNext (p : Nat) : Nat :=
  m.ptrAdd p (m.value p vdNext)

/-- The header of the section's string table. -/
def stringTableHeader : Nat :=
  t.header m (m.value (t.header m i) m.cls.shLink)

/-- The string table the names of section `i` are in. -/
def stringTableOf : Nat :=
  m.ptrAdd 0 (m.value (stringTableHeader m t i) m.cls.shOffset)

/-- The `k`-th auxiliary entry the reader visits for the definition at `p`. -/
def auxAt (p k : Nat) : Nat :=
  (auxNext m)^[k] (verdefAux m p)

/-- What the reader needs to get through the entries of the definition at `p`. -/
structure BodyPasses (p : Nat) : Prop where
  aux : m.Has p vdAux
  below : m.addr (verdefAux m p) < m.endAddr
  offset : m.Has (t.header m i) m.cls.shOffset
  inside : m.value (t.header m i) m.cls.shOffset < m.size
  link : m.Has (t.header m i) m.cls.shLink
  strings : m.Has (stringTableHeader m t i) m.cls.shOffset
  cnt : m.Has p vdCnt
  entries : ∀ k < m.value p vdCnt, AuxPasses m (stringTableOf m t i) (auxAt m p k)

/-- What the reader needs to get through the definition at `p`. -/
structure VerdefPasses (p : Nat) : Prop extends BodyPasses m t i p where
  next : m.Has p vdNext

/-- What the reader needs to stay inside the file in the entries of the
    definition at `p`: the `k`-th is looked at when all earlier ones came
    through. -/
def BodyReads (p : Nat) : Prop :=
  m.Has p vdAux ∧ (m.addr (verdefAux m p) < m.endAddr →
    m.Has (t.header m i) m.cls.shOffset ∧ (m.value (t.header m i) m.cls.shOffset < m.size →
      m.Has (t.header m i) m.cls.shLink ∧ m.Has (stringTableHeader m t i) m.cls.shOffset ∧
      m.Has p vdCnt ∧
      ∀ k < m.value p vdCnt, (∀ j < k, AuxPasses m (stringTableOf m t i) (auxAt m p j)) →
        AuxReads m (stringTableOf m t i) (auxAt m p k)))

/-- What the reader needs to stay inside the file in the definition at `p`. -/
def VerdefReads (p : Nat) : Prop :=
  BodyReads m t i p ∧ (BodyPasses m t i p → m.Has p vdNext)

variable {m t i}

/-- What the body of the loop does with a definition it gets through. -/
theorem verdefBody_eq_ok (p : Nat) (found found' : Found) :
    verdefBody m t i p found = .ok found' ↔ BodyPasses m t i p ∧
      ∃ q, countedLoop (verdauxStep m (stringTableOf m t i)) (m.value p vdCnt)
        (verdefAux m p, found) = .ok (q, found') := by
  unfold verdefBody
  simp only [Image.load_bind_eq_ok, require_bind_eq_ok]
  rw [bind_eq_ok]
  constructor
  · rintro ⟨haux, hbelow, hoffset, hinside, hlink, hstrings, hcnt, ⟨q, f⟩, hloop, hf⟩
    cases hf
    have hentries := (verdauxLoop_eq_ok _ _).mp ⟨_, hloop⟩
    exact ⟨⟨haux, hbelow, hoffset, hinside, hlink, hstrings, hcnt, hentries⟩, q, hloop⟩
  · rintro ⟨h, q, hloop⟩
    exact ⟨h.aux, h.below, h.offset, h.inside, h.link, h.strings, h.cnt, _, hloop, rfl⟩

theorem verdefBody_yields (p : Nat) (found : Found) :
    (∃ found', verdefBody m t i p found = .ok found') ↔ BodyPasses m t i p := by
  constructor
  · rintro ⟨found', h⟩
    exact ((verdefBody_eq_ok p found found').mp h).1
  · intro h
    rcases (verdauxLoop_eq_ok (m.value p vdCnt) (verdefAux m p, found)).mpr h.entries with
      ⟨⟨q, found'⟩, hloop⟩
    exact ⟨found', (verdefBody_eq_ok p found found').mpr ⟨h, q, hloop⟩⟩

theorem verdefBody_ne_outOfRange (p : Nat) (found : Found) :
    verdefBody m t i p found ≠ .error .outOfRange ↔ BodyReads m t i p := by
  unfold verdefBody BodyReads
  simp only [Image.load_bind_ne_outOfRange, require_bind_ne_outOfRange]
  refine and_congr_right fun _ => imp_congr_right fun _ => and_congr_right fun _ =>
    imp_congr_right fun _ => and_congr_right fun _ => and_congr_right fun _ =>
      and_congr_right fun _ => ?_
  rw [ne_eq, bind_eq_error, not_or]
  constructor
  · rintro ⟨h, _⟩
    exact (verdauxLoop_ne_outOfRange _ _).mp h
  · intro h
    exact ⟨(verdauxLoop_ne_outOfRange _ _).mpr h, fun ⟨_, _, hc⟩ => pure_ne_error _ _ hc⟩

/-- A definition and the `vd_next` behind it stay inside the file together. -/
theorem verdefBody_bind_ne_outOfRange {β : Type} (p : Nat) (found : Found)
    (k : Found → Run β) (hk : ∀ f, k f ≠ .error .outOfRange ↔ m.Has p vdNext) :
    verdefBody m t i p found >>= k ≠ .error .outOfRange ↔ VerdefReads m t i p := by
  rw [ne_eq, bind_eq_error, not_or, ← ne_eq, verdefBody_ne_outOfRange]
  refine and_congr_right fun _ => ?_
  -- The read behind the body is made exactly when the body comes through.
  constructor
  · intro hnext hbody
    rcases (verdefBody_yields p found).mpr hbody with ⟨f, hf⟩
    exact (hk f).mp fun hc => hnext ⟨f, hf, hc⟩
  · rintro hnext ⟨f, hf, hc⟩
    exact (hk f).mpr (hnext ((verdefBody_yields p found).mp ⟨f, hf⟩)) hc

variable (m t i)

/-- The guard of the loop: the definition lies in the section. -/
structure InSection (base p : Nat) : Prop where
  above : m.addr base ≤ m.addr p
  size : m.Has (t.header m i) m.cls.shSize
  within : m.distance p base < m.value (t.header m i) m.cls.shSize

/-- The pass at `p` leads to another one. -/
structure Continues (base p : Nat) : Prop where
  guard : InSection m t i base p
  passes : VerdefPasses m t i p
  more : m.value p vdNext ≠ 0

/-- The pass at `p` leaves the loop: below the section, past its end, or at a
    definition that is the last. -/
def Leaves (base p : Nat) : Prop :=
  ¬ m.addr base ≤ m.addr p ∨
  (m.Has (t.header m i) m.cls.shSize ∧
    ¬ m.distance p base < m.value (t.header m i) m.cls.shSize) ∨
  (InSection m t i base p ∧ VerdefPasses m t i p ∧ m.value p vdNext = 0)

/-- What the pass at `p` needs to stay inside the file. -/
def PassReads (base p : Nat) : Prop :=
  m.addr base ≤ m.addr p → m.Has (t.header m i) m.cls.shSize ∧
    (m.distance p base < m.value (t.header m i) m.cls.shSize → VerdefReads m t i p)

variable {m t i}

theorem verdefStep_continues_iff (base : Nat) (s s' : Nat × Found) :
    verdefStep m t i base s = .ok (.inl s') ↔ Continues m t i base s.1 ∧
      ∃ found, verdefBody m t i s.1 s.2 = .ok found ∧ s' = (verdefNext m s.1, found) := by
  unfold verdefStep
  constructor
  · intro h
    -- The guard is two comparisons, and each can leave the loop.
    by_cases habove : m.addr base ≤ m.addr s.1
    · rw [if_neg (not_not_intro habove), Image.load_bind_eq_ok] at h
      rcases h with ⟨hsize, h⟩
      by_cases hwithin : m.distance s.1 base < m.value (t.header m i) m.cls.shSize
      · rw [if_neg (not_not_intro hwithin), bind_eq_ok] at h
        rcases h with ⟨found, hbody, h⟩
        rw [Image.load_bind_eq_ok] at h
        rcases h with ⟨hnext, h⟩
        by_cases hzero : m.value s.1 vdNext = 0
        · rw [if_pos hzero] at h
          cases h
        · rw [if_neg hzero] at h
          cases h
          have hpasses := (verdefBody_yields s.1 s.2).mp ⟨found, hbody⟩
          exact ⟨⟨⟨habove, hsize, hwithin⟩, ⟨hpasses, hnext⟩, hzero⟩, found, hbody, rfl⟩
      · rw [if_pos hwithin] at h
        cases h
    · rw [if_pos habove] at h
      cases h
  · rintro ⟨⟨⟨habove, hsize, hwithin⟩, hpasses, hmore⟩, found, hbody, rfl⟩
    rw [if_neg (not_not_intro habove), Image.load_bind_eq_ok]
    refine ⟨hsize, ?_⟩
    rw [if_neg (not_not_intro hwithin), bind_eq_ok]
    refine ⟨found, hbody, ?_⟩
    rw [Image.load_bind_eq_ok, if_neg hmore]
    exact ⟨hpasses.next, rfl⟩

/-- What the loop hands on when the pass at `s` leaves it: the findings
    unchanged when the guard fails, and those of the last definition when
    there is no next one. -/
theorem verdefStep_leaves_iff (base : Nat) (s : Nat × Found) (found : Found) :
    verdefStep m t i base s = .ok (.inr found) ↔
      (¬ m.addr base ≤ m.addr s.1 ∧ found = s.2) ∨
      (m.addr base ≤ m.addr s.1 ∧ m.Has (t.header m i) m.cls.shSize ∧
        ¬ m.distance s.1 base < m.value (t.header m i) m.cls.shSize ∧ found = s.2) ∨
      (InSection m t i base s.1 ∧ VerdefPasses m t i s.1 ∧ m.value s.1 vdNext = 0 ∧
        verdefBody m t i s.1 s.2 = .ok found) := by
  unfold verdefStep
  constructor
  · intro h
    -- One way out for each comparison of the guard, and one at the end of the chain.
    by_cases habove : m.addr base ≤ m.addr s.1
    · rw [if_neg (not_not_intro habove), Image.load_bind_eq_ok] at h
      rcases h with ⟨hsize, h⟩
      by_cases hwithin : m.distance s.1 base < m.value (t.header m i) m.cls.shSize
      · rw [if_neg (not_not_intro hwithin), bind_eq_ok] at h
        rcases h with ⟨found', hbody, h⟩
        rw [Image.load_bind_eq_ok] at h
        rcases h with ⟨hnext, h⟩
        by_cases hzero : m.value s.1 vdNext = 0
        · rw [if_pos hzero] at h
          cases h
          have hpasses := (verdefBody_yields s.1 s.2).mp ⟨found, hbody⟩
          exact Or.inr (Or.inr ⟨⟨habove, hsize, hwithin⟩, ⟨hpasses, hnext⟩, hzero, hbody⟩)
        · rw [if_neg hzero] at h
          cases h
      · rw [if_pos hwithin] at h
        cases h
        exact Or.inr (Or.inl ⟨habove, hsize, hwithin, rfl⟩)
    · rw [if_pos habove] at h
      cases h
      exact Or.inl ⟨habove, rfl⟩
  · rintro (⟨habove, rfl⟩ | ⟨habove, hsize, hwithin, rfl⟩ |
      ⟨⟨habove, hsize, hwithin⟩, hpasses, hzero, hbody⟩)
    · rw [if_pos habove]
      rfl
    · rw [if_neg (not_not_intro habove), Image.load_bind_eq_ok]
      refine ⟨hsize, ?_⟩
      rw [if_pos hwithin]
      rfl
    · rw [if_neg (not_not_intro habove), Image.load_bind_eq_ok]
      refine ⟨hsize, ?_⟩
      rw [if_neg (not_not_intro hwithin), bind_eq_ok]
      refine ⟨found, hbody, ?_⟩
      rw [Image.load_bind_eq_ok, if_pos hzero]
      exact ⟨hpasses.next, rfl⟩

theorem verdefStep_continues (base : Nat) (s : Nat × Found) :
    (∃ s', verdefStep m t i base s = .ok (.inl s')) ↔ Continues m t i base s.1 := by
  constructor
  · rintro ⟨s', h⟩
    exact ((verdefStep_continues_iff base s s').mp h).1
  · intro h
    rcases (verdefBody_yields s.1 s.2).mpr h.passes.toBodyPasses with ⟨f, hf⟩
    exact ⟨_, (verdefStep_continues_iff base s _).mpr ⟨h, f, hf, rfl⟩⟩

theorem verdefStep_leaves (base : Nat) (s : Nat × Found) :
    (∃ found, verdefStep m t i base s = .ok (.inr found)) ↔ Leaves m t i base s.1 := by
  constructor
  · rintro ⟨found, h⟩
    rcases (verdefStep_leaves_iff base s found).mp h with
      ⟨habove, _⟩ | ⟨_, hsize, hwithin, _⟩ | ⟨hguard, hpasses, hzero, _⟩
    · exact Or.inl habove
    · exact Or.inr (Or.inl ⟨hsize, hwithin⟩)
    · exact Or.inr (Or.inr ⟨hguard, hpasses, hzero⟩)
  · intro h
    -- The findings are those of the way out that is taken.
    by_cases habove : m.addr base ≤ m.addr s.1
    · rcases h with hc | ⟨hsize, hwithin⟩ | ⟨hguard, hpasses, hzero⟩
      · exact absurd habove hc
      · exact ⟨s.2, (verdefStep_leaves_iff base s _).mpr
          (Or.inr (Or.inl ⟨habove, hsize, hwithin, rfl⟩))⟩
      · rcases (verdefBody_yields s.1 s.2).mpr hpasses.toBodyPasses with ⟨f, hf⟩
        exact ⟨f, (verdefStep_leaves_iff base s f).mpr
          (Or.inr (Or.inr ⟨hguard, hpasses, hzero, hf⟩))⟩
    · exact ⟨s.2, (verdefStep_leaves_iff base s _).mpr (Or.inl ⟨habove, rfl⟩)⟩

theorem verdefStep_next (base : Nat) (s s' : Nat × Found)
    (h : verdefStep m t i base s = .ok (.inl s')) : s'.1 = verdefNext m s.1 := by
  rcases (verdefStep_continues_iff base s s').mp h with ⟨_, f, _, rfl⟩
  rfl

theorem verdefStep_ne_outOfRange (base : Nat) (s : Nat × Found) :
    verdefStep m t i base s ≠ .error .outOfRange ↔ PassReads m t i base s.1 := by
  unfold verdefStep PassReads
  by_cases habove : m.addr base ≤ m.addr s.1
  · rw [if_neg (not_not_intro habove), Image.load_bind_ne_outOfRange]
    simp only [habove, true_imp_iff]
    refine and_congr_right fun _ => ?_
    by_cases hwithin : m.distance s.1 base < m.value (t.header m i) m.cls.shSize
    · rw [if_neg (not_not_intro hwithin)]
      simp only [hwithin, true_imp_iff]
      -- Inside the section the pass reads the definition, and then its `vd_next`.
      refine verdefBody_bind_ne_outOfRange s.1 s.2 _ fun f => ?_
      rw [Image.load_bind_ne_outOfRange]
      refine and_iff_left ?_
      by_cases hzero : m.value s.1 vdNext = 0
      · rw [if_pos hzero]
        exact pure_ne_error _ _
      · rw [if_neg hzero]
        exact pure_ne_error _ _
    · rw [if_pos hwithin]
      exact iff_of_true (pure_ne_error _ _) (fun h => absurd h hwithin)
  · rw [if_pos habove]
    exact iff_of_true (pure_ne_error _ _) (fun h => absurd h habove)

end Verdef

end AuditLibstdcxx
