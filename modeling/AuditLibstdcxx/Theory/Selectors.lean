import AuditLibstdcxx.Theory.Encoding

/-!
# The Two Selectors Agree

The C library and the Python hook each pick the highest version out of a list
of names, and each compares a system library with a shipped one by it. On the
names a `libstdc++` really carries they cannot disagree: the packed version of
the C side is the tuple of the Python side, as long as no component is clamped.

The filters differ on names with `GLIBCXX_` further in. Python lets them pass
and cuts off their first eight characters, but the underscore is still in what
is left, so its regular expression does not match and they count as `0.0.0`,
which no fold from `0.0.0` notices.

## Main definitions

* `Spells`: The texts Python reads as a version.
* `pack`: A tuple as the C side packs it.
* `Admissible`: The names of the comparison.
* `maxPackedVersion`: The C fold over a list of names.

## Theorems

* `parseVersion_spells`, `parseVersion_of_not_spells`: What Python makes of a
  suffix.
* `underscore_mem_drop`: Where the underscore of a later `GLIBCXX_` lands.
* `stringVersion_agrees`: The two sides agree on a name.
* `maxPackedVersion_agrees`: They agree on a list of names.
* `pack_lt_pack`: They agree on the comparison.
-/

namespace AuditLibstdcxx

open Checked Backtrack

section Python

theorem isDecimal_head_dot (rest : List Char) : ∀ c ∈ ('.' :: rest).head?, isDecimal c = false := by
  intro c hc
  rw [List.head?_cons, Option.mem_some_iff] at hc
  rw [← hc, dot_not_isDecimal]

theorem isDecimal_head_nil : ∀ c ∈ ([] : List Char).head?, isDecimal c = false := by
  intro c hc
  rw [List.head?_nil] at hc
  cases hc

/-- What Python takes for a number: decimal digits, at least one. -/
structure Decimals (s : List Char) : Prop where
  nonempty : s ≠ []
  decimals : ∀ c ∈ s, isDecimal c = true

theorem Numeral.decimals {s : List Char} (h : Numeral s) : Decimals s :=
  ⟨h.nonempty, fun c hc => isDecimal_of_isDigit (h.digits c hc)⟩

/-- A group after a dot takes the number that follows. -/
theorem group_there {β : Type} {b : List Char} (hb : Decimals b) (rest : List Char)
    (hrest : ∀ c ∈ rest.head?, isDecimal c = false) (k : Option (List Char) → List Char → Option β)
    (r : β) (hk : k (some b) rest = some r) :
    optionally (after '.' (plus isDecimal)) k ('.' :: (b ++ rest)) = some r := by
  refine optionally_of_some _ _ _ _ ?_
  rw [after_sep]
  exact plus_longest isDecimal r b rest _ hb.nonempty hb.decimals hrest hk

/-- At the end of the text there is no group. -/
theorem group_missing {β : Type} (k : Option (List Char) → List Char → Option β) :
    optionally (after '.' (plus isDecimal)) k [] = k none [] :=
  optionally_of_none _ _ _ rfl

theorem matchVersion_major {a : List Char} (ha : Decimals a) :
    matchVersion a = some (a, none, none) := by
  unfold matchVersion
  nth_rewrite 1 [← List.append_nil a]
  refine plus_longest _ _ a [] _ ha.nonempty ha.decimals isDecimal_head_nil ?_
  rw [group_missing, group_missing]
  rfl

theorem matchVersion_minor {a b : List Char} (ha : Decimals a) (hb : Decimals b) :
    matchVersion (a ++ '.' :: b) = some (a, some b, none) := by
  unfold matchVersion
  refine plus_longest _ _ a _ _ ha.nonempty ha.decimals (isDecimal_head_dot b) ?_
  nth_rewrite 1 [← List.append_nil b]
  refine group_there hb [] isDecimal_head_nil _ _ ?_
  rw [group_missing]
  rfl

theorem matchVersion_patch {a b c : List Char} (ha : Decimals a) (hb : Decimals b)
    (hc : Decimals c) :
    matchVersion (a ++ '.' :: (b ++ '.' :: c)) = some (a, some b, some c) := by
  unfold matchVersion
  refine plus_longest _ _ a _ _ ha.nonempty ha.decimals (isDecimal_head_dot _) ?_
  refine group_there hb _ (isDecimal_head_dot c) _ _ ?_
  nth_rewrite 1 [← List.append_nil c]
  exact group_there hc [] isDecimal_head_nil _ _ rfl

/-- The texts Python reads as a version: one to three numbers with dots between
    them. -/
inductive Spells : List Char → VersionTuple → Prop
  | major {a : List Char} (ha : Decimals a) : Spells a (versionTuple (pyInt a) 0 0)
  | minor {a b : List Char} (ha : Decimals a) (hb : Decimals b) :
      Spells (a ++ '.' :: b) (versionTuple (pyInt a) (pyInt b) 0)
  | patch {a b c : List Char} (ha : Decimals a) (hb : Decimals b) (hc : Decimals c) :
      Spells (a ++ '.' :: (b ++ '.' :: c)) (versionTuple (pyInt a) (pyInt b) (pyInt c))

theorem Dotted.spells {s : List Char} {t : VersionTuple} (h : Dotted s t) : Spells s t := by
  cases h with
  | major ha => exact Spells.major ha.decimals
  | minor ha hb => exact Spells.minor ha.decimals hb.decimals
  | patch ha hb hc => exact Spells.patch ha.decimals hb.decimals hc.decimals

/-- What Python makes of a version. -/
theorem parseVersion_spells {s : List Char} {t : VersionTuple} (h : Spells s t) :
    parseVersion s = t := by
  unfold parseVersion
  cases h with
  | major ha => rw [matchVersion_major ha]; rfl
  | minor ha hb => rw [matchVersion_minor ha hb]; rfl
  | patch ha hb hc => rw [matchVersion_patch ha hb hc]; rfl

/-- The digits may be those of another script. -/
example : parseVersion ['\u0663', '.', '\u0664'] = versionTuple 3 4 0 := by decide

/-- A group that was carried through is a number behind a dot, or nothing. -/
theorem group_sound {β : Type} {k : Option (List Char) → List Char → Option β}
    {text : List Char} {r : β}
    (h : optionally (after '.' (plus isDecimal)) k text = some r) :
    (∃ taken rest, Decimals taken ∧ text = '.' :: (taken ++ rest) ∧ k (some taken) rest = some r) ∨
      k none text = some r := by
  rcases optionally_sound _ _ _ _ h with hthere | hmissing
  · rcases after_sound _ _ _ _ _ hthere with ⟨behind, rfl, hplus⟩
    rcases plus_sound _ _ _ _ hplus with ⟨taken, rest, hne, hall, rfl, hk⟩
    exact Or.inl ⟨taken, rest, ⟨hne, hall⟩, rfl, hk⟩
  · exact Or.inr hmissing

/-- What matches is a version. -/
theorem matchVersion_sound {s : List Char} {g : List Char × Option (List Char) × Option (List Char)}
    (h : matchVersion s = some g) : ∃ t, Spells s t := by
  unfold matchVersion at h
  rcases plus_sound _ _ _ _ h with ⟨major, behind, hne, hall, rfl, hbehind⟩
  have hmajor : Decimals major := ⟨hne, hall⟩
  rcases group_sound hbehind with ⟨minor, rest, hminor, rfl, hrest⟩ | hrest
  · rcases group_sound hrest with ⟨patch, last, hpatch, rfl, hend⟩ | hend
    · rw [((atEnd_eq_some _ _ _).mp hend).1, List.append_nil]
      exact ⟨_, Spells.patch hmajor hminor hpatch⟩
    · rw [((atEnd_eq_some _ _ _).mp hend).1, List.append_nil]
      exact ⟨_, Spells.minor hmajor hminor⟩
  · rcases group_sound hrest with ⟨patch, last, hpatch, rfl, hend⟩ | hend
    · rw [((atEnd_eq_some _ _ _).mp hend).1, List.append_nil]
      exact ⟨_, Spells.minor hmajor hpatch⟩
    · rw [((atEnd_eq_some _ _ _).mp hend).1, List.append_nil]
      exact ⟨_, Spells.major hmajor⟩

/-- Whatever is no version counts as `0.0.0`. -/
theorem parseVersion_of_not_spells {s : List Char} (h : ∀ t, ¬ Spells s t) :
    parseVersion s = versionTuple 0 0 0 := by
  unfold parseVersion
  cases hmatch : matchVersion s with
  | none => rfl
  | some g =>
      rcases matchVersion_sound hmatch with ⟨t, ht⟩
      exact absurd ht (h t)

/-- A version begins with a digit and consists of digits and dots. -/
theorem Spells.chars {s : List Char} {t : VersionTuple} (h : Spells s t) :
    (∃ c ∈ s.head?, isDecimal c = true) ∧ ∀ c ∈ s, isDecimal c = true ∨ c = '.' := by
  have hfirst : ∀ {a : List Char} (_ : Decimals a) (rest : List Char),
      ∃ c ∈ (a ++ rest).head?, isDecimal c = true := by
    intro a ha rest
    rcases List.exists_cons_of_ne_nil ha.nonempty with ⟨c, cs, rfl⟩
    exact ⟨c, rfl, ha.decimals c List.mem_cons_self⟩
  have hdigits : ∀ {a : List Char}, Decimals a → ∀ c ∈ a, isDecimal c = true ∨ c = '.' :=
    fun ha c hc => Or.inl (ha.decimals c hc)
  cases h with
  | major ha =>
      refine ⟨?_, hdigits ha⟩
      simpa only [List.append_nil] using hfirst ha []
  | minor ha hb =>
      refine ⟨hfirst ha _, List.forall_mem_append.mpr ⟨hdigits ha, ?_⟩⟩
      exact List.forall_mem_cons.mpr ⟨Or.inr rfl, hdigits hb⟩
  | patch ha hb hc =>
      refine ⟨hfirst ha _, List.forall_mem_append.mpr ⟨hdigits ha, ?_⟩⟩
      refine List.forall_mem_cons.mpr ⟨Or.inr rfl, List.forall_mem_append.mpr ⟨hdigits hb, ?_⟩⟩
      exact List.forall_mem_cons.mpr ⟨Or.inr rfl, hdigits hc⟩

/-- What does not begin with a digit is none. -/
theorem parseVersion_other {c : Char} {s : List Char} (hdigit : isDecimal c = false) :
    parseVersion (c :: s) = versionTuple 0 0 0 := by
  refine parseVersion_of_not_spells fun t ht => ?_
  rcases ht.chars.1 with ⟨d, hd, hdd⟩
  rw [List.head?_cons, Option.mem_some_iff] at hd
  rw [← hd, hdigit] at hdd
  exact Bool.false_ne_true hdd

/-- Neither is what has an underscore in it. -/
theorem parseVersion_underscore {s : List Char} (h : '_' ∈ s) :
    parseVersion s = versionTuple 0 0 0 := by
  refine parseVersion_of_not_spells fun t ht => ?_
  rcases ht.chars.2 '_' h with hdigit | hdot
  · exact absurd hdigit (by decide)
  · exact absurd hdot (by decide)

/-- Where the underscore of a `GLIBCXX_` lands that is not at the start of a
    name: behind the first eight characters. -/
theorem underscore_mem_drop {s : List Char} (hwithin : glibcxx <:+: s)
    (hstarts : ¬ glibcxx <+: s) : '_' ∈ s.drop glibcxx.length := by
  rcases hwithin with ⟨before, behind, rfl⟩
  have hbefore : before ≠ [] := by
    intro hnil
    rw [hnil, List.nil_append] at hstarts
    exact hstarts (List.prefix_append _ _)
  have hpos : 0 < before.length := List.length_pos_of_ne_nil hbefore
  have hlen : glibcxx.length = 8 := rfl
  rw [List.mem_iff_getElem?]
  refine ⟨before.length - 1, ?_⟩
  rw [List.getElem?_drop, List.append_assoc, List.getElem?_append_right (by omega),
    show glibcxx.length + (before.length - 1) - before.length = 7 by omega]
  rfl

end Python

section Packing

/-- A tuple as the C side packs it. -/
def pack (t : VersionTuple) : Nat :=
  (ofLex t).1 * 65536 + (ofLex (ofLex t).2).1 * 256 + (ofLex (ofLex t).2).2

/-- Every component fits in a byte, so that packing does not clamp it. -/
structure Unclamped (t : VersionTuple) : Prop where
  major : (ofLex t).1 ≤ 255
  minor : (ofLex (ofLex t).2).1 ≤ 255
  patch : (ofLex (ofLex t).2).2 ≤ 255

theorem unclamped_zero : Unclamped (versionTuple 0 0 0) :=
  ⟨Nat.zero_le _, Nat.zero_le _, Nat.zero_le _⟩

theorem versionTuple_lt_iff (t u : VersionTuple) : t < u ↔ (ofLex t).1 < (ofLex u).1 ∨
    (ofLex t).1 = (ofLex u).1 ∧ ((ofLex (ofLex t).2).1 < (ofLex (ofLex u).2).1 ∨
      (ofLex (ofLex t).2).1 = (ofLex (ofLex u).2).1 ∧
        (ofLex (ofLex t).2).2 < (ofLex (ofLex u).2).2) := by
  rw [Prod.Lex.lt_iff, Prod.Lex.lt_iff]

/-- Packing keeps the order of versions that are not clamped. -/
theorem pack_lt_pack {t u : VersionTuple} (ht : Unclamped t) (hu : Unclamped u) :
    pack t < pack u ↔ t < u := by
  have ht2 := ht.minor
  have ht3 := ht.patch
  have hu2 := hu.minor
  have hu3 := hu.patch
  rw [versionTuple_lt_iff]
  unfold pack
  constructor
  · intro h
    omega
  · intro h
    omega

theorem pack_max {t u : VersionTuple} (ht : Unclamped t) (hu : Unclamped u) :
    pack (max t u) = max (pack t) (pack u) := by
  by_cases h : t < u
  · have hle : pack t ≤ pack u := Nat.le_of_lt ((pack_lt_pack ht hu).mpr h)
    rw [max_eq_right (le_of_lt h), max_eq_right hle]
  · have hle : pack u ≤ pack t := Nat.le_of_not_lt fun hc => h ((pack_lt_pack ht hu).mp hc)
    rw [max_eq_left (le_of_not_gt h), max_eq_left hle]

theorem Unclamped.max {t u : VersionTuple} (ht : Unclamped t) (hu : Unclamped u) :
    Unclamped (max t u) := by
  rcases max_choice t u with h | h
  · rwa [h]
  · rwa [h]

theorem zero_le_versionTuple (t : VersionTuple) : versionTuple 0 0 0 ≤ t := by
  refine le_of_not_gt fun h => ?_
  rw [versionTuple_lt_iff] at h
  simp only [versionTuple, ofLex_toLex, Nat.not_lt_zero, false_or, and_false] at h

/-- What the accumulators of an unclamped version pack to. -/
theorem packVersion_accumulated {t : VersionTuple} (ht : Unclamped t) :
    packVersion (accumulated t) = pack t := by
  have h1 := ht.major
  have h2 := ht.minor
  have h3 := ht.patch
  rw [packVersion_eq]
  unfold accumulated pack
  simp only
  omega

end Packing

section Names

/-- What Python takes a name to be worth. -/
def nameTuple (s : List Char) : VersionTuple :=
  if glibcxx <:+: s then parseVersion (s.drop glibcxx.length) else versionTuple 0 0 0

/-- A name with a version behind `GLIBCXX_` is worth that. -/
theorem nameTuple_spells {suffix : List Char} {t : VersionTuple} (h : Spells suffix t) :
    nameTuple (glibcxx ++ suffix) = t := by
  unfold nameTuple
  rw [if_pos (List.prefix_append _ _).isInfix, List.drop_left, parseVersion_spells h]

/-- A name is worth the version behind `GLIBCXX_`, or nothing. -/
theorem nameTuple_cases (s : List Char) : nameTuple s = versionTuple 0 0 0 ∨
    ∃ suffix, s = glibcxx ++ suffix ∧ Spells suffix (nameTuple s) := by
  by_cases hstarts : glibcxx <+: s
  · rcases hstarts with ⟨suffix, rfl⟩
    by_cases hspells : ∃ t, Spells suffix t
    · rcases hspells with ⟨t, ht⟩
      exact Or.inr ⟨suffix, rfl, by rwa [nameTuple_spells ht]⟩
    · left
      unfold nameTuple
      rw [if_pos (List.prefix_append _ _).isInfix, List.drop_left]
      exact parseVersion_of_not_spells fun t ht => hspells ⟨t, ht⟩
  · left
    unfold nameTuple
    by_cases hwithin : glibcxx <:+: s
    · rw [if_pos hwithin]
      exact parseVersion_underscore (underscore_mem_drop hwithin hstarts)
    · rw [if_neg hwithin]

/-- The Python fold is a maximum. -/
theorem maxGlibcxxVersion_eq (names : List (List Char)) :
    maxGlibcxxVersion names =
      names.foldl (fun m s => max m (nameTuple s)) (versionTuple 0 0 0) := by
  unfold maxGlibcxxVersion
  congr 1
  funext m s
  unfold nameTuple
  by_cases hwithin : glibcxx <:+: s
  · simp only [if_pos hwithin, gt_iff_lt]
    by_cases h : m < parseVersion (s.drop glibcxx.length)
    · rw [if_pos h, max_eq_right (le_of_lt h)]
    · rw [if_neg h, max_eq_left (le_of_not_gt h)]
  · simp only [if_neg hwithin]
    rw [max_eq_left (zero_le_versionTuple m)]

/-- Behind a leading `GLIBCXX_` comes a dotted version that is not clamped, or
    something that does not begin like a version. -/
def SuffixFits (s : List Char) : Prop :=
  ∀ suffix, s = glibcxx ++ suffix → (∃ t, Dotted suffix t ∧ Unclamped t) ∨
    ∃ c rest, suffix = c :: rest ∧ c.isDigit = false ∧ c ≠ '.'

/-- A name with such a version behind the prefix. -/
theorem SuffixFits.of_dotted {suffix : List Char} {t : VersionTuple} (hdotted : Dotted suffix t)
    (ht : Unclamped t) : SuffixFits (glibcxx ++ suffix) := by
  intro suffix' h
  rw [← List.append_cancel_left h]
  exact Or.inl ⟨t, hdotted, ht⟩

/-- A name with something else behind it. -/
theorem SuffixFits.of_other (c : Char) (rest : List Char) (hdigit : c.isDigit = false)
    (hdot : c ≠ '.') : SuffixFits (glibcxx ++ c :: rest) := by
  intro suffix' h
  rw [← List.append_cancel_left h]
  exact Or.inr ⟨c, rest, rfl, hdigit, hdot⟩

/-- A name without the prefix. -/
theorem SuffixFits.of_not_prefix {s : List Char} (h : ¬ glibcxx <+: s) : SuffixFits s := by
  intro suffix hs
  exact absurd (hs ▸ List.prefix_append glibcxx suffix) h

/-- The names of the comparison: ASCII names whose suffixes fit, with at least
    one that starts with `GLIBCXX_`. -/
structure Admissible (names : List (List Char)) : Prop where
  ascii : ∀ s ∈ names, Ascii s
  suffixes : ∀ s ∈ names, SuffixFits s
  versioned : ∃ s ∈ names, glibcxx <+: s

/-- The two sides agree on a name: what the C side packs is the tuple of the
    Python side, and what it skips is worth nothing there. -/
theorem stringVersion_agrees {s : List Char} (hs : Ascii s) (hsuffix : SuffixFits s) :
    (glibcxx <+: s ∧ stringVersion (cString s) = .ok (some (pack (nameTuple s))) ∧
      Unclamped (nameTuple s)) ∨
    (¬ glibcxx <+: s ∧ stringVersion (cString s) = .ok none ∧
      nameTuple s = versionTuple 0 0 0) := by
  rw [stringVersion_cString hs]
  by_cases hstarts : glibcxx <+: s
  · left
    rcases hstarts with ⟨suffix, rfl⟩
    have hdrop : (glibcxx ++ suffix).drop 8 = suffix := rfl
    have htuple : nameTuple (glibcxx ++ suffix) = parseVersion suffix := by
      unfold nameTuple
      rw [if_pos (List.prefix_append _ _).isInfix]
      rfl
    refine ⟨List.prefix_append _ _, ?_⟩
    rw [if_pos (List.prefix_append _ _), hdrop, htuple]
    rcases hsuffix suffix rfl with ⟨t, hdotted, ht⟩ | ⟨c, rest, rfl, hdigit, hdot⟩
    · rw [parseVersion_spells hdotted.spells, versionStringToInt_dotted hdotted, ok_bind,
        packVersion_accumulated ht]
      exact ⟨rfl, ht⟩
    · have hc : c.toNat < 128 := hs c (List.mem_append_right _ List.mem_cons_self)
      have hother : isDecimal c = false := by rw [isDecimal_ascii hc, hdigit]
      rw [parseVersion_other hother, versionStringToInt_other hc hdigit hdot, ok_bind]
      exact ⟨rfl, unclamped_zero⟩
  · right
    refine ⟨hstarts, by rw [if_neg hstarts], ?_⟩
    rcases nameTuple_cases s with hzero | ⟨suffix, rfl, _⟩
    · exact hzero
    · exact absurd (List.prefix_append _ _) hstarts

end Names

section Folds

/-- The C fold over a list of names, from an output that holds `out`. -/
def maxPackedVersion (names : List (List Char)) (out : Nat) : Run Found :=
  names.foldlM
    (fun found s => do
      let version ← stringVersion (cString s)
      return found.record version)
    ⟨false, out⟩

/-- The accumulators of the two folds agree. -/
structure Agrees (found : Found) (t : VersionTuple) : Prop where
  unclamped : Unclamped t
  packed : found.atLeastOne = true → found.version = pack t
  nothing : found.atLeastOne = false → t = versionTuple 0 0 0

/-- One pass keeps the accumulators in agreement. -/
theorem Agrees.record {found : Found} {t u : VersionTuple} (h : Agrees found t)
    (hu : Unclamped u) : Agrees (found.record (some (pack u))) (max t u) := by
  refine ⟨h.unclamped.max hu, fun _ => ?_, fun hnone => ?_⟩
  · by_cases hone : found.atLeastOne = true
    · rw [Found.record_later hone, pack_max h.unclamped hu, h.packed hone]
    · have hnone := Bool.eq_false_iff.mpr hone
      rw [Found.record_first hnone, h.nothing hnone, max_eq_right (zero_le_versionTuple u)]
  · rw [Found.record_atLeastOne] at hnone
    exact absurd hnone.symm Bool.false_ne_true

/-- The two folds agree, from accumulators that do. -/
theorem folds_agree : ∀ (names : List (List Char)) (found : Found) (t : VersionTuple),
    Agrees found t → (∀ s ∈ names, Ascii s) → (∀ s ∈ names, SuffixFits s) →
    ∃ found', names.foldlM (fun found s => do
        let version ← stringVersion (cString s)
        return found.record version) found = (.ok found' : Run Found) ∧
      Agrees found' (names.foldl (fun m s => max m (nameTuple s)) t) ∧
      (found'.atLeastOne = true ↔ found.atLeastOne = true ∨ ∃ s ∈ names, glibcxx <+: s) := by
  intro names
  induction names with
  | nil =>
      intro found t h _ _
      refine ⟨found, rfl, h, ?_⟩
      simp only [List.not_mem_nil, false_and, exists_false, or_false]
  | cons s names ih =>
      intro found t h hascii hsuffixes
      have hasciis : ∀ x ∈ names, Ascii x := fun x hx => hascii x (List.mem_cons_of_mem _ hx)
      have hrest : ∀ x ∈ names, SuffixFits x := fun x hx => hsuffixes x (List.mem_cons_of_mem _ hx)
      simp only [List.foldlM_cons, List.foldl_cons, List.exists_mem_cons_iff]
      rcases stringVersion_agrees (hascii s List.mem_cons_self) (hsuffixes s List.mem_cons_self)
        with ⟨hstarts, hversion, hu⟩ | ⟨hstarts, hversion, hu⟩
      · rcases ih _ _ (h.record hu) hasciis hrest with ⟨found', hfold, hagrees, hone⟩
        refine ⟨found', ?_, hagrees, ?_⟩
        · rw [hversion, ok_bind]
          exact hfold
        · simp only [hone, Found.record_atLeastOne, hstarts, true_or, or_true]
      · rcases ih _ _ h hasciis hrest with ⟨found', hfold, hagrees, hone⟩
        refine ⟨found', ?_, ?_, ?_⟩
        · rw [hversion, ok_bind]
          exact hfold
        · rw [hu, max_eq_left (zero_le_versionTuple t)]
          exact hagrees
        · simp only [hone, hstarts, false_or]

/-- The C fold comes through on admissible names, and gives the packed version
    of the Python fold. -/
theorem maxPackedVersion_agrees {names : List (List Char)} (h : Admissible names) (out : Nat) :
    maxPackedVersion names out = .ok ⟨true, pack (maxGlibcxxVersion names)⟩ ∧
      Unclamped (maxGlibcxxVersion names) := by
  have hinit : Agrees ⟨false, out⟩ (versionTuple 0 0 0) :=
    ⟨unclamped_zero, fun hc => absurd hc Bool.false_ne_true, fun _ => rfl⟩
  rcases folds_agree names _ _ hinit h.ascii h.suffixes with ⟨found, hfold, hagrees, hone⟩
  rw [← maxGlibcxxVersion_eq] at hagrees
  have hfound : found.atLeastOne = true := hone.mpr (Or.inr h.versioned)
  refine ⟨?_, hagrees.unclamped⟩
  unfold maxPackedVersion
  rw [hfold, ← hagrees.packed hfound, ← hfound]

theorem Admissible.perm {names names' : List (List Char)} (h : Admissible names)
    (hperm : names'.Perm names) : Admissible names' := by
  refine ⟨fun s hs => h.ascii s (hperm.mem_iff.mp hs),
    fun s hs => h.suffixes s (hperm.mem_iff.mp hs), ?_⟩
  rcases h.versioned with ⟨s, hs, hstarts⟩
  exact ⟨s, hperm.mem_iff.mpr hs, hstarts⟩

theorem maxGlibcxxVersion_perm {names names' : List (List Char)} (hperm : names'.Perm names) :
    maxGlibcxxVersion names' = maxGlibcxxVersion names := by
  rw [maxGlibcxxVersion_eq, maxGlibcxxVersion_eq]
  exact hperm.foldl_eq' (fun x _ y _ t => max_right_comm t (nameTuple x) (nameTuple y)) _

end Folds

/-- The two selectors agree: on the version of each list, on the comparison of
    the two, and on both whatever the order of the names. -/
theorem selectors_agree (system shipped : List (List Char)) (hsystem : Admissible system)
    (hshipped : Admissible shipped) (out : Nat) :
    ∃ systemVersion shippedVersion,
      maxPackedVersion system out = .ok ⟨true, systemVersion⟩ ∧
      maxPackedVersion shipped out = .ok ⟨true, shippedVersion⟩ ∧
      systemVersion = pack (maxGlibcxxVersion system) ∧
      shippedVersion = pack (maxGlibcxxVersion shipped) ∧
      (systemVersion < shippedVersion ↔
        maxGlibcxxVersion system < maxGlibcxxVersion shipped) ∧
      (∀ system' : List (List Char), system'.Perm system →
        maxPackedVersion system' out = .ok ⟨true, systemVersion⟩ ∧
        maxGlibcxxVersion system' = maxGlibcxxVersion system) ∧
      (∀ shipped' : List (List Char), shipped'.Perm shipped →
        maxPackedVersion shipped' out = .ok ⟨true, shippedVersion⟩ ∧
        maxGlibcxxVersion shipped' = maxGlibcxxVersion shipped) := by
  have hsys := maxPackedVersion_agrees hsystem out
  have hship := maxPackedVersion_agrees hshipped out
  refine ⟨_, _, hsys.1, hship.1, rfl, rfl, pack_lt_pack hsys.2 hship.2, ?_, ?_⟩
  · intro system' hperm
    have h := (maxPackedVersion_agrees (hsystem.perm hperm) out).1
    rw [maxGlibcxxVersion_perm hperm] at h
    exact ⟨h, maxGlibcxxVersion_perm hperm⟩
  · intro shipped' hperm
    have h := (maxPackedVersion_agrees (hshipped.perm hperm) out).1
    rw [maxGlibcxxVersion_perm hperm] at h
    exact ⟨h, maxGlibcxxVersion_perm hperm⟩

section Sample

/-- Two names of a system library, one with `GLIBCXX_` further in. -/
def sampleSystemNames : List (List Char) :=
  ["XGLIBCXX_9".toList, "GLIBCXX_3.4".toList]

/-- Two names of a shipped library, one without a version behind `GLIBCXX_`. -/
def sampleShippedNames : List (List Char) :=
  ["GLIBCXX_LDBL_3.4".toList, "GLIBCXX_3.4.30".toList]

theorem sampleSystemNames_admissible : Admissible sampleSystemNames where
  ascii := by decide
  suffixes := by
    have hsuffix : Dotted ("3".toList ++ '.' :: "4".toList) (versionTuple 3 4 0) :=
      Dotted.minor (by decide) (by decide)
    intro s hs
    rcases List.mem_pair.mp hs with rfl | rfl
    · exact SuffixFits.of_not_prefix (by decide)
    · exact SuffixFits.of_dotted hsuffix ⟨by decide, by decide, by decide⟩
  versioned := ⟨_, List.mem_pair.mpr (Or.inr rfl), by decide⟩

theorem sampleShippedNames_admissible : Admissible sampleShippedNames where
  ascii := by decide
  suffixes := by
    have hsuffix : Dotted ("3".toList ++ '.' :: ("4".toList ++ '.' :: "30".toList))
        (versionTuple 3 4 30) :=
      Dotted.patch (by decide) (by decide) (by decide)
    intro s hs
    rcases List.mem_pair.mp hs with rfl | rfl
    · exact SuffixFits.of_other 'L' "DBL_3.4".toList (by decide) (by decide)
    · exact SuffixFits.of_dotted hsuffix ⟨by decide, by decide, by decide⟩
  versioned := ⟨_, List.mem_pair.mpr (Or.inr rfl), by decide⟩

/-- The two sides agree that the shipped sample is the higher one. -/
theorem sampleNames_agree : ∃ systemVersion shippedVersion,
    maxPackedVersion sampleSystemNames 0 = .ok ⟨true, systemVersion⟩ ∧
    maxPackedVersion sampleShippedNames 0 = .ok ⟨true, shippedVersion⟩ ∧
    systemVersion < shippedVersion := by
  rcases selectors_agree sampleSystemNames sampleShippedNames sampleSystemNames_admissible
    sampleShippedNames_admissible 0 with ⟨system, shipped, hsystem, hshipped, _, _, hlt, _⟩
  exact ⟨system, shipped, hsystem, hshipped, hlt.mpr (by decide)⟩

end Sample

end AuditLibstdcxx
