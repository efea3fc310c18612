import AuditLibstdcxx.Core.PyTemplate

/-!
# When the Path Arrives

For which paths the `sitecustomize.py` that CMake makes hands Python the path
that it was made for.

An escape sequence that Python knows stands for fewer characters than it has, one
that it does not know for as many, and nothing else in a string literal becomes
longer. So a literal whose value is as long as the path has the path between its
quotation marks, and nothing in it is read as an escape sequence.

## Main definitions

* `escapeChars`: What a backslash in front of it changes.
* `PlainPath`: The path has nothing in it that a literal takes otherwise.

## Theorems

* `configureSitecustomize_eq`: What CMake makes of the template.
* `decodeEscapes_length`: A value is no longer than its literal.
* `literalEnd_plain`: One that is as long is plain.
* `templateModule_iff`: When the path arrives.
-/

namespace AuditLibstdcxx

open Newlines

/-- What a backslash in front of it changes. -/
def escapeChars : List Char :=
  simpleEscapes.map Prod.fst ++ "01234567xuUN".toList

/-- The path has nothing in it that a literal takes otherwise. -/
structure PlainPath (path : PyStr) : Prop where
  chars : ∀ c ∈ path, c ∉ ['"', '\n', '\r', '\x00']
  backslash : ∀ before after, path = before ++ '\\' :: after →
    ∃ c rest, after = c :: rest ∧ c ∉ escapeChars

namespace PlainPath

theorem nil : PlainPath [] where
  chars _ h := absurd h List.not_mem_nil
  backslash before after h := by simp at h

theorem cons {c : Char} {path : PyStr} (hc : c ∉ ['"', '\n', '\r', '\x00']) (hbackslash : c ≠ '\\')
    (h : PlainPath path) : PlainPath (c :: path) where
  chars d hd := by
    rcases List.mem_cons.mp hd with rfl | hd
    · exact hc
    · exact h.chars d hd
  backslash before after hsplit := by
    cases before with
    | nil => exact absurd (List.cons.inj hsplit).1 hbackslash
    | cons b before => exact h.backslash before after (List.cons.inj hsplit).2

theorem escape {c : Char} {path : PyStr} (hc : c ∉ escapeChars) (hclean : c ≠ '\r' ∧ c ≠ '\x00')
    (h : PlainPath path) : PlainPath ('\\' :: c :: path) where
  chars d hd := by
    rcases List.mem_cons.mp hd with rfl | hd
    · decide
    · rcases List.mem_cons.mp hd with rfl | hd
      · have hquote : d ≠ '"' := by
          rintro rfl
          exact hc (by decide)
        have hline : d ≠ '\n' := by
          rintro rfl
          exact hc (by decide)
        simp [hquote, hline, hclean]
      · exact h.chars d hd
  backslash before after hsplit := by
    cases before with
    | nil => exact ⟨c, path, (List.cons.inj hsplit).2.symm, hc⟩
    | cons b before =>
        have hrest := (List.cons.inj hsplit).2
        cases before with
        | nil =>
            rw [(List.cons.inj hrest).1] at hc
            exact absurd (by decide) hc
        | cons d before => exact h.backslash before after (List.cons.inj hrest).2

theorem tail {c : Char} {path : PyStr} (h : PlainPath (c :: path)) : PlainPath path where
  chars d hd := h.chars d (List.mem_cons_of_mem c hd)
  backslash before after hsplit := h.backslash (c :: before) after (by rw [hsplit]; rfl)

/-- A path without quotation marks, control characters and backslashes is plain. -/
theorem of_chars {path : PyStr}
    (h : path.all (fun c => decide (c ∉ ['"', '\n', '\r', '\x00', '\\'])) = true) :
    PlainPath path where
  chars c hc hmem :=
    of_decide_eq_true (List.all_eq_true.mp h c hc) (List.mem_append_left ['\\'] hmem)
  backslash before after hsplit := by
    refine absurd (by decide) (of_decide_eq_true (List.all_eq_true.mp h '\\' ?_))
    rw [hsplit]
    exact List.mem_append_right _ List.mem_cons_self

end PlainPath

/-! ### The Text -/

/-- In the template itself there is nothing that would be taken otherwise. -/
theorem template_clean : (templateHead ++ templateTail).all
    (fun c => decide (c ∉ ['@', '"', '\r', '\x00'])) = true := by
  decide +kernel

theorem not_mem_templateHead {c : Char} (h : c ∈ ['@', '"', '\r', '\x00']) :
    c ∉ templateHead := fun hc =>
  of_decide_eq_true (List.all_eq_true.mp template_clean c (List.mem_append_left _ hc)) h

theorem not_mem_templateTail {c : Char} (h : c ∈ ['@', '"', '\r', '\x00']) :
    c ∉ templateTail := fun hc =>
  of_decide_eq_true (List.all_eq_true.mp template_clean c (List.mem_append_right _ hc)) h

section Expansion

variable (definition : CMakeStr → CMakeStr)

theorem expandAt_drop (skip : Nat) (text : CMakeStr) :
    expandAt definition skip text = expandAt definition 0 (text.drop skip) := by
  induction skip generalizing text with
  | zero => rw [List.drop_zero]
  | succ skip ih =>
      cases text with
      | nil => simp [expandAt]
      | cons c rest => simp [expandAt, ih]

/-- A text without references is left as it is. -/
theorem expandAt_append (text rest : CMakeStr) (h : '@' ∉ text) :
    expandAt definition 0 (text ++ rest) = text ++ expandAt definition 0 rest := by
  induction text with
  | nil => rfl
  | cons c text ih =>
      rw [List.mem_cons, not_or] at h
      rw [List.cons_append, List.cons_append, expandAt, if_neg (Ne.symm h.1), ih h.2]

/-- A reference is replaced by the value of its variable. -/
theorem expandAt_reference (name rest : CMakeStr) (hname : name ≠ [])
    (hchars : name.all isVariableChar = true) :
    expandAt definition 0 ('@' :: name ++ '@' :: rest) =
      definition name ++ expandAt definition 0 rest := by
  have htake : (name ++ '@' :: rest).takeWhile isVariableChar = name := by
    rw [List.takeWhile_append_of_pos (List.all_eq_true.mp hchars),
      List.takeWhile_cons_of_neg (by decide), List.append_nil]
  have hvariable : variableAt (name ++ '@' :: rest) = some name := by
    unfold variableAt
    simp [htake, hname]
  rw [List.cons_append, expandAt, if_pos rfl, hvariable]
  simp only [expandAt_drop definition (name.length + 1)]
  rw [List.drop_append, Nat.add_sub_cancel_left, List.drop_eq_nil_of_le (Nat.le_succ _)]
  rfl

/-- CMake puts the path between quotation marks into the template. -/
theorem configureSitecustomize_eq (path : CMakeStr) : configureSitecustomize definition path =
    templateHead ++ '"' :: (path ++ '"' :: templateTail) := by
  have htail := expandAt_append (Function.update definition expectedPathVariable
    ('"' :: path ++ ['"'])) templateTail [] (not_mem_templateTail (by decide))
  rw [List.append_nil] at htail
  unfold configureSitecustomize sitecustomizeTemplate
  rw [List.append_assoc, expandAt_append _ _ _ (not_mem_templateHead (by decide)),
    expandAt_reference _ _ _ (by decide) (by decide), htail, Function.update_self]
  simp [expandAt]

end Expansion

section Literals

variable {unicodeName : List Char → Option Nat}

theorem hexEscape_length {count n : Nat} {text : List Char} {values : List Nat}
    (h : hexEscape count text = some (values, n)) : values.length ≤ 1 ∧ 1 ≤ n := by
  unfold hexEscape at h
  rcases Option.ite_none_right_eq_some.mp h with ⟨_, heq⟩
  cases heq
  exact ⟨Nat.le_refl 1, Nat.succ_le_succ (Nat.zero_le _)⟩

theorem namedEscape_length {n : Nat} {text : List Char} {values : List Nat}
    (h : namedEscape unicodeName text = some (values, n)) : values.length ≤ 1 ∧ 1 ≤ n := by
  unfold namedEscape at h
  split at h
  · rcases Option.ite_none_right_eq_some.mp h with ⟨_, hmap⟩
    rcases Option.map_eq_some_iff.mp hmap with ⟨_, _, heq⟩
    cases heq
    exact ⟨Nat.le_refl 1, Nat.succ_le_succ (Nat.zero_le _)⟩
  · cases h

theorem mem_of_isOctDigit {c : Char} (h : isOctDigit c = true) : c ∈ "01234567".toList := by
  have hrange : 48 ≤ c.toNat ∧ c.toNat ≤ 55 := of_decide_eq_true h
  have hchar : ∀ n, n < 56 → 48 ≤ n → Char.ofNat n ∈ "01234567".toList := by decide
  have hmem := hchar c.toNat (Nat.lt_succ_of_le hrange.2) hrange.1
  rwa [Char.ofNat_toNat] at hmem

/-- An escape sequence that is not known stands for itself. -/
theorem readEscape_unknown {c : Char} (rest : List Char) (hc : c ∉ escapeChars) :
    readEscape unicodeName (c :: rest) = some (['\\'.toNat, c.toNat], 1) := by
  rw [escapeChars, List.mem_append, not_or] at hc
  have hlookup : simpleEscapes.lookup c = none := by
    refine List.lookup_eq_none_iff.mpr fun e he => bne_iff_ne.mpr ?_
    rintro rfl
    exact hc.1 (List.mem_map_of_mem he)
  have hoct : isOctDigit c ≠ true := fun h =>
    hc.2 (List.mem_append_left "xuUN".toList (mem_of_isOctDigit h))
  have hletters : ∀ letter ∈ "xuUN".toList, c ≠ letter := by
    rintro letter hletter rfl
    exact hc.2 (List.mem_append_right "01234567".toList hletter)
  unfold readEscape
  simp only [hlookup]
  rw [if_neg hoct, if_neg (hletters 'x' (by decide)), if_neg (hletters 'u' (by decide)),
    if_neg (hletters 'U' (by decide)), if_neg (hletters 'N' (by decide))]

theorem escapeChars_known : escapeChars.all (fun c => (simpleEscapes.lookup c).isSome ||
    isOctDigit c || decide (c ∈ "xuUN".toList)) = true := by
  decide

/-- Any other stands for one character at most. -/
theorem readEscape_cases {c : Char} {rest : List Char} {values : List Nat} {n : Nat}
    (h : readEscape unicodeName (c :: rest) = some (values, n)) :
    (values.length ≤ 1 ∧ 1 ≤ n) ∨ c ∉ escapeChars ∧ values = ['\\'.toNat, c.toNat] ∧ n = 1 := by
  by_cases hc : c ∈ escapeChars
  · refine Or.inl ?_
    have hknown := List.all_eq_true.mp escapeChars_known c hc
    simp only [Bool.or_eq_true, decide_eq_true_eq] at hknown
    unfold readEscape at h
    simp only at h
    cases hlookup : simpleEscapes.lookup c with
    | some simple =>
        simp only [hlookup] at h
        cases h
        have hsimple : ∀ e ∈ simpleEscapes, e.2.length ≤ 1 := by decide
        rcases List.lookup_eq_some_iff.mp hlookup with ⟨before, after, hsplit, _⟩
        exact ⟨hsimple (c, values) (by simp [hsplit]), Nat.le_refl 1⟩
    | none =>
        simp only [hlookup] at h
        by_cases hoct : isOctDigit c = true
        · rw [if_pos hoct] at h
          cases h
          exact ⟨Nat.le_refl 1, by simp [hoct]⟩
        · rw [if_neg hoct] at h
          rcases hknown with (hsimple | hoct') | hletter
          · rw [hlookup] at hsimple
            cases hsimple
          · exact absurd hoct' hoct
          -- Only the letters of the long escape sequences are left.
          · split_ifs at h with hx hu hU hN
            · exact hexEscape_length h
            · exact hexEscape_length h
            · exact hexEscape_length h
            · exact namedEscape_length h
            · simp [hx, hu, hU, hN] at hletter
  · rw [readEscape_unknown rest hc] at h
    cases h
    exact Or.inr ⟨hc, rfl, rfl⟩

theorem decodeEscapes_drop (skip : Nat) (text : List Char) :
    decodeEscapes unicodeName skip text = decodeEscapes unicodeName 0 (text.drop skip) := by
  induction skip generalizing text with
  | zero => rw [List.drop_zero]
  | succ skip ih =>
      cases text with
      | nil => simp [decodeEscapes]
      | cons c rest => simp [decodeEscapes, ih]

theorem decodeEscapes_cons {c : Char} (h : c ≠ '\\') (rest : List Char) :
    decodeEscapes unicodeName 0 (c :: rest) =
      (decodeEscapes unicodeName 0 rest).map (c.toNat :: ·) := by
  rw [decodeEscapes, if_neg h]

/-- A value is no longer than its literal. -/
theorem decodeEscapes_length (text : List Char) (skip : Nat) (values : List Nat)
    (h : decodeEscapes unicodeName skip text = some values) :
    values.length ≤ (text.drop skip).length := by
  induction text generalizing skip values with
  | nil =>
      rw [decodeEscapes_drop, List.drop_nil, decodeEscapes] at h
      cases h
      exact Nat.zero_le _
  | cons c rest ih =>
      cases skip with
      | succ skip => exact ih skip values h
      | zero =>
          by_cases hc : c = '\\'
          · rw [decodeEscapes, if_pos hc] at h
            rcases Option.bind_eq_some_iff.mp h with ⟨e, hescape, hmap⟩
            rcases Option.map_eq_some_iff.mp hmap with ⟨behind, hbehind, rfl⟩
            have hlength := ih e.2 behind hbehind
            rw [List.length_drop] at hlength
            cases rest with
            | nil => cases hescape
            | cons d rest =>
                -- A known sequence is shorter than its text, an unknown one as long.
                rcases readEscape_cases hescape with hknown | ⟨_, hvalues, htaken⟩
                · simp only [List.length_append, List.length_cons, List.drop_zero] at hlength ⊢
                  omega
                · simp only [hvalues, htaken, List.length_append, List.length_cons, List.length_nil,
                    List.drop_zero] at hlength ⊢
                  omega
          · rw [decodeEscapes_cons hc] at h
            rcases Option.map_eq_some_iff.mp h with ⟨behind, hbehind, rfl⟩
            exact Nat.succ_le_succ (ih 0 behind hbehind)

/-- The quotation marks at the end of a literal. -/
def closingQuotes (triple : Bool) : List Char :=
  if triple then ['"', '"', '"'] else ['"']

/-- A literal ends at the first quotation marks that end it. -/
theorem literalEnd_split (triple : Bool) (text content after : List Char)
    (h : literalEnd triple text = some (content, after)) :
    text = content ++ (closingQuotes triple ++ after) := by
  fun_induction literalEnd triple text generalizing content with
  | case1 => cases h
  | case2 c rest ih =>
      rcases Option.map_eq_some_iff.mp h with ⟨r, hr, heq⟩
      cases heq
      rw [ih r.1 hr]
      rfl
  | case3 c rest hescape hend =>
      cases h
      rw [hend.1, hend.2]
      rfl
  | case4 c rest hescape hsingle hend =>
      cases h
      have htriple : triple = true := by simpa [hend.1] using hsingle
      rw [htriple, hend.1, ← List.take_append_drop 2 rest, hend.2]
      rfl
  | case5 c rest hescape hsingle hend hline => cases h
  | case6 c rest hescape hsingle hend hline ih =>
      rcases Option.map_eq_some_iff.mp h with ⟨r, hr, heq⟩
      cases heq
      rw [ih r.1 hr]
      rfl

/-- Outside of an escape sequence the quotation marks and the end of the line come
    to an end, and a character in one that is unknown stands for itself. -/
theorem literalEnd_plain (text content after : List Char) (values : List Nat)
    (h : literalEnd false text = some (content, after)) (hclean : '\r' ∉ content ∧ '\x00' ∉ content)
    (hvalues : decodeEscapes unicodeName 0 content = some values)
    (hlength : content.length ≤ values.length) :
    PlainPath content ∧ values = content.map Char.toNat := by
  fun_induction literalEnd false text generalizing content values with
  | case1 => cases h
  | case2 c rest ih =>
      rcases Option.map_eq_some_iff.mp h with ⟨r, hr, heq⟩
      cases heq
      rw [decodeEscapes, if_pos rfl] at hvalues
      rcases Option.bind_eq_some_iff.mp hvalues with ⟨e, hescape, hmap⟩
      rcases Option.map_eq_some_iff.mp hmap with ⟨behind, hbehind, rfl⟩
      have hbound := decodeEscapes_length _ _ _ hbehind
      -- A known sequence would make the value shorter than the literal.
      rcases readEscape_cases hescape with hknown | ⟨hc, hself, htaken⟩
      · simp only [List.length_append, List.length_cons, List.length_drop] at hlength hbound
        omega
      · rw [decodeEscapes_drop, htaken, List.drop_one, List.tail_cons] at hbehind
        simp only [hself, List.length_append, List.length_cons, List.length_nil] at hlength
        simp only [List.mem_cons, not_or] at hclean
        rcases ih r.1 behind hr ⟨hclean.1.2.2, hclean.2.2.2⟩ hbehind (by omega) with ⟨hplain, hmap⟩
        refine ⟨hplain.escape hc ⟨Ne.symm hclean.1.2.1, Ne.symm hclean.2.2.1⟩, ?_⟩
        rw [hself, hmap]
        rfl
  | case3 c rest hescape hend =>
      cases h
      cases hvalues
      exact ⟨.nil, rfl⟩
  | case4 c rest hescape hsingle hend => exact absurd ⟨hend.1, rfl⟩ hsingle
  | case5 c rest hescape hsingle hend hline => cases h
  | case6 c rest hescape hsingle hend hline ih =>
      rcases Option.map_eq_some_iff.mp h with ⟨r, hr, heq⟩
      cases heq
      simp only [List.mem_cons, not_or] at hclean
      have hbackslash : c ≠ '\\' := by
        rintro rfl
        cases rest with
        | nil => cases hr
        | cons d rest => exact hescape d rest rfl rfl
      rw [decodeEscapes_cons hbackslash] at hvalues
      rcases Option.map_eq_some_iff.mp hvalues with ⟨behind, hbehind, rfl⟩
      rcases ih r.1 behind hr ⟨hclean.1.2, hclean.2.2⟩ hbehind (Nat.le_of_succ_le_succ hlength) with
        ⟨hplain, hmap⟩
      refine ⟨hplain.cons ?_ hbackslash, by rw [hmap, List.map_cons]⟩
      simp only [List.mem_cons, List.not_mem_nil, or_false, not_or]
      exact ⟨fun hquote => hsingle ⟨hquote, rfl⟩, fun hnewline => hline ⟨hnewline, rfl⟩,
        Ne.symm hclean.1.1, Ne.symm hclean.2.1⟩

/-- A plain path is read up to the quotation marks behind it. -/
theorem PlainPath.literalEnd_eq {path : PyStr} (h : PlainPath path) (after : List Char) :
    literalEnd false (path ++ '"' :: after) = some (path, after) := by
  induction hn : path.length using Nat.strongRecOn generalizing path with
  | ind n ih =>
      cases path with
      | nil => simp [literalEnd]
      | cons c path =>
          by_cases hc : c = '\\'
          -- The backslash takes a character with it, so the induction goes on behind both.
          · rcases h.backslash [] path (by rw [hc]; rfl) with ⟨d, rest, rfl, _⟩
            rw [hc, List.cons_append, List.cons_append, literalEnd,
              ih rest.length (by rw [← hn]; exact Nat.lt_succ_of_lt (Nat.lt_succ_self _))
                h.tail.tail rfl]
            rfl
          · have hchars := h.chars c List.mem_cons_self
            simp only [List.mem_cons, List.not_mem_nil, or_false, not_or] at hchars
            rw [List.cons_append, literalEnd, if_neg (by simp [hchars.1]),
              if_neg (by simp [hchars.1]), if_neg (by simp [hchars.2.1]),
              ih path.length (by rw [← hn]; simp) h.tail rfl]
            · rfl
            · exact fun d rest hbackslash _ => hc hbackslash

/-- Every character of it stands for itself. -/
theorem PlainPath.decodeEscapes_eq {path : PyStr} (h : PlainPath path) :
    decodeEscapes unicodeName 0 path = some (path.map Char.toNat) := by
  induction hn : path.length using Nat.strongRecOn generalizing path with
  | ind n ih =>
      cases path with
      | nil => rfl
      | cons c path =>
          by_cases hc : c = '\\'
          · rcases h.backslash [] path (by rw [hc]; rfl) with ⟨d, rest, rfl, hd⟩
            rw [decodeEscapes, if_pos hc, readEscape_unknown rest hd, Option.bind_some,
              decodeEscapes_drop, List.drop_one, List.tail_cons,
              ih rest.length (by rw [← hn]; exact Nat.lt_succ_of_lt (Nat.lt_succ_self _))
                h.tail.tail rfl, hc]
            rfl
          · rw [decodeEscapes_cons hc, ih path.length (by rw [← hn]; simp) h.tail rfl]
            rfl

end Literals

section Arrival

variable {unicodeName : List Char → Option Nat}

/-- Quotation marks with none behind a place are in front of it. -/
theorem length_le_of_last_quote {after tail : List Char} (before ahead : List Char)
    (htail : '"' ∉ tail) (h : before ++ '"' :: after = ahead ++ '"' :: tail) :
    before.length ≤ ahead.length := by
  induction before generalizing ahead with
  | nil => exact Nat.zero_le _
  | cons c before ih =>
      cases ahead with
      | nil =>
          refine absurd ?_ htail
          rw [← (List.cons.inj h).2]
          exact List.mem_append_right _ List.mem_cons_self
      | cons d ahead => exact Nat.succ_le_succ (ih ahead (List.cons.inj h).2)

/-- A literal is read between the quotation marks that CMake puts there, or it is
    shorter than what is between them. -/
theorem readLiteral_split {path tail content after : List Char} (htail : '"' ∉ tail)
    (h : readLiteral ('"' :: (path ++ '"' :: tail)) = some (content, after)) :
    content.length < path.length ∨
      content = path ∧ literalEnd false (path ++ '"' :: tail) = some (content, after) := by
  unfold readLiteral at h
  split_ifs at h with htriple
  · refine Or.inl ?_
    -- Two of the three quotation marks come from the path, so the literal is shorter.
    have hsplit := literalEnd_split true _ content after h
    have htext : '"' :: (path ++ '"' :: tail) =
        ('"' :: '"' :: '"' :: content ++ ['"', '"']) ++ '"' :: after := by
      rw [← List.take_append_drop 3 ('"' :: (path ++ '"' :: tail)), htriple, hsplit]
      simp [closingQuotes]
    have hlength := length_le_of_last_quote _ ('"' :: path) htail htext.symm
    simp at hlength
    omega
  · have hend : literalEnd false (path ++ '"' :: tail) = some (content, after) := h
    have hsplit := literalEnd_split false _ content after hend
    have hlength := length_le_of_last_quote content path htail hsplit.symm
    rcases Nat.lt_or_eq_of_le hlength with hlt | heq
    · exact Or.inl hlt
    · exact Or.inr ⟨(List.append_inj_left hsplit heq.symm).symm, hend⟩

theorem mapM_charOfCode (values : List Nat) (path : PyStr) :
    values.mapM charOfCode = some path ↔ values = path.map Char.toNat := by
  induction values generalizing path with
  | nil =>
      rw [List.mapM_nil, eq_comm (a := []), List.map_eq_nil_iff]
      exact ⟨fun h => (Option.some.inj h).symm, fun h => by rw [h]; rfl⟩
  | cons n values ih =>
      rw [List.mapM_cons]
      constructor
      · intro h
        rcases Option.bind_eq_some_iff.mp h with ⟨c, hc, hrest⟩
        rcases Option.bind_eq_some_iff.mp hrest with ⟨rest, hvalues, heq⟩
        rcases Option.ite_none_right_eq_some.mp hc with ⟨hvalid, hchar⟩
        have hn : (Char.ofNat n).toNat = n := by
          rw [Char.ofNat, dif_pos hvalid]
          rfl
        rw [← Option.some.inj heq, (ih rest).mp hvalues, ← Option.some.inj hchar, List.map_cons, hn]
      · intro h
        cases path with
        | nil => cases h
        | cons c path =>
            rcases List.cons.inj h with ⟨rfl, hvalues⟩
            have hc : charOfCode c.toNat = some c := by
              rw [charOfCode, if_pos (show c.toNat.isValidChar from c.valid), Char.ofNat_toNat]
            rw [(ih path).mpr hvalues, hc]
            rfl

/-- The argument is a string literal that follows the head. -/
theorem templateArgument_eq (definition : CMakeStr → CMakeStr) (path : PyStr) :
    templateArgument unicodeName (configureSitecustomize definition path) =
      if '\x00' ∈ path then none
      else (readLiteral ('"' :: (universalNewlines path ++ '"' :: templateTail))).bind
        fun literal =>
          if literal.2.head? = some ')' then decodeEscapes unicodeName 0 literal.1 else none := by
  have htail : universalNewlines templateTail = templateTail :=
    universalNewlines_eq_self (not_mem_templateTail (by decide))
  have htext : universalNewlines (templateHead ++ '"' :: (path ++ '"' :: templateTail)) =
      templateHead ++ '"' :: (universalNewlines path ++ '"' :: templateTail) := by
    rw [universalNewlines_append (not_mem_templateHead (by decide)),
      universalNewlines_cons_of_ne (by decide),
      universalNewlines_append_cons _ (by decide) (by decide), htail]
  have hnull : '\x00' ∈ templateHead ++ '"' :: (path ++ '"' :: templateTail) ↔ '\x00' ∈ path := by
    have hhead : '\x00' ∉ templateHead := not_mem_templateHead (by decide)
    have htail : '\x00' ∉ templateTail := not_mem_templateTail (by decide)
    simp [hhead, htail]
  unfold templateArgument
  rw [configureSitecustomize_eq, htext]
  by_cases hpath : '\x00' ∈ path
  · rw [if_neg fun h => h.1 (hnull.mpr hpath), if_pos hpath]
  · rw [if_pos ⟨mt hnull.mp hpath, List.prefix_append _ _⟩, if_neg hpath, List.drop_left]
    rfl

theorem templateModule_eq_some (source path : List Char) :
    templateModule unicodeName source = some (.template path) ↔
      templateArgument unicodeName source = some (path.map Char.toNat) := by
  constructor
  · intro h
    rcases Option.bind_eq_some_iff.mp h with ⟨values, hvalues, hrest⟩
    rcases Option.bind_eq_some_iff.mp hrest with ⟨found, hfound, heq⟩
    cases heq
    rw [hvalues, (mapM_charOfCode values path).mp hfound]
  · intro h
    unfold templateModule
    rw [h, Option.bind_eq_bind, Option.bind_some, (mapM_charOfCode _ path).mpr rfl]
    rfl

/-- A plain path arrives. -/
theorem PlainPath.templateModule_eq {path : PyStr} (h : PlainPath path)
    (definition : CMakeStr → CMakeStr) :
    templateModule unicodeName (configureSitecustomize definition path) =
      some (.template path) := by
  have hclean : '\r' ∉ path ∧ '\x00' ∉ path :=
    ⟨fun hr => h.chars _ hr (by decide), fun hnull => h.chars _ hnull (by decide)⟩
  have hliteral : readLiteral ('"' :: (path ++ '"' :: templateTail)) =
      some (path, templateTail) := by
    have hsingle : ('"' :: (path ++ '"' :: templateTail)).take 3 ≠ ['"', '"', '"'] := by
      cases path with
      | nil => decide +kernel
      | cons c path =>
          intro htriple
          have hquote : c = '"' := by simpa using (List.cons.inj (List.cons.inj htriple).2).1
          exact h.chars c List.mem_cons_self (by simp [hquote])
    rw [readLiteral, if_neg hsingle, if_pos List.head?_cons]
    exact h.literalEnd_eq templateTail
  have hcall : templateTail.head? = some ')' := by decide +kernel
  rw [templateModule_eq_some, templateArgument_eq, if_neg hclean.2,
    universalNewlines_eq_self hclean.1, hliteral, Option.bind_some, if_pos hcall,
    h.decodeEscapes_eq]

/-- The path that the file was made for arrives if and only if it is plain. -/
theorem templateModule_iff (unicodeName : List Char → Option Nat)
    (definition : CMakeStr → CMakeStr) (path : PyStr) :
    templateModule unicodeName (configureSitecustomize definition path) = some (.template path) ↔
      PlainPath path := by
  constructor
  · intro h
    rw [templateModule_eq_some, templateArgument_eq] at h
    rcases Option.ite_none_left_eq_some.mp h with ⟨hnull, hbind⟩
    rcases Option.bind_eq_some_iff.mp hbind with ⟨literal, hliteral, hvalue⟩
    rcases Option.ite_none_right_eq_some.mp hvalue with ⟨_, hdecode⟩
    have hvalue := decodeEscapes_length _ _ _ hdecode
    have hnewlines := length_universalNewlines_le path
    rw [List.length_map, List.drop_zero] at hvalue
    rcases readLiteral_split (not_mem_templateTail (by decide)) hliteral with
      hshort | ⟨hcontent, hend⟩
    · omega
    · -- The literal has no room for anything but the path.
      have hclean : '\r' ∉ literal.1 ∧ '\x00' ∉ literal.1 := by
        rw [hcontent]
        exact ⟨not_mem_universalNewlines path,
          fun hmem => hnull (mem_of_mem_universalNewlines (by decide) path hmem)⟩
      have hlength : literal.1.length ≤ (path.map Char.toNat).length := by
        rw [hcontent, List.length_map]
        exact hnewlines
      rcases literalEnd_plain _ _ _ _ hend hclean hdecode hlength with ⟨hplain, hmap⟩
      have hinjective : Function.Injective Char.toNat := fun c d => Char.toNat_inj.mp
      rwa [List.map_injective_iff.mpr hinjective hmap]
  · intro h
    exact h.templateModule_eq definition

end Arrival

end AuditLibstdcxx
