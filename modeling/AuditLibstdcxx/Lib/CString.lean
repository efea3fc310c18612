import AuditLibstdcxx.Lib.Checked

/-!
# C Strings in Buffers

A C string kept in a buffer of fixed size: characters up to the first zero,
and after it whatever was there before. Writing past the end of the buffer,
and looking for a terminator that is not there, stop with `outOfRange`.

`Holds` is the invariant a program keeps of such a buffer. As long as it
holds, appending concatenates the strings and storing a zero behind the string
does nothing to it, so a sequence of calls that builds a string is followed by
concatenating lists.

## Main definitions

* `text`: The characters up to the first zero.
* `storeNul`: Storing a terminator.
* `strncat`: Appending to the string in a buffer.
* `Holds`: The buffer holds a string.
* `dirname`: The directory part of a path.

## Theorems

* `Holds.text_eq`: The text of a buffer is the string it holds.
* `storeNul_first`: A terminator at the start leaves the empty string.
* `Holds.storeNul`: A terminator behind the string changes nothing.
* `Holds.strncat`: Appending concatenates, if the buffer has the room.
* `Holds.append`: So does appending with a terminator at the end of the buffer.
* `dirname_isPrefix`: A directory part is cut off in place.
-/

namespace CString

open Checked

/-- The characters up to the first zero. -/
def text (buf : List UInt8) : List UInt8 :=
  buf.takeWhile (· ≠ 0)

/-- `buf[i] = '\0'` -/
def storeNul (buf : List UInt8) (i : Nat) : Run (List UInt8) :=
  if i < buf.length then .ok (buf.set i 0) else .error .outOfRange

/-- `strncat(buf, src, n)`: append at most `n` characters and a terminator. -/
def strncat (buf src : List UInt8) (n : Nat) : Run (List UInt8) :=
  let len := (text buf).length
  let taken := (text src).take n
  if len + taken.length < buf.length then
    .ok (buf.take len ++ taken ++ 0 :: buf.drop (len + taken.length + 1))
  else .error .outOfRange

/-- A buffer holds a string: it starts with it and a terminator. -/
def Holds (buf s : List UInt8) : Prop :=
  0 ∉ s ∧ ∃ junk, buf = s ++ 0 :: junk

theorem ne_zero_of_noZero {s : List UInt8} (hs : 0 ∉ s) :
    ∀ c ∈ s, decide (c ≠ 0) = true :=
  fun _ hc => decide_eq_true fun h => hs (h ▸ hc)

theorem text_append {s : List UInt8} (hs : 0 ∉ s) (junk : List UInt8) :
    text (s ++ 0 :: junk) = s := by
  unfold text
  rw [List.takeWhile_append_of_pos (ne_zero_of_noZero hs), List.takeWhile_cons,
    if_neg (by decide), List.append_nil]

/-- A string without zeros is its own text. -/
theorem text_of_noZero {s : List UInt8} (hs : 0 ∉ s) : text s = s := by
  have h : (s ++ []).takeWhile (· ≠ 0) = s ++ [].takeWhile (· ≠ 0) :=
    List.takeWhile_append_of_pos (ne_zero_of_noZero hs)
  rwa [List.append_nil, List.takeWhile_nil, List.append_nil] at h

theorem Holds.text_eq {buf s : List UInt8} (h : Holds buf s) : text buf = s := by
  rcases h with ⟨hs, junk, rfl⟩
  exact text_append hs junk

/-- A terminator at the start of a buffer leaves the empty string. -/
theorem storeNul_first {buf : List UInt8} (h : 0 < buf.length) :
    ∃ buf', storeNul buf 0 = .ok buf' ∧ Holds buf' [] ∧ buf'.length = buf.length := by
  refine ⟨buf.set 0 0, if_pos h, ⟨List.not_mem_nil, ?_⟩, List.length_set⟩
  cases buf with
  | nil => exact absurd h (Nat.lt_irrefl 0)
  | cons c cs => exact ⟨cs, rfl⟩

/-- A terminator behind the string changes nothing about it. -/
theorem Holds.storeNul {buf s : List UInt8} (h : Holds buf s) {i : Nat} (hi : i < buf.length)
    (hbehind : s.length ≤ i) :
    ∃ buf', storeNul buf i = .ok buf' ∧ Holds buf' s ∧ buf'.length = buf.length := by
  refine ⟨buf.set i 0, if_pos hi, ⟨h.1, ?_⟩, List.length_set⟩
  rcases h with ⟨_, junk, rfl⟩
  rw [List.set_append_right _ _ hbehind]
  -- The zero lands on the terminator, or in the junk behind it.
  cases hk : i - s.length with
  | zero => exact ⟨junk, rfl⟩
  | succ k => exact ⟨junk.set k 0, rfl⟩

/-- Appending concatenates, if the buffer has the room. -/
theorem Holds.strncat {buf s : List UInt8} (h : Holds buf s) {src : List UInt8} (hsrc : 0 ∉ src)
    (n : Nat) (hfit : s.length + (src.take n).length < buf.length) :
    ∃ buf', strncat buf src n = .ok buf' ∧ Holds buf' (s ++ src.take n) ∧
      buf'.length = buf.length := by
  have htext := h.text_eq
  unfold CString.strncat
  simp only [htext, text_of_noZero hsrc]
  -- The room is there, so what is left is to read the new buffer as a string.
  rw [if_pos hfit]
  rcases h with ⟨hs, junk, rfl⟩
  refine ⟨_, rfl, ⟨?_, _, by rw [List.take_left]⟩, ?_⟩
  · intro hmem
    rcases List.mem_append.mp hmem with hc | hc
    · exact hs hc
    · exact hsrc (List.mem_of_mem_take hc)
  · rw [List.take_left]
    simp only [List.length_append, List.length_cons, List.length_drop] at hfit ⊢
    omega

/-- Appending concatenates, and the terminator that is stored at the end of the
    buffer to be safe changes nothing. -/
theorem Holds.append {buf s : List UInt8} (h : Holds buf s) {src : List UInt8} (hsrc : 0 ∉ src)
    (n : Nat) (hfit : s.length + (src.take n).length < buf.length) :
    ∃ buf', (CString.strncat buf src n >>= fun b => CString.storeNul b (buf.length - 1)) =
        .ok buf' ∧
      Holds buf' (s ++ src.take n) ∧ buf'.length = buf.length := by
  rcases h.strncat hsrc n hfit with ⟨b, hb, hholds, hlen⟩
  -- The string and its own terminator fit, so the last place is not part of it.
  have hbehind : (s ++ src.take n).length ≤ buf.length - 1 := by
    rw [List.length_append]
    omega
  rcases hholds.storeNul (i := buf.length - 1) (by omega) hbehind with ⟨b', hb', hholds', hlen'⟩
  exact ⟨b', by rw [hb, ok_bind, hb'], hholds', hlen'.trans hlen⟩

/-- The slash between the components of a path. -/
def slash : UInt8 :=
  '/'.toUInt8

/-- `dirname(path)`, which cuts `path` off in place, or `none` for the static
    `"."` of a path without a directory part. Slashes at the end do not count,
    and two slashes at the start are kept apart from one. -/
def dirname (path : List UInt8) : Option (List UInt8) :=
  let base := if path.all (· = slash) then path else path.rdropWhile (· = slash)
  let upTo := base.rdropWhile (· ≠ slash)
  let dir := upTo.rdropWhile (· = slash)
  if upTo = [] then none
  else if dir ≠ [] then some dir
  else if upTo.length = 2 then some upTo
  else some (upTo.take 1)

/-- A directory part is cut off in place. -/
theorem dirname_isPrefix {path dir : List UInt8} (h : dirname path = some dir) : dir <+: path := by
  have hbase : (if path.all (· = slash) then path else path.rdropWhile (· = slash)) <+: path := by
    by_cases hall : path.all (· = slash) = true
    · rw [if_pos hall]
    · rw [if_neg hall]
      exact List.rdropWhile_prefix _ path
  -- Every step of `dirname` drops characters from the end.
  unfold dirname at h
  simp only at h
  generalize (if path.all (· = slash) then path else path.rdropWhile (· = slash)) = base at h hbase
  have hupTo := (List.rdropWhile_prefix (· ≠ slash) base).trans hbase
  generalize base.rdropWhile (· ≠ slash) = upTo at h hupTo
  by_cases hnone : upTo = []
  · rw [if_pos hnone] at h
    cases h
  rw [if_neg hnone] at h
  by_cases hdir : upTo.rdropWhile (· = slash) ≠ []
  · rw [if_pos hdir] at h
    rw [← Option.some.inj h]
    exact (List.rdropWhile_prefix _ upTo).trans hupTo
  rw [if_neg hdir] at h
  by_cases htwo : upTo.length = 2
  · rw [if_pos htwo] at h
    rwa [← Option.some.inj h]
  · rw [if_neg htwo] at h
    rw [← Option.some.inj h]
    exact (List.take_prefix _ _).trans hupTo

example : dirname ("/usr/bin//app/".toList.map Char.toUInt8) =
    some ("/usr/bin".toList.map Char.toUInt8) := by
  decide

example : dirname ("app".toList.map Char.toUInt8) = none := by
  decide

end CString
