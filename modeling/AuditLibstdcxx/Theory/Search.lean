import AuditLibstdcxx.Theory.DtPath
import AuditLibstdcxx.Lib.Ledger

/-!
# The Calls of a Search

Which calls a search along a run path makes. The function is generic in the
state its calls act on, so it can be run on calls that keep a record of
themselves; the record says which paths the callback was asked about and what
it answered, and which buffers were mapped and given back.

The buffer is the running maximum of the paths built so far, which is what the
bounds of the string functions are computed from. `Sized` is that fact, and the
only thing one pass of the loop has to know about the passes before it.

## Main definitions

* `SearchStrings`: The strings a search is given.
* `SearchCall`, `recorded`: Calls that keep a record.
* `tried`, `bufferEntries`: What the record says.
* `LogsBuffers`: A state that keeps a ledger of the buffers.
* `CallsInOrder`: A list of paths tried up to the first that is accepted.
* `PassSafe`: What one pass of the loop does with its buffer.
* `PassesSafe`: What all of them do.

## Theorems

* `tryPaths_settles`: A search gives back what it does not hand over.
* `tryPaths_inOrder`: A search tries its paths in order.
* `findLibstdcxx_calls`: The function calls the callback on those paths.
* `findLibstdcxx_safe`: The arithmetic and the buffers of the function.
-/

namespace AuditLibstdcxx

open Checked CString Ledger

/-- The strings a search is given: two C strings that lie in one address
    space, with room for a path made of them. -/
structure SearchStrings (w : Nat) where
  dtPath : List UInt8
  origin : List UInt8
  dtPath_noZero : 0 ∉ dtPath
  origin_noZero : 0 ∉ origin
  fit : origin.length + dtPath.length + lenLibstdcxxRelPath + 1 < 2 ^ w

/-- The paths the sections of `dt_path` stand for. -/
def SearchStrings.paths {w : Nat} (x : SearchStrings w) : List Path :=
  (sections x.dtPath).map (expand x.origin)

/-! ### Keeping a Ledger of Buffers -/

section Ledgers

variable {σ : Type} {ops : PathOps σ}

/-- The state keeps a ledger of the buffers mapped and given back. -/
structure LogsBuffers (ops : PathOps σ) (entries : σ → List (Entry Area)) : Prop where
  mmap_some : ∀ len s a, (ops.mmap len s).1 = some a →
    entries (ops.mmap len s).2 = entries s ++ [.acquire ⟨a, len⟩]
  mmap_none : ∀ len s, (ops.mmap len s).1 = none → entries (ops.mmap len s).2 = entries s
  munmap : ∀ a len s, entries (ops.munmap a len s) = entries s ++ [.release ⟨a, len⟩]
  trypath : ∀ path s, entries (ops.trypath path s).2 = entries s

/-- What is held is the buffer of the search, if it has one, and what was held
    before it. At no time was there a second buffer. -/
structure OneBuffer (entries : σ → List (Entry Area)) (held : List Area) (area : Option Area)
    (s : σ) : Prop where
  settled : settle [] (entries s) = some (area.toList ++ held)
  atMost : AtMost (held.length + 1) [] (entries s)

variable {entries : σ → List (Entry Area)} (hlogs : LogsBuffers ops entries) {held : List Area}
  {area : Option Area} {s : σ}

include hlogs

/-- Giving the buffer back. -/
theorem OneBuffer.release (h : OneBuffer entries held area s) :
    OneBuffer entries held none (releaseArea ops area s) := by
  cases area with
  | none => exact h
  | some a =>
      -- The buffer was acquired last, so it can be released.
      have hsettled : settle [] (entries s ++ [.release a]) = some held := by
        rw [settle_append_of_some h.settled]
        exact settle_release_head held a []
      have hentries : entries (releaseArea ops (some a) s) = entries s ++ [.release a] :=
        hlogs.munmap a.addr a.len s
      refine ⟨?_, ?_⟩
      · rw [hentries, hsettled]
        rfl
      · rw [hentries]
        exact h.atMost.concat hsettled (Nat.le_succ _)

/-- Asking for a buffer, when there is none. -/
theorem OneBuffer.mmap (h : OneBuffer entries held none s) (len : Nat) :
    OneBuffer entries held ((ops.mmap len s).1.map fun a => ⟨a, len⟩) (ops.mmap len s).2 := by
  cases hmmap : (ops.mmap len s).1 with
  | none =>
      have hentries := hlogs.mmap_none len s hmmap
      exact ⟨by rw [hentries]; exact h.settled, by rw [hentries]; exact h.atMost⟩
  | some a =>
      -- A buffer that is granted comes on top of what is held.
      have hsettled : settle [] (entries s ++ [.acquire ⟨a, len⟩]) = some (⟨a, len⟩ :: held) := by
        rw [settle_append_of_some h.settled]
        rfl
      have hentries := hlogs.mmap_some len s a hmmap
      refine ⟨?_, ?_⟩
      · rw [hentries, hsettled]
        rfl
      · rw [hentries]
        exact h.atMost.concat hsettled (Nat.le_of_eq rfl)

/-- Getting a buffer that is large enough. -/
theorem OneBuffer.reserve (h : OneBuffer entries held area s) (needed : Nat) :
    OneBuffer entries held (reserveArea ops needed area s).1 (reserveArea ops needed area s).2 := by
  unfold reserveArea
  by_cases hneeded : needed > area.elim 0 Area.len
  · -- The old buffer goes before the new one comes.
    rw [if_pos hneeded]
    exact (h.release hlogs).mmap hlogs needed
  · rw [if_neg hneeded]
    exact h

/-- Trying a path. -/
theorem OneBuffer.trypath (h : OneBuffer entries held area s) (path : Path) :
    OneBuffer entries held area (ops.trypath path s).2 :=
  ⟨by rw [hlogs.trypath]; exact h.settled, by rw [hlogs.trypath]; exact h.atMost⟩

/-- A search gives back what it does not hand over. -/
theorem tryPaths_settles (paths : List Path) (h : OneBuffer entries held area s) :
    OneBuffer entries held ((tryPaths ops paths area s).found.map Prod.fst)
      (tryPaths ops paths area s).world := by
  induction paths generalizing area s with
  | nil => exact h.release hlogs
  | cons path paths ih =>
      unfold tryPaths
      have hreserved := h.reserve hlogs (path.length + 1)
      rcases hreserve : reserveArea ops (path.length + 1) area s with ⟨area', s'⟩
      rw [hreserve] at hreserved
      cases area' with
      -- Without a buffer the search gives up, with nothing to give back.
      | none => exact hreserved
      | some a =>
          have htried := hreserved.trypath hlogs path
          simp only
          by_cases htry : (ops.trypath path s').1 = .success
          · -- The buffer of an accepted path is handed over.
            rw [if_pos htry]
            exact htried
          · rw [if_neg htry]
            exact ih htried

end Ledgers

/-! ### Keeping a Record -/

/-- A call of a search, with the answer it got. -/
inductive SearchCall where
  | mmap (len : Nat) (addr : Option Nat)
  | munmap (addr len : Nat)
  | trypath (path : Path) (answer : ErrorCode)
  deriving DecidableEq, Repr

section Recording

variable {σ : Type}

/-- Calls that keep a record of themselves. -/
def recorded (ops : PathOps σ) : PathOps (σ × List SearchCall) where
  mmap len s :=
    ((ops.mmap len s.1).1, (ops.mmap len s.1).2, s.2 ++ [.mmap len (ops.mmap len s.1).1])
  munmap addr len s := (ops.munmap addr len s.1, s.2 ++ [.munmap addr len])
  trypath path s := ((ops.trypath path s.1).1, (ops.trypath path s.1).2,
    s.2 ++ [.trypath path (ops.trypath path s.1).1])

/-- The paths the callback was asked about, with its answers. -/
def tried (calls : List SearchCall) : List (Path × ErrorCode) :=
  calls.filterMap fun c => match c with
    | .trypath path answer => some (path, answer)
    | _ => none

/-- The buffers mapped and given back. -/
def bufferEntries (calls : List SearchCall) : List (Entry Area) :=
  calls.filterMap fun c => match c with
    | .mmap len (some addr) => some (.acquire ⟨addr, len⟩)
    | .munmap addr len => some (.release ⟨addr, len⟩)
    | _ => none

theorem tried_append (calls more : List SearchCall) :
    tried (calls ++ more) = tried calls ++ tried more :=
  List.filterMap_append

theorem bufferEntries_append (calls more : List SearchCall) :
    bufferEntries (calls ++ more) = bufferEntries calls ++ bufferEntries more :=
  List.filterMap_append

/-- The record is a ledger. -/
theorem recorded_logs (ops : PathOps σ) :
    LogsBuffers (recorded ops) fun s => bufferEntries s.2 where
  mmap_some len s a h := by
    have h' : (ops.mmap len s.1).1 = some a := h
    simp only [recorded, bufferEntries_append, h']
    rfl
  mmap_none len s h := by
    have h' : (ops.mmap len s.1).1 = none := h
    simp only [recorded, bufferEntries_append, h']
    exact List.append_nil _
  munmap addr len s := by
    simp only [recorded, bufferEntries_append]
    rfl
  trypath path s := by
    simp only [recorded, bufferEntries_append]
    exact List.append_nil _

/-- Giving a buffer back asks the callback nothing. -/
theorem releaseArea_tried (ops : PathOps σ) (area : Option Area) (s : σ × List SearchCall) :
    tried (releaseArea (recorded ops) area s).2 = tried s.2 := by
  cases area with
  | none => rfl
  | some a =>
      change tried (s.2 ++ [_]) = _
      rw [tried_append]
      exact List.append_nil _

/-- Nor does asking for one. -/
theorem reserveArea_tried (ops : PathOps σ) (needed : Nat) (area : Option Area)
    (s : σ × List SearchCall) :
    tried (reserveArea (recorded ops) needed area s).2.2 = tried s.2 := by
  unfold reserveArea
  by_cases hneeded : needed > area.elim 0 Area.len
  · rw [if_pos hneeded, ← releaseArea_tried ops area s]
    change tried ((releaseArea (recorded ops) area s).2 ++ [_]) = _
    rw [tried_append]
    exact List.append_nil _
  · rw [if_neg hneeded]

/-! ### The Paths Tried -/

/-- Every mapping asked for is granted. -/
def MmapSucceeds (ops : PathOps σ) : Prop :=
  ∀ len s, (ops.mmap len s).1 ≠ none

/-- The paths are tried in order, each once, up to the first that is accepted. -/
def CallsInOrder (paths : List Path) (calls : List (Path × ErrorCode)) (found : Option Path) :
    Prop :=
  (found = none ∧ calls.map Prod.fst = paths ∧ ∀ c ∈ calls, c.2 ≠ .success) ∨
    ∃ before path, found = some path ∧ calls = before ++ [(path, .success)] ∧
      before.map Prod.fst ++ [path] <+: paths ∧ ∀ c ∈ before, c.2 ≠ .success

theorem CallsInOrder.nil : CallsInOrder [] [] none :=
  Or.inl ⟨rfl, rfl, by simp⟩

/-- The first path is accepted. -/
theorem CallsInOrder.accepted (path : Path) (paths : List Path) :
    CallsInOrder (path :: paths) [(path, .success)] (some path) :=
  Or.inr ⟨[], path, rfl, rfl, ⟨paths, rfl⟩, by simp⟩

/-- The first path is rejected, and the others are tried. -/
theorem CallsInOrder.rejected {path : Path} {paths : List Path} {answer : ErrorCode}
    {calls : List (Path × ErrorCode)} {found : Option Path} (hanswer : answer ≠ .success)
    (h : CallsInOrder paths calls found) :
    CallsInOrder (path :: paths) ((path, answer) :: calls) found := by
  rcases h with ⟨hfound, hcalls, hrejected⟩ | ⟨before, last, hfound, hcalls, hstarts, hrejected⟩
  · refine Or.inl ⟨hfound, by rw [List.map_cons, hcalls], ?_⟩
    intro c hc
    rcases List.mem_cons.mp hc with rfl | hc
    · exact hanswer
    · exact hrejected c hc
  · -- A path accepted later is now one place further on.
    refine Or.inr ⟨(path, answer) :: before, last, hfound, by rw [hcalls, List.cons_append], ?_, ?_⟩
    · rw [List.map_cons, List.cons_append, List.cons_prefix_cons]
      exact ⟨rfl, hstarts⟩
    · intro c hc
      rcases List.mem_cons.mp hc with rfl | hc
      · exact hanswer
      · exact hrejected c hc

/-- A search that succeeds has found something, and one that fails has not. -/
theorem tryPaths_error (ops : PathOps σ) (paths : List Path) (area : Option Area) (s : σ) :
    ((tryPaths ops paths area s).error = .success ∧ (tryPaths ops paths area s).found ≠ none) ∨
      ((tryPaths ops paths area s).error = .fatalError ∧
        (tryPaths ops paths area s).found = none) := by
  induction paths generalizing area s with
  | nil => exact Or.inr ⟨rfl, rfl⟩
  | cons path paths ih =>
      unfold tryPaths
      rcases reserveArea ops (path.length + 1) area s with ⟨area', s'⟩
      cases area' with
      | none => exact Or.inr ⟨rfl, rfl⟩
      | some a =>
          simp only
          by_cases htry : (ops.trypath path s').1 = .success
          · rw [if_pos htry]
            exact Or.inl ⟨rfl, Option.some_ne_none _⟩
          · rw [if_neg htry]
            exact ih (some a) _

/-- A search tries its paths in order. -/
theorem tryPaths_inOrder {ops : PathOps σ} (hmmap : MmapSucceeds ops) (paths : List Path)
    (area : Option Area) (s : σ × List SearchCall) :
    ∃ calls, tried (tryPaths (recorded ops) paths area s).world.2 = tried s.2 ++ calls ∧
      CallsInOrder paths calls ((tryPaths (recorded ops) paths area s).found.map Prod.snd) := by
  induction paths generalizing area s with
  | nil =>
      refine ⟨[], ?_, CallsInOrder.nil⟩
      rw [List.append_nil]
      exact releaseArea_tried ops area s
  | cons path paths ih =>
      have hne : (reserveArea (recorded ops) (path.length + 1) area s).1 ≠ none :=
        reserveArea_ne_none (hmmap _ _)
      have hreserved := reserveArea_tried ops (path.length + 1) area s
      unfold tryPaths
      rcases hreserve : reserveArea (recorded ops) (path.length + 1) area s with ⟨area', s'⟩
      rw [hreserve] at hne hreserved
      cases area' with
      | none => exact absurd rfl hne
      | some a =>
          have htried : tried ((recorded ops).trypath path s').2.2 =
              tried s.2 ++ [(path, (ops.trypath path s'.1).1)] := by
            rw [← hreserved]
            exact tried_append _ _
          simp only
          by_cases htry : ((recorded ops).trypath path s').1 = .success
          · have hanswer : (ops.trypath path s'.1).1 = .success := htry
            rw [if_pos htry]
            -- Accepted: nothing is asked after it.
            rw [hanswer] at htried
            exact ⟨_, htried, CallsInOrder.accepted path paths⟩
          · rw [if_neg htry]
            -- Rejected: what the rest asks comes behind.
            rcases ih (some a) ((recorded ops).trypath path s').2 with ⟨calls, hcalls, horder⟩
            refine ⟨(path, (ops.trypath path s'.1).1) :: calls, ?_, horder.rejected htry⟩
            rw [hcalls, htried, List.append_assoc, List.singleton_append]

/-- The function succeeds exactly when it hands a buffer back. -/
theorem result_error {ops : PathOps σ} {paths : List Path} {area : Option Area} {s : σ}
    {r : DtPathResult σ} (hview : r.view = tryPaths ops paths area s) :
    (r.error = .success ∧ r.buffer ≠ none) ∨ (r.error = .fatalError ∧ r.buffer = none) := by
  have hresult := tryPaths_error ops paths area s
  rw [← hview] at hresult
  simpa only [DtPathResult.view, ne_eq, Option.map_eq_none_iff] using hresult

/-- The function asks the callback about the paths of its sections, in order and
    each once, up to the first that is accepted; and that is the one it hands
    back. -/
theorem findLibstdcxx_calls {w : Nat} (x : SearchStrings w) (ops : PathOps σ) (world : σ)
    (hmmap : MmapSucceeds ops) :
    ∃ r, findLibstdcxxFromDtPath w (recorded ops) x.dtPath x.origin (world, []) = .ok r ∧
      CallsInOrder x.paths (tried r.world.2) (r.buffer.map PathBuffer.path) ∧
        ((r.error = .success ∧ r.buffer ≠ none) ∨ (r.error = .fatalError ∧ r.buffer = none)) := by
  rcases findLibstdcxxFromDtPath_eq x.dtPath_noZero x.origin_noZero x.fit (recorded ops)
    (world, []) with ⟨r, hr, hview⟩
  have hfound := congrArg Search.found hview
  have hworld := congrArg Search.world hview
  refine ⟨r, hr, ?_, ?_⟩
  · rcases tryPaths_inOrder hmmap x.paths none (world, []) with ⟨calls, hcalls, horder⟩
    -- The path in the buffer is the one the search found.
    have hbuffer : r.buffer.map PathBuffer.path =
        (tryPaths (recorded ops) x.paths none (world, [])).found.map Prod.snd := by
      unfold SearchStrings.paths
      rw [← hfound, DtPathResult.view, Option.map_map]
      rfl
    have hlog : tried r.world.2 = calls := by
      rw [show r.world = _ from hworld]
      exact hcalls
    rw [hbuffer, hlog]
    exact horder
  · exact result_error hview

/-- `$ORIGIN/../lib::/usr/lib` -/
def sampleSearch : SearchStrings 64 where
  dtPath := "$ORIGIN/../lib::/usr/lib".toList.map Char.toUInt8
  origin := "/opt/app".toList.map Char.toUInt8
  dtPath_noZero := by decide
  origin_noZero := by decide
  fit := by decide

/-- Calls that find the library in `/usr/lib`. -/
def sampleOps : PathOps Unit where
  mmap _ _ := (some 4096, ())
  munmap _ _ _ := ()
  trypath path _ :=
    (if "/usr/lib".toList.map Char.toUInt8 <+: path then .success else .fatalError, ())

/-- The second path is the first that is accepted. -/
theorem sampleSearch_calls :
    ∃ r, findLibstdcxxFromDtPath 64 (recorded sampleOps) sampleSearch.dtPath sampleSearch.origin
        ((), []) = .ok r ∧
      CallsInOrder sampleSearch.paths (tried r.world.2) (r.buffer.map PathBuffer.path) ∧
        ((r.error = .success ∧ r.buffer ≠ none) ∨ (r.error = .fatalError ∧ r.buffer = none)) :=
  findLibstdcxx_calls sampleSearch sampleOps () fun _ _ => Option.some_ne_none _

example : sampleSearch.paths =
    ["/opt/app/../lib/libstdc++.so.6".toList.map Char.toUInt8,
      "/usr/lib/libstdc++.so.6".toList.map Char.toUInt8] := by decide +kernel

/-! ### The Buffer of a Pass -/

/-- The length of the longest of some paths, with its terminator. -/
def longest (paths : List Path) : Nat :=
  paths.foldr (fun path n => max (path.length + 1) n) 0

theorem longest_concat (paths : List Path) (path : Path) :
    longest (paths ++ [path]) = max (path.length + 1) (longest paths) := by
  unfold longest
  induction paths with
  | nil => rfl
  | cons first paths ih =>
      rw [List.cons_append, List.foldr_cons, ih, List.foldr_cons]
      omega

/-- The paths built so far. Every path is tried once it is built. -/
def triedPaths (calls : List SearchCall) : List Path :=
  (tried calls).map Prod.fst

/-- Trying a path, after calls that tried none. -/
theorem triedPaths_trypath (ops : PathOps σ) (path : Path) {s s' : σ × List SearchCall}
    (h : tried s'.2 = tried s.2) :
    triedPaths ((recorded ops).trypath path s').2.2 = triedPaths s.2 ++ [path] := by
  change (tried (s'.2 ++ [_])).map Prod.fst = _
  rw [tried_append, h, List.map_append]
  rfl

/-- What one pass does with its buffer, for a section of `len` characters with
    `rest` in front of the cursor: no difference with the length of the buffer
    wraps, and the path of the section is built as it should, in a buffer that is just as long as
    the longest path so far. -/
structure PassSafe (w : Nat) (origin rest : List UInt8) (len : Nat) (atOrigin : Bool)
    (b : PathBuffer) (before : List Path) : Prop where
  /-- `len_path_buffer - 1` -/
  last : 1 ≤ b.len
  /-- `len_path_buffer - 1 - len_ORIGIN` -/
  behindOrigin : atOrigin = true → origin.length ≤ b.len - 1
  /-- `len_path_buffer - 1 - len_ORIGIN - len_section` -/
  behindBoth : atOrigin = true → len - 7 ≤ b.len - 1 - origin.length
  /-- `len_path_buffer - 1 - len_section` -/
  behindSection : atOrigin = false → len ≤ b.len - 1
  fits : (expand origin (rest.take len)).length + 1 ≤ b.len
  built : ∃ bytes, buildPath w atOrigin b.bytes origin rest len = .ok bytes ∧
    bytes.length = b.len ∧ Holds bytes (expand origin (rest.take len))
  longest : b.len = longest (before ++ [expand origin (rest.take len)])

/-- The buffer is as long as the longest path built so far. -/
def Sized (s : DtPathState (σ × List SearchCall)) : Prop :=
  lenPathBuffer s.buffer = longest (triedPaths s.world.2)

section Passes

variable {w : Nat} (x : SearchStrings w) (ops : PathOps σ)
  {s : DtPathState (σ × List SearchCall)} {sec rest : List UInt8}

theorem reserve_tried (needed : Nat) (buffer : Option PathBuffer)
    (world : σ × List SearchCall) :
    tried (reserve (recorded ops) needed buffer world).2.2 = tried world.2 := by
  rw [← reserveArea_tried ops needed (buffer.map PathBuffer.area) world, reserve_area]

/-- The next pass finds its buffer as it should be. -/
theorem Sized.step {u : DtPathState (σ × List SearchCall)} (h : Sized s)
    (hbuf : lenPathBuffer s.buffer < 2 ^ w)
    (hstep : dtPathStep w (recorded ops) x.dtPath x.origin s = .ok (.inl u)) :
    Sized u ∧ lenPathBuffer u.buffer < 2 ^ w := by
  rcases Nat.lt_or_ge s.cursor x.dtPath.length with hcursor | hend
  · have htail : 0 ∉ x.dtPath.drop s.cursor := fun hc => x.dtPath_noZero (List.mem_of_mem_drop hc)
    rcases lenSection_spec _ htail with ⟨sec, rest, htext, hlen, _, hrest⟩
    by_cases hne : sec = []
    · -- An empty section builds nothing and asks for nothing.
      rw [hne, List.length_nil] at hlen
      rw [dtPathStep_colon hcursor hlen] at hstep
      rw [← Sum.inl.inj (Except.ok.inj hstep)]
      exact ⟨h, hbuf⟩
    · rcases dtPathStep_section x.dtPath_noZero x.origin_noZero x.fit hcursor htext hne hlen hrest
        hbuf with ⟨world, _, hstep'⟩ | ⟨b, world, b', hreserve, harea, _, hb', hstep'⟩
      · rw [hstep', Except.ok.injEq] at hstep
        cases hstep
      · rw [hstep', Except.ok.injEq] at hstep
        by_cases htry : ((recorded ops).trypath (expand x.origin sec) world).1 = .success
        · rw [if_pos htry] at hstep
          cases hstep
        · rw [if_neg htry, Sum.inl.injEq] at hstep
          rw [← hstep]
          refine ⟨?_, hb'⟩
          -- The section was rejected: its path is one more of those tried.
          have hblen : b'.len = b.len := congrArg Area.len harea
          have hreserved := reserve_len (by rw [hreserve])
          have htried := reserve_tried ops ((expand x.origin sec).length + 1) s.buffer s.world
          rw [hreserve] at htried
          have hpaths := triedPaths_trypath ops (expand x.origin sec) htried
          unfold Sized at h ⊢
          simp only [lenPathBuffer]
          rw [hpaths, longest_concat, ← h, hblen, hreserved]
  · rw [dtPathStep_end hend] at hstep
    cases hstep

/-- A section that begins with `$ORIGIN` is as long as that, so `len_section - 7`
    does not wrap. It is taken before the buffer is asked for. -/
theorem token_le_lenSection {cursor : Nat}
    (hat : strncmpEq (x.dtPath.drop cursor ++ [0]) originToken = .ok true) :
    7 ≤ lenSection (x.dtPath.drop cursor) := by
  have htail : 0 ∉ x.dtPath.drop cursor := fun hc => x.dtPath_noZero (List.mem_of_mem_drop hc)
  rcases lenSection_spec _ htail with ⟨sec, rest, htext, hlen, _, hrest⟩
  rw [htext, strncmpEq_origin hrest, Except.ok.injEq] at hat
  rw [hlen]
  exact (of_decide_eq_true hat).length_le

/-- What a pass does that gets a buffer. -/
theorem Sized.passSafe {atOrigin : Bool} {b : PathBuffer} {world : σ × List SearchCall}
    (h : Sized s) (hbuf : lenPathBuffer s.buffer < 2 ^ w) (hcursor : s.cursor < x.dtPath.length)
    (hat : strncmpEq (x.dtPath.drop s.cursor ++ [0]) originToken = .ok atOrigin)
    (hreserve : reserve (recorded ops) (neededLen w atOrigin x.origin.length
      (lenSection (x.dtPath.drop s.cursor))) s.buffer s.world = (some b, world)) :
    PassSafe w x.origin (x.dtPath.drop s.cursor) (lenSection (x.dtPath.drop s.cursor)) atOrigin b
      (triedPaths s.world.2) := by
  have htail : 0 ∉ x.dtPath.drop s.cursor := fun hc => x.dtPath_noZero (List.mem_of_mem_drop hc)
  have hfit := x.fit
  rcases lenSection_spec _ htail with ⟨sec, rest, htext, hlen, _, hrest⟩
  have hdrop : x.dtPath.length - s.cursor = sec.length + rest.length := by
    rw [← List.length_drop, htext, List.length_append]
  have hexpand := length_expand_le x.origin sec
  rw [hlen] at hreserve ⊢
  rw [htext] at hat htail ⊢
  rw [strncmpEq_origin hrest, Except.ok.injEq] at hat
  rw [← hat] at hreserve ⊢
  rw [neededLen_eq (by omega)] at hreserve
  have hblen := reserve_len (by rw [hreserve])
  -- The buffer has room for this path, since it was asked to have it.
  have hroom : (expand x.origin sec).length + 1 ≤ b.len := by omega
  have hlength := length_expand x.origin sec
  have hbytes : b.bytes.length < 2 ^ w := by
    change b.len < 2 ^ w
    omega
  have htake : (sec ++ rest).take sec.length = sec := List.take_left
  -- Each difference is of a length and a part of it.
  refine ⟨by omega, ?_, ?_, ?_, by rwa [htake], ?_, ?_⟩
  · intro htoken
    rw [if_pos (of_decide_eq_true htoken)] at hlength
    omega
  · intro htoken
    rw [if_pos (of_decide_eq_true htoken)] at hlength
    omega
  · intro htoken
    rw [if_neg (of_decide_eq_false htoken)] at hlength
    omega
  · rcases buildPath_spec (w := w) x.origin_noZero htail (by omega) hbytes hroom with
      ⟨bytes, hbuilt, hholds, hbyteslen⟩
    rw [htake]
    exact ⟨bytes, hbuilt, hbyteslen, hholds⟩
  · rw [htake, longest_concat, ← h, hblen]

/-- The passes of the loop: their buffers are as long as the longest path, a
    section is not shorter than the `$ORIGIN` it begins with, and where a pass
    gets a buffer it uses it as it should. -/
def PassesSafe : Prop :=
  ∀ (world : σ) (s : DtPathState (σ × List SearchCall)),
    Reached (dtPathStep w (recorded ops) x.dtPath x.origin) ⟨0, none, (world, [])⟩ s →
      Sized s ∧ ∀ atOrigin, s.cursor < x.dtPath.length →
        strncmpEq (x.dtPath.drop s.cursor ++ [0]) originToken = .ok atOrigin →
        (atOrigin = true → 7 ≤ lenSection (x.dtPath.drop s.cursor)) ∧
        ∀ b world', reserve (recorded ops) (neededLen w atOrigin x.origin.length
            (lenSection (x.dtPath.drop s.cursor))) s.buffer s.world = (some b, world') →
          PassSafe w x.origin (x.dtPath.drop s.cursor) (lenSection (x.dtPath.drop s.cursor))
            atOrigin b (triedPaths s.world.2)

theorem passesSafe : PassesSafe x ops := by
  intro world s hreached
  have hstart : Sized (⟨0, none, (world, [])⟩ : DtPathState (σ × List SearchCall)) := rfl
  -- Before the first pass there is no buffer, and no path.
  have hinv := hreached.invariant (fun s => Sized s ∧ lenPathBuffer s.buffer < 2 ^ w)
    (fun t u ht hstep => ht.1.step x ops ht.2 hstep) ⟨hstart, Nat.two_pow_pos w⟩
  refine ⟨hinv.1, fun atOrigin hcursor hat => ⟨?_, fun b world' hreserve =>
    hinv.1.passSafe x ops hinv.2 hcursor hat hreserve⟩⟩
  rintro rfl
  exact token_le_lenSection x hat

end Passes

/-! ### The Buffer Handed Over -/

/-- The area a search hands over is as long as the longest path tried. -/
theorem tryPaths_longest (ops : PathOps σ) (paths : List Path) (area : Option Area)
    (s : σ × List SearchCall) (hlen : area.elim 0 Area.len = longest (triedPaths s.2)) (a : Area)
    (path : Path) (hfound : (tryPaths (recorded ops) paths area s).found = some (a, path)) :
    a.len = longest (triedPaths (tryPaths (recorded ops) paths area s).world.2) := by
  induction paths generalizing area s with
  | nil => cases hfound
  | cons first paths ih =>
      have hreserved := reserveArea_tried ops (first.length + 1) area s
      have harea : ∀ a', (reserveArea (recorded ops) (first.length + 1) area s).1 = some a' →
          a'.len = max (first.length + 1) (area.elim 0 Area.len) := fun _ => reserveArea_len
      unfold tryPaths at hfound ⊢
      rcases hreserve : reserveArea (recorded ops) (first.length + 1) area s with ⟨area', s'⟩
      rw [hreserve] at hfound hreserved harea
      cases area' with
      | none => cases hfound
      | some a' =>
          have hpaths := triedPaths_trypath ops first hreserved
          -- The buffer grew to the length of this path, if it was shorter.
          have hlen' : a'.len = longest (triedPaths ((recorded ops).trypath first s').2.2) := by
            rw [hpaths, longest_concat, harea a' rfl, hlen]
          simp only at hfound ⊢
          by_cases htry : ((recorded ops).trypath first s').1 = .success
          · rw [if_pos htry] at hfound ⊢
            simp only [Option.some.injEq, Prod.mk.injEq] at hfound
            rw [← hfound.1]
            exact hlen'
          · rw [if_neg htry] at hfound ⊢
            exact ih (some a') _ hlen' hfound

/-- The arithmetic and the buffers of the function, however its calls go: every
    pass is safe, there is at most one buffer at a time, and at the end it is
    handed over or given back. -/
theorem findLibstdcxx_safe {w : Nat} (x : SearchStrings w) (ops : PathOps σ) (world : σ) :
    PassesSafe x ops ∧
      ∃ r, findLibstdcxxFromDtPath w (recorded ops) x.dtPath x.origin (world, []) = .ok r ∧
        AtMost 1 [] (bufferEntries r.world.2) ∧
        ((r.error = .success ∧ ∃ b, r.buffer = some b ∧ b.len = longest (triedPaths r.world.2) ∧
            settle [] (bufferEntries r.world.2) = some [b.area]) ∨
          (r.error = .fatalError ∧ r.buffer = none ∧
            settle [] (bufferEntries r.world.2) = some [])) := by
  refine ⟨passesSafe x ops, ?_⟩
  rcases findLibstdcxxFromDtPath_eq x.dtPath_noZero x.origin_noZero x.fit (recorded ops)
    (world, []) with ⟨r, hr, hview⟩
  -- The function is the search, and the search keeps its ledger.
  have hstart : OneBuffer (fun s : σ × List SearchCall => bufferEntries s.2) [] none
      (world, []) := ⟨rfl, atMost_nil (Nat.zero_le _)⟩
  have hend := tryPaths_settles (recorded_logs ops) x.paths hstart
  have hlongest := tryPaths_longest ops x.paths none (world, []) rfl
  unfold SearchStrings.paths at hend hlongest
  rw [← hview] at hend hlongest
  have hsettled := hend.settled
  simp only [DtPathResult.view, List.append_nil] at hsettled hlongest
  refine ⟨r, hr, hend.atMost, ?_⟩
  rcases result_error hview with ⟨herror, hbuffer⟩ | ⟨herror, hbuffer⟩
  · rcases Option.ne_none_iff_exists'.mp hbuffer with ⟨b, hb⟩
    rw [hb] at hsettled hlongest
    exact Or.inl ⟨herror, b, hb, hlongest b.area b.path rfl, hsettled⟩
  · rw [hbuffer] at hsettled
    exact Or.inr ⟨herror, hbuffer, hsettled⟩

end Recording

end AuditLibstdcxx
