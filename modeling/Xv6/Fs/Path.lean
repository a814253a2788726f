import Xv6.Fs.Layout

/-! `skipelem` of `fs.c`, which `namex` calls to take a path apart one element
at a time. A pointer into a path is the list of the bytes it sees before the
NUL, and the name buffer is the list of its bytes. The elements of a path are
said with `List.splitOn`: the runs of bytes between the '/'s that are not
empty. Calling `skipelem` again on each pointer it returns, as `namex` does,
meets them in order. -/

namespace Xv6.Fs

/-- The byte '/'. -/
def slash : UInt8 := 47

/-- The test of `while(*path != '/' && *path != 0)`. -/
def inElem (c : UInt8) : Bool := c != slash && c != 0

/-- What `skipelem` leaves in `name` for the element `s`: `memmove(name, s,
DIRSIZ)` of a long one, and `memmove(name, s, len); name[len] = 0` of a short
one. -/
def copyName (s name : List UInt8) : List UInt8 :=
  if s.length ≥ dirsiz then s.take dirsiz ++ name.drop dirsiz
  else s ++ 0 :: name.drop (s.length + 1)

/-- `skipelem(path, name)`: `none` for the 0 it returns, otherwise the bytes
from the pointer it returns and the name buffer after the call. -/
def skipelem (path name : List UInt8) : Option (List UInt8 × List UInt8) :=
  let path := path.dropWhile (· == slash)
  if path.headD 0 = 0 then none
  else
    let (s, path) := path.span inElem
    some (path.dropWhile (· == slash), copyName s name)

/-- The elements of a path: its maximal non-empty runs of bytes other than '/'. -/
def segments (path : List UInt8) : List (List UInt8) :=
  (path.splitOn slash).filter fun part => !part.isEmpty

section Elements

variable {path rest seg : List UInt8}

theorem segments_slash_cons (path : List UInt8) : segments (slash :: path) = segments path := by
  simp [segments, List.splitOn, List.splitOnP_cons_eq_if_modifyHead]

theorem segments_dropWhile (path : List UInt8) :
    segments (path.dropWhile (· == slash)) = segments path := by
  induction path with
  | nil => rfl
  | cons c path ih =>
    by_cases sep : c = slash
    · subst sep
      rw [List.dropWhile_cons_of_pos (p := fun x => x == slash) (by simp), ih, segments_slash_cons]
    · rw [List.dropWhile_cons_of_neg (by simpa using sep)]

theorem segments_append (nonempty : seg ≠ []) (free : slash ∉ seg)
    (stops : rest = [] ∨ rest.head? = some slash) : segments (seg ++ rest) = seg :: segments rest := by
  have apart : ∀ c ∈ seg, (c == slash) = false := fun c mem => by
    simpa using fun same : c = slash => free (same ▸ mem)
  rcases stops with rfl | starts
  · simp [segments, List.splitOn, List.splitOnP_eq_singleton apart, nonempty]
  · obtain ⟨r, rfl⟩ : ∃ r, rest = slash :: r := by
      cases rest with
      | nil => simp at starts
      | cons c r => exact ⟨r, by simpa using starts⟩
    have split : List.splitOnP (fun x => x == slash) (seg ++ slash :: r) =
        List.splitOnP (fun x => x == slash) seg ++ List.splitOnP (fun x => x == slash) r :=
      List.splitOnP_append_cons seg r (by simp)
    rw [segments_slash_cons]
    simp [segments, List.splitOn, split, List.splitOnP_eq_singleton apart, nonempty]

theorem head?_dropWhile_slash (path : List UInt8) : (path.dropWhile (· == slash)).head? ≠ some slash := by
  have stop := List.head?_dropWhile_not (· == slash) path
  intro starts
  rw [starts] at stop
  simp at stop

theorem dropWhile_inElem_stops (nul : 0 ∉ path) :
    path.dropWhile inElem = [] ∨ (path.dropWhile inElem).head? = some slash := by
  have stop := List.head?_dropWhile_not inElem path
  have within := (List.dropWhile_suffix inElem (l := path)).subset
  cases found : path.dropWhile inElem with
  | nil => exact .inl rfl
  | cons c r =>
    rw [found] at stop within
    have nonzero : c ≠ 0 := fun zero => nul (zero ▸ within List.mem_cons_self)
    simp only [List.head?_cons, inElem, Bool.and_eq_false_iff, bne_eq_false_iff_eq] at stop
    exact .inr (by simpa [nonzero] using stop)

theorem slash_not_mem_takeWhile (path : List UInt8) : slash ∉ path.takeWhile inElem := fun mem => by
  simpa [inElem] using List.mem_takeWhile_imp mem

theorem inElem_of_front {c : UInt8} {tail : List UInt8} (front : path.dropWhile (· == slash) = c :: tail)
    (nonzero : c ≠ 0) : inElem c = true := by
  have stop := List.head?_dropWhile_not (· == slash) path
  rw [front] at stop
  simpa [inElem, nonzero] using stop

theorem skipelem_of_front {c : UInt8} {tail : List UInt8} (name : List UInt8)
    (front : path.dropWhile (· == slash) = c :: tail) (nonzero : c ≠ 0) :
    skipelem path name =
      some (((c :: tail).dropWhile inElem).dropWhile (· == slash), copyName ((c :: tail).takeWhile inElem) name) := by
  simp [skipelem, front, nonzero, List.span_eq_takeWhile_dropWhile]

theorem skipelem_shorter {name name' : List UInt8} (found : skipelem path name = some (rest, name')) :
    rest.length < path.length := by
  cases front : path.dropWhile (· == slash) with
  | nil => simp [skipelem, front] at found
  | cons c tail =>
    by_cases zero : c = 0
    · simp [skipelem, front, zero] at found
    have started := inElem_of_front front zero
    rw [skipelem_of_front name front zero] at found
    obtain ⟨rfl, -⟩ := Option.some.inj found |> Prod.mk.inj
    have fromTail := (List.dropWhile_suffix (· == slash) (l := tail.dropWhile inElem)).length_le
    have inTail := (List.dropWhile_suffix inElem (l := tail)).length_le
    have below := (List.dropWhile_suffix (· == slash) (l := path)).length_le
    rw [front] at below
    rw [List.dropWhile_cons_of_pos started]
    simp only [List.length_cons] at below
    omega

theorem skipelem_cases (path name : List UInt8) (nul : 0 ∉ path) :
    (skipelem path name = none ∧ segments path = []) ∨
    ∃ seg rest, skipelem path name = some (rest, copyName seg name) ∧
      segments path = seg :: segments rest ∧ rest.head? ≠ some slash ∧ 0 ∉ rest := by
  have same := segments_dropWhile path
  have front_nul : 0 ∉ path.dropWhile (· == slash) := fun mem =>
    nul ((List.dropWhile_suffix _).subset mem)
  cases front : path.dropWhile (· == slash) with
  | nil =>
    rw [front] at same
    exact .inl ⟨by simp [skipelem, front], same.symm⟩
  | cons c tail =>
    rw [front] at same front_nul
    have nonzero : c ≠ 0 := fun zero => front_nul (zero ▸ List.mem_cons_self)
    have started := inElem_of_front front nonzero
    have rest_nul : 0 ∉ (c :: tail).dropWhile inElem := fun mem =>
      front_nul ((List.dropWhile_suffix _).subset mem)
    refine .inr ⟨_, _, skipelem_of_front name front nonzero, ?_, head?_dropWhile_slash _,
      fun mem => rest_nul ((List.dropWhile_suffix _).subset mem)⟩
    have nonempty : (c :: tail).takeWhile inElem ≠ [] := by
      simp [List.takeWhile_cons_of_pos started]
    rw [← same, ← List.takeWhile_append_dropWhile (p := inElem) (l := c :: tail),
      segments_append nonempty (slash_not_mem_takeWhile _) (dropWhile_inElem_stops front_nul),
      List.takeWhile_append_dropWhile, segments_dropWhile]

/- The examples of the comment above `skipelem`: "a/bb/c" gives "bb/c" and the
name "a", and "////" gives 0. -/
example : skipelem [97, 47, 98, 98, 47, 99] (List.replicate 14 1) =
    some ([98, 98, 47, 99], 97 :: 0 :: List.replicate 12 1) := by decide

example : skipelem [47, 47, 47, 47] (List.replicate 14 1) = none := by decide

end Elements

theorem copyName_holds (s name : List UInt8) :
    s.take dirsiz ++ (if s.length < dirsiz then [0] else []) <+: copyName s name := by
  by_cases short : s.length < dirsiz
  · rw [copyName, if_neg (show ¬ s.length ≥ dirsiz by omega), if_pos short,
      List.take_of_length_le (by omega)]
    exact ⟨name.drop (s.length + 1), by simp⟩
  · rw [copyName, if_pos (show s.length ≥ dirsiz by omega), if_neg short, List.append_nil]
    exact List.prefix_append _ _

/-- `skipelem` called again on each pointer it returns, as the loop of `namex`
calls it, until it returns 0: the pointer and the name buffer after each call. -/
def skipelemRun (path name : List UInt8) : List (List UInt8 × List UInt8) :=
  match found : skipelem path name with
  | none => []
  | some (rest, name') =>
    have := skipelem_shorter found
    (rest, name') :: skipelemRun rest name'
termination_by path.length

theorem skipelemRun_of_none {path name : List UInt8} (found : skipelem path name = none) :
    skipelemRun path name = [] := by
  rw [skipelemRun]
  split <;> simp_all

theorem skipelemRun_of_some {path name rest name' : List UInt8}
    (found : skipelem path name = some (rest, name')) :
    skipelemRun path name = (rest, name') :: skipelemRun rest name' := by
  rw [skipelemRun]
  split <;> simp_all

/-- What one call of `skipelem` gives for the element `seg`: the name buffer
starts with `seg` cut to `DIRSIZ` bytes, NUL-terminated when shorter, and the
pointer returned is not at a '/'. -/
def Yields (seg : List UInt8) (call : List UInt8 × List UInt8) : Prop :=
  seg.take dirsiz ++ (if seg.length < dirsiz then [0] else []) <+: call.2 ∧ call.1.head? ≠ some slash

theorem skipelemRun_yields (segs : List (List UInt8)) :
    ∀ path name, 0 ∉ path → segments path = segs → List.Forall₂ Yields segs (skipelemRun path name) := by
  induction segs with
  | nil =>
    intro path name nul none_left
    rcases skipelem_cases path name nul with ⟨found, -⟩ | ⟨seg, rest, -, split, -⟩
    · rw [skipelemRun_of_none found]
      exact .nil
    · simp [split] at none_left
  | cons seg segs ih =>
    intro path name nul split
    rcases skipelem_cases path name nul with ⟨-, none_left⟩ | ⟨seg', rest, found, split', free, rest_nul⟩
    · simp [split] at none_left
    · rw [split, List.cons.injEq] at split'
      obtain ⟨rfl, rest_segs⟩ := split'
      rw [skipelemRun_of_some found]
      exact .cons ⟨copyName_holds seg name, free⟩ (ih rest _ rest_nul rest_segs.symm)

theorem skipelem_splits (path : CString) (name : List UInt8) :
    (skipelem path.bytes name = none ↔ segments path.bytes = []) ∧
      List.Forall₂ Yields (segments path.bytes) (skipelemRun path.bytes name) := by
  refine ⟨?_, skipelemRun_yields _ path.bytes name path.noNul rfl⟩
  rcases skipelem_cases path.bytes name path.noNul with ⟨found, none_left⟩ | ⟨seg, rest, found, split, -⟩
  · simp [found, none_left]
  · simp [found, split]

end Xv6.Fs
