import Mathlib
import Xv6.Lib.Bytes

/-! `xargs` of `user/xargs.c`. The command is copied to `cmd[10]`, each byte of
standard input goes into a row of `arr` (a space ends a word and moves to the
next row), and at a newline the slot after the last word is set to NULL and a
child runs the command with `arr` as its argument vector; the parent then
clears the rows through their slots. The model follows the parent through its
memory byte by byte and records what `sys_exec` fetched for each child. The
strings the program was started with are values: they sit on the stack `exec`
built, which `main` never writes. `malloc`'s own headers are not modelled. -/

namespace Xv6.User.Xargs

open Xv6.Lib

/-- `MAXARG`, `MAXPATH` and `PGSIZE`, the bounds of `sys_exec`'s fetches. -/
def maxarg : Nat := 32

def maxpath : Nat := 128

def pgsize : Nat := 4096

/-- The loop of `sys_exec` over `uargv` from slot `i`: a NULL pointer ends the
vector, any other is fetched as a string; `n` slots may still be read before
`i >= NELEM(argv)`. -/
def fetchArgv (m : Mem) (uargv : Nat) : Nat → Nat → Option (List (List UInt8))
  | 0, _ => none
  | n + 1, i =>
    let uarg := getLE m (uargv + 8 * i) 8
    if uarg = 0 then some []
    else do
      let s ← cstrAt m uarg pgsize
      let rest ← fetchArgv m uargv n (i + 1)
      return s :: rest

/-- What `sys_exec(path, uargv)` fetches from its caller, or `none` where it
returns -1. -/
def sysExec (m : Mem) (path uargv : Nat) : Option (List UInt8 × List (List UInt8)) := do
  let path ← cstrAt m path maxpath
  let argv ← fetchArgv m uargv maxarg 0
  return (path, argv)

/-- Where `main`'s buffers are: `cmd[10]` on its stack, and from `malloc` the ten
pointers of `arr` and the 50-byte row each of them points to. -/
structure Layout where
  cmd : Nat
  arr : Nat
  row : Nat → Nat

/-- `main`'s loop: the memory, `row` and `col`, and what `sys_exec` fetched for
each child so far. -/
structure Loop where
  mem : Mem
  row : Nat
  col : Nat
  execs : List (Option (List UInt8 × List (List UInt8)))

/-- `arr[k]`. -/
def Layout.slot (lay : Layout) (m : Mem) (k : Nat) : Nat :=
  getLE m (lay.arr + 8 * k) 8

/-- The `jdex` loop: the nonzero bytes of `p[0..n)` cleared. -/
def clearRow (m : Mem) (p : Nat) : Nat → Mem
  | 0 => m
  | j + 1 =>
    let m := clearRow m p j
    if m (p + j) ≠ 0 then Function.update m (p + j) 0 else m

/-- The `index` loop over `arr[1..n]`. -/
def clearRows (lay : Layout) (m : Mem) : Nat → Mem
  | 0 => m
  | k + 1 =>
    let m := clearRows lay m k
    clearRow m (lay.slot m (k + 1)) 50

/-- One byte `c` of standard input; `first` is `argv_cmd[0]` when `index >= 1`. -/
def step (lay : Layout) (first : Option (List UInt8)) (x : Loop) (c : UInt8) : Loop :=
  if c = 10 then
    let col := x.col + 1
    let m := setLE x.mem (lay.arr + 8 * col) 8 0
    let m := strcpy m (lay.slot m 0) lay.cmd pgsize
    let m := match first with
      | some a => storeStr m (lay.slot m 1) a
      | none => m
    { mem := clearRows lay m 9, row := 0, col := if first.isSome then 2 else 1,
      execs := x.execs ++ [sysExec m lay.cmd lay.arr] }
  else if c = 32 then
    { x with mem := Function.update x.mem (lay.slot x.mem x.col + x.row) 0, col := x.col + 1, row := 0 }
  else
    { x with mem := Function.update x.mem (lay.slot x.mem x.col + x.row) c, row := x.row + 1 }

/-- The state before the loop: the command in `cmd`, the rows in `arr`. -/
def start (lay : Layout) (m0 : Mem) (name : List UInt8) (initial : List (List UInt8)) : Loop where
  mem := setArray (storeStr m0 lay.cmd name) lay.arr 8 lay.row 10
  row := 0
  col := if initial = [] then 1 else 2
  execs := []

@[simp] theorem start_mem (lay : Layout) (m0 : Mem) (name : List UInt8) (initial : List (List UInt8)) :
    (start lay m0 name initial).mem = setArray (storeStr m0 lay.cmd name) lay.arr 8 lay.row 10 := rfl

/-- `main(argc, argv)` run to the end of its input, or `none` where it exits at
once for want of a command. -/
def main (lay : Layout) (m0 : Mem) : List (List UInt8) → List UInt8 → Option Loop
  | _ :: name :: initial, input => some (input.foldl (step lay initial.head?) (start lay m0 name initial))
  | _, _ => none

/-- The buffers lie apart from each other and above the first 50 bytes of the
address space, where the program's text begins. -/
structure Layout.Wf (lay : Layout) : Prop where
  rows : ∀ k < 10, ∀ k' < 10, k ≠ k' → lay.row k + 50 ≤ lay.row k' ∨ lay.row k' + 50 ≤ lay.row k
  rowArr : ∀ k < 10, lay.row k + 50 ≤ lay.arr ∨ lay.arr + 80 ≤ lay.row k
  rowCmd : ∀ k < 10, lay.row k + 50 ≤ lay.cmd ∨ lay.cmd + 10 ≤ lay.row k
  arrCmd : lay.arr + 80 ≤ lay.cmd ∨ lay.cmd + 10 ≤ lay.arr
  cmdHigh : 50 ≤ lay.cmd
  arrHigh : 50 ≤ lay.arr
  rowHigh : ∀ k < 10, 50 ≤ lay.row k
  rowSmall : ∀ k < 10, lay.row k < 2 ^ 64

/-- A word of a line: shorter than a row, with no NUL, newline or space. -/
def Word (w : List UInt8) : Prop :=
  w.length < 50 ∧ (0 : UInt8) ∉ w ∧ (10 : UInt8) ∉ w ∧ (32 : UInt8) ∉ w

instance (w : List UInt8) : Decidable (Word w) :=
  inferInstanceAs (Decidable (_ ∧ _ ∧ _ ∧ _))

/-- The rows from `c` on holding the words, each with its NUL. -/
def writeWords (lay : Layout) (m : Mem) (c : Nat) : List (List UInt8) → Mem
  | [] => m
  | w :: ws => writeWords lay (storeStr m (lay.row c) w) (c + 1) ws

/-- The memory a child's `exec` sees at a newline: slot `col` NULL, the command
in row 0 and the first initial argument, if there is one, in row 1. -/
def atExec (lay : Layout) (first : Option (List UInt8)) (name : List UInt8) (m : Mem) (col : Nat) : Mem :=
  let m := storeStr (setLE m (lay.arr + 8 * col) 8 0) (lay.row 0) name
  match first with
  | some a => storeStr m (lay.row 1) a
  | none => m

section Line

variable {lay : Layout} {first : Option (List UInt8)} {m m' : Mem}

theorem slot_congr (same : ∀ i, lay.arr ≤ i → i < lay.arr + 80 → m' i = m i) {k : Nat} (slot : k < 10) :
    lay.slot m' k = lay.slot m k :=
  getLE_congr 8 _ fun i low high => same i (by omega) (by omega)

theorem slot_update (wf : lay.Wf) {k j : Nat} (row : k < 10) (inside : j < 50) (b : UInt8) {k' : Nat}
    (slot : k' < 10) : lay.slot (Function.update m (lay.row k + j) b) k' = lay.slot m k' :=
  slot_congr (fun i low high => Function.update_of_ne (by have := wf.rowArr k row; omega) _ _) slot

theorem foldl_letters (wf : lay.Wf) : ∀ (w : List UInt8) (x : Loop),
    (∀ k < 10, lay.slot x.mem k = lay.row k) → x.col < 10 → x.row + w.length ≤ 50 →
    (10 : UInt8) ∉ w → (32 : UInt8) ∉ w →
    w.foldl (step lay first) x = { x with mem := writeList x.mem (lay.row x.col + x.row) w, row := x.row + w.length } := by
  intro w
  induction w with
  | nil =>
    intro x _ _ _ _ _
    simp only [List.foldl_nil, writeList_nil, List.length_nil, Nat.add_zero]
  | cons b w ih =>
    intro x slots col fits noNewline noSpace
    have newline : b ≠ 10 := fun h => noNewline (by simp [h])
    have space : b ≠ 32 := fun h => noSpace (by simp [h])
    have inside : x.row < 50 := by simp at fits; omega
    have next := ih { x with mem := Function.update x.mem (lay.row x.col + x.row) b, row := x.row + 1 }
      (fun k hk => (slot_update wf col inside b hk).trans (slots k hk)) col
      (by simp at fits ⊢; omega) (fun h => noNewline (by simp [h])) (fun h => noSpace (by simp [h]))
    rw [List.foldl_cons, step, if_neg newline, if_neg space, slots x.col col]
    rw [next]
    simp only [writeList_cons, List.length_cons]
    congr 1
    omega

theorem slot_writeList (wf : lay.Wf) {k : Nat} (row : k < 10) {l : List UInt8} (fits : l.length ≤ 50)
    {k' : Nat} (slot : k' < 10) : lay.slot (writeList m (lay.row k) l) k' = lay.slot m k' :=
  slot_congr (fun i low high => writeList_outside (by have := wf.rowArr k row; omega)) slot

theorem storeStr_row (wf : lay.Wf) {k k' : Nat} (row : k < 10) (row' : k' < 10) (other : k ≠ k')
    {s : List UInt8} (short : s.length < 50) {i : Nat} (inside : i < 50) :
    storeStr m (lay.row k) s (lay.row k' + i) = m (lay.row k' + i) :=
  storeStr_outside (by have := wf.rows k row k' row' other; omega)

variable (first) in
theorem foldl_words (wf : lay.Wf) : ∀ (ws : List (List UInt8)) (w : List UInt8) (x : Loop),
    (∀ k < 10, lay.slot x.mem k = lay.row k) → x.row = 0 → x.col + ws.length < 10 →
    Word w → (∀ v ∈ ws, Word v) → (∀ j ≤ ws.length, ∀ i < 50, x.mem (lay.row (x.col + j) + i) = 0) →
    ((List.intercalate [32] (w :: ws)).foldl (step lay first) x).mem = writeWords lay x.mem x.col (w :: ws) ∧
      ((List.intercalate [32] (w :: ws)).foldl (step lay first) x).col = x.col + ws.length ∧
      (∀ k < 10, lay.slot ((List.intercalate [32] (w :: ws)).foldl (step lay first) x).mem k = lay.row k) ∧
      ((List.intercalate [32] (w :: ws)).foldl (step lay first) x).execs = x.execs := by
  intro ws
  induction ws with
  | nil =>
    rintro w x slots start col ⟨short, _, noNewline, noSpace⟩ _ fresh
    rw [List.intercalate_singleton, foldl_letters wf w x slots (by omega) (by omega) noNewline noSpace, start]
    have nul : x.mem (lay.row x.col + w.length) = 0 := by simpa using fresh 0 (by simp) w.length short
    refine ⟨?_, by simp, fun k hk => ?_, rfl⟩
    · simp only [writeWords, storeStr, Nat.add_zero, writeList_append_same nul]
    · simpa using (slot_writeList wf (by simp at col; omega) short.le hk).trans (slots k hk)
  | cons v ws ih =>
    rintro w x slots start col ⟨short, nz, noNewline, noSpace⟩ words fresh
    have colLt : x.col < 10 := by simp at col; omega
    have wordsTail : ∀ u ∈ ws, Word u := fun u mem => words u (List.mem_cons_of_mem v mem)
    rw [List.intercalate_cons_cons, List.foldl_append, List.foldl_append,
      foldl_letters wf w x slots colLt (by omega) noNewline noSpace, List.foldl_cons, List.foldl_nil]
    set y := step lay first { x with mem := writeList x.mem (lay.row x.col + x.row) w, row := x.row + w.length } 32
      with hy
    have space : y = { mem := storeStr x.mem (lay.row x.col) w, row := 0, col := x.col + 1, execs := x.execs } := by
      rw [hy, step, if_neg (by decide), if_pos rfl]
      simp only [start, Nat.add_zero, zero_add]
      rw [slot_writeList wf colLt short.le colLt, slots x.col colLt, storeStr, writeList_concat]
    have slotsY : ∀ k < 10, lay.slot y.mem k = lay.row k := fun k hk => by
      rw [space]
      exact (slot_writeList wf colLt (by simp; omega) hk).trans (slots k hk)
    have freshY : ∀ j ≤ ws.length, ∀ i < 50, y.mem (lay.row (y.col + j) + i) = 0 := fun j hj i hi => by
      rw [space]
      simp only
      rw [storeStr_row wf colLt (by simp at col; omega) (by omega) short hi, Nat.add_assoc, Nat.add_comm 1 j]
      exact fresh (j + 1) (by simp; omega) i hi
    obtain ⟨mem, colEq, slotsEq, execs⟩ :=
      ih v y slotsY (by rw [space]) (by rw [space]; simp at col ⊢; omega) (words v (by simp))
        wordsTail freshY
    refine ⟨?_, ?_, slotsEq, ?_⟩
    · rw [mem, space]
      rfl
    · rw [colEq, space]
      simp only [List.length_cons]
      omega
    · rw [execs, space]

theorem writeWords_outside : ∀ (ws : List (List UInt8)) (c : Nat) (m : Mem) {i : Nat}, (∀ v ∈ ws, Word v) →
    (∀ j < ws.length, i < lay.row (c + j) ∨ lay.row (c + j) + 50 ≤ i) → writeWords lay m c ws i = m i
  | [], _, _, _, _, _ => rfl
  | v :: ws, c, m, i, words, outside => by
    have short := (words v (by simp)).1
    have here := outside 0 (by simp)
    rw [writeWords, writeWords_outside ws (c + 1) _ (fun u mem => words u (List.mem_cons_of_mem v mem))
      fun j hj => by simpa [Nat.add_assoc, Nat.add_comm 1 j] using outside (j + 1) (by simp; omega)]
    exact storeStr_outside (by simp at here; omega)

theorem writeWords_cstr (wf : lay.Wf) : ∀ (ws : List (List UInt8)) (c : Nat) (m : Mem), c + ws.length ≤ 10 →
    (∀ v ∈ ws, Word v) → ∀ j (h : j < ws.length), CStr (writeWords lay m c ws) (lay.row (c + j)) ws[j]
  | [], _, _, _, _, j, h => absurd h (by simp)
  | v :: ws, c, m, fits, words, 0, _ => by
    obtain ⟨short, nz, -⟩ := words v (by simp)
    refine (storeStr_cstr nz).congr fun i hi => writeWords_outside ws (c + 1) _
      (fun u mem => words u (List.mem_cons_of_mem v mem)) fun j hj => ?_
    have := wf.rows c (by simp at fits; omega) (c + 1 + j) (by simp at fits; omega) (by omega)
    simp only [Nat.add_zero]
    omega
  | v :: ws, c, m, fits, words, j + 1, h => by
    have := writeWords_cstr wf ws (c + 1) (storeStr m (lay.row c) v) (by simp at fits; omega)
      (fun u mem => words u (List.mem_cons_of_mem v mem)) j (by simpa using h)
    rwa [Nat.add_right_comm c 1 j] at this

theorem slot_setLE {col k : Nat} :
    lay.slot (setLE m (lay.arr + 8 * col) 8 0) k = if k = col then 0 else lay.slot m k := by
  split
  · next same =>
    subst same
    rw [Layout.slot, getLE_setLE, Nat.zero_mod]
  · next other =>
    exact getLE_setLE_of_disjoint (by omega)

theorem fetchArgv_cons {uargv n i : Nat} {s : List UInt8} {rest : List (List UInt8)}
    (pointer : getLE m (uargv + 8 * i) 8 ≠ 0) (str : CStr m (getLE m (uargv + 8 * i) 8) s) (short : s.length < pgsize)
    (tail : fetchArgv m uargv n (i + 1) = some rest) : fetchArgv m uargv (n + 1) i = some (s :: rest) := by
  rw [fetchArgv, if_neg pointer, cstrAt_of_cstr str short, tail]
  rfl

theorem fetchArgv_eq {uargv : Nat} : ∀ (ss : List (List UInt8)) (n i : Nat), ss.length < n →
    (∀ j (h : j < ss.length), getLE m (uargv + 8 * (i + j)) 8 ≠ 0 ∧
      CStr m (getLE m (uargv + 8 * (i + j)) 8) ss[j] ∧ ss[j].length < pgsize) →
    getLE m (uargv + 8 * (i + ss.length)) 8 = 0 → fetchArgv m uargv n i = some ss := by
  intro ss
  induction ss with
  | nil =>
    rintro (_ | n) i fits _ null
    · exact absurd fits (by simp)
    · rw [fetchArgv, if_pos (by simpa using null)]
  | cons s ss ih =>
    rintro (_ | n) i fits strs null
    · exact absurd fits (by simp)
    obtain ⟨pointer, str, short⟩ := strs 0 (by simp)
    refine fetchArgv_cons pointer str short (ih n (i + 1) (by simp at fits; omega) (fun j h => ?_) ?_)
    · rw [show i + 1 + j = i + (j + 1) by omega]
      exact strs (j + 1) (by simp; omega)
    · simpa [Nat.add_assoc, Nat.add_comm 1 ss.length] using null

theorem clearRow_eq (p : Nat) : ∀ n, clearRow m p n = fillBytes m p n 0
  | 0 => by
    funext i
    exact (fillBytes_outside (by omega) 0).symm
  | n + 1 => by
    funext i
    rw [clearRow, clearRow_eq p n]
    by_cases last : i = p + n
    · subst last
      split
      · rw [Function.update_self, fillBytes_inside (by omega)]
      · next zero =>
        rw [not_not] at zero
        rw [zero, fillBytes_inside (by omega)]
    · have : fillBytes m p (n + 1) 0 i = fillBytes m p n 0 i := by
        by_cases inside : p ≤ i ∧ i < p + n
        · rw [fillBytes_inside inside, fillBytes_inside (by omega)]
        · rw [fillBytes_outside (by omega), fillBytes_outside (by omega)]
      split
      · rw [Function.update_of_ne last, this]
      · rw [this]

theorem slot_clearRows : ∀ n, n < 10 →
    (∀ k, 1 ≤ k → k ≤ n → lay.slot m k + 50 ≤ lay.arr ∨ lay.arr + 80 ≤ lay.slot m k) →
    ∀ k < 10, lay.slot (clearRows lay m n) k = lay.slot m k
  | 0, _, _, _, _ => rfl
  | n + 1, few, away, k, slot => by
    have kept := slot_clearRows n (by omega) fun k low high => away k low (by omega)
    have fill := away (n + 1) (by omega) (Nat.le_refl _)
    rw [clearRows, clearRow_eq, ← kept k slot]
    refine slot_congr (fun i low high => fillBytes_outside ?_ 0) slot
    rw [kept (n + 1) few]
    omega

theorem clearRows_low : ∀ n, n < 10 →
    (∀ k, 1 ≤ k → k ≤ n → lay.slot m k + 50 ≤ lay.arr ∨ lay.arr + 80 ≤ lay.slot m k) →
    (∀ k, 1 ≤ k → k ≤ n → lay.slot m k = 0 ∨ 50 ≤ lay.slot m k) →
    (∃ k, 1 ≤ k ∧ k ≤ n ∧ lay.slot m k = 0) → ∀ i < 50, clearRows lay m n i = 0
  | 0, _, _, _, ⟨_, one, high, _⟩, _, _ => absurd one (by omega)
  | n + 1, few, away, low, ⟨k, one, le, null⟩, i, hi => by
    rw [clearRows, clearRow_eq, slot_clearRows n (by omega) (fun k low high => away k low (by omega)) (n + 1) few]
    by_cases last : lay.slot m (n + 1) = 0
    · rw [last, fillBytes_inside (by omega)]
    · have high : 50 ≤ lay.slot m (n + 1) := (low (n + 1) (by omega) (Nat.le_refl _)).resolve_left last
      have earlier : k ≤ n := by
        by_contra later
        exact last (by rwa [show k = n + 1 by omega] at null)
      rw [fillBytes_outside (by omega)]
      exact clearRows_low n (by omega) (fun k low high => away k low (by omega))
        (fun k one high => low k one (by omega)) ⟨k, one, earlier, null⟩ i hi
variable {name : List UInt8}

theorem step_newline (wf : lay.Wf) {y : Loop} (slots : ∀ k < 10, lay.slot y.mem k = lay.row k)
    (col : y.col + 1 < 10) (second : 1 ≤ y.col) (cmd : CStr y.mem lay.cmd name) (named : name.length < 10) :
    step lay first y 10 =
      { mem := clearRows lay (atExec lay first name y.mem (y.col + 1)) 9, row := 0,
        col := if first.isSome then 2 else 1,
        execs := y.execs ++ [sysExec (atExec lay first name y.mem (y.col + 1)) lay.cmd lay.arr] } := by
  have slot0 : lay.slot (setLE y.mem (lay.arr + 8 * (y.col + 1)) 8 0) 0 = lay.row 0 := by
    rw [slot_setLE, if_neg (by omega), slots 0 (by omega)]
  have cmd' : CStr (setLE y.mem (lay.arr + 8 * (y.col + 1)) 8 0) lay.cmd name :=
    cmd.congr fun i hi => setLE_outside _ 8 _ 0 (by have := wf.arrCmd; omega)
  rw [step, if_pos rfl]
  simp only
  rw [slot0, strcpy_of_cstr cmd' (by unfold pgsize; omega) (by have := wf.rowCmd 0 (by omega); omega)]
  cases first with
  | none => rfl
  | some a =>
    have slot1 : lay.slot (storeStr (setLE y.mem (lay.arr + 8 * (y.col + 1)) 8 0) (lay.row 0) name) 1 = lay.row 1 := by
      rw [slot_congr (fun i low high => storeStr_outside (by have := wf.rowArr 0 (by omega); omega)) (by omega),
        slot_setLE, if_neg (by omega), slots 1 (by omega)]
    simp only [slot1]
    rfl

variable (first) in
theorem atExec_apart (named : name.length < 10) (firstShort : ∀ a, first = some a → a.length < 50)
    {col i : Nat} (row0 : i < lay.row 0 ∨ lay.row 0 + 50 ≤ i) (row1 : first.isSome → i < lay.row 1 ∨ lay.row 1 + 50 ≤ i)
    (arr : i < lay.arr ∨ lay.arr + 80 ≤ i) (slot : col < 10) : atExec lay first name m col i = m i := by
  have low : setLE m (lay.arr + 8 * col) 8 0 i = m i := setLE_outside _ 8 _ 0 (by omega)
  cases first with
  | none => rw [atExec, storeStr_outside (by omega), low]
  | some a =>
    have short := firstShort a rfl
    have apart := row1 rfl
    rw [atExec, storeStr_outside (by omega), storeStr_outside (by omega), low]

theorem slot_atExec (wf : lay.Wf) (named : name.length < 10) (firstShort : ∀ a, first = some a → a.length < 50)
    {col k : Nat} (slotK : k < 10) :
    lay.slot (atExec lay first name m col) k = if k = col then 0 else lay.slot m k := by
  rw [← slot_setLE]
  refine slot_congr (fun i low high => ?_) slotK
  have := wf.rowArr 0 (by omega)
  cases first with
  | none => exact storeStr_outside (by omega)
  | some a =>
    have short := firstShort a rfl
    have := wf.rowArr 1 (by omega)
    rw [atExec, storeStr_outside (by omega), storeStr_outside (by omega)]

theorem sysExec_atExec (wf : lay.Wf) {ws : List (List UInt8)} (slots : ∀ k < 10, lay.slot m k = lay.row k)
    (cmd : CStr m lay.cmd name) (named : (0 : UInt8) ∉ name ∧ name.length < 10)
    (firstOk : ∀ a, first = some a → (0 : UInt8) ∉ a ∧ a.length < 50) (words : ∀ v ∈ ws, Word v)
    (strs : ∀ j (h : j < ws.length), CStr m (lay.row (first.toList.length + 1 + j)) ws[j])
    (col : first.toList.length + 1 + ws.length < 10) :
    sysExec (atExec lay first name m (first.toList.length + 1 + ws.length)) lay.cmd lay.arr =
      some (name, name :: first.toList ++ ws) := by
  have firstShort : ∀ a, first = some a → a.length < 50 := fun a h => (firstOk a h).2
  have slotAt : ∀ k < 10, lay.slot (atExec lay first name m (first.toList.length + 1 + ws.length)) k =
      if k = first.toList.length + 1 + ws.length then 0 else lay.slot m k := fun k hk =>
    slot_atExec wf named.2 firstShort hk
  have wordStr : ∀ j (h : j < ws.length), CStr (atExec lay first name m (first.toList.length + 1 + ws.length))
      (lay.row (first.toList.length + 1 + j)) ws[j] := fun j h =>
    (strs j h).congr fun i hi => by
      have short := (words ws[j] (List.getElem_mem h)).1
      have := wf.rowArr (first.toList.length + 1 + j) (by omega)
      have := wf.rows 0 (by omega) (first.toList.length + 1 + j) (by omega) (by omega)
      refine atExec_apart first named.2 firstShort (by omega) (fun some => ?_) (by omega) col
      have one : first.toList.length = 1 := by cases first <;> simp_all
      have := wf.rows 1 (by omega) (first.toList.length + 1 + j) (by omega) (by omega)
      omega
  have wordsFetched : fetchArgv (atExec lay first name m (first.toList.length + 1 + ws.length)) lay.arr
      (maxarg - first.toList.length - 1) (first.toList.length + 1) = some ws := by
    refine fetchArgv_eq ws _ _ (by unfold maxarg; omega) (fun j h => ?_) ?_
    · have short := (words ws[j] (List.getElem_mem h)).1
      have := wf.rowHigh (first.toList.length + 1 + j) (by omega)
      refine ⟨?_, ?_, by unfold pgsize; omega⟩ <;> rw [show getLE _ _ 8 = lay.slot _ _ from rfl, slotAt _ (by omega),
        if_neg (by omega), slots _ (by omega)]
      · omega
      · exact wordStr j h
    · rw [show getLE _ _ 8 = lay.slot _ _ from rfl, slotAt _ col, if_pos rfl]
  have cmdStr : CStr (atExec lay first name m (first.toList.length + 1 + ws.length)) lay.cmd name :=
    cmd.congr fun i hi => atExec_apart first named.2 firstShort (by have := wf.rowCmd 0 (by omega); omega)
      (fun _ => by have := wf.rowCmd 1 (by omega); omega) (by have := wf.arrCmd; omega) col
  have slotIs : ∀ k, k < first.toList.length + 1 →
      lay.slot (atExec lay first name m (first.toList.length + 1 + ws.length)) k = lay.row k := fun k low => by
    rw [slotAt k (by omega), if_neg (by omega), slots k (by omega)]
  have row0 : CStr (atExec lay first name m (first.toList.length + 1 + ws.length)) (lay.row 0) name := by
    cases first with
    | none => exact storeStr_cstr named.1
    | some a =>
      have := wf.rows 0 (by omega) 1 (by omega) (by omega)
      have := (firstOk a rfl).2
      exact (storeStr_cstr named.1).congr fun i hi => storeStr_outside (by omega)
  have rest : fetchArgv (atExec lay first name m (first.toList.length + 1 + ws.length)) lay.arr 31 1 =
      some (first.toList ++ ws) := by
    cases first with
    | none => exact wordsFetched
    | some a =>
      have := wf.rowHigh 1 (by omega)
      have := (firstOk a rfl).2
      refine fetchArgv_cons (by rw [show getLE _ _ 8 = lay.slot _ _ from rfl, slotIs 1 (by simp)]; omega)
        (by rw [show getLE _ _ 8 = lay.slot _ _ from rfl, slotIs 1 (by simp)]; exact storeStr_cstr (firstOk a rfl).1)
        (by unfold pgsize; omega) wordsFetched
  have := wf.rowHigh 0 (by omega)
  rw [sysExec, cstrAt_of_cstr cmdStr (by unfold maxpath; omega),
    show maxarg = 31 + 1 from rfl,
    fetchArgv_cons (by rw [show getLE _ _ 8 = lay.slot _ _ from rfl, slotIs 0 (by omega)]; omega)
      (by rw [show getLE _ _ 8 = lay.slot _ _ from rfl, slotIs 0 (by omega)]; exact row0)
      (by unfold pgsize; omega) rest]
  rfl

theorem clearRows_atExec (wf : lay.Wf) (slots : ∀ k < 10, lay.slot m k = lay.row k) (named : name.length < 10)
    (firstShort : ∀ a, first = some a → a.length < 50) {col : Nat} (one : 1 ≤ col) (slot : col ≤ 9) :
    ∀ i < 50, clearRows lay (atExec lay first name m col) 9 i = 0 := by
  have slotAt : ∀ k, 1 ≤ k → k ≤ 9 → lay.slot (atExec lay first name m col) k = if k = col then 0 else lay.row k :=
    fun k low high => by rw [slot_atExec wf named firstShort (by omega), slots k (by omega)]
  refine clearRows_low 9 (by omega) (fun k low high => ?_) (fun k low high => ?_) ⟨col, one, slot, ?_⟩
  · rw [slotAt k low high]
    split
    · have := wf.arrHigh
      omega
    · exact wf.rowArr k (by omega)
  · rw [slotAt k low high]
    split
    · exact .inl rfl
    · exact .inr (wf.rowHigh k (by omega))
  · rw [slotAt col one slot, if_pos rfl]

end Line

/-- `main` on a line of words: the child is given the command, no more than the
first of the initial arguments, and the words; and the clearing that follows
has zeroed the first 50 bytes of the address space through the NULL slot. -/
theorem xargs_keeps_first_argument (lay : Layout) (wf : lay.Wf) (m0 : Mem)
    (fresh : ∀ k < 10, ∀ i < 50, m0 (lay.row k + i) = 0) (prog name : List UInt8) (initial ws : List (List UInt8))
    (named : (0 : UInt8) ∉ name ∧ name.length < 10) (args : ∀ a ∈ initial, (0 : UInt8) ∉ a ∧ a.length < 50)
    (words : ∀ w ∈ ws, Word w) (line : ws ≠ []) (few : (initial.take 1).length + 1 + ws.length ≤ 9) :
    (main lay m0 (prog :: name :: initial) (List.intercalate [32] ws ++ [10])).map
        (fun x => (x.execs, (List.range 50).map x.mem)) =
      some ([some (name, name :: initial.take 1 ++ ws)], List.replicate 50 0) := by
  obtain ⟨w, ws, rfl⟩ := List.exists_cons_of_ne_nil line
  have firstList : initial.head?.toList = initial.take 1 := by cases initial <;> rfl
  have startCol : (start lay m0 name initial).col = initial.head?.toList.length + 1 := by cases initial <;> rfl
  have firstOk : ∀ a, initial.head? = some a → (0 : UInt8) ∉ a ∧ a.length < 50 :=
    fun a h => args a (List.mem_of_head? h)
  rw [← firstList] at few ⊢
  have slots0 : ∀ k < 10, lay.slot (start lay m0 name initial).mem k = lay.row k := fun k hk => by
    have := wf.rowSmall k hk
    rw [start_mem, Layout.slot, getLE_setArray _ 10 hk, Nat.mod_eq_of_lt (by norm_num; omega)]
  have rows0 : ∀ k < 10, ∀ i < 50, (start lay m0 name initial).mem (lay.row k + i) = 0 := fun k hk i hi => by
    have := wf.rowArr k hk
    have := wf.rowCmd k hk
    rw [start_mem, setArray_outside _ 10 (by omega), storeStr_outside (by omega)]
    exact fresh k hk i hi
  have cmd0 : CStr (start lay m0 name initial).mem lay.cmd name :=
    (storeStr_cstr named.1).congr fun i hi => setArray_outside _ 10 (by have := wf.arrCmd; omega)
  obtain ⟨mem1, col1, slots1, execs1⟩ := foldl_words initial.head? wf ws w (start lay m0 name initial)
    slots0 rfl (by rw [startCol]; simp at few; omega) (words w (by simp))
    (fun v hv => words v (List.mem_cons_of_mem w hv))
    (fun j hj i hi => rows0 _ (by rw [startCol]; simp at few; omega) i hi)
  set y := (List.intercalate [32] (w :: ws)).foldl (step lay initial.head?) (start lay m0 name initial) with hy
  have cmd1 : CStr y.mem lay.cmd name := cmd0.congr fun i hi => by
    rw [mem1]
    refine writeWords_outside _ _ _ words fun j hj => ?_
    have := wf.rowCmd ((start lay m0 name initial).col + j) (by rw [startCol]; simp at few hj; omega)
    omega
  have strs : ∀ j (h : j < (w :: ws).length),
      CStr y.mem (lay.row (initial.head?.toList.length + 1 + j)) (w :: ws)[j] := by
    rw [mem1, ← startCol]
    exact writeWords_cstr wf _ _ _ (by rw [startCol]; simp at few ⊢; omega) words
  have firstShort : ∀ a, initial.head? = some a → a.length < 50 := fun a h => (firstOk a h).2
  have nullSlot : y.col + 1 = initial.head?.toList.length + 1 + (w :: ws).length := by
    rw [col1, startCol]
    simp
    omega
  simp only [main, List.foldl_append, List.foldl_cons, List.foldl_nil, Option.map_some]
  rw [step_newline wf slots1 (by simp at few; omega) (by rw [col1, startCol]; omega) cmd1 named.2, nullSlot,
    execs1, sysExec_atExec wf slots1 cmd1 named firstOk words strs (by simp at few ⊢; omega)]
  refine congrArg some (Prod.ext rfl (List.eq_replicate_iff.mpr ⟨by simp, fun b mem => ?_⟩))
  obtain ⟨i, below, rfl⟩ := List.mem_map.mp mem
  have one : 1 ≤ initial.head?.toList.length + 1 + (w :: ws).length := by omega
  dsimp only
  exact clearRows_atExec wf slots1 named.2 firstShort one few i (List.mem_range.mp below)

/-- A small process: `arr` and its rows from the heap at `0x1010`, 64 bytes
apart as `malloc` hands out 50-byte blocks, and `cmd` on the stack. -/
def heapLayout : Layout where
  cmd := 0x3f00
  arr := 0x1010
  row k := 0x1070 + 64 * k

/-- A fresh address space whose first 50 bytes are text: RISC-V `nop`s, `0x00000013`. -/
def nopText : Mem := fun a => if a < 50 ∧ a % 4 = 0 then 0x13 else 0

/-- `xargs echo a b` on the line `x`: the child runs `echo a x`, and the text at
address 0 is cleared. -/
theorem xargs_keeps_first_argument_echo :
    nopText 0 = 0x13 ∧
      (main heapLayout nopText [[120, 97, 114, 103, 115], [101, 99, 104, 111], [97], [98]]
          (List.intercalate [32] [[120]] ++ [10])).map (fun x => (x.execs, (List.range 50).map x.mem)) =
        some ([some ([101, 99, 104, 111], [101, 99, 104, 111] :: [[97], [98]].take 1 ++ [[120]])],
          List.replicate 50 0) :=
  ⟨rfl, xargs_keeps_first_argument heapLayout
    ⟨by decide, by decide, by decide, by decide, by decide, by decide, by decide, by decide⟩
    nopText (by decide) _ _ _ _ (by decide) (by decide) (by decide) (by decide) (by decide)⟩

end Xv6.User.Xargs
