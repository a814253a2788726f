import Mathlib
import Xv6.Lib.Slots
import Xv6.Shell.Grammar
import Xv6.Files.Files

/-! `runcmd` of `sh.c` on the descriptor tables of the processes it forks,
and the first loop of `main`, which opens the console until descriptors `0`,
`1` and `2` are open. A system call is its effect on the calling process's
`p->ofile`: `fdalloc` gives the first free descriptor (`Lib.place`, which the
kernel model's `fdalloc` is), `fork` copies the table, and what the file
system answers (whether a file opens, whether a program is found) is the
environment `Env`. A process's run is the list of what shows of it: the
programs it and its children start, with the descriptors each starts with,
what they print on descriptor `2`, and how they exit.

`plumb` says what the descriptor juggling of `runcmd` is for: a redirection
or a pipe sets the descriptor it names, the one nearest the program last.
`runcmd` does exactly that when descriptors `0`, `1` and `2` are open and
every redirection names `0` or `1`, which is what `main` and `parsecmd`
ensure. -/

namespace Xv6.Shell

open Lib

/-- What a descriptor of the shell's processes refers to: the console, a
file `open` opened with its mode, or the read or write end of a pipe. -/
inductive Obj where
  | console
  | file (name : List Char) (mode : Nat)
  | pipe (id : Nat) (write : Bool)
  deriving DecidableEq, Repr

/-- A process's descriptors, `p->ofile`. -/
abbrev Fds := Fin nofile → Option Obj

/-- Descriptor `2`, where `fprintf(2, ...)` writes. -/
def stderr : Fin nofile := ⟨2, by decide⟩

/-- What the file system answers the shell's processes: whether
`open(file, mode)` finds or creates the file (and gets a `struct file`),
and whether `exec(path, argv)` finds a program at `path`. -/
structure Env where
  opens : List Char → Nat → Bool
  execs : List Char → Bool

/-- What shows of a process of the shell: it starts a program with its
descriptors, prints on descriptor `2` (to nothing when `2` is closed), or
exits. -/
inductive Event where
  | exec (argv : List (List Char)) (fds : Fds)
  | print (dest : Option Obj) (text : List Char)
  | exit (status : Nat)

/-! ### The system calls, on the calling process's descriptors -/

/-- `close(fd)`: `sys_close` empties a slot that holds a file; `-1` for any
other `fd`. -/
def sysClose (fds : Fds) (fd : Nat) : Int × Fds :=
  if h : fd < nofile then
    match fds ⟨fd, h⟩ with
    | some _ => (0, Function.update fds ⟨fd, h⟩ none)
    | none => (-1, fds)
  else (-1, fds)

/-- `dup(fd)`: the first free descriptor refers to what `fd` does. -/
def sysDup (fds : Fds) (fd : Nat) : Int × Fds :=
  if h : fd < nofile then
    match fds ⟨fd, h⟩ with
    | some o =>
      match place fds o with
      | some (fd', fds') => (fd'.val, fds')
      | none => (-1, fds)
    | none => (-1, fds)
  else (-1, fds)

/-- `open(file, mode)`, where `found` is what the file system answers: the
file in the first free descriptor, `-1` when none is free. -/
def sysOpen (fds : Fds) (file : List Char) (mode : Nat) (found : Bool) : Int × Fds :=
  if found then
    match place fds (.file file mode) with
    | some (fd, fds') => (fd.val, fds')
    | none => (-1, fds)
  else (-1, fds)

/-- `pipe(p)` for the pipe numbered `id`: the read end in the first free
descriptor and the write end in the next, with `p[0]` and `p[1]`; none when
`sys_pipe` found no second descriptor and took the first back. -/
def sysPipe (fds : Fds) (id : Nat) : Option ((Nat × Nat) × Fds) :=
  match place fds (.pipe id false) with
  | none => none
  | some (fd0, fds) =>
    match place fds (.pipe id true) with
    | none => none
    | some (fd1, fds) => some ((fd0.val, fd1.val), fds)

/-! ### `runcmd` -/

/-- `panic(s)` of `sh.c`: `fprintf(2, "%s\n", s); exit(1);`. -/
def shellPanic (fds : Fds) (message : List Char) : List Event :=
  [.print (fds stderr) (message ++ ['\n']), .exit 1]

/-- `runcmd`'s `EXEC` case: `exit(1)` without words, else the program, or
`exec %s failed` and `exit(0)` when `exec` returns. -/
def runExec (env : Env) (argv : List (List Char)) (fds : Fds) : List Event :=
  match argv with
  | [] => [.exit 1]
  | path :: _ =>
    if env.execs path then [.exec argv fds]
    else [.print (fds stderr) ("exec ".toList ++ path ++ " failed\n".toList), .exit 0]

/-- `open %s failed` and `exit(1)`, after a redirection's `open` failed. -/
def openFailed (fds : Fds) (file : List Char) : List Event :=
  [.print (fds stderr) ("open ".toList ++ file ++ " failed\n".toList), .exit 1]

/-- `runcmd(cmd)` by a process with descriptors `fds`, and by the children it
forks, each child's run where the parent forks it; `next` numbers the next
pipe, and the number after the last is returned. -/
def runcmd (env : Env) : Cmd → Fds → Nat → List Event × Nat
  | .exec argv, fds, next => (runExec env argv fds, next)
  | .redir cmd file mode fd, fds, next =>
    let opened := sysOpen (sysClose fds fd).2 file mode (env.opens file mode)
    if opened.1 < 0 then (openFailed opened.2 file, next)
    else runcmd env cmd opened.2 next
  | .list left right, fds, next =>
    let first := runcmd env left fds next
    let second := runcmd env right fds first.2
    (first.1 ++ second.1, second.2)
  | .pipe left right, fds, next =>
    match sysPipe fds next with
    | none => (shellPanic fds "pipe".toList, next)
    | some ((p0, p1), piped) =>
      let writer := (sysClose (sysClose (sysDup (sysClose piped 1).2 p1).2 p0).2 p1).2
      let reader := (sysClose (sysClose (sysDup (sysClose piped 0).2 p0).2 p0).2 p1).2
      let first := runcmd env left writer (next + 1)
      let second := runcmd env right reader first.2
      (first.1 ++ second.1 ++ [.exit 0], second.2)
  | .back cmd, fds, next =>
    let child := runcmd env cmd fds next
    (child.1 ++ [.exit 0], child.2)

/-! ### What `runcmd` is for -/

/-- Descriptor `fd` set to `o`. -/
def assign (fds : Fds) (fd : Nat) (o : Obj) : Fds :=
  if h : fd < nofile then Function.update fds ⟨fd, h⟩ (some o) else fds

/-- `runcmd` as its descriptors are meant: a redirection sets the descriptor
it names to the file, a pipe sets the writer's `1` and the reader's `0` to
its ends and needs two free descriptors, and a program starts with the
shell's descriptors so set, the setting nearest it last. -/
def plumb (env : Env) : Cmd → Fds → Nat → List Event × Nat
  | .exec argv, fds, next => (runExec env argv fds, next)
  | .redir cmd file mode fd, fds, next =>
    if env.opens file mode then plumb env cmd (assign fds fd (.file file mode)) next
    else (openFailed fds file, next)
  | .list left right, fds, next =>
    let first := plumb env left fds next
    let second := plumb env right fds first.2
    (first.1 ++ second.1, second.2)
  | .pipe left right, fds, next =>
    if ∃ i j, i ≠ j ∧ fds i = none ∧ fds j = none then
      let first := plumb env left (assign fds 1 (.pipe next true)) (next + 1)
      let second := plumb env right (assign fds 0 (.pipe next false)) first.2
      (first.1 ++ second.1 ++ [.exit 0], second.2)
    else (shellPanic fds "pipe".toList, next)
  | .back cmd, fds, next =>
    let child := plumb env cmd fds next
    (child.1 ++ [.exit 0], child.2)

/-- Every redirection names descriptor `0` or `1`, as `parseredirs` makes
them. -/
def Cmd.RedirsStd : Cmd → Prop
  | .exec _ => True
  | .redir cmd _ _ fd => fd < 2 ∧ cmd.RedirsStd
  | .pipe left right => left.RedirsStd ∧ right.RedirsStd
  | .list left right => left.RedirsStd ∧ right.RedirsStd
  | .back cmd => cmd.RedirsStd

/-- Descriptors `0`, `1` and `2` are open. -/
def StdOpen (fds : Fds) : Prop :=
  ∀ i : Fin nofile, i.val < 3 → fds i ≠ none

/-! ### The system calls when `0`, `1` and `2` are open -/

section Calls

variable {fds piped : Fds}

theorem StdOpen.assign (std : StdOpen fds) (fd : Nat) (o : Obj) : StdOpen (assign fds fd o) := by
  intro i low
  unfold Shell.assign
  split
  · rw [Function.update_apply]
    split
    · exact Option.some_ne_none o
    · exact std i low
  · exact std i low

theorem assign_above {k : Nat} (low : k < 2) (o : Obj) {i : Fin nofile} (high : 2 ≤ i.val) :
    assign fds k o i = fds i := by
  rw [Shell.assign, dif_pos (by unfold nofile; omega), Function.update_of_ne]
  intro same
  rw [same] at high
  simp only at high
  omega

theorem inherits_of_assign {fds' : Fds} {k : Nat} (low : k < 2) {o : Obj}
    (inherits : (StdOpen (assign fds k o) → StdOpen fds') ∧ ∀ i : Fin nofile, 2 ≤ i.val → fds' i = assign fds k o i) :
    (StdOpen fds → StdOpen fds') ∧ ∀ i : Fin nofile, 2 ≤ i.val → fds' i = fds i := by
  obtain ⟨keeps, above⟩ := inherits
  exact ⟨fun std => keeps (std.assign k o), fun i high => by rw [above i high, assign_above low o high]⟩

theorem sysClose_of_open {fd : Fin nofile} (opened : fds fd ≠ none) :
    sysClose fds fd.val = (0, Function.update fds fd none) := by
  obtain ⟨o, found⟩ := Option.ne_none_iff_exists'.mp opened
  simp [sysClose, found]

theorem sysOpen_sysClose (std : StdOpen fds) {fd : Nat} (low : fd < 3) (file : List Char) (mode : Nat) :
    sysOpen (sysClose fds fd).2 file mode true = ((fd : Int), assign fds fd (.file file mode)) := by
  have h : fd < nofile := by unfold nofile; omega
  have closed : sysClose fds fd = (0, Function.update fds ⟨fd, h⟩ none) := sysClose_of_open (std ⟨fd, h⟩ low)
  rw [closed]
  have full : ∀ j : Fin nofile, j < ⟨fd, h⟩ → fds j ≠ none := fun j below =>
    std j (lt_trans (Fin.lt_def.mp below) low)
  simp [sysOpen, place_update_none full, Shell.assign, h]

theorem sysOpen_false (file : List Char) (mode : Nat) : sysOpen fds file mode false = (-1, fds) := rfl

theorem sysPipe_eq_some {id p0 p1 : Nat} (made : sysPipe fds id = some ((p0, p1), piped)) :
    ∃ f0 f1 : Fin nofile, f0.val = p0 ∧ f1.val = p1 ∧ f0 ≠ f1 ∧ fds f0 = none ∧ fds f1 = none ∧
      piped = Function.update (Function.update fds f0 (some (.pipe id false))) f1 (some (.pipe id true)) := by
  unfold sysPipe at made
  cases first : place fds (.pipe id false) with
  | none =>
    rw [first] at made
    cases made
  | some placed =>
    obtain ⟨f0, fds1⟩ := placed
    rw [first] at made
    dsimp only at made
    cases second : place fds1 (.pipe id true) with
    | none =>
      rw [second] at made
      cases made
    | some placed' =>
      obtain ⟨f1, fds2⟩ := placed'
      rw [second] at made
      simp only [Option.some.injEq, Prod.mk.injEq] at made
      obtain ⟨⟨rfl, rfl⟩, rfl⟩ := made
      obtain ⟨free0, -, rfl⟩ := place_eq_some first
      obtain ⟨free1, -, rfl⟩ := place_eq_some second
      have apart : f0 ≠ f1 := by
        rintro rfl
        rw [Function.update_self] at free1
        cases free1
      rw [Function.update_of_ne apart.symm] at free1
      exact ⟨f0, f1, rfl, rfl, apart, free0, free1, rfl⟩

theorem sysPipe_isSome (id : Nat) : (sysPipe fds id).isSome ↔ ∃ i j, i ≠ j ∧ fds i = none ∧ fds j = none := by
  constructor
  · intro made
    obtain ⟨⟨⟨p0, p1⟩, piped⟩, made⟩ := Option.isSome_iff_exists.mp made
    obtain ⟨f0, f1, -, -, apart, free0, free1, -⟩ := sysPipe_eq_some made
    exact ⟨f0, f1, apart, free0, free1⟩
  · rintro ⟨i, j, apart, free, free'⟩
    unfold sysPipe
    cases first : place fds (.pipe id false) with
    | none => exact absurd free ((place_eq_none.mp first) i)
    | some placed =>
      obtain ⟨f0, fds1⟩ := placed
      obtain ⟨-, -, rfl⟩ := place_eq_some first
      have room : ∃ k, Function.update fds f0 (some (.pipe id false)) k = none := by
        by_cases taken : i = f0
        · refine ⟨j, ?_⟩
          rw [Function.update_of_ne (taken ▸ apart).symm]
          exact free'
        · exact ⟨i, by rw [Function.update_of_ne taken]; exact free⟩
      obtain ⟨k, roomK⟩ := room
      dsimp only
      cases second : place (Function.update fds f0 (some (.pipe id false))) (.pipe id true) with
      | none => exact absurd roomK ((place_eq_none.mp second) k)
      | some placed' => rfl

theorem StdOpen.free_above (std : StdOpen fds) {f : Fin nofile} (free : fds f = none) : 3 ≤ f.val := by
  by_contra low
  exact std f (by omega) free

theorem plug (std : StdOpen fds) {f0 f1 : Fin nofile} (apart : f0 ≠ f1) (free0 : fds f0 = none)
    (free1 : fds f1 = none) {r w : Obj} (made : piped = Function.update (Function.update fds f0 (some r)) f1 (some w))
    {k : Nat} (low : k < 3) {e : Fin nofile} {o : Obj} (plugged : piped e = some o) (wide : 3 ≤ e.val) :
    (sysClose (sysClose (sysDup (sysClose piped k).2 e.val).2 f0.val).2 f1.val).2 = assign fds k o := by
  have h : k < nofile := by unfold nofile; omega
  have above0 := std.free_above free0
  have above1 := std.free_above free1
  have below : ∀ j : Fin nofile, j.val < 3 → piped j = fds j := fun j small => by
    rw [made, Function.update_of_ne (by rintro rfl; omega), Function.update_of_ne (by rintro rfl; omega)]
  have ne : ∀ j : Fin nofile, 3 ≤ j.val → j ≠ ⟨k, h⟩ := fun j wide same => by
    rw [same] at wide
    simp only at wide
    omega
  have closed : sysClose piped k = (0, Function.update piped ⟨k, h⟩ none) :=
    sysClose_of_open (show piped ⟨k, h⟩ ≠ none by rw [below _ low]; exact std _ low)
  have full : ∀ j : Fin nofile, j < ⟨k, h⟩ → piped j ≠ none := fun j before => by
    have small : j.val < 3 := lt_trans (Fin.lt_def.mp before) low
    rw [below j small]
    exact std j small
  have duped : sysDup (Function.update piped ⟨k, h⟩ none) e.val = ((k : Int), Function.update piped ⟨k, h⟩ (some o)) := by
    simp [sysDup, e.isLt, Function.update_of_ne (ne e wide), plugged, place_update_none full]
  have opened : ∀ f : Fin nofile, 3 ≤ f.val → piped f ≠ none → Function.update piped ⟨k, h⟩ (some o) f ≠ none :=
    fun f wide held => by rw [Function.update_of_ne (ne f wide)]; exact held
  have held0 : piped f0 ≠ none := by
    rw [made, Function.update_of_ne apart, Function.update_self]
    exact Option.some_ne_none r
  have held1 : piped f1 ≠ none := by
    rw [made, Function.update_self]
    exact Option.some_ne_none w
  rw [closed, duped, sysClose_of_open (opened f0 above0 held0)]
  dsimp only
  rw [sysClose_of_open (by rw [Function.update_of_ne apart.symm]; exact opened f1 above1 held1)]
  dsimp only
  have k0 : f0 ≠ ⟨k, h⟩ := ne f0 above0
  have k1 : f1 ≠ ⟨k, h⟩ := ne f1 above1
  funext x
  rw [Shell.assign, dif_pos h]
  by_cases x1 : x = f1
  · subst x1
    rw [Function.update_self, Function.update_of_ne k1, free1]
  rw [Function.update_of_ne x1]
  by_cases x0 : x = f0
  · subst x0
    rw [Function.update_self, Function.update_of_ne k0, free0]
  rw [Function.update_of_ne x0]
  by_cases xk : x = ⟨k, h⟩
  · subst xk
    rw [Function.update_self, Function.update_self]
  rw [Function.update_of_ne xk, Function.update_of_ne xk, made, Function.update_of_ne x1, Function.update_of_ne x0]

end Calls

/-! ### `runcmd` does what `plumb` says -/

theorem runcmd_eq_plumb (env : Env) :
    ∀ (cmd : Cmd) (fds : Fds) (next : Nat), StdOpen fds → cmd.RedirsStd →
      runcmd env cmd fds next = plumb env cmd fds next := by
  intro cmd
  induction cmd with
  | exec argv => intro fds next _ _; rfl
  | redir cmd file mode fd ih =>
    rintro fds next std ⟨low, inner⟩
    rw [runcmd, plumb]
    cases opens : env.opens file mode with
    | true =>
      rw [sysOpen_sysClose std (by omega), if_pos rfl]
      dsimp only
      rw [if_neg (by omega)]
      exact ih _ next (std.assign fd _) inner
    | false =>
      have h : fd < nofile := by unfold nofile; omega
      have closed : sysClose fds fd = (0, Function.update fds ⟨fd, h⟩ none) :=
        sysClose_of_open (std ⟨fd, h⟩ (show fd < 3 by omega))
      rw [sysOpen_false, if_neg Bool.false_ne_true, closed]
      dsimp only
      rw [if_pos (by omega), openFailed, openFailed, Function.update_of_ne]
      intro same
      rw [stderr, Fin.mk.injEq] at same
      omega
  | list left right ihl ihr =>
    rintro fds next std ⟨inl, inr⟩
    rw [runcmd, plumb, ihl fds next std inl, ihr fds _ std inr]
  | pipe left right ihl ihr =>
    rintro fds next std ⟨inl, inr⟩
    rw [runcmd, plumb]
    cases made : sysPipe fds next with
    | none =>
      have full : ¬ ∃ i j, i ≠ j ∧ fds i = none ∧ fds j = none := fun two => by
        have some := (sysPipe_isSome next).mpr two
        rw [made] at some
        exact Bool.false_ne_true some
      rw [if_neg full]
    | some val =>
      obtain ⟨⟨p0, p1⟩, piped⟩ := val
      obtain ⟨f0, f1, rfl, rfl, apart, free0, free1, ends⟩ := sysPipe_eq_some made
      rw [if_pos ⟨f0, f1, apart, free0, free1⟩]
      dsimp only
      have writeEnd : piped f1 = some (.pipe next true) := by rw [ends, Function.update_self]
      have readEnd : piped f0 = some (.pipe next false) := by
        rw [ends, Function.update_of_ne apart, Function.update_self]
      rw [plug std apart free0 free1 ends (by omega) writeEnd (std.free_above free1),
        plug std apart free0 free1 ends (by omega) readEnd (std.free_above free0),
        ihl _ _ (std.assign 1 _) inl, ihr _ _ (std.assign 0 _) inr]
  | back cmd ih =>
    rintro fds next std inner
    rw [runcmd, plumb, ih fds next std inner]

theorem plumb_exec (env : Env) :
    ∀ (cmd : Cmd) (fds : Fds) (next : Nat), cmd.RedirsStd → ∀ argv fds', Event.exec argv fds' ∈ (plumb env cmd fds next).1 →
      (StdOpen fds → StdOpen fds') ∧ ∀ i : Fin nofile, 2 ≤ i.val → fds' i = fds i := by
  intro cmd
  induction cmd with
  | exec argv =>
    intro fds next _ argv' fds' started
    rw [plumb] at started
    unfold runExec at started
    split at started
    · simp at started
    · split at started
      · simp only [List.mem_singleton, Event.exec.injEq] at started
        rw [started.2]
        exact ⟨id, fun _ _ => rfl⟩
      · simp at started
  | redir cmd file mode fd ih =>
    rintro fds next ⟨low, inner⟩ argv fds' started
    rw [plumb] at started
    split at started
    · exact inherits_of_assign low (ih _ next inner argv fds' started)
    · simp [openFailed] at started
  | list left right ihl ihr =>
    rintro fds next ⟨inl, inr⟩ argv fds' started
    rw [plumb] at started
    rcases List.mem_append.mp started with first | second
    · exact ihl fds next inl argv fds' first
    · exact ihr fds _ inr argv fds' second
  | pipe left right ihl ihr =>
    rintro fds next ⟨inl, inr⟩ argv fds' started
    rw [plumb] at started
    split at started
    · simp only [List.mem_append, List.mem_singleton, reduceCtorEq, or_false] at started
      rcases started with first | second
      · exact inherits_of_assign (by omega) (ihl _ _ inl argv fds' first)
      · exact inherits_of_assign (by omega) (ihr _ _ inr argv fds' second)
    · simp [shellPanic] at started
  | back cmd ih =>
    rintro fds next inner argv fds' started
    rw [plumb] at started
    simp only [List.mem_append, List.mem_singleton, reduceCtorEq, or_false] at started
    exact ih fds next inner argv fds' started

/-! ### `main` and `parsecmd` give `runcmd` what it needs -/

/-- The path `main` opens. -/
def console : List Char := "console".toList

/-- `main`'s first loop, `while((fd = open("console", O_RDWR)) >= 0)` with
`if(fd >= 3){ close(fd); break; }` in it, for at most `fuel` passes; every
pass but the last fills a free descriptor, so `nofile + 1` are always
enough. -/
def openConsoles (env : Env) : Nat → Fds → Fds
  | 0, fds => fds
  | fuel + 1, fds =>
    let opened := sysOpen fds console Files.oRdwr (env.opens console Files.oRdwr)
    if opened.1 < 0 then opened.2
    else if 3 ≤ opened.1 then (sysClose opened.2 opened.1.toNat).2
    else openConsoles env fuel opened.2

/-- The descriptors `sh` starts with, after `main`'s first loop. -/
def mainFds (env : Env) (fds : Fds) : Fds :=
  openConsoles env (nofile + 1) fds

/-- The console in every closed descriptor below `3`, the rest as it was. -/
def consoled (fds : Fds) : Fds := fun i =>
  if i.val < 3 ∧ fds i = none then some (.file console Files.oRdwr) else fds i

theorem consoled_stdOpen (fds : Fds) : StdOpen (consoled fds) := by
  intro i low
  unfold consoled
  split
  · exact Option.some_ne_none _
  · rename_i closed
    exact fun none => closed ⟨low, none⟩

theorem consoled_update {fds : Fds} {f : Fin nofile} (free : fds f = none) (low : f.val < 3) :
    consoled (Function.update fds f (some (.file console Files.oRdwr))) = consoled fds := by
  funext x
  unfold consoled
  by_cases same : x = f
  · subst same
    simp [free, low]
  · simp [Function.update_of_ne same]

theorem consoled_of_std {fds : Fds} (std : StdOpen fds) : consoled fds = fds := by
  funext x
  unfold consoled
  rw [if_neg]
  rintro ⟨low, closed⟩
  exact std x low closed

theorem openConsoles_eq {env : Env} (opens : env.opens console Files.oRdwr = true) :
    ∀ (fuel : Nat) (fds : Fds), (∀ j : Fin nofile, j.val + fuel < 3 → fds j ≠ none) →
      openConsoles env fuel fds = consoled fds := by
  intro fuel
  induction fuel with
  | zero =>
    intro fds std
    rw [openConsoles, consoled_of_std fun j low => std j (by omega)]
  | succ fuel ih =>
    intro fds opened
    rw [openConsoles, opens]
    cases placed : place fds (.file console Files.oRdwr) with
    | none =>
      have full := place_eq_none.mp placed
      rw [sysOpen, if_pos rfl, placed]
      dsimp only
      rw [if_pos (by omega), consoled_of_std fun j _ => full j]
    | some value =>
      obtain ⟨f, fds'⟩ := value
      obtain ⟨free, before, rfl⟩ := place_eq_some placed
      rw [sysOpen, if_pos rfl, placed]
      dsimp only
      rw [if_neg (by omega)]
      by_cases high : 3 ≤ f.val
      · rw [if_pos (by omega), show ((f.val : Int)).toNat = f.val by omega,
          sysClose_of_open (by rw [Function.update_self]; exact Option.some_ne_none _)]
        dsimp only
        rw [Function.update_idem, ← free, Function.update_eq_self,
          consoled_of_std fun j low => before j (by rw [Fin.lt_def]; omega)]
      · rw [if_neg (by omega), ← consoled_update free (by omega)]
        apply ih
        intro j small
        by_cases same : j = f
        · rw [same, Function.update_self]
          exact Option.some_ne_none _
        rw [Function.update_of_ne same]
        rcases lt_or_gt_of_ne same with below | above
        · exact before j below
        · have far : 3 ≤ f.val + (fuel + 1) := by
            by_contra near
            exact opened f (by omega) free
          rw [Fin.lt_def] at above
          omega

theorem mainFds_eq {env : Env} (opens : env.opens console Files.oRdwr = true) (fds : Fds) :
    mainFds env fds = consoled fds :=
  openConsoles_eq opens _ fds fun j far => by unfold nofile at far; omega

section Parsed

variable {c : Cmd} {rs : List Redirection}

theorem wrap_redirsStd (inner : c.RedirsStd) (low : ∀ r ∈ rs, r.2.2 < 2) : (wrap c rs).RedirsStd := by
  induction rs generalizing c with
  | nil => exact inner
  | cons r rs ih =>
    exact ih ⟨low r (List.mem_cons_self ..), inner⟩ fun r' mem => low r' (List.mem_cons_of_mem r mem)

theorem back_iterate_redirsStd (inner : c.RedirsStd) (n : Nat) : (Cmd.back^[n] c).RedirsStd := by
  induction n with
  | zero => exact inner
  | succ n ih =>
    rw [Function.iterate_succ_apply']
    exact ih

theorem Sh.Redirs.low {ts : List Token} (derived : Sh.Redirs ts rs) : ∀ r ∈ rs, r.2.2 < 2 := by
  induction derived with
  | nil => simp
  | cons red _ ih =>
    intro r mem
    rcases List.mem_cons.mp mem with rfl | later
    · rcases Sh.redirection_cases red with ⟨-, -, rfl⟩ | ⟨-, -, rfl⟩ | ⟨-, -, rfl⟩ <;> simp
    · exact ih r later

theorem Sh.Words.low {ts : List Token} {ws : List (List Char)} (derived : Sh.Words ts ws rs) :
    ∀ r ∈ rs, r.2.2 < 2 := by
  induction derived with
  | nil => simp
  | cons redirs _ ih =>
    intro r mem
    rcases List.mem_append.mp mem with here | later
    · exact redirs.low r here
    · exact ih r later

mutual

theorem Sh.Line.redirsStd {ts : List Token} {c : Cmd} : Sh.Line ts c → c.RedirsStd
  | .last n pipe => back_iterate_redirsStd pipe.redirsStd n
  | .list n pipe line => ⟨back_iterate_redirsStd pipe.redirsStd n, line.redirsStd⟩

theorem Sh.Pipe.redirsStd {ts : List Token} {c : Cmd} : Sh.Pipe ts c → c.RedirsStd
  | .one exec => exec.redirsStd
  | .cons exec pipe => ⟨exec.redirsStd, pipe.redirsStd⟩

theorem Sh.Exec.redirsStd {ts : List Token} {c : Cmd} : Sh.Exec ts c → c.RedirsStd
  | .block line redirs => wrap_redirsStd line.redirsStd redirs.low
  | .simple redirs words _ => wrap_redirsStd trivial fun r mem => by
    rcases List.mem_append.mp mem with first | later
    · exact redirs.low r first
    · exact words.low r later

end

theorem parsecmd_redirsStd {line : List Char} (parsed : Sh.parsecmd line = .ok c) : c.RedirsStd := by
  unfold Sh.parsecmd at parsed
  cases result : Sh.parseline (4 * (line.length + 1)) line with
  | error e =>
    rw [result] at parsed
    cases parsed
  | ok value =>
    obtain ⟨c', r⟩ := value
    rw [result] at parsed
    obtain ⟨-, ts, -, derived⟩ := ((Sh.parse_sound _).1 line).of_ok result
    dsimp only [bind, Except.bind] at parsed
    split at parsed
    · cases parsed
    · cases parsed
      exact derived.redirsStd

end Parsed

/-! ### Every command line `sh` runs -/

/-- For every descriptor table `sh` starts with where the console opens, and
every line `parsecmd` accepts: what the command's processes do (the programs
they start with their descriptors, what they print on descriptor `2`, how
they exit) is what `plumb` says, from the table `main`'s loop leaves, with
the console in each of `0`, `1` and `2` that was closed. -/
theorem sh_plumbs_line (env : Env) (opens : env.opens console Files.oRdwr = true) (fds : Fds)
    {line : List Char} {cmd : Cmd} (parsed : Sh.parsecmd line = .ok cmd) (next : Nat) :
    runcmd env cmd (mainFds env fds) next = plumb env cmd (consoled fds) next := by
  rw [mainFds_eq opens]
  exact runcmd_eq_plumb env cmd _ next (consoled_stdOpen fds) (parsecmd_redirsStd parsed)

/-- A file system where everything opens and every program is found. -/
def openingEnv : Env := ⟨fun _ _ => true, fun _ => true⟩

/-- `a < b | c > d`, as `parsecmd` reads it. -/
def pipelineCmd : Cmd :=
  .pipe (.redir (.exec ["a".toList]) "b".toList oRdonly 0)
    (.redir (.exec ["c".toList]) "d".toList (oWronly ||| oCreate) 1)

theorem sh_plumbs_line_pipeline :
    runcmd openingEnv pipelineCmd (mainFds openingEnv fun _ => none) 0 =
      plumb openingEnv pipelineCmd (consoled fun _ => none) 0 :=
  sh_plumbs_line openingEnv rfl (fun _ => none)
    (show Sh.parsecmd "a<b|c>d".toList = .ok pipelineCmd by decide) 0

/-- No program a command line starts inherits a stray descriptor, such as an
end of a pipe the shell made for others: its descriptors `0`, `1` and `2` are
open, and every descriptor from `2` up is the shell's after `main`'s loop. -/
theorem sh_programs_descriptors (env : Env) (opens : env.opens console Files.oRdwr = true) (fds : Fds)
    {line : List Char} {cmd : Cmd} (parsed : Sh.parsecmd line = .ok cmd) (next : Nat)
    {argv : List (List Char)} {fds' : Fds} (started : Event.exec argv fds' ∈ (runcmd env cmd (mainFds env fds) next).1) :
    StdOpen fds' ∧ ∀ i : Fin nofile, 2 ≤ i.val → fds' i = consoled fds i := by
  have redirs := parsecmd_redirsStd parsed
  rw [mainFds_eq opens, runcmd_eq_plumb env cmd _ next (consoled_stdOpen fds) redirs] at started
  obtain ⟨keeps, above⟩ := plumb_exec env cmd _ next redirs argv fds' started
  exact ⟨keeps (consoled_stdOpen fds), above⟩

theorem pipeline_starts_a :
    Event.exec ["a".toList] (assign (assign (consoled fun _ => none) 1 (.pipe 0 true)) 0 (.file "b".toList oRdonly)) ∈
      (runcmd openingEnv pipelineCmd (mainFds openingEnv fun _ => none) 0).1 := by
  have two : ∃ i j : Fin nofile, i ≠ j ∧ consoled (fun _ => none) i = none ∧ consoled (fun _ => none) j = none :=
    ⟨⟨3, by decide⟩, ⟨4, by decide⟩, by decide, rfl, rfl⟩
  rw [mainFds_eq rfl, runcmd_eq_plumb openingEnv pipelineCmd _ 0 (consoled_stdOpen _)
    ⟨⟨by decide, trivial⟩, ⟨by decide, trivial⟩⟩, pipelineCmd, plumb, if_pos two]
  exact List.mem_append_left _ (List.mem_append_left _ (List.mem_singleton_self _))

theorem sh_programs_descriptors_pipeline :
    StdOpen (assign (assign (consoled fun _ => none) 1 (.pipe 0 true)) 0 (.file "b".toList oRdonly)) ∧
      ∀ i : Fin nofile, 2 ≤ i.val →
        assign (assign (consoled fun _ => none) 1 (.pipe 0 true)) 0 (.file "b".toList oRdonly) i =
          consoled (fun _ => none) i :=
  sh_programs_descriptors openingEnv rfl (fun _ => none)
    (show Sh.parsecmd "a<b|c>d".toList = .ok pipelineCmd by decide) 0 pipeline_starts_a

end Xv6.Shell

/-! ### The kernel's `fdalloc` -/

namespace Xv6.Files.Sys

theorem fdalloc_eq_place (s : Sys) (p : Fin nproc) (f : Fin nfile) :
    s.fdalloc p f = match Lib.place (s.proc p).ofile f with
      | some (fd, _) => (some fd, s.setOfile p fd (some f))
      | none => (none, s) := by
  have same : (fun fd => (s.proc p).ofile fd == none) = fun fd => ((s.proc p).ofile fd).isNone := by
    funext fd
    cases (s.proc p).ofile fd <;> rfl
  unfold fdalloc Lib.place Lib.firstFree
  rw [same]
  cases (List.finRange nofile).find? fun fd => ((s.proc p).ofile fd).isNone <;> rfl

end Xv6.Files.Sys
