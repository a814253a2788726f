import Xv6.Vm.Proc
import Xv6.Lib.Run

/-! The life of a process in `proc.c`: `allocpid` and `allocproc` under `fork`,
`exit` with `reparent` and `wakeup1`, `wait` with `freeproc`, and `kill`. Each
system call runs under the locks it takes, so it is one event; a `wait` that
finds children but no zombie sleeps on its own process and scans again when it
wakes. The memory a process owns is `Xv6.Vm`'s concern: here `fork` only learns
whether it had its trapframe page and the copy of the parent's memory. Ghost
fields count the pids handed out. -/

namespace Xv6.Lifecycle

open Xv6.Lib
open Xv6.Vm (ProcState)

/-- The fields of `struct proc` that `fork`, `exit`, `wait` and `kill` read
and write. -/
structure Proc where
  state : ProcState
  pid : Int32
  parent : Option (Fin nproc)
  /-- `p->chan`: only `wait` sleeps here, on the waiting process itself. -/
  chan : Option (Fin nproc)
  killed : Bool
  xstate : Int32
  /-- Ghost: how many pids `allocpid` had handed out before this one. -/
  serial : Nat
  deriving DecidableEq

/-- A slot as the boot leaves it: all zero. -/
def Proc.zero : Proc :=
  { state := .unused, pid := 0, parent := none, chan := none, killed := false, xstate := 0, serial := 0 }

/-- The process table and `nextpid`, with a ghost count of the pids handed out. -/
@[ext]
structure Table where
  proc : Fin nproc → Proc
  nextpid : Int32
  handedOut : Nat

/-- `initproc`: `userinit` allocates the first slot. -/
def initproc : Fin nproc := ⟨0, nproc_pos⟩

namespace Table

variable {t : Table} {i j : Fin nproc} {p : Proc}

def setProc (t : Table) (i : Fin nproc) (p : Proc) : Table :=
  { t with proc := Function.update t.proc i p }

@[simp] theorem setProc_self : (t.setProc i p).proc i = p :=
  Function.update_self ..

@[simp] theorem setProc_of_ne (other : j ≠ i) : (t.setProc i p).proc j = t.proc j :=
  Function.update_of_ne other ..

@[simp] theorem setProc_nextpid : (t.setProc i p).nextpid = t.nextpid := rfl

@[simp] theorem setProc_handedOut : (t.setProc i p).handedOut = t.handedOut := rfl

/-- On a CPU, so able to make a system call. -/
def runs (t : Table) (p : Fin nproc) : Bool :=
  (t.proc p).state == .runnable || (t.proc p).state == .running

/-- `allocpid`. -/
def allocpid (t : Table) : Int32 × Table :=
  (t.nextpid, { t with nextpid := t.nextpid + 1, handedOut := t.handedOut + 1 })

/-- `freeproc`, on the fields here; a free slot has no serial. -/
def freeproc (t : Table) (i : Fin nproc) : Table :=
  t.setProc i { t.proc i with
    pid := 0, parent := none, chan := none, killed := false, xstate := 0, state := .unused, serial := 0 }

@[simp] theorem freeproc_self : ((t.freeproc i).proc i).state = .unused := by
  simp [freeproc]

theorem freeproc_of_ne (other : j ≠ i) : (t.freeproc i).proc j = t.proc j := by
  simp [freeproc, other]

@[simp] theorem freeproc_nextpid : (t.freeproc i).nextpid = t.nextpid := rfl

@[simp] theorem freeproc_handedOut : (t.freeproc i).handedOut = t.handedOut := rfl

/-- The first `UNUSED` slot, where the scan of `allocproc` stops. -/
def firstUnused (t : Table) : Option (Fin nproc) :=
  (List.finRange nproc).find? fun i => (t.proc i).state == .unused

/-- `allocproc`: the first `UNUSED` slot with a new pid, or none when no slot
is free or, `trapframe` false, no trapframe page is; the pid is spent all the
same, and the slot stays `UNUSED` until `fork` makes it `RUNNABLE`. -/
def allocproc (t : Table) (trapframe : Bool) : Option (Fin nproc) × Table :=
  match t.firstUnused with
  | none => (none, t)
  | some np =>
    let (pid, t') := t.allocpid
    let t' := t'.setProc np { t.proc np with pid := pid, serial := t.handedOut }
    if trapframe then (some np, t') else (none, t')

/-- What became of the memory `fork` needs: the trapframe page of `allocproc`,
and `uvmcopy` of the parent's memory. -/
inductive ForkMem where
  | ok
  | noTrapframe
  | copyFails
  deriving DecidableEq, Repr

/-- `fork()` by `p`: the child's pid, or `-1`. -/
def fork (t : Table) (p : Fin nproc) (mem : ForkMem) : Int32 × Table :=
  match t.allocproc (mem != .noTrapframe) with
  | (none, t) => (-1, t)
  | (some np, t) =>
    if mem == .copyFails then (-1, t.freeproc np)
    else ((t.proc np).pid, t.setProc np { t.proc np with parent := some p, state := .runnable })

/-- `wakeup1(p)`: wakes `p` if it sleeps in `wait`. -/
def wakeup1 (t : Table) (p : Fin nproc) : Table :=
  if (t.proc p).chan == some p && (t.proc p).state == .sleeping then
    t.setProc p { t.proc p with state := .runnable }
  else t

@[simp] theorem wakeup1_nextpid : (t.wakeup1 i).nextpid = t.nextpid := by
  unfold wakeup1
  split <;> rfl

@[simp] theorem wakeup1_handedOut : (t.wakeup1 i).handedOut = t.handedOut := by
  unfold wakeup1
  split <;> rfl

/-- `reparent(p)`: gives `p`'s children to `initproc`. -/
def reparent (t : Table) (p : Fin nproc) : Table :=
  { t with proc := fun q =>
      if (t.proc q).parent == some p then { t.proc q with parent := some initproc } else t.proc q }

theorem reparent_proc (t : Table) (p j : Fin nproc) :
    (t.reparent p).proc j =
      if (t.proc j).parent = some p then { t.proc j with parent := some initproc } else t.proc j := by
  simp [reparent]

@[simp] theorem reparent_state (t : Table) (p j : Fin nproc) :
    ((t.reparent p).proc j).state = (t.proc j).state := by
  rw [reparent_proc]
  split <;> rfl

@[simp] theorem reparent_pid (t : Table) (p j : Fin nproc) :
    ((t.reparent p).proc j).pid = (t.proc j).pid := by
  rw [reparent_proc]
  split <;> rfl

@[simp] theorem reparent_xstate (t : Table) (p j : Fin nproc) :
    ((t.reparent p).proc j).xstate = (t.proc j).xstate := by
  rw [reparent_proc]
  split <;> rfl

@[simp] theorem reparent_serial (t : Table) (p j : Fin nproc) :
    ((t.reparent p).proc j).serial = (t.proc j).serial := by
  rw [reparent_proc]
  split <;> rfl

@[simp] theorem reparent_parent (t : Table) (p j : Fin nproc) :
    ((t.reparent p).proc j).parent =
      if (t.proc j).parent = some p then some initproc else (t.proc j).parent := by
  rw [reparent_proc]
  split <;> rfl

@[simp] theorem reparent_nextpid (t : Table) (p : Fin nproc) : (t.reparent p).nextpid = t.nextpid := rfl

@[simp] theorem reparent_handedOut (t : Table) (p : Fin nproc) :
    (t.reparent p).handedOut = t.handedOut := rfl

/-- `exit(status)` by `p`, which does not return: `initproc` may not exit;
another process wakes `initproc` and its parent, gives its children to
`initproc` and becomes a zombie. Without a parent `exit` would lock a null
pointer, a step not modelled. -/
def exit (t : Table) (p : Fin nproc) (status : Int32) : Option (Outcome Table) :=
  if p = initproc then some (.panicked "init exiting")
  else
    let t := t.wakeup1 initproc
    match (t.proc p).parent with
    | none => none
    | some parent =>
      let t := (t.reparent p).wakeup1 parent
      some (.running (t.setProc p { t.proc p with xstate := status, state := .zombie }))

/-- What a scan of `wait` comes to: a child reaped, with its pid and the status
copied out; `-1`; or asleep until a child exits. -/
inductive Waited where
  | reaped (pid xstate : Int32)
  | failed
  | asleep
  deriving DecidableEq, Repr

/-- `np` is a child of `p`. -/
def childOf (t : Table) (p np : Fin nproc) : Bool :=
  (t.proc np).parent == some p

/-- One scan of the loop of `wait(addr)` by `p`: the first zombie child in
table order is reaped, unless copying its status to `addr` fails (`copied`
false). -/
def waitScan (t : Table) (p : Fin nproc) (copied : Bool) : Waited × Table :=
  match (List.finRange nproc).find? fun np => t.childOf p np && (t.proc np).state == .zombie with
  | some np =>
    if copied then (.reaped (t.proc np).pid (t.proc np).xstate, t.freeproc np) else (.failed, t)
  | none =>
    if !(List.finRange nproc).any (t.childOf p) || (t.proc p).killed then (.failed, t)
    else (.asleep, t.setProc p { t.proc p with chan := some p, state := .sleeping })

/-- `wait(addr)` by `p`, from its first scan or from a wakeup: `sleep` clears
`chan` before the next scan. -/
def wait (t : Table) (p : Fin nproc) (copied : Bool) : Waited × Table :=
  (t.setProc p { t.proc p with chan := none }).waitScan p copied

/-- `kill(pid)`: marks the first slot with that pid, whatever its state, and
wakes it from `sleep`. -/
def kill (t : Table) (pid : Int32) : Int32 × Table :=
  match (List.finRange nproc).find? fun i => (t.proc i).pid == pid with
  | none => (-1, t)
  | some i =>
    let p := t.proc i
    (0, t.setProc i { p with killed := true, state := if p.state == .sleeping then .runnable else p.state })

end Table

/-- The system calls of the process lifecycle; `copied` says whether `wait`
could copy the status out. -/
inductive Event where
  | fork (p : Fin nproc) (mem : Table.ForkMem)
  | exit (p : Fin nproc) (status : Int32)
  | wait (p : Fin nproc) (copied : Bool)
  | kill (pid : Int32)

namespace Table

/-- A process on a CPU makes system calls; one woken inside `wait`, its `chan`
still set, goes on with `wait`. -/
def step (t : Table) : Event → Option (Outcome Table)
  | .fork p mem => if t.runs p && (t.proc p).chan == none then some (.running (t.fork p mem).2) else none
  | .exit p status => if t.runs p && (t.proc p).chan == none then t.exit p status else none
  | .wait p copied => if t.runs p then some (.running (t.wait p copied).2) else none
  | .kill pid => some (.running (t.kill pid).2)

/-- The table after `userinit`: `initproc` runnable with pid 1, every other
slot zero. -/
def booted : Table where
  proc := fun i => if i = initproc then { Proc.zero with state := .runnable, pid := 1 } else Proc.zero
  nextpid := 2
  handedOut := 1

def system : System Table Event where
  init := booted
  step := step

end Table

end Xv6.Lifecycle
