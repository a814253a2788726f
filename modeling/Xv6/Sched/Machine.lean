import Mathlib
import Xv6.Spinlock
import Xv6.Vm.Proc

/-! The kernel's sleep locks on the CPUs that run them, from `sleeplock.c`,
`proc.c`, `spinlock.c` and `kerneltrap` in `trap.c`. `acquiresleep` and
`releasesleep` call `sleep` and `wakeup`, which take each process's
`p->lock` and the sleep lock's spinlock `lk->lk` with `acquire` and
`release`, and these call `push_off` and `pop_off` of `Xv6.Spinlock`. Each
CPU runs `scheduler()`, which switches to a RUNNABLE process under its
`p->lock`; a process gives the CPU back through `sched()`, from `sleep`, or
from `yield` when a timer interrupt finds interrupts on. Every process runs
the sleep-lock protocol of `bget` and `ilock`: it takes one sleep lock, holds
it for a while and releases it, again and again.

A step is what one CPU does between two points where another CPU can see the
difference: an `acquire`, a `release`, or the writes a thread makes under a
lock it holds. The spin of `acquire` is no step: the `acquire` is enabled
once no CPU holds the lock. A timer interrupt that comes while another CPU
holds the lock comes, as far as any CPU can tell, before the `push_off` that
turns interrupts off. `c->proc` is the process the CPU has switched to
(`Loop.switched`); the scheduler clears it before anything reads it again.
Processes are named by their slot, and `lk->pid` by the slot of the holder. -/

namespace Xv6.Sched

open Lib
open Xv6.Vm (ProcState)

/-- The spinlocks: each process's `p->lock`, and the spinlock `lk->lk` of
each sleep lock. -/
inductive Lock (n : Nat) (L : Type) where
  | proc (p : Fin n)
  | sleep (l : L)
  deriving DecidableEq

/-- Where a process's kernel thread is, or resumes when a CPU switches to it. -/
inductive Pc (n : Nat) (L : Type) where
  /-- `acquiresleep`: `while (lk->locked)`, holding `lk->lk`. -/
  | whileLocked (l : L)
  /-- `sleep(lk, &lk->lk)`: `acquire(&p->lock)`. -/
  | sleepAcquire (l : L)
  /-- `release(lk)`. -/
  | sleepRelease (l : L)
  /-- `p->chan = chan; p->state = SLEEPING; sched();`. -/
  | sleepSched (l : L)
  /-- Back from `sched()`: `p->chan = 0; release(&p->lock);`. -/
  | sleepTidy (l : L)
  /-- `acquire(lk)`, then `while (lk->locked)` again. -/
  | sleepReacquire (l : L)
  /-- `release(&lk->lk)`, after `lk->locked = 1; lk->pid = myproc()->pid;`. -/
  | acquiredRelease (l : L)
  /-- The caller's code while it holds the sleep lock; then `releasesleep`:
  `acquire(&lk->lk)`. -/
  | critical (l : L)
  /-- `lk->locked = 0; lk->pid = 0;`. -/
  | releaseClear (l : L)
  /-- `wakeup(lk)`: `acquire(&proc[i].lock)`, or the end of the loop. -/
  | wakeup (l : L) (i : Nat)
  /-- `wakeup(lk)`, holding `proc[i].lock`: the test, and `release`. -/
  | wakeupTest (l : L) (i : Fin n)
  /-- `releasesleep`: `release(&lk->lk)`. -/
  | releaseRelease (l : L)
  /-- In a system call, holding no sleep lock. -/
  | outside
  /-- A new process: `forkret`'s `release(&myproc()->lock)`. -/
  | forkret
  /-- `yield` from `kerneltrap`, which then goes back to `resume`:
  `acquire(&p->lock)`. -/
  | yieldAcquire (resume : Pc n L)
  /-- `p->state = RUNNABLE; sched();`. -/
  | yieldSched (resume : Pc n L)
  /-- Back from `sched()`: `release(&p->lock)`, and out of `kerneltrap`. -/
  | yieldRelease (resume : Pc n L)
  deriving DecidableEq

/-- Where a CPU's `scheduler()` is: about to take `proc[i].lock` (a new round
of `for(;;)` at `i = NPROC`), testing the process whose lock it took,
switched to that process, or back from it. -/
inductive Loop (n : Nat) where
  | scan (i : Nat)
  | found (p : Fin n)
  | switched (p : Fin n)
  | back (p : Fin n)
  deriving DecidableEq

/-- The fields of `struct proc` that the scheduler, `sleep` and `wakeup` read
and write, with where its kernel thread is. -/
structure Proc (n : Nat) (L : Type) where
  state : ProcState
  /-- `p->chan`: the sleep lock it sleeps on; `0` is `none`. -/
  chan : Option L
  pc : Pc n L
  /-- The `intena` that `sched()` keeps on the thread's stack across `swtch`. -/
  intena : Bool

/-- `struct sleeplock`: whether it is held, and `lk->pid`. -/
structure SleepLock (n : Nat) where
  locked : Bool
  pid : Option (Fin n)

/-- The processes, the CPUs with where their scheduler is, the spinlocks'
`locked` and `cpu` (the CPU that holds each), and the sleep locks. -/
structure State (n m : Nat) (L : Type) where
  procs : Fin n → Proc n L
  cpus : Fin m → Cpu
  loop : Fin m → Loop n
  holder : Lock n L → Option (Fin m)
  sleeplocks : L → SleepLock n

/-- What happens next: a CPU's next step, a system call that starts
`acquiresleep`, or a timer interrupt. -/
inductive Event (m : Nat) (L : Type) where
  | run (c : Fin m)
  | call (c : Fin m) (l : L)
  | tick (c : Fin m)

namespace State

variable {n m : Nat} {L : Type}

def setProc (s : State n m L) (p : Fin n) (q : Proc n L) : State n m L :=
  { s with procs := Function.update s.procs p q }

def setPc (s : State n m L) (p : Fin n) (pc : Pc n L) : State n m L :=
  s.setProc p { s.procs p with pc := pc }

def setLoop (s : State n m L) (c : Fin m) (place : Loop n) : State n m L :=
  { s with loop := Function.update s.loop c place }

def setCpu (s : State n m L) (c : Fin m) (cpu : Cpu) : State n m L :=
  { s with cpus := Function.update s.cpus c cpu }

/-- The CPU's `intena` set to `b`. -/
def setIntena (s : State n m L) (c : Fin m) (b : Bool) : State n m L :=
  s.setCpu c { s.cpus c with intena := b }

/-- `intr_on()` or `intr_off()`. -/
def setIntr (s : State n m L) (c : Fin m) (b : Bool) : State n m L :=
  s.setCpu c { s.cpus c with intr := b }

section Setters

variable {s : State n m L} {c : Fin m} {p : Fin n}

@[simp] theorem setProc_procs (q : Proc n L) : (s.setProc p q).procs = Function.update s.procs p q := rfl
@[simp] theorem setProc_cpus (q : Proc n L) : (s.setProc p q).cpus = s.cpus := rfl
@[simp] theorem setProc_loop (q : Proc n L) : (s.setProc p q).loop = s.loop := rfl
@[simp] theorem setProc_holder (q : Proc n L) : (s.setProc p q).holder = s.holder := rfl
@[simp] theorem setProc_sleeplocks (q : Proc n L) : (s.setProc p q).sleeplocks = s.sleeplocks := rfl

@[simp] theorem setPc_eq (pc : Pc n L) : s.setPc p pc = s.setProc p { s.procs p with pc := pc } := rfl

@[simp] theorem setLoop_procs (place : Loop n) : (s.setLoop c place).procs = s.procs := rfl
@[simp] theorem setLoop_cpus (place : Loop n) : (s.setLoop c place).cpus = s.cpus := rfl
@[simp] theorem setLoop_loop (place : Loop n) : (s.setLoop c place).loop = Function.update s.loop c place := rfl
@[simp] theorem setLoop_holder (place : Loop n) : (s.setLoop c place).holder = s.holder := rfl
@[simp] theorem setLoop_sleeplocks (place : Loop n) : (s.setLoop c place).sleeplocks = s.sleeplocks := rfl

@[simp] theorem setCpu_procs (cpu : Cpu) : (s.setCpu c cpu).procs = s.procs := rfl
@[simp] theorem setCpu_cpus (cpu : Cpu) : (s.setCpu c cpu).cpus = Function.update s.cpus c cpu := rfl
@[simp] theorem setCpu_loop (cpu : Cpu) : (s.setCpu c cpu).loop = s.loop := rfl
@[simp] theorem setCpu_holder (cpu : Cpu) : (s.setCpu c cpu).holder = s.holder := rfl
@[simp] theorem setCpu_sleeplocks (cpu : Cpu) : (s.setCpu c cpu).sleeplocks = s.sleeplocks := rfl

@[simp] theorem setIntena_eq (b : Bool) : s.setIntena c b = s.setCpu c { s.cpus c with intena := b } := rfl
@[simp] theorem setIntr_eq (b : Bool) : s.setIntr c b = s.setCpu c { s.cpus c with intr := b } := rfl

end Setters

variable [DecidableEq L]

def setSleep (s : State n m L) (l : L) (lk : SleepLock n) : State n m L :=
  { s with sleeplocks := Function.update s.sleeplocks l lk }

/-- CPU `c` has taken the free spinlock `lk`, after `push_off`. -/
def take (s : State n m L) (c : Fin m) (lk : Lock n L) : State n m L :=
  { s with holder := Function.update s.holder lk (some c), cpus := Function.update s.cpus c (pushOff (s.cpus c)) }

/-- CPU `c` has let go of spinlock `lk`, with `cpu` what `pop_off` left. -/
def drop (s : State n m L) (c : Fin m) (lk : Lock n L) (cpu : Cpu) : State n m L :=
  { s with holder := Function.update s.holder lk none, cpus := Function.update s.cpus c cpu }

/-- `acquire(lk)` on CPU `c`, then `k`: `push_off`, the `holding` check, and
the spin, which takes no step while another CPU holds `lk`. -/
def acquire (s : State n m L) (c : Fin m) (lk : Lock n L) (k : State n m L → State n m L) :
    Option (Outcome (State n m L)) :=
  match s.holder lk with
  | none => some (.running (k (s.take c lk)))
  | some d => if d = c then some (.panicked "acquire") else none

/-- `release(lk)` on CPU `c`, then `k`: the `holding` check, and `pop_off`. -/
def release (s : State n m L) (c : Fin m) (lk : Lock n L) (k : State n m L → State n m L) :
    Outcome (State n m L) :=
  if s.holder lk = some c then
    match popOff (s.cpus c) with
    | .running cpu => .running (k (s.drop c lk cpu))
    | .panicked message => .panicked message
  else .panicked "release"

/-- `sched()` from process `p` on CPU `c`: its four checks, then `swtch` to
the scheduler, keeping the CPU's `intena` on the thread's stack; the thread
will resume at `resume`. -/
def sched (s : State n m L) (c : Fin m) (p : Fin n) (resume : Pc n L) : Outcome (State n m L) :=
  if s.holder (.proc p) ≠ some c then .panicked "sched p->lock"
  else if (s.cpus c).noff ≠ 1 then .panicked "sched locks"
  else if (s.procs p).state = .running then .panicked "sched running"
  else if (s.cpus c).intr then .panicked "sched interruptible"
  else .running ((s.setProc p { s.procs p with pc := resume, intena := (s.cpus c).intena }).setLoop c (.back p))

/-- `wakeup`'s test of `proc[i]`, under its lock:
`if(p->state == SLEEPING && p->chan == chan) p->state = RUNNABLE;`. -/
def wake (s : State n m L) (i : Fin n) (l : L) : State n m L :=
  if (s.procs i).state = .sleeping ∧ (s.procs i).chan = some l then
    s.setProc i { s.procs i with state := .runnable }
  else s

/-- The next step of process `p`'s kernel thread on CPU `c`. -/
def exec (s : State n m L) (c : Fin m) (p : Fin n) : Option (Outcome (State n m L)) :=
  match (s.procs p).pc with
  | .whileLocked l =>
    if (s.sleeplocks l).locked then some (.running (s.setPc p (.sleepAcquire l)))
    else some (.running ((s.setSleep l ⟨true, some p⟩).setPc p (.acquiredRelease l)))
  | .sleepAcquire l => s.acquire c (.proc p) (·.setPc p (.sleepRelease l))
  | .sleepRelease l => some (s.release c (.sleep l) (·.setPc p (.sleepSched l)))
  | .sleepSched l =>
    some ((s.setProc p { s.procs p with chan := some l, state := .sleeping }).sched c p (.sleepTidy l))
  | .sleepTidy l =>
    some (((s.setIntena c (s.procs p).intena).setProc p { s.procs p with chan := none }).release c (.proc p)
      (·.setPc p (.sleepReacquire l)))
  | .sleepReacquire l => s.acquire c (.sleep l) (·.setPc p (.whileLocked l))
  | .acquiredRelease l => some (s.release c (.sleep l) (·.setPc p (.critical l)))
  | .critical l => s.acquire c (.sleep l) (·.setPc p (.releaseClear l))
  | .releaseClear l => some (.running ((s.setSleep l ⟨false, none⟩).setPc p (.wakeup l 0)))
  | .wakeup l i =>
    if h : i < n then s.acquire c (.proc ⟨i, h⟩) (·.setPc p (.wakeupTest l ⟨i, h⟩))
    else some (.running (s.setPc p (.releaseRelease l)))
  | .wakeupTest l i => some ((s.wake i l).release c (.proc i) (·.setPc p (.wakeup l (i.val + 1))))
  | .releaseRelease l => some (s.release c (.sleep l) (·.setPc p .outside))
  | .outside => none
  | .forkret => some (s.release c (.proc p) fun t => (t.setPc p .outside).setIntr c true)
  | .yieldAcquire r => s.acquire c (.proc p) (·.setPc p (.yieldSched r))
  | .yieldSched r => some ((s.setProc p { s.procs p with state := .runnable }).sched c p (.yieldRelease r))
  | .yieldRelease r =>
    some ((s.setIntena c (s.procs p).intena).release c (.proc p) fun t => (t.setPc p r).setIntr c true)

/-- The next step of CPU `c` with its scheduler at `place`. -/
def schedule (s : State n m L) (c : Fin m) : Loop n → Option (Outcome (State n m L))
  | .scan i =>
    if h : i < n then s.acquire c (.proc ⟨i, h⟩) (·.setLoop c (.found ⟨i, h⟩))
    else some (.running ((s.setIntr c false).setLoop c (.scan 0)))
  | .found p =>
    if (s.procs p).state = .runnable then
      some (.running ((s.setProc p { s.procs p with state := .running }).setLoop c (.switched p)))
    else some ((s.setIntena c false).release c (.proc p) (·.setLoop c (.scan (p.val + 1))))
  | .switched p => s.exec c p
  | .back p => some ((s.setIntena c false).release c (.proc p) (·.setLoop c (.scan (p.val + 1))))

/-- A timer interrupt taken by process `p` on CPU `c`: the trap turns
interrupts off, and `kerneltrap` calls `yield` for a RUNNING process;
otherwise it returns at once, interrupts on again. -/
def trap (s : State n m L) (c : Fin m) (p : Fin n) : State n m L :=
  if (s.procs p).state = .running then (s.setIntr c false).setPc p (.yieldAcquire (s.procs p).pc) else s

def step (s : State n m L) : Event m L → Option (Outcome (State n m L))
  | .run c => s.schedule c (s.loop c)
  | .call c l =>
    match s.loop c with
    | .switched p => if (s.procs p).pc = .outside then s.acquire c (.sleep l) (·.setPc p (.whileLocked l)) else none
    | _ => none
  | .tick c =>
    match s.loop c with
    | .switched p => if (s.cpus c).intr then some (.running (s.trap c p)) else none
    | _ => none

/-! ### What each operation does -/

section Spec

variable {s t : State n m L} {c d : Fin m} {p : Fin n} {lk : Lock n L} {k : State n m L → State n m L}
  {message : String}

@[simp] theorem setSleep_procs (l : L) (lk : SleepLock n) : (s.setSleep l lk).procs = s.procs := rfl
@[simp] theorem setSleep_cpus (l : L) (lk : SleepLock n) : (s.setSleep l lk).cpus = s.cpus := rfl
@[simp] theorem setSleep_loop (l : L) (lk : SleepLock n) : (s.setSleep l lk).loop = s.loop := rfl
@[simp] theorem setSleep_holder (l : L) (lk : SleepLock n) : (s.setSleep l lk).holder = s.holder := rfl
@[simp] theorem setSleep_sleeplocks (l : L) (lk : SleepLock n) :
    (s.setSleep l lk).sleeplocks = Function.update s.sleeplocks l lk := rfl

@[simp] theorem take_procs : (s.take c lk).procs = s.procs := rfl
@[simp] theorem take_cpus : (s.take c lk).cpus = Function.update s.cpus c (pushOff (s.cpus c)) := rfl
@[simp] theorem take_loop : (s.take c lk).loop = s.loop := rfl
@[simp] theorem take_holder : (s.take c lk).holder = Function.update s.holder lk (some c) := rfl
@[simp] theorem take_sleeplocks : (s.take c lk).sleeplocks = s.sleeplocks := rfl

@[simp] theorem drop_procs (cpu : Cpu) : (s.drop c lk cpu).procs = s.procs := rfl
@[simp] theorem drop_cpus (cpu : Cpu) : (s.drop c lk cpu).cpus = Function.update s.cpus c cpu := rfl
@[simp] theorem drop_loop (cpu : Cpu) : (s.drop c lk cpu).loop = s.loop := rfl
@[simp] theorem drop_holder (cpu : Cpu) : (s.drop c lk cpu).holder = Function.update s.holder lk none := rfl
@[simp] theorem drop_sleeplocks (cpu : Cpu) : (s.drop c lk cpu).sleeplocks = s.sleeplocks := rfl

theorem acquire_running (go : s.acquire c lk k = some (.running t)) :
    s.holder lk = none ∧ t = k (s.take c lk) := by
  unfold acquire at go
  split at go
  · rename_i free
    simp only [Option.some.injEq, Outcome.running.injEq] at go
    exact ⟨free, go.symm⟩
  · split at go <;> cases go

theorem acquire_panicked (stop : s.acquire c lk k = some (.panicked message)) : s.holder lk = some c := by
  unfold acquire at stop
  split at stop
  · cases stop
  · rename_i d mine
    split at stop
    · rename_i same
      rw [mine, same]
    · cases stop

theorem release_of_mine (mine : s.holder lk = some c) (off : (s.cpus c).intr = false)
    (pushed : 1 ≤ (s.cpus c).noff) :
    s.release c lk k = .running (k (s.drop c lk
      { intr := decide ((s.cpus c).noff = 1) && (s.cpus c).intena, noff := (s.cpus c).noff - 1,
        intena := (s.cpus c).intena })) := by
  unfold release
  rw [if_pos mine, popOff_eq off pushed]

theorem release_panicked (stop : s.release c lk k = .panicked message) :
    s.holder lk ≠ some c ∨ (s.cpus c).intr = true ∨ (s.cpus c).noff < 1 := by
  by_cases mine : s.holder lk = some c
  · by_cases off : (s.cpus c).intr = false
    · by_cases pushed : 1 ≤ (s.cpus c).noff
      · rw [release_of_mine mine off pushed] at stop
        cases stop
      · exact .inr (.inr (by omega))
    · exact .inr (.inl (by simpa using off))
  · exact .inl mine

@[simp] theorem wake_loop (i : Fin n) (l : L) : (s.wake i l).loop = s.loop := by
  unfold wake; split <;> rfl
@[simp] theorem wake_cpus (i : Fin n) (l : L) : (s.wake i l).cpus = s.cpus := by
  unfold wake; split <;> rfl
@[simp] theorem wake_holder (i : Fin n) (l : L) : (s.wake i l).holder = s.holder := by
  unfold wake; split <;> rfl
@[simp] theorem wake_sleeplocks (i : Fin n) (l : L) : (s.wake i l).sleeplocks = s.sleeplocks := by
  unfold wake; split <;> rfl

theorem wake_procs (i : Fin n) (l : L) (q : Fin n) :
    (s.wake i l).procs q = { s.procs q with state := ((s.wake i l).procs q).state } := by
  unfold wake
  split
  · by_cases same : q = i
    · subst same
      simp
    · simp [same]
  · rfl

@[simp] theorem wake_pc (i : Fin n) (l : L) (q : Fin n) : ((s.wake i l).procs q).pc = (s.procs q).pc := by
  rw [wake_procs]

@[simp] theorem wake_chan (i : Fin n) (l : L) (q : Fin n) : ((s.wake i l).procs q).chan = (s.procs q).chan := by
  rw [wake_procs]

@[simp] theorem wake_intena (i : Fin n) (l : L) (q : Fin n) :
    ((s.wake i l).procs q).intena = (s.procs q).intena := by
  rw [wake_procs]

theorem wake_state (i : Fin n) (l : L) (q : Fin n) :
    ((s.wake i l).procs q).state =
      if q = i ∧ (s.procs i).state = .sleeping ∧ (s.procs i).chan = some l then .runnable else (s.procs q).state := by
  unfold wake
  by_cases asleep : (s.procs i).state = .sleeping ∧ (s.procs i).chan = some l
  · rw [if_pos asleep]
    by_cases same : q = i
    · subst same
      simp [asleep]
    · simp [same]
  · rw [if_neg asleep]
    simp [asleep]

omit [DecidableEq L] in
theorem sched_of_ok (mine : s.holder (.proc p) = some c) (one : (s.cpus c).noff = 1)
    (notRunning : (s.procs p).state ≠ .running) (off : (s.cpus c).intr = false) (resume : Pc n L) :
    s.sched c p resume = .running ((s.setProc p { s.procs p with pc := resume, intena := (s.cpus c).intena }).setLoop c (.back p)) := by
  simp [sched, mine, one, notRunning, off]

omit [DecidableEq L] in
theorem sched_panicked {resume : Pc n L} (stop : s.sched c p resume = .panicked message) :
    s.holder (.proc p) ≠ some c ∨ (s.cpus c).noff ≠ 1 ∨ (s.procs p).state = .running ∨ (s.cpus c).intr = true := by
  by_contra fine
  simp only [not_or, not_not, Bool.not_eq_true] at fine
  obtain ⟨mine, one, notRunning, off⟩ := fine
  rw [sched_of_ok mine one notRunning off] at stop
  cases stop

end Spec

end State

variable {n m : Nat} {L : Type} [DecidableEq L]

/-- After boot and `n` forks: every process RUNNABLE at `forkret`, every CPU
at the start of `scheduler()`, every lock free. -/
def boot : State n m L where
  procs _ := { state := .runnable, chan := none, pc := .forkret, intena := false }
  cpus _ := { intr := false, noff := 0, intena := false }
  loop _ := .scan 0
  holder _ := none
  sleeplocks _ := { locked := false, pid := none }

/-- `n` processes on `m` CPUs with the sleep locks `L`. -/
def machine (n m : Nat) (L : Type) [DecidableEq L] : System (State n m L) (Event m L) where
  init := boot
  step := State.step

end Xv6.Sched
