import Mathlib
import Xv6.Lib.Owners
import Xv6.Sched.Machine

/-! What holds in every state the machine reaches, as one invariant,
`Coherent`. The spinlocks each CPU holds are those the place of its thread
says (`Pc.locks`), and its `noff`, `intr` and `intena` match them; a process
on a CPU is RUNNING and on that CPU only, and a process on none rests where
`scheduler()` can switch to it; each sleep lock's `pid` names the one process
between `acquiresleep`'s `lk->locked = 1` and `releasesleep`'s
`lk->locked = 0`. On top of these (`Sound`), no wakeup is lost (`Waits`): a
process asleep on a sleep lock finds it held, or finds a process in `wakeup`
for it that has not yet tested it. -/

namespace Xv6.Sched

open Lib
open Xv6.Vm (ProcState)

variable {n m : Nat} {L : Type}

namespace Pc

/-- The spinlocks the thread of process `p` holds at `pc`, while it runs. -/
def locks (p : Fin n) : Pc n L → List (Lock n L)
  | .whileLocked l | .sleepAcquire l | .acquiredRelease l | .releaseClear l | .wakeup l _
  | .releaseRelease l => [.sleep l]
  | .sleepRelease l => [.proc p, .sleep l]
  | .wakeupTest l i => [.proc i, .sleep l]
  | .sleepSched _ | .sleepTidy _ | .forkret | .yieldSched _ | .yieldRelease _ => [.proc p]
  | .sleepReacquire _ | .critical _ | .outside | .yieldAcquire _ => []

/-- The places where the thread holds no spinlock and runs with interrupts on,
so that a timer interrupt can come. -/
def interruptible : Pc n L → Bool
  | .sleepReacquire _ | .critical _ | .outside => true
  | _ => false

/-- While the thread holds a spinlock, the CPU's `intena`: what the outermost
`push_off` found. A thread the scheduler has just switched to has the
scheduler's, `false`, until `sched()` gives it back its own. -/
def intena : Pc n L → Bool
  | .whileLocked _ | .sleepAcquire _ | .sleepRelease _ | .sleepSched _ | .acquiredRelease _
  | .releaseClear _ | .wakeup _ _ | .wakeupTest _ _ | .releaseRelease _ => true
  | _ => false

/-- `kerneltrap` goes back only to a place where a timer interrupt can come. -/
def Wf : Pc n L → Prop
  | .yieldAcquire r | .yieldSched r | .yieldRelease r => r.interruptible = true
  | _ => True

/-- The sleep lock the process holds: from `acquiresleep`'s `lk->locked = 1`
to `releasesleep`'s `lk->locked = 0`. -/
def sleepHeld : Pc n L → Option L
  | .acquiredRelease l | .critical l | .releaseClear l => some l
  | .yieldAcquire r | .yieldSched r | .yieldRelease r => r.sleepHeld
  | _ => none

/-- The sleep lock that the process, in `sleep`, is about to sleep on. -/
def sleepingOn : Pc n L → Option L
  | .sleepAcquire l | .sleepRelease l | .sleepSched l => some l
  | _ => none

/-- In `wakeup` for sleep lock `l`, with `proc[i]` and those after it still to
test. -/
def waking : Pc n L → Option (L × Nat)
  | .wakeup l i => some (l, i)
  | .wakeupTest l i => some (l, i.val)
  | _ => none

/-- The places where a thread off its CPU waits for `scheduler()`. -/
def rests : Pc n L → Bool
  | .forkret | .sleepTidy _ | .yieldRelease _ => true
  | _ => false

/-- At a place of resumption, the `intena` that `sched()` kept on the stack:
interrupts were on when `acquiresleep` began, and off in the timer interrupt. -/
def saved : Pc n L → Option Bool
  | .sleepTidy _ => some true
  | .yieldRelease _ => some false
  | _ => none

theorem locks_nodup (pc : Pc n L) (p : Fin n) : (pc.locks p).Nodup := by
  cases pc <;> simp [locks]

theorem interruptible_spec {pc : Pc n L} (p : Fin n) (on : pc.interruptible = true) :
    pc.locks p = [] ∧ pc.sleepingOn = none ∧ pc.waking = none ∧ pc.saved = none ∧ pc.Wf := by
  cases pc <;> simp_all [interruptible, locks, sleepingOn, waking, saved, Wf]

theorem locks_of_interruptible {pc : Pc n L} (p : Fin n) (on : pc.interruptible = true) : pc.locks p = [] :=
  (interruptible_spec p on).1

theorem rests_spec {pc : Pc n L} (p : Fin n) (rest : pc.rests = true) :
    pc.locks p = [.proc p] ∧ pc.interruptible = false ∧ pc.intena = false ∧ pc.sleepingOn = none ∧
      pc.waking = none := by
  cases pc <;> simp_all [rests, locks, interruptible, intena, sleepingOn, waking]

theorem sleepingOn_spec {pc : Pc n L} (p : Fin n) {l : L} (going : pc.sleepingOn = some l) :
    (Lock.sleep l ∈ pc.locks p ∨ Lock.proc p ∈ pc.locks p) ∧ pc.rests = false := by
  cases pc <;> simp_all [sleepingOn, locks, rests]

end Pc

namespace Proc

/-- A process on no CPU waits where `scheduler()` can switch to it: a new
process at `forkret`, or inside `sched()` from `yield` or from `sleep`; only
one from `sleep` can be SLEEPING, on the sleep lock it went to sleep on. -/
def Resting (q : Proc n L) : Prop :=
  match q.pc with
  | .forkret | .yieldRelease _ => q.state = .runnable
  | .sleepTidy l => q.state = .runnable ∨ q.state = .sleeping ∧ q.chan = some l
  | _ => False

/-- The `intena` that `sched()` keeps on the thread's stack is the one its
place of resumption says. -/
def Saved (q : Proc n L) : Prop :=
  ∀ b, q.pc.saved = some b → q.intena = b

theorem Resting.rests {q : Proc n L} (rest : q.Resting) : q.pc.rests = true := by
  unfold Resting at rest
  split at rest <;> simp_all [Pc.rests]

theorem Resting.runnable {q : Proc n L} (rest : q.Resting) : Proc.Resting { q with state := .runnable } := by
  unfold Resting at rest ⊢
  split at rest <;> simp_all

end Proc

namespace State

/-- The spinlocks CPU `c` holds by the place of its thread: the scheduler's,
or those of the process it switched to. -/
def holds (s : State n m L) (c : Fin m) : List (Lock n L) :=
  match s.loop c with
  | .scan _ => []
  | .found p | .back p => [.proc p]
  | .switched p => (s.procs p).pc.locks p

/-- Interrupts are on only in a process, where a timer interrupt can come. -/
def intrOn (s : State n m L) (c : Fin m) : Bool :=
  match s.loop c with
  | .switched p => (s.procs p).pc.interruptible
  | _ => false

/-- The CPU's `intena` while its thread holds a spinlock. -/
def IntenaOk (s : State n m L) (c : Fin m) : Prop :=
  match s.loop c with
  | .found _ => (s.cpus c).intena = false
  | .switched p => (s.procs p).pc.locks p ≠ [] → (s.cpus c).intena = (s.procs p).pc.intena
  | _ => True

/-- CPU `c`'s `noff`, `intr` and `intena` are what the place of its thread
says. -/
structure CpuOk (s : State n m L) (c : Fin m) : Prop where
  noff : (s.cpus c).noff = ((s.holds c).length : Int)
  intr : (s.cpus c).intr = s.intrOn c
  intena : s.IntenaOk c

/-- Each sleep lock's `pid` names its holder, and `locked` says whether it has
one. -/
structure SleepOk (s : State n m L) : Prop where
  owned : Owned (fun l => (s.sleeplocks l).pid) fun p l => (s.procs p).pc.sleepHeld = some l
  locked : ∀ l, (s.sleeplocks l).locked = (s.sleeplocks l).pid.isSome

/-- Process `p` is asleep on sleep lock `l`, or in `sleep` on its way there. -/
def Asleep (s : State n m L) (p : Fin n) (l : L) : Prop :=
  (s.procs p).pc.sleepingOn = some l ∨ (s.procs p).state = .sleeping ∧ (s.procs p).chan = some l

/-- No lost wakeup: a process asleep on a sleep lock finds it held, or a
process in `wakeup` for it that has not yet tested it. -/
def Waits (s : State n m L) : Prop :=
  ∀ p l, s.Asleep p l →
    (s.sleeplocks l).locked = true ∨ ∃ q i, (s.procs q).pc.waking = some (l, i) ∧ i ≤ p.val

/-- The locks, the CPUs and the processes agree. -/
structure Sound (s : State n m L) : Prop where
  owned : Owned s.holder fun c k => k ∈ s.holds c
  cpu : ∀ c, s.CpuOk c
  running : ∀ c p, s.loop c = .switched p → (s.procs p).state = .running
  single : ∀ c d p, s.loop c = .switched p → s.loop d = .switched p → c = d
  back : ∀ c p, s.loop c = .back p → (s.procs p).state ≠ .running
  resting : ∀ p, (∀ c, s.loop c ≠ .switched p) → (s.procs p).Resting
  wf : ∀ p, (s.procs p).pc.Wf
  saved : ∀ p, (s.procs p).Saved
  sleep : s.SleepOk

/-- The invariant of the machine. -/
structure Coherent (s : State n m L) : Prop extends s.Sound where
  waits : s.Waits

variable {s t : State n m L} {c d : Fin m} {p q : Fin n} {k : Lock n L}

theorem holds_of_switched (on : s.loop c = .switched p) : s.holds c = (s.procs p).pc.locks p := by
  simp [holds, on]

theorem intrOn_of_switched (on : s.loop c = .switched p) : s.intrOn c = (s.procs p).pc.interruptible := by
  simp [intrOn, on]

theorem intenaOk_of_switched (on : s.loop c = .switched p) :
    s.IntenaOk c ↔ ((s.procs p).pc.locks p ≠ [] → (s.cpus c).intena = (s.procs p).pc.intena) := by
  simp [IntenaOk, on]

theorem cpuOk_of_switched (on : s.loop c = .switched p)
    (noff : (s.cpus c).noff = ((s.procs p).pc.locks p).length)
    (intr : (s.cpus c).intr = (s.procs p).pc.interruptible)
    (intena : (s.procs p).pc.locks p ≠ [] → (s.cpus c).intena = (s.procs p).pc.intena) : s.CpuOk c :=
  ⟨by rw [holds_of_switched on, noff], by rw [intrOn_of_switched on, intr], (intenaOk_of_switched on).mpr intena⟩

theorem CpuOk.of_switched (ok : s.CpuOk c) (on : s.loop c = .switched p) :
    (s.cpus c).noff = ((s.procs p).pc.locks p).length ∧ (s.cpus c).intr = (s.procs p).pc.interruptible ∧
      ((s.procs p).pc.locks p ≠ [] → (s.cpus c).intena = (s.procs p).pc.intena) :=
  ⟨by rw [ok.noff, holds_of_switched on], by rw [ok.intr, intrOn_of_switched on],
    (intenaOk_of_switched on).mp ok.intena⟩

theorem holds_congr (loop : t.loop d = s.loop d)
    (procs : ∀ q, s.loop d = .switched q → (t.procs q).pc = (s.procs q).pc) : t.holds d = s.holds d := by
  unfold holds
  rw [loop]
  cases there : s.loop d with
  | switched q => dsimp only; rw [procs q there]
  | _ => rfl

theorem CpuOk.congr (ok : s.CpuOk d) (loop : t.loop d = s.loop d) (cpu : t.cpus d = s.cpus d)
    (procs : ∀ q, s.loop d = .switched q → (t.procs q).pc = (s.procs q).pc) : t.CpuOk d := by
  obtain ⟨noff, intr, intena⟩ := ok
  refine ⟨by rw [cpu, holds_congr loop procs, noff], ?_, ?_⟩
  · rw [cpu, intr]
    unfold intrOn
    rw [loop]
    cases there : s.loop d with
    | switched q => dsimp only; rw [procs q there]
    | _ => rfl
  · unfold IntenaOk at intena ⊢
    rw [loop, cpu]
    cases there : s.loop d with
    | switched q =>
      rw [there] at intena
      dsimp only at intena ⊢
      rw [procs q there]
      exact intena
    | _ =>
      rw [there] at intena
      exact intena

theorem SleepOk.congr (ok : s.SleepOk) (sleeplocks : t.sleeplocks = s.sleeplocks)
    (held : ∀ q, (t.procs q).pc.sleepHeld = (s.procs q).pc.sleepHeld) : t.SleepOk := by
  refine ⟨?_, fun l => by rw [sleeplocks]; exact ok.locked l⟩
  rw [sleeplocks]
  exact ok.owned.congr fun q l => by rw [held q]

theorem procs_of_move {α : Type} (f : Proc n L → α) (others : ∀ q, q ≠ p → t.procs q = s.procs q)
    (mine : f (t.procs p) = f (s.procs p)) (q : Fin n) : f (t.procs q) = f (s.procs q) := by
  by_cases same : q = p
  · rw [same, mine]
  · rw [others q same]

theorem forall_of_move (P : Proc n L → Prop) (others : ∀ q, q ≠ p → t.procs q = s.procs q)
    (all : ∀ q, P (s.procs q)) (mine : P (t.procs p)) (q : Fin n) : P (t.procs q) := by
  by_cases same : q = p
  · rw [same]
    exact mine
  · rw [others q same]
    exact all q

theorem Waits.keep (waits : s.Waits)
    (locked : ∀ l, (s.sleeplocks l).locked = true → (t.sleeplocks l).locked = true)
    (waking : ∀ q, (t.procs q).pc.waking = (s.procs q).pc.waking)
    (asleep : ∀ q l, t.Asleep q l → s.Asleep q l ∨ (t.sleeplocks l).locked = true) : t.Waits := by
  intro p l sleeps
  rcases asleep p l sleeps with before | held
  · rcases waits p l before with held | ⟨q, i, there, before⟩
    · exact .inl (locked l held)
    · exact .inr ⟨q, i, by rw [waking q]; exact there, before⟩
  · exact .inl held

theorem asleep_of_move (others : ∀ q, q ≠ p → t.procs q = s.procs q)
    (mine : ∀ l, t.Asleep p l → s.Asleep p l) : ∀ q l, t.Asleep q l → s.Asleep q l ∨ (t.sleeplocks l).locked = true := by
  intro q l sleeps
  by_cases same : q = p
  · subst same
    exact .inl (mine l sleeps)
  · unfold Asleep at sleeps ⊢
    rw [others q same] at sleeps
    exact .inl sleeps

theorem asleep_of_running (others : ∀ q, q ≠ p → t.procs q = s.procs q)
    (running : (t.procs p).state = .running) (going : (t.procs p).pc.sleepingOn = none) :
    ∀ q l, t.Asleep q l → s.Asleep q l := by
  intro q l sleeps
  by_cases same : q = p
  · subst same
    rcases sleeps with going' | ⟨asleep, -⟩
    · rw [going] at going'
      cases going'
    · rw [running] at asleep
      cases asleep
  · unfold Asleep at sleeps ⊢
    rwa [others q same] at sleeps

namespace Sound

theorem holder_of_mem (sound : s.Sound) (on : s.loop c = .switched p) (mine : k ∈ (s.procs p).pc.locks p) :
    s.holder k = some c :=
  (sound.owned k c).mpr (by dsimp only; rw [holds_of_switched on]; exact mine)

theorem holds_other (sound : s.Sound) (on : s.loop c = .switched p) (loop : t.loop = s.loop)
    (others : ∀ q, q ≠ p → t.procs q = s.procs q) (other : d ≠ c) : t.holds d = s.holds d := by
  refine holds_congr (congrFun loop d) fun q there => ?_
  have moved : q ≠ p := by
    rintro rfl
    exact other (sound.single d c q there on)
  rw [others q moved]

theorem move (sound : s.Sound) (on : s.loop c = .switched p) (loop : t.loop = s.loop)
    (others : ∀ q, q ≠ p → t.procs q = s.procs q) (state : (t.procs p).state = (s.procs p).state)
    (cpus : ∀ d, d ≠ c → t.cpus d = s.cpus d) (wf : (t.procs p).pc.Wf) (saved : (t.procs p).Saved)
    (owned : Owned t.holder fun d k => k ∈ t.holds d) (cpu : t.CpuOk c) (sleep : t.SleepOk) : t.Sound := by
  have states : ∀ q, (t.procs q).state = (s.procs q).state := procs_of_move (·.state) others state
  refine ⟨owned, fun d => ?_, fun d q there => ?_, fun d d' q => ?_, fun d q there => ?_, fun q rest => ?_,
    fun q => ?_, fun q => ?_, sleep⟩
  · by_cases same : d = c
    · rw [same]
      exact cpu
    · refine (sound.cpu d).congr (congrFun loop d) (cpus d same) fun q there => ?_
      have moved : q ≠ p := by
        rintro rfl
        exact same (sound.single d c q there on)
      rw [others q moved]
  · rw [states]
    exact sound.running d q (loop ▸ there)
  · rw [loop]
    exact sound.single d d' q
  · rw [states]
    exact sound.back d q (loop ▸ there)
  · have moved : q ≠ p := by
      rintro rfl
      exact rest c (loop ▸ on)
    rw [others q moved]
    exact sound.resting q fun d => loop ▸ rest d
  · exact forall_of_move (·.pc.Wf) others sound.wf wf q
  · exact forall_of_move Proc.Saved others sound.saved saved q

end Sound

end State

end Xv6.Sched
