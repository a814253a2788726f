import Mathlib
import Xv6.Sched.Steps

/-! What every run of the machine of `Machine` keeps. It boots coherent and
every step keeps `Coherent` (`Steps`), so in every reachable state: no check of
`acquire`, `release`, `pop_off` or `sched` fails; a sleep lock's `locked` and
`pid` name its one holder; a spinlock's holder is the CPU whose code holds it,
`noff` counts them, and a CPU with interrupts on holds none; a process runs on
one CPU at most; and no process sleeps on a free sleep lock with no
`wakeup()` still to reach it. -/

namespace Xv6.Sched

open Lib

variable {n m : Nat} {L : Type}

namespace State

variable {s : State n m L} {c : Fin m}

theorem holds_of_intrOn (on : s.intrOn c = true) : s.holds c = [] := by
  unfold intrOn at on
  split at on
  · rename_i p there
    rw [holds_of_switched there]
    exact Pc.locks_of_interruptible p on
  · cases on

end State

theorem boot_coherent : (boot : State n m L).Coherent where
  owned k c := by simp [boot, State.holds]
  cpu c := ⟨by simp [boot, State.holds], by simp [boot, State.intrOn], trivial⟩
  running c p there := by cases there
  single c d p there := by cases there
  back c p there := by cases there
  resting p _ := rfl
  wf p := trivial
  saved p b was := by cases was
  sleep := ⟨fun l p => by simp [boot, Pc.sleepHeld], fun l => rfl⟩
  waits p l asleep := by
    rcases asleep with going | ⟨sleeping, -⟩
    · cases going
    · cases sleeping

variable [DecidableEq L]

theorem coherent_invariant : (machine n m L).Invariant State.Coherent where
  init := boot_coherent
  step := by
    intro s t e inv step
    obtain ⟨t', same, coherent⟩ := inv.safe e _ step
    cases same
    exact coherent

/-- No run of the machine stops: on every CPU and in every interleaving of the
CPUs, the timer and the system calls, every check of `acquire`, `release`,
`pop_off` and `sched` passes. -/
theorem scheduler_never_panics (message : String) : ¬ (machine n m L).CanPanic message := by
  apply coherent_invariant.not_canPanic
  intro s e inv stop
  obtain ⟨t, wrong, -⟩ := inv.safe e _ stop
  cases wrong

/-! ### A run

Two processes on one CPU and one sleep lock. Process `0` takes the lock and
is preempted inside it; process `1` calls `acquiresleep`, finds the lock held
and sleeps. Then process `0` runs again and releases the lock, and its
`wakeup()` has reached process `1`'s slot. -/

section Run

attribute [local instance] neZero_two

/-- The events up to process `1`'s `sched()` in `sleep()`. -/
def sleeperEvents : List (Event 1 Unit) :=
  [.run 0, .run 0, .run 0, .call 0 (), .run 0, .run 0, .tick 0, .run 0, .run 0, .run 0,
    .run 0, .run 0, .run 0, .call 0 (), .run 0, .run 0, .run 0, .run 0]

/-- Process `1` sleeps on the lock that process `0` holds. -/
def sleeperState : State 2 1 Unit :=
  match (machine 2 1 Unit).runFrom (machine 2 1 Unit).init sleeperEvents with
  | some (.running s) => s
  | _ => (machine 2 1 Unit).init

theorem sleeperState_reachable : (machine 2 1 Unit).Reachable sleeperState :=
  System.runFrom_reachable System.Reachable.init sleeperEvents (by rfl)

/-- Ten scheduler steps later the lock is free, process `1` still sleeps, and
process `0`'s `wakeup()` is at process `1`'s slot. -/
def wakingState : State 2 1 Unit :=
  match (machine 2 1 Unit).runFrom sleeperState (List.replicate 10 (.run 0)) with
  | some (.running s) => s
  | _ => sleeperState

theorem wakingState_reachable : (machine 2 1 Unit).Reachable wakingState :=
  System.runFrom_reachable sleeperState_reachable (List.replicate 10 (.run 0)) (by rfl)

end Run

variable {s : State n m L}

/-- In every reachable state a sleep lock is `locked` exactly when a process
is between the return of `acquiresleep` and the end of `releasesleep` on it,
`lk->pid` names that process, and no two processes are there at once. -/
theorem sleeplock_exclusive (reach : (machine n m L).Reachable s) (l : L) :
    ((s.sleeplocks l).locked = true ↔ ∃ p, (s.procs p).pc.sleepHeld = some l) ∧
      (∀ p, (s.sleeplocks l).pid = some p ↔ (s.procs p).pc.sleepHeld = some l) ∧
      ∀ p q, (s.procs p).pc.sleepHeld = some l → (s.procs q).pc.sleepHeld = some l → p = q := by
  have sleep := (coherent_invariant.holds reach).sleep
  refine ⟨?_, sleep.owned l, fun p q first second => sleep.owned.unique first second⟩
  rw [sleep.locked l, Option.isSome_iff_exists]
  exact exists_congr fun p => sleep.owned l p

theorem sleeplock_exclusive_sleeper :
    ((sleeperState.sleeplocks ()).locked = true ↔ ∃ p, (sleeperState.procs p).pc.sleepHeld = some ()) ∧
      (∀ p, (sleeperState.sleeplocks ()).pid = some p ↔ (sleeperState.procs p).pc.sleepHeld = some ()) ∧
      ∀ p q, (sleeperState.procs p).pc.sleepHeld = some () →
        (sleeperState.procs q).pc.sleepHeld = some () → p = q :=
  sleeplock_exclusive sleeperState_reachable ()

/-- In every reachable state a spinlock's holder is the one CPU whose running
code holds it, a CPU's `noff` is the number of spinlocks it holds, and a CPU
with interrupts on holds none, so a timer interrupt never arrives while its CPU
holds a spinlock. -/
theorem spinlocks_held_with_interrupts_off (reach : (machine n m L).Reachable s) (c : Fin m) :
    (∀ k, s.holder k = some c ↔ k ∈ s.holds c) ∧ (s.cpus c).noff = (s.holds c).length ∧
      ((s.cpus c).intr = true → ∀ k, s.holder k ≠ some c) := by
  have inv := coherent_invariant.holds reach
  refine ⟨fun k => inv.owned k c, (inv.cpu c).noff, fun on k held => ?_⟩
  rw [(inv.cpu c).intr] at on
  have mine : k ∈ s.holds c := (inv.owned k c).mp held
  rw [State.holds_of_intrOn on] at mine
  cases mine

theorem spinlocks_held_with_interrupts_off_sleeper :
    (∀ k, sleeperState.holder k = some 0 ↔ k ∈ sleeperState.holds 0) ∧
      (sleeperState.cpus 0).noff = (sleeperState.holds 0).length ∧
      ((sleeperState.cpus 0).intr = true → ∀ k, sleeperState.holder k ≠ some 0) :=
  spinlocks_held_with_interrupts_off sleeperState_reachable 0

/-- In every reachable state a process runs on one CPU at most and is
`RUNNING` there, and a process no CPU runs is stopped where `sched()` returns
to: at `forkret`, `RUNNABLE`, or in `sleep()` or `yield()` after `sched()`,
`SLEEPING` only in `sleep()` on its own channel. -/
theorem process_on_one_cpu (reach : (machine n m L).Reachable s) :
    (∀ c d p, s.loop c = .switched p → s.loop d = .switched p → c = d) ∧
      (∀ c p, s.loop c = .switched p → (s.procs p).state = .running) ∧
      ∀ p, (∀ c, s.loop c ≠ .switched p) → (s.procs p).Resting := by
  have inv := coherent_invariant.holds reach
  exact ⟨inv.single, inv.running, inv.resting⟩

theorem process_on_one_cpu_sleeper :
    (∀ c d p, sleeperState.loop c = .switched p → sleeperState.loop d = .switched p → c = d) ∧
      (∀ c p, sleeperState.loop c = .switched p → (sleeperState.procs p).state = .running) ∧
      ∀ p, (∀ c, sleeperState.loop c ≠ .switched p) → (sleeperState.procs p).Resting :=
  process_on_one_cpu sleeperState_reachable

/-- No lost wakeup: in every reachable state a process `SLEEPING` on a sleep
lock finds the lock held, or a `wakeup()` on it is under way that has not yet
passed the process's slot in the table. -/
theorem sleeper_not_lost (reach : (machine n m L).Reachable s) {p : Fin n} {l : L}
    (sleeping : (s.procs p).state = .sleeping) (chan : (s.procs p).chan = some l) :
    (s.sleeplocks l).locked = true ∨ ∃ q i, (s.procs q).pc.waking = some (l, i) ∧ i ≤ p.val :=
  (coherent_invariant.holds reach).waits p l (.inr ⟨sleeping, chan⟩)

section Run

attribute [local instance] neZero_two

theorem sleeper_not_lost_waking :
    (wakingState.sleeplocks ()).locked = true ∨
      ∃ q i, (wakingState.procs q).pc.waking = some ((), i) ∧ i ≤ 1 :=
  sleeper_not_lost wakingState_reachable (p := 1) rfl rfl

example : (wakingState.sleeplocks ()).locked = false ∧ (wakingState.procs 0).pc.waking = some ((), 1) := by
  decide

end Run

end Xv6.Sched
