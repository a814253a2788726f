import Mathlib
import Xv6.Lifecycle.Table

/-! What the process table keeps over every run of `fork`, `exit`, `wait` and
`kill`: `initproc` never dies, every other process has a parent that can still
`wait` for it, and a zombie leaves the table only through a `wait` of its
parent, which reports its pid and status. The pids are the ghost count of
`allocpid` calls plus one, modulo `2^32`: they stay apart while fewer than
`2^32` were handed out, and no longer. -/

namespace Xv6.Lifecycle

open Xv6.Lib
open Xv6.Vm (ProcState)

/-- Neither `UNUSED` nor `ZOMBIE`: a process that can still `wait`. -/
def Proc.Alive (p : Proc) : Prop :=
  p.state ≠ .unused ∧ p.state ≠ .zombie

/-- `b` is `a` after a wakeup, a `kill` or a change of `chan`: the same
process, in the same phase of its life. -/
structure Proc.SamePhase (a b : Proc) : Prop where
  pid : b.pid = a.pid
  parent : b.parent = a.parent
  xstate : b.xstate = a.xstate
  serial : b.serial = a.serial
  unused : b.state = .unused ↔ a.state = .unused
  zombie : b.state = .zombie ↔ a.state = .zombie

theorem Proc.SamePhase.refl (a : Proc) : a.SamePhase a :=
  ⟨rfl, rfl, rfl, rfl, Iff.rfl, Iff.rfl⟩

theorem Proc.SamePhase.live {a b : Proc} (same : a.SamePhase b) :
    b.state ≠ .unused ↔ a.state ≠ .unused :=
  not_congr same.unused

theorem Proc.SamePhase.alive {a b : Proc} (same : a.SamePhase b) : b.Alive ↔ a.Alive := by
  simp only [Proc.Alive, ne_eq, same.unused, same.zombie]

namespace Table

variable {t t' : Table} {p np i j q : Fin nproc}

/-- The invariant of the process table. -/
structure Inv (t : Table) : Prop where
  initAlive : (t.proc initproc).Alive
  parents : ∀ i, i ≠ initproc → (t.proc i).state ≠ .unused →
    ∃ q, (t.proc i).parent = some q ∧ (t.proc q).Alive
  counter : t.nextpid = Int32.ofNat (t.handedOut + 1)
  serials : ∀ i, (t.proc i).state ≠ .unused →
    (t.proc i).serial < t.handedOut ∧ (t.proc i).pid = Int32.ofNat ((t.proc i).serial + 1)
  distinct : ∀ i j, i ≠ j → (t.proc i).state ≠ .unused → (t.proc j).state ≠ .unused →
    (t.proc i).serial ≠ (t.proc j).serial

/-! ### Each operation keeps the invariant -/

theorem Inv.of_fewer (inv : t.Inv) (nextpid : t'.nextpid = t.nextpid) (handedOut : t'.handedOut = t.handedOut)
    (fewer : ∀ i, (t'.proc i).state ≠ .unused →
      (t.proc i).state ≠ .unused ∧ (t'.proc i).serial = (t.proc i).serial ∧ (t'.proc i).pid = (t.proc i).pid)
    (initAlive : (t'.proc initproc).Alive)
    (parents : ∀ i, i ≠ initproc → (t'.proc i).state ≠ .unused →
      ∃ q, (t'.proc i).parent = some q ∧ (t'.proc q).Alive) : t'.Inv where
  initAlive := initAlive
  parents := parents
  counter := by rw [nextpid, handedOut, inv.counter]
  serials i live := by
    obtain ⟨live, serial, pid⟩ := fewer i live
    rw [serial, pid, handedOut]
    exact inv.serials i live
  distinct i j other liveI liveJ := by
    obtain ⟨liveI, serialI, -⟩ := fewer i liveI
    obtain ⟨liveJ, serialJ, -⟩ := fewer j liveJ
    rw [serialI, serialJ]
    exact inv.distinct i j other liveI liveJ

theorem Inv.samePhase (inv : t.Inv) (same : ∀ j, (t.proc j).SamePhase (t'.proc j))
    (nextpid : t'.nextpid = t.nextpid) (handedOut : t'.handedOut = t.handedOut) : t'.Inv := by
  refine inv.of_fewer nextpid handedOut (fun i live => ⟨(same i).live.mp live, (same i).serial, (same i).pid⟩)
    ((same initproc).alive.mpr inv.initAlive) fun i notInit live => ?_
  obtain ⟨q, parent, alive⟩ := inv.parents i notInit ((same i).live.mp live)
  exact ⟨q, by rw [(same i).parent, parent], (same q).alive.mpr alive⟩

theorem setProc_samePhase {a : Proc} (same : (t.proc i).SamePhase a) :
    ∀ j, (t.proc j).SamePhase ((t.setProc i a).proc j) := by
  intro j
  by_cases here : j = i
  · subst here
    simpa using same
  · rw [setProc_of_ne here]
    exact .refl _

theorem wakeup1_samePhase : ∀ j, (t.proc j).SamePhase ((t.wakeup1 p).proc j) := by
  unfold wakeup1
  by_cases asleep : ((t.proc p).chan == some p && (t.proc p).state == .sleeping) = true
  · rw [if_pos asleep]
    simp only [Bool.and_eq_true, beq_iff_eq] at asleep
    exact setProc_samePhase ⟨rfl, rfl, rfl, rfl, by simp [asleep.2], by simp [asleep.2]⟩
  · rw [if_neg asleep]
    exact fun j => .refl _

theorem kill_samePhase (pid : Int32) : ∀ j, (t.proc j).SamePhase ((t.kill pid).2.proc j) := by
  unfold kill
  split
  · exact fun j => .refl _
  · rename_i i _
    refine setProc_samePhase ⟨rfl, rfl, rfl, rfl, ?_, ?_⟩ <;>
      by_cases asleep : (t.proc i).state = .sleeping <;> simp [asleep]

theorem Inv.reparent (inv : t.Inv) : (t.reparent p).Inv := by
  refine inv.of_fewer rfl rfl (fun i live => ⟨by simpa using live, by simp, by simp⟩)
    (by simpa [Proc.Alive] using inv.initAlive) fun i notInit live => ?_
  obtain ⟨q, parent, alive⟩ := inv.parents i notInit (by simpa using live)
  by_cases orphan : q = p
  · exact ⟨initproc, by simp [parent, orphan], by simpa [Proc.Alive] using inv.initAlive⟩
  · exact ⟨q, by simp [parent, orphan], by simpa [Proc.Alive] using alive⟩

theorem reparent_parent_ne (notInit : p ≠ initproc) (j : Fin nproc) :
    ((t.reparent p).proc j).parent ≠ some p := by
  rw [reparent_parent]
  split
  · simpa using Ne.symm notInit
  · assumption

theorem Inv.zombie (inv : t.Inv) (notInit : p ≠ initproc) (live : (t.proc p).state ≠ .unused)
    (orphans : ∀ j, (t.proc j).parent ≠ some p) (status : Int32) :
    (t.setProc p { t.proc p with xstate := status, state := .zombie }).Inv := by
  refine inv.of_fewer rfl rfl (fun i live' => ?_) ?_ fun i notInit' live' => ?_
  · by_cases here : i = p
    · subst here
      simpa using live
    · rw [setProc_of_ne here] at live' ⊢
      exact ⟨live', rfl, rfl⟩
  · rw [setProc_of_ne (Ne.symm notInit)]
    exact inv.initAlive
  · have liveI : (t.proc i).state ≠ .unused := by
      by_cases here : i = p
      · rwa [here]
      · rwa [setProc_of_ne here] at live'
    obtain ⟨q, parent, alive⟩ := inv.parents i notInit' liveI
    have other : q ≠ p := fun same => orphans i (same ▸ parent)
    refine ⟨q, ?_, by rwa [setProc_of_ne other]⟩
    by_cases here : i = p
    · subst here
      simpa using parent
    · rwa [setProc_of_ne here]

theorem Inv.freeproc (inv : t.Inv) (dead : ¬ (t.proc np).Alive) : (t.freeproc np).Inv := by
  have freed : ∀ i, ((t.freeproc np).proc i).state ≠ .unused → i ≠ np := fun i live same => by
    simp [same] at live
  refine inv.of_fewer rfl rfl (fun i live => ?_) ?_ fun i notInit live => ?_
  · have other := freed i live
    rw [freeproc_of_ne other] at live ⊢
    exact ⟨live, rfl, rfl⟩
  · have other : initproc ≠ np := fun same => dead (same ▸ inv.initAlive)
    rw [freeproc_of_ne other]
    exact inv.initAlive
  · have other := freed i live
    rw [freeproc_of_ne other] at live ⊢
    obtain ⟨q, parent, alive⟩ := inv.parents i notInit live
    have otherQ : q ≠ np := fun same => dead (same ▸ alive)
    exact ⟨q, parent, by rwa [freeproc_of_ne otherQ]⟩

theorem firstUnused_unused (first : t.firstUnused = some np) : (t.proc np).state = .unused := by
  have := List.find?_some first
  simpa using this

theorem allocproc_none (first : t.firstUnused = none) (trapframe : Bool) :
    t.allocproc trapframe = (none, t) := by
  simp [Table.allocproc, first]

theorem allocproc_eq (first : t.firstUnused = some np) (trapframe : Bool) :
    t.allocproc trapframe = (if trapframe then some np else none,
      ({ t with nextpid := t.nextpid + 1, handedOut := t.handedOut + 1 } : Table).setProc np
        { t.proc np with pid := t.nextpid, serial := t.handedOut }) := by
  unfold Table.allocproc
  rw [first]
  cases trapframe <;> rfl

theorem Inv.allocpid (inv : t.Inv) (free : (t.proc np).state = .unused) :
    (({ t with nextpid := t.nextpid + 1, handedOut := t.handedOut + 1 } : Table).setProc np
        { t.proc np with pid := t.nextpid, serial := t.handedOut }).Inv where
  initAlive := by
    have other : initproc ≠ np := fun same => inv.initAlive.1 (same ▸ free)
    simpa [setProc_of_ne other] using inv.initAlive
  parents i notInit live := by
    have other : i ≠ np := fun same => by simp [same, free] at live
    rw [setProc_of_ne other] at live ⊢
    obtain ⟨q, parent, alive⟩ := inv.parents i notInit live
    have otherQ : q ≠ np := fun same => alive.1 (same ▸ free)
    exact ⟨q, parent, by rwa [setProc_of_ne otherQ]⟩
  counter := by
    show t.nextpid + 1 = Int32.ofNat (t.handedOut + 1 + 1)
    rw [inv.counter, Int32.ofNat_add (t.handedOut + 1) 1]
    rfl
  serials i live := by
    have other : i ≠ np := fun same => by simp [same, free] at live
    rw [setProc_of_ne other] at live ⊢
    have ⟨below, pid⟩ := inv.serials i live
    exact ⟨Nat.lt_succ_of_lt below, pid⟩
  distinct i j other liveI liveJ := by
    have otherI : i ≠ np := fun same => by simp [same, free] at liveI
    have otherJ : j ≠ np := fun same => by simp [same, free] at liveJ
    rw [setProc_of_ne otherI] at liveI ⊢
    rw [setProc_of_ne otherJ] at liveJ ⊢
    exact inv.distinct i j other liveI liveJ

theorem Inv.spawn (inv : t.Inv) (free : (t.proc np).state = .unused)
    (below : (t.proc np).serial < t.handedOut)
    (pid : (t.proc np).pid = Int32.ofNat ((t.proc np).serial + 1))
    (fresh : ∀ j, (t.proc j).state ≠ .unused → (t.proc j).serial ≠ (t.proc np).serial)
    (alive : (t.proc p).Alive) :
    (t.setProc np { t.proc np with parent := some p, state := .runnable }).Inv where
  initAlive := by
    have other : initproc ≠ np := fun same => inv.initAlive.1 (same ▸ free)
    rw [setProc_of_ne other]
    exact inv.initAlive
  parents i notInit live := by
    have otherP : p ≠ np := fun same => alive.1 (same ▸ free)
    by_cases here : i = np
    · subst here
      exact ⟨p, by simp, by rwa [setProc_of_ne otherP]⟩
    · rw [setProc_of_ne here] at live ⊢
      obtain ⟨q, parent, alive⟩ := inv.parents i notInit live
      have otherQ : q ≠ np := fun same => alive.1 (same ▸ free)
      exact ⟨q, parent, by rwa [setProc_of_ne otherQ]⟩
  counter := inv.counter
  serials i live := by
    by_cases here : i = np
    · subst here
      simp only [setProc_self]
      exact ⟨below, pid⟩
    · rw [setProc_of_ne here] at live ⊢
      exact inv.serials i live
  distinct i j other liveI liveJ := by
    by_cases hereI : i = np
    · subst hereI
      rw [setProc_of_ne (Ne.symm other)] at liveJ ⊢
      simpa using (fresh j liveJ).symm
    · by_cases hereJ : j = np
      · subst hereJ
        rw [setProc_of_ne other] at liveI ⊢
        simpa using fresh i liveI
      · rw [setProc_of_ne hereI] at liveI ⊢
        rw [setProc_of_ne hereJ] at liveJ ⊢
        exact inv.distinct i j other liveI liveJ

theorem Inv.fork (inv : t.Inv) (alive : (t.proc p).Alive) (mem : ForkMem) : (t.fork p mem).2.Inv := by
  cases first : t.firstUnused with
  | none => simpa [Table.fork, allocproc_none first] using inv
  | some np =>
    have free := firstUnused_unused first
    have stamped := inv.allocpid free
    cases mem with
    | noTrapframe => simpa [Table.fork, allocproc_eq first] using stamped
    | copyFails =>
      simpa [Table.fork, allocproc_eq first] using stamped.freeproc (by simp [Proc.Alive, free])
    | ok =>
      simp only [Table.fork, allocproc_eq first, bne_iff_ne, ne_eq, reduceCtorEq, not_false_eq_true,
        if_true, beq_iff_eq, if_false]
      refine stamped.spawn (by simp [free]) (by simp) (by simp [inv.counter]) (fun j live => ?_) ?_
      · have other : j ≠ np := fun same => by simp [same, free] at live
        rw [setProc_of_ne other] at live ⊢
        simpa using Nat.ne_of_lt (inv.serials j live).1
      · have other : p ≠ np := fun same => alive.1 (same ▸ free)
        rwa [setProc_of_ne other]

theorem Inv.exit (inv : t.Inv) (alive : (t.proc p).Alive) {status : Int32}
    (exits : t.exit p status = some (.running t')) : t'.Inv := by
  unfold Table.exit at exits
  by_cases isInit : p = initproc
  · simp [isInit] at exits
  rw [if_neg isInit] at exits
  have woke := inv.samePhase (wakeup1_samePhase (p := initproc)) (by simp) (by simp)
  cases parent : ((t.wakeup1 initproc).proc p).parent with
  | none => simp [parent] at exits
  | some q =>
    simp only [parent, Option.some.injEq, Outcome.running.injEq] at exits
    subst exits
    have moved := woke.reparent (p := p)
    have woke' := moved.samePhase (wakeup1_samePhase (p := q)) (by simp) (by simp)
    have live : ((((t.wakeup1 initproc).reparent p).wakeup1 q).proc p).state ≠ .unused := by
      rw [(wakeup1_samePhase p).live, reparent_state, (wakeup1_samePhase p).live]
      exact alive.1
    have orphans : ∀ j, ((((t.wakeup1 initproc).reparent p).wakeup1 q).proc j).parent ≠ some p := by
      intro j
      rw [(wakeup1_samePhase j).parent]
      exact reparent_parent_ne isInit j
    exact woke'.zombie isInit live orphans status

theorem tidy_samePhase : (t.proc p).SamePhase { t.proc p with chan := none } :=
  ⟨rfl, rfl, rfl, rfl, Iff.rfl, Iff.rfl⟩

theorem wait_eq (t : Table) (p : Fin nproc) (copied : Bool) :
    t.wait p copied = (t.setProc p { t.proc p with chan := none }).waitScan p copied := rfl

theorem waitScan_cases (t : Table) (p : Fin nproc) (copied : Bool) :
    (∃ np, (t.proc np).parent = some p ∧ (t.proc np).state = .zombie ∧
      t.waitScan p copied =
        if copied then (.reaped (t.proc np).pid (t.proc np).xstate, t.freeproc np) else (.failed, t)) ∨
    t.waitScan p copied = (.failed, t) ∨
    t.waitScan p copied = (.asleep, t.setProc p { t.proc p with chan := some p, state := .sleeping }) := by
  unfold Table.waitScan
  cases found : (List.finRange nproc).find? fun np => t.childOf p np && (t.proc np).state == .zombie with
  | some np =>
    have zombie := List.find?_some found
    simp only [Table.childOf, Bool.and_eq_true, beq_iff_eq] at zombie
    exact .inl ⟨np, zombie.1, zombie.2, rfl⟩
  | none =>
    right
    by_cases gives : (!(List.finRange nproc).any (t.childOf p) || (t.proc p).killed) = true
    · exact .inl (if_pos gives)
    · exact .inr (if_neg gives)

theorem Inv.wait (inv : t.Inv) (alive : (t.proc p).Alive) (copied : Bool) : (t.wait p copied).2.Inv := by
  have tidied := inv.samePhase (setProc_samePhase (tidy_samePhase (t := t) (p := p))) rfl rfl
  rw [wait_eq]
  rcases waitScan_cases (t.setProc p { t.proc p with chan := none }) p copied with
    ⟨np, -, zombie, reaps⟩ | fails | sleeps
  · rw [reaps]
    cases copied
    · exact tidied
    · exact tidied.freeproc fun alive => alive.2 zombie
  · rw [fails]
    exact tidied
  · rw [sleeps]
    refine tidied.samePhase (setProc_samePhase ⟨rfl, rfl, rfl, rfl, ?_, ?_⟩) rfl rfl <;>
      simp [alive.1, alive.2]

theorem Inv.kill (inv : t.Inv) (pid : Int32) : (t.kill pid).2.Inv := by
  refine inv.samePhase (kill_samePhase pid) ?_ ?_ <;>
    · unfold Table.kill
      split <;> rfl

theorem runs_alive (runs : t.runs p = true) : (t.proc p).Alive := by
  simp only [Table.runs, Bool.or_eq_true, beq_iff_eq] at runs
  constructor <;> rcases runs with state | state <;> simp [state]

theorem booted_inv : booted.Inv where
  initAlive := by simp [booted, Proc.Alive]
  parents i notInit live := by simp [booted, notInit, Proc.zero] at live
  counter := rfl
  serials i live := by
    by_cases here : i = initproc
    · subst here
      simp [booted, Proc.zero]
    · simp [booted, here, Proc.zero] at live
  distinct i j other liveI liveJ := by
    by_cases here : i = initproc
    · subst here
      simp [booted, Ne.symm other, Proc.zero] at liveJ
    · simp [booted, here, Proc.zero] at liveI

theorem invariant : system.Invariant Inv where
  init := booted_inv
  step := by
    intro t t' event inv step
    cases event with
    | fork p mem =>
      simp only [system, Table.step] at step
      split_ifs at step with guard
      · simp only [Bool.and_eq_true] at guard
        cases step
        exact inv.fork (runs_alive guard.1) mem
    | exit p status =>
      simp only [system, Table.step] at step
      split_ifs at step with guard
      simp only [Bool.and_eq_true] at guard
      exact inv.exit (runs_alive guard.1) step
    | wait p copied =>
      simp only [system, Table.step] at step
      split_ifs at step with guard
      cases step
      exact inv.wait (runs_alive guard) copied
    | kill pid =>
      simp only [system, Table.step, Option.some.injEq, Outcome.running.injEq] at step
      subst step
      exact inv.kill pid

/-- In every table the runs reach, `initproc` can still `wait`, and every
other process in the table, a zombie included, has a parent that can still
`wait` for it: `exit` hands its children to `initproc` before it becomes a
zombie, so no zombie is left without a parent to reap it. -/
theorem parents_alive {t : Table} (reach : system.Reachable t) :
    (t.proc initproc).Alive ∧
      ∀ i, i ≠ initproc → (t.proc i).state ≠ .unused → ∃ q, (t.proc i).parent = some q ∧ (t.proc q).Alive := by
  have inv := invariant.holds reach
  exact ⟨inv.initAlive, inv.parents⟩

/-- `initproc` forks a child, which exits. -/
def zombieState : Table :=
  match system.runFrom system.init [.fork initproc .ok, .exit ⟨1, one_lt_nproc⟩ 0] with
  | some (.running t) => t
  | _ => booted

theorem zombieState_reachable : system.Reachable zombieState :=
  System.runFrom_reachable System.Reachable.init [.fork initproc .ok, .exit ⟨1, one_lt_nproc⟩ 0] (by rfl)

/-- There the child is a zombie whose parent can still reap it. -/
theorem parents_alive_zombie :
    (zombieState.proc ⟨1, one_lt_nproc⟩).state = .zombie ∧
      ∃ q, (zombieState.proc ⟨1, one_lt_nproc⟩).parent = some q ∧ (zombieState.proc q).Alive := by
  obtain ⟨-, parents⟩ := parents_alive zombieState_reachable
  have zombie : (zombieState.proc ⟨1, one_lt_nproc⟩).state = .zombie := by rfl
  exact ⟨zombie, parents ⟨1, one_lt_nproc⟩ (by decide) (by rw [zombie]; exact nofun)⟩

/-! ### Zombies -/

theorem fork_of_live (live : (t.proc i).state ≠ .unused) (mem : ForkMem) :
    (t.fork p mem).2.proc i = t.proc i := by
  cases first : t.firstUnused with
  | none => simp [Table.fork, allocproc_none first]
  | some np =>
    have other : i ≠ np := fun same => live (same ▸ firstUnused_unused first)
    cases mem <;> simp [Table.fork, allocproc_eq first, freeproc_of_ne other, setProc_of_ne other]

theorem exit_of_ne {status : Int32} (exits : t.exit p status = some (.running t')) (other : i ≠ p) :
    ((t'.proc i).state = .zombie ↔ (t.proc i).state = .zombie) ∧ (t'.proc i).pid = (t.proc i).pid ∧
      (t'.proc i).xstate = (t.proc i).xstate := by
  unfold Table.exit at exits
  by_cases isInit : p = initproc
  · simp [isInit] at exits
  rw [if_neg isInit] at exits
  cases parent : ((t.wakeup1 initproc).proc p).parent with
  | none => simp [parent] at exits
  | some q =>
    simp only [parent, Option.some.injEq, Outcome.running.injEq] at exits
    subst exits
    have woke := wakeup1_samePhase (t := t) (p := initproc) i
    have woke' := wakeup1_samePhase (t := (t.wakeup1 initproc).reparent p) (p := q) i
    rw [setProc_of_ne other, woke'.zombie, woke'.pid, woke'.xstate, reparent_state, reparent_pid,
      reparent_xstate, woke.zombie, woke.pid, woke.xstate]
    exact ⟨Iff.rfl, rfl, rfl⟩

theorem zombie_step {e : Event} (step : t.step e = some (.running t')) (zombie : (t.proc i).state = .zombie) :
    ((t'.proc i).state = .zombie ∧ (t'.proc i).pid = (t.proc i).pid ∧ (t'.proc i).xstate = (t.proc i).xstate) ∨
      ∃ p copied, e = .wait p copied ∧ (t.proc i).parent = some p ∧
        (t.wait p copied).1 = .reaped (t.proc i).pid (t.proc i).xstate ∧ (t'.proc i).state = .unused := by
  cases e with
  | fork p mem =>
    simp only [Table.step] at step
    split_ifs at step
    cases step
    rw [fork_of_live (by simp [zombie])]
    exact .inl ⟨zombie, rfl, rfl⟩
  | exit p status =>
    simp only [Table.step] at step
    split_ifs at step with guard
    simp only [Bool.and_eq_true] at guard
    have other : i ≠ p := fun same => (runs_alive guard.1).2 (same ▸ zombie)
    obtain ⟨state, pid, xstate⟩ := exit_of_ne step other
    exact .inl ⟨state.mpr zombie, pid, xstate⟩
  | wait p copied =>
    simp only [Table.step] at step
    split_ifs at step with guard
    cases step
    have other : i ≠ p := fun same => (runs_alive guard).2 (same ▸ zombie)
    have seen : (t.setProc p { t.proc p with chan := none }).proc i = t.proc i := setProc_of_ne other
    rw [wait_eq]
    rcases waitScan_cases (t.setProc p { t.proc p with chan := none }) p copied with
      ⟨np, parent, -, reaps⟩ | fails | sleeps
    · rw [reaps]
      by_cases here : np = i
      · subst here
        cases copied
        · exact .inl (by simp [seen, zombie])
        · refine .inr ⟨p, true, rfl, by rwa [seen] at parent, by rw [wait_eq, reaps]; simp [seen], by simp⟩
      · cases copied
        · exact .inl (by simp [seen, zombie])
        · exact .inl (by simp [freeproc_of_ne (Ne.symm here), seen, zombie])
    · rw [fails]
      exact .inl (by simp [seen, zombie])
    · rw [sleeps]
      exact .inl (by simp [setProc_of_ne other, zombie])
  | kill pid =>
    simp only [Table.step, Option.some.injEq, Outcome.running.injEq] at step
    subst step
    have same := kill_samePhase (t := t) pid i
    exact .inl ⟨same.zombie.mpr zombie, same.pid, same.xstate⟩

theorem wait_reaped {copied : Bool} {pid x : Int32} (reaped : (t.wait p copied).1 = .reaped pid x) :
    ∃ np, (t.proc np).parent = some p ∧ (t.proc np).state = .zombie ∧ (t.proc np).pid = pid ∧
      (t.proc np).xstate = x ∧ ((t.wait p copied).2.proc np).state = .unused := by
  rw [wait_eq] at reaped ⊢
  rcases waitScan_cases (t.setProc p { t.proc p with chan := none }) p copied with
    ⟨np, parent, zombie, reaps⟩ | fails | sleeps
  · have seen := setProc_samePhase (tidy_samePhase (t := t) (p := p)) np
    rw [reaps] at reaped ⊢
    cases copied
    · cases reaped
    · simp only [if_true, Waited.reaped.injEq] at reaped
      refine ⟨np, by rwa [seen.parent] at parent, by rwa [seen.zombie] at zombie, ?_, ?_, by simp⟩
      · rw [← reaped.1, seen.pid]
      · rw [← reaped.2, seen.xstate]
  · rw [fails] at reaped
    cases reaped
  · rw [sleeps] at reaped
    cases reaped

end Table

end Xv6.Lifecycle
