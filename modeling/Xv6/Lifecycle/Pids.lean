import Xv6.Lifecycle.Invariant

/-! The pids of `allocpid`. `nextpid` is an `int` that only ever grows by one,
so the pid of a process is the number of pids handed out before it, plus one,
modulo `2^32`. Live processes keep distinct pids while at most `2^32` pids were
handed out. After that `nextpid` comes round: `initproc`, which never exits,
forking and reaping one child `2^32 - 1` times brings `nextpid` back to `1`, and
its next child gets `initproc`'s pid. -/

namespace Xv6.Lifecycle

open Xv6.Lib

namespace Table

variable {t : Table} {i j : Fin nproc}

theorem ofNat_succ_ne {a b : Nat} (belowA : a < 2 ^ 32) (belowB : b < 2 ^ 32) (apart : a ≠ b) :
    Int32.ofNat (a + 1) ≠ Int32.ofNat (b + 1) := by
  intro same
  have residues := congrArg (fun x : Int32 => x.toBitVec.toNat) same
  simp only [Int32.toBitVec_ofNat', BitVec.toNat_ofNat] at residues
  omega

theorem Inv.pid_ne (inv : t.Inv) (few : t.handedOut ≤ 2 ^ 32) (other : i ≠ j)
    (liveI : (t.proc i).state ≠ .unused) (liveJ : (t.proc j).state ≠ .unused) :
    (t.proc i).pid ≠ (t.proc j).pid := by
  obtain ⟨belowI, pidI⟩ := inv.serials i liveI
  obtain ⟨belowJ, pidJ⟩ := inv.serials j liveJ
  rw [pidI, pidJ]
  exact ofNat_succ_ne (by omega) (by omega) (inv.distinct i j other liveI liveJ)

/-- The slot after `initproc`'s, where `fork` puts a child of a lone `initproc`. -/
def child : Fin nproc := ⟨1, one_lt_nproc⟩

/-- In every table the runs reach while at most `2^32` pids were handed out,
live processes have distinct pids (`pid_reused` shows the bound is tight). -/
theorem pids_distinct {t : Table} (reach : system.Reachable t) (few : t.handedOut ≤ 2 ^ 32) {i j : Fin nproc}
    (other : i ≠ j) (liveI : (t.proc i).state ≠ .unused) (liveJ : (t.proc j).state ≠ .unused) :
    (t.proc i).pid ≠ (t.proc j).pid :=
  (invariant.holds reach).pid_ne few other liveI liveJ

/-- `initproc` forks one child. -/
def forkedState : Table :=
  match system.runFrom system.init [.fork initproc .ok] with
  | some (.running t) => t
  | _ => booted

theorem forkedState_reachable : system.Reachable forkedState :=
  System.runFrom_reachable System.Reachable.init [.fork initproc .ok] (by rfl)

theorem pids_distinct_forked : (forkedState.proc initproc).pid ≠ (forkedState.proc child).pid :=
  pids_distinct forkedState_reachable (by decide) (by decide) (by decide) (by decide)

/-- `initproc` forks a child, which exits at once, and `initproc` reaps it. -/
def reapCycle : List Event :=
  [.fork initproc .ok, .exit child 0, .wait initproc true]

theorem reapCycle_run (x : Int32) (n : Nat) :
    system.runFrom { booted with nextpid := x, handedOut := n } reapCycle =
      some (.running { booted with nextpid := x + 1, handedOut := n + 1 }) := by
  refine (show _ = some (Outcome.running _) from rfl).trans ?_
  congr 2
  ext : 1
  · funext i
    rcases i with ⟨_ | _ | _ | _ | _ | _ | _ | _ | _ | _ | k, bound⟩ <;> rfl
  · rfl
  · rfl

theorem reapCycles_run (m : Nat) : ∀ (x : Int32) (n : Nat),
    system.runFrom { booted with nextpid := x, handedOut := n } (List.replicate m reapCycle).flatten =
      some (.running { booted with nextpid := x + Int32.ofNat m, handedOut := n + m }) := by
  induction m with
  | zero =>
    intro x n
    rw [show x + Int32.ofNat 0 = x from Int32.add_zero x]
    rfl
  | succ m ih =>
    intro x n
    rw [List.replicate_succ, List.flatten_cons, System.runFrom_append (reapCycle_run x n), ih]
    have counted : x + 1 + Int32.ofNat m = x + Int32.ofNat (m + 1) := by
      rw [Int32.ofNat_add, Int32.add_assoc, Int32.add_comm 1]
      rfl
    rw [counted, show n + 1 + m = n + (m + 1) by omega]

/-- `initproc` forks and reaps `2^32 - 1` children, then forks once more: the
new child and `initproc` are both live with pid `1`. -/
theorem pid_reused :
    ∃ t, system.runFrom system.init
        ((List.replicate (2 ^ 32 - 1) reapCycle).flatten ++ [.fork initproc .ok]) = some (.running t) ∧
      (t.proc initproc).state ≠ .unused ∧ (t.proc child).state ≠ .unused ∧
      (t.proc initproc).pid = (t.proc child).pid := by
  have cycles : system.runFrom system.init (List.replicate (2 ^ 32 - 1) reapCycle).flatten =
      some (.running { booted with nextpid := 1, handedOut := 2 ^ 32 }) := by
    have wrapped : (2 : Int32) + Int32.ofNat (2 ^ 32 - 1) = 1 := by decide
    rw [← wrapped]
    exact reapCycles_run (2 ^ 32 - 1) 2 1
  refine ⟨_, (System.runFrom_append cycles _).trans rfl, ?_, ?_, ?_⟩ <;> decide

/-! ### `kill` of a pid that no live process has -/

theorem kill_eq {pid : Int32} (found : (List.finRange nproc).find? (fun i => (t.proc i).pid == pid) = some i) :
    t.kill pid = (0, t.setProc i { t.proc i with
      killed := true, state := if (t.proc i).state == .sleeping then .runnable else (t.proc i).state }) := by
  unfold kill
  rw [found]

theorem firstUnused_congr {t' : Table} (same : ∀ i, (t'.proc i).state = (t.proc i).state) :
    t'.firstUnused = t.firstUnused := by
  simp only [firstUnused, same]

theorem kill_finds_free {np : Fin nproc} {pid : Int32} (first : t.firstUnused = some np)
    (named : (t.proc np).pid = pid) (dead : ∀ i, (t.proc i).state ≠ .unused → (t.proc i).pid ≠ pid) :
    (List.finRange nproc).find? (fun i => (t.proc i).pid == pid) = some np := by
  obtain ⟨_, before, after, split, live⟩ := List.find?_eq_some_iff_append.mp first
  refine List.find?_eq_some_iff_append.mpr ⟨by simp [named], before, after, split, fun j member => ?_⟩
  have liveJ : (t.proc j).state ≠ .unused := by simpa using live j member
  simpa using dead j liveJ

/-- `kill` of a pid that no live process has but the first free slot has (as
`0`, which the boot and `freeproc` give every free slot) returns `0`, not
`-1`, and marks that slot; `allocproc` does not clear the mark, so the next
child of `fork` starts killed. -/
theorem kill_marks_next_child {np : Fin nproc} {pid : Int32} (first : t.firstUnused = some np)
    (named : (t.proc np).pid = pid) (dead : ∀ i, (t.proc i).state ≠ .unused → (t.proc i).pid ≠ pid)
    (p : Fin nproc) :
    (t.kill pid).1 = 0 ∧ (((t.kill pid).2.fork p .ok).2.proc np).state = .runnable ∧
      (((t.kill pid).2.fork p .ok).2.proc np).killed = true := by
  have free := firstUnused_unused first
  have marked : (t.kill pid).2 = t.setProc np { t.proc np with killed := true } := by
    rw [kill_eq (kill_finds_free first named dead)]
    simp [free]
  have stillFirst : (t.setProc np { t.proc np with killed := true }).firstUnused = some np := by
    rw [firstUnused_congr fun i => ?_, first]
    by_cases same : i = np
    · subst same
      simp
    · simp [setProc_of_ne same]
  refine ⟨by rw [kill_eq (kill_finds_free first named dead)], ?_, ?_⟩ <;>
    simp [marked, Table.fork, allocproc_eq stillFirst]

theorem kill_marks_next_child_booted :
    booted.firstUnused = some child ∧ (booted.proc child).pid = 0 ∧
      (∀ i, (booted.proc i).state ≠ .unused → (booted.proc i).pid ≠ 0) ∧
      (booted.kill 0).1 = 0 ∧ (((booted.kill 0).2.fork initproc .ok).2.proc child).state = .runnable ∧
      (((booted.kill 0).2.fork initproc .ok).2.proc child).killed = true := by
  have first : booted.firstUnused = some child := by decide
  have named : (booted.proc child).pid = 0 := by decide
  have dead : ∀ i, (booted.proc i).state ≠ .unused → (booted.proc i).pid ≠ 0 := by decide
  exact ⟨first, named, dead, kill_marks_next_child first named dead initproc⟩

end Table

end Xv6.Lifecycle
