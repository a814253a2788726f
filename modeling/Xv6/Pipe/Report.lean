import Xv6.Pipe.Fifo

/-! What the pipe calls return, against what they move. `pipewrite` breaks out
of its loop when `copyin` fails and still returns `n`; `piperead` takes a byte
out of the pipe before its `copyout`, so a failed copy loses the byte and the
count it returns leaves it out. Both are shown on whole calls of one process,
from any state that an interleaving of the calls reaches. -/

namespace Xv6.PipeSys

open Xv6.Lib

variable {P : Type} [DecidableEq P] {s : PipeSys P} {p : P}

theorem not_full (reach : (system P).Reachable s) (room : s.inserted.length < s.removed.length + pipeSize) :
    s.pipe.full = false := by
  cases full : s.pipe.full
  · rfl
  · have count := (fifoInv_invariant.holds reach).full_iff.mp full
    omega

theorem not_empty (reach : (system P).Reachable s) (pending : s.removed.length < s.inserted.length) :
    s.pipe.empty = false := by
  cases empty : s.pipe.empty
  · rfl
  · have count := (fifoInv_invariant.holds reach).empty_iff.mp empty
    omega

theorem get_oldest (reach : (system P).Reachable s) (pending : s.removed.length < s.inserted.length) :
    s.pipe.get.1 = s.inserted[s.removed.length] := by
  have inv := fifoInv_invariant.holds reach
  rw [Pipe.get_fst, slot_eq_ringSlot inv.nread]
  exact inv.buffered _ pending (Nat.le_refl _)

theorem write_run {bytes : List UInt8} {n : Int} (short : (bytes.length : Int) < n) :
    ∀ k (s : PipeSys P) i, (system P).Reachable s → s.pc p = .writing (fun j => bytes[j]?) n i →
      i + k = bytes.length → s.inserted.length + k < s.removed.length + pipeSize →
      ∃ t, (system P).runFrom s (List.replicate (k + 1) (.run p)) = some (.running t) ∧
        t.pc p = .returned n ∧ t.inserted = s.inserted ++ bytes.drop i ∧ t.removed = s.removed := by
  intro k
  induction k with
  | zero =>
    intro s i reach writing last room
    have notFull := not_full reach (by omega)
    have failed : bytes[i]? = none := List.getElem?_eq_none (by omega)
    refine ⟨s.moveTo p (.returned n), ?_, by simp [moveTo], by simp; omega, rfl⟩
    simp [System.runFrom, system, step, writing, writeStep, notFull, failed, show (i : Int) < n by omega]
  | succ k ih =>
    intro s i reach writing last room
    have notFull := not_full reach (by omega)
    have within : i < bytes.length := by omega
    let s' : PipeSys P := { s.moveTo p (.writing (fun j => bytes[j]?) n (i + 1)) with
      pipe := s.pipe.put bytes[i], inserted := s.inserted ++ [bytes[i]] }
    have put : (system P).step s (.run p) = some (.running s') := by
      simp [system, step, writing, writeStep, notFull, s', show (i : Int) < n by omega,
        List.getElem?_eq_getElem within]
    obtain ⟨t, run, returned, inserted, removed⟩ :=
      ih s' (i + 1) (reach.next _ put) (by simp [s', moveTo]) (by omega) (by simp [s']; omega)
    refine ⟨t, ?_, returned, ?_, removed⟩
    · rw [List.replicate_succ, System.runFrom, put]
      exact run
    · rw [inserted, List.drop_eq_getElem_cons within]
      simp [s']

theorem read_run {m : Nat} {n : Int} (short : (m : Int) < n) :
    ∀ k (s : PipeSys P) i, (system P).Reachable s → s.pc p = .reading (fun j => decide (j < m)) n i →
      i + k = m → s.removed.length + k < s.inserted.length →
      ∃ t, (system P).runFrom s (List.replicate (k + 1) (.run p)) = some (.running t) ∧
        t.pc p = .returned m ∧ t.inserted = s.inserted ∧
        t.removed = s.removed ++ (s.inserted.drop s.removed.length).take (k + 1) := by
  intro k
  induction k with
  | zero =>
    intro s i reach reading last pending
    have notEmpty := not_empty reach (by omega)
    refine ⟨{ s.moveTo p (.returned m) with pipe := s.pipe.get.2, removed := s.removed ++ [s.pipe.get.1] },
      ?_, by simp [moveTo], rfl, ?_⟩
    · simp [System.runFrom, system, step, reading, readStep, notEmpty, ← last, show (i : Int) < n by omega]
    · rw [get_oldest reach (by omega)]
      simp [List.take_one, List.getElem?_eq_getElem (show s.removed.length < s.inserted.length by omega)]
  | succ k ih =>
    intro s i reach reading last pending
    have notEmpty := not_empty reach (by omega)
    let s' : PipeSys P := { s.moveTo p (.reading (fun j => decide (j < m)) n (i + 1)) with
      pipe := s.pipe.get.2, removed := s.removed ++ [s.pipe.get.1] }
    have took : (system P).step s (.run p) = some (.running s') := by
      simp [system, step, reading, readStep, notEmpty, s', show (i : Int) < n by omega, show i < m by omega]
    obtain ⟨t, run, returned, inserted, removed⟩ :=
      ih s' (i + 1) (reach.next _ took) (by simp [s', moveTo]) (by omega) (by simp [s']; omega)
    refine ⟨t, ?_, returned, by simp [inserted, s'], ?_⟩
    · rw [List.replicate_succ, System.runFrom, took]
      exact run
    · have next : s.removed.length < s.inserted.length := by omega
      rw [removed]
      simp only [s', get_oldest reach next, List.length_append, List.length_singleton, List.append_assoc]
      rw [List.drop_eq_getElem_cons next, List.take_succ_cons]
      rfl

theorem pipe_calls_misreport (reach : (system P).Reachable s) (idle : (s.pc p).isIdle) :
    (∀ (bytes : List UInt8) (n : Int), (bytes.length : Int) < n →
      s.inserted.length + bytes.length < s.removed.length + pipeSize →
      ∃ t, (system P).runFrom s (.pipewrite p (fun j => bytes[j]?) n :: List.replicate (bytes.length + 1) (.run p)) =
          some (.running t) ∧ t.pc p = .returned n ∧ t.inserted = s.inserted ++ bytes) ∧
    (∀ (m : Nat) (n : Int), (m : Int) < n → s.removed.length + m < s.inserted.length →
      ∃ t, (system P).runFrom s (.piperead p (fun j => decide (j < m)) n :: List.replicate (m + 2) (.run p)) =
          some (.running t) ∧ t.pc p = .returned m ∧
          t.removed = s.removed ++ (s.inserted.drop s.removed.length).take (m + 1)) := by
  constructor
  · intro bytes n short room
    let started := s.moveTo p (.writing (fun j => bytes[j]?) n 0)
    have start : (system P).step s (.pipewrite p (fun j => bytes[j]?) n) = some (.running started) := by
      simp [system, step, idle, started]
    obtain ⟨t, run, returned, inserted, -⟩ :=
      write_run (p := p) short bytes.length started 0 (reach.next _ start) (by simp [started, moveTo]) (by omega)
        (by simpa [started] using room)
    refine ⟨t, ?_, returned, by simpa [started] using inserted⟩
    rw [System.runFrom, start]
    exact run
  · intro m n short pending
    let waiting := s.moveTo p (.waiting (fun j => decide (j < m)) n)
    let copying := waiting.moveTo p (.reading (fun j => decide (j < m)) n 0)
    have start : (system P).step s (.piperead p (fun j => decide (j < m)) n) = some (.running waiting) := by
      simp [system, step, idle, waiting]
    have reachWaiting := reach.next _ start
    have notEmpty : s.pipe.empty = false := not_empty reach (by omega)
    have wake : (system P).step waiting (.run p) = some (.running copying) := by
      simp [system, step, waiting, copying, waitStep, notEmpty, moveTo]
    obtain ⟨t, run, returned, -, removed⟩ :=
      read_run (p := p) short m copying 0 (reachWaiting.next _ wake) (by simp [copying, moveTo]) (by omega)
        (by simpa [copying, waiting] using pending)
    refine ⟨t, ?_, returned, by simpa [copying, waiting] using removed⟩
    rw [System.runFrom, start]
    dsimp only
    rw [List.replicate_succ, System.runFrom, wake]
    exact run

/-- After the run of `helloEvents` (`"hi"` written, `'h'` read), process `0`
is idle again. -/
theorem pipe_calls_misreport_hello :
    (∀ (bytes : List UInt8) (n : Int), (bytes.length : Int) < n →
      helloState.inserted.length + bytes.length < helloState.removed.length + pipeSize →
      ∃ t, (system (Fin 2)).runFrom helloState
          (.pipewrite 0 (fun j => bytes[j]?) n :: List.replicate (bytes.length + 1) (.run 0)) =
          some (.running t) ∧ t.pc 0 = .returned n ∧ t.inserted = helloState.inserted ++ bytes) ∧
    (∀ (m : Nat) (n : Int), (m : Int) < n → helloState.removed.length + m < helloState.inserted.length →
      ∃ t, (system (Fin 2)).runFrom helloState
          (.piperead 0 (fun j => decide (j < m)) n :: List.replicate (m + 2) (.run 0)) =
          some (.running t) ∧ t.pc 0 = .returned m ∧
          t.removed = helloState.removed ++ (helloState.inserted.drop helloState.removed.length).take (m + 1)) :=
  pipe_calls_misreport helloState_reachable (by rfl)

end Xv6.PipeSys
