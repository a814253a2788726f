import Xv6.Pipe.Pipe
import Xv6.Lib.Counter

/-! The pipe is a FIFO of capacity `PIPESIZE`, whatever the schedule: the bytes
readers take out are a prefix of the bytes writers put in, every byte not yet
taken still sits where readers will take it, and the `uint` counters are never
more than `PIPESIZE` apart, however often they wrap. -/

namespace Xv6

open Xv6.Lib

/-- The element of `data` the `m`-th byte written to the pipe goes to. -/
def ringSlot (m : Nat) : Fin pipeSize :=
  ⟨m % pipeSize, Nat.mod_lt _ (by decide)⟩

theorem slot_eq_ringSlot {c : UInt32} {m : Nat} (counts : Counts c m) : slot c = ringSlot m := by
  apply Fin.ext
  exact counts.mod (by decide)

namespace PipeSys

variable {P : Type} [DecidableEq P] {s t : PipeSys P}

/-- `t` has the ring and the histories of `s`. -/
def SameRing (s t : PipeSys P) : Prop :=
  t.pipe.data = s.pipe.data ∧ t.pipe.nread = s.pipe.nread ∧ t.pipe.nwrite = s.pipe.nwrite ∧
    t.inserted = s.inserted ∧ t.removed = s.removed

/-- `t` is `s` after `pipewrite` put `ch` into a pipe that was not full. -/
def Inserts (s t : PipeSys P) (ch : UInt8) : Prop :=
  s.pipe.full = false ∧ t.pipe.data = (s.pipe.put ch).data ∧ t.pipe.nread = s.pipe.nread ∧
    t.pipe.nwrite = s.pipe.nwrite + 1 ∧ t.inserted = s.inserted ++ [ch] ∧ t.removed = s.removed

/-- `t` is `s` after `piperead` took a byte out of a pipe that was not empty. -/
def Removes (s t : PipeSys P) : Prop :=
  s.pipe.empty = false ∧ t.pipe.data = s.pipe.data ∧ t.pipe.nread = s.pipe.nread + 1 ∧
    t.pipe.nwrite = s.pipe.nwrite ∧ t.inserted = s.inserted ∧
    t.removed = s.removed ++ [s.pipe.data (slot s.pipe.nread)]

theorem sameRing_moveTo {p : P} {next : PipePc} : SameRing s (s.moveTo p next) := by
  simp [SameRing]

theorem writeStep_ring {p : P} {src : Nat → Option UInt8} {n : Int} {i : Nat}
    (written : s.writeStep p src n i = some t) : SameRing s t ∨ ∃ ch, Inserts s t ch := by
  unfold writeStep at written
  split at written
  · split at written
    · split at written
      · cases written
        exact .inl sameRing_moveTo
      · cases written
    · rename_i notFull
      split at written
      · cases written
        exact .inl sameRing_moveTo
      · rename_i ch _
        cases written
        exact .inr ⟨ch, by simpa using notFull, by simp, by simp, by simp, by simp, by simp⟩
  · cases written
    exact .inl sameRing_moveTo

theorem waitStep_ring {p : P} {dst : Nat → Bool} {n : Int} (waited : s.waitStep p dst n = some t) :
    SameRing s t := by
  unfold waitStep at waited
  split at waited
  · split at waited
    · cases waited
      exact sameRing_moveTo
    · cases waited
  · cases waited
    exact sameRing_moveTo

theorem readStep_ring {p : P} {dst : Nat → Bool} {n : Int} {i : Nat}
    (read : s.readStep p dst n i = some t) : SameRing s t ∨ Removes s t := by
  unfold readStep at read
  split at read
  · split at read
    · cases read
      exact .inl sameRing_moveTo
    · rename_i notEmpty
      cases read
      exact .inr ⟨by simpa using notEmpty, by simp, by simp, by simp, by simp, by simp⟩
  · cases read
    exact .inl sameRing_moveTo

theorem step_ring {event : PipeEvent P} (next : s.step event = some (.running t)) :
    SameRing s t ∨ (∃ ch, Inserts s t ch) ∨ Removes s t := by
  cases event with
  | pipewrite p src n =>
    simp only [step] at next
    split at next
    · cases next
      exact .inl sameRing_moveTo
    · cases next
  | piperead p dst n =>
    simp only [step] at next
    split at next
    · cases next
      exact .inl sameRing_moveTo
    · cases next
  | run p =>
    simp only [step] at next
    split at next
    · obtain ⟨u, written, same⟩ := Option.map_eq_some_iff.mp next
      cases same
      rcases writeStep_ring written with frame | inserts
      · exact .inl frame
      · exact .inr (.inl inserts)
    · obtain ⟨u, waited, same⟩ := Option.map_eq_some_iff.mp next
      cases same
      exact .inl (waitStep_ring waited)
    · obtain ⟨u, read, same⟩ := Option.map_eq_some_iff.mp next
      cases same
      rcases readStep_ring read with frame | removes
      · exact .inl frame
      · exact .inr (.inr removes)
    · cases next
  | pipeclose p writable =>
    simp only [step, Option.some.injEq, Outcome.running.injEq] at next
    subst next
    exact .inl (by simp [SameRing])
  | kill p =>
    simp only [step, Option.some.injEq, Outcome.running.injEq] at next
    subst next
    exact .inl (by simp [SameRing])

/-- The FIFO invariant. -/
structure FifoInv (s : PipeSys P) : Prop where
  /-- Readers took out a prefix of what writers put in. -/
  taken : s.removed <+: s.inserted
  /-- At most `PIPESIZE` bytes are in the pipe. -/
  within : s.inserted.length ≤ s.removed.length + pipeSize
  nwrite : Counts s.pipe.nwrite s.inserted.length
  nread : Counts s.pipe.nread s.removed.length
  /-- Every byte not yet taken is still in its element of `data`. -/
  buffered : ∀ m (bound : m < s.inserted.length), s.removed.length ≤ m →
    s.pipe.data (ringSlot m) = s.inserted[m]

theorem fifoInv_init : FifoInv (system P).init where
  taken := ⟨[], rfl⟩
  within := Nat.zero_le _
  nwrite := Counts.zero
  nread := Counts.zero
  buffered := by simp [system]

omit [DecidableEq P] in
theorem FifoInv.full_iff (inv : FifoInv s) :
    s.pipe.full = true ↔ s.inserted.length = s.removed.length + pipeSize := by
  unfold Pipe.full
  rw [beq_iff_eq]
  exact inv.nwrite.eq_add_iff inv.nread inv.taken.length_le inv.within (by decide)

omit [DecidableEq P] in
theorem FifoInv.empty_iff (inv : FifoInv s) :
    s.pipe.empty = true ↔ s.inserted.length = s.removed.length := by
  have close : s.inserted.length - s.removed.length < 2 ^ 32 := by
    have := inv.within
    unfold pipeSize at this
    omega
  unfold Pipe.empty
  rw [beq_iff_eq, eq_comm]
  exact inv.nwrite.eq_iff inv.nread inv.taken.length_le close

omit [DecidableEq P] in
theorem FifoInv.sameRing (inv : FifoInv s) (same : SameRing s t) : FifoInv t := by
  obtain ⟨data, nread, nwrite, inserted, removed⟩ := same
  refine ⟨?_, ?_, ?_, ?_, ?_⟩ <;> simp only [data, nread, nwrite, inserted, removed]
  exacts [inv.taken, inv.within, inv.nwrite, inv.nread, inv.buffered]

omit [DecidableEq P] in
theorem FifoInv.inserts (inv : FifoInv s) {ch : UInt8} (ins : Inserts s t ch) : FifoInv t := by
  obtain ⟨notFull, data, nread, nwrite, inserted, removed⟩ := ins
  have room : s.inserted.length < s.removed.length + pipeSize := by
    have notFullCount : s.inserted.length ≠ s.removed.length + pipeSize := fun same => by
      simp [inv.full_iff.mpr same] at notFull
    have := inv.within
    omega
  constructor
  · rw [inserted, removed]
    exact inv.taken.trans ⟨[ch], rfl⟩
  · rw [inserted, removed]
    simp only [List.length_append, List.length_singleton]
    omega
  · rw [nwrite, inserted, List.length_append, List.length_singleton]
    exact inv.nwrite.succ
  · rw [nread, removed]
    exact inv.nread
  · intro m bound unread
    rw [removed] at unread
    simp only [inserted, List.length_append, List.length_singleton] at bound
    simp only [data, Pipe.put_data, slot_eq_ringSlot inv.nwrite, inserted]
    by_cases newest : m = s.inserted.length
    · subst m
      simp
    · have older : m < s.inserted.length := by omega
      have apart : ringSlot m ≠ ringSlot s.inserted.length := by
        intro same
        have residues := congrArg Fin.val same
        simp only [ringSlot, pipeSize] at residues room
        omega
      rw [Function.update_of_ne apart, List.getElem_append_left older]
      exact inv.buffered m older unread

omit [DecidableEq P] in
theorem FifoInv.removes (inv : FifoInv s) (rem : Removes s t) : FifoInv t := by
  obtain ⟨notEmpty, data, nread, nwrite, inserted, removed⟩ := rem
  have pending : s.removed.length < s.inserted.length := by
    have notEmptyCount : s.inserted.length ≠ s.removed.length := fun same => by
      simp [inv.empty_iff.mpr same] at notEmpty
    have := inv.taken.length_le
    omega
  have oldest : s.pipe.data (slot s.pipe.nread) = s.inserted[s.removed.length] := by
    rw [slot_eq_ringSlot inv.nread]
    exact inv.buffered _ pending (Nat.le_refl _)
  constructor
  · rw [removed, inserted, oldest]
    have taken : s.removed = s.inserted.take s.removed.length :=  List.prefix_iff_eq_take.mp inv.taken
    have next : s.removed ++ [s.inserted[s.removed.length]] =
        s.inserted.take (s.removed.length + 1) := by
      rw [List.take_add_one, List.getElem?_eq_getElem pending, ← taken]
      rfl
    rw [next]
    exact List.take_prefix _ _
  · rw [removed, inserted]
    simp only [List.length_append, List.length_singleton]
    have := inv.within
    omega
  · rw [nwrite, inserted]
    exact inv.nwrite
  · rw [nread, removed, List.length_append, List.length_singleton]
    exact inv.nread.succ
  · intro m bound unread
    simp only [removed, List.length_append, List.length_singleton] at unread
    simp only [inserted] at bound ⊢
    rw [data]
    exact inv.buffered m bound (by omega)

theorem fifoInv_invariant : (system P).Invariant FifoInv where
  init := fifoInv_init
  step := by
    intro s t event inv next
    rcases step_ring next with same | ⟨ch, ins⟩ | rem
    · exact inv.sameRing same
    · exact inv.inserts ins
    · exact inv.removes rem

/-- Pipe FIFO and capacity: in every state that any interleaving of
`pipewrite`, `piperead` and `pipeclose` by any processes reaches, the bytes
`piperead` removed are a prefix of the bytes `pipewrite` inserted, the `k`-th
byte not yet removed still sits in `data[(nread + k) % PIPESIZE]` (no inserted
byte is overwritten before it is removed), and `nwrite - nread`, in `uint`
arithmetic, is the number of bytes in the pipe and at most `PIPESIZE`, however
often the counters wrapped. -/
theorem pipe_fifo {s : PipeSys P} (reach : (system P).Reachable s) :
    s.removed <+: s.inserted ∧
      (∀ k (bound : s.removed.length + k < s.inserted.length),
        s.pipe.data (slot (s.pipe.nread + UInt32.ofNat k)) = s.inserted[s.removed.length + k]) ∧
      (s.pipe.nwrite - s.pipe.nread).toNat = s.inserted.length - s.removed.length ∧
      (s.pipe.nwrite - s.pipe.nread).toNat ≤ pipeSize := by
  have inv := fifoInv_invariant.holds reach
  have close : s.inserted.length - s.removed.length < 2 ^ 32 := by
    have := inv.within
    unfold pipeSize at this
    omega
  have count := inv.nwrite.sub inv.nread inv.taken.length_le close
  refine ⟨inv.taken, ?_, count, ?_⟩
  · intro k bound
    rw [slot_eq_ringSlot (inv.nread.add k)]
    exact inv.buffered _ bound (Nat.le_add_right _ _)
  · have := inv.within
    omega

section Scenario

attribute [local instance] neZero_two

/-- Process `0` writes the two bytes `h i` with `pipewrite(pi, addr, 2)` and
returns; process `1` then reads one byte with `piperead(pi, addr, 1)`. -/
def helloEvents : List (PipeEvent (Fin 2)) :=
  [.pipewrite 0 (fun i => [104, 105][i]?) 2, .run 0, .run 0, .run 0,
    .piperead 1 (fun _ => true) 1, .run 1, .run 1, .run 1]

def helloState : PipeSys (Fin 2) :=
  match (system (Fin 2)).runFrom (system (Fin 2)).init helloEvents with
  | some (.running s) => s
  | _ => (system (Fin 2)).init

theorem helloState_reachable : (system (Fin 2)).Reachable helloState :=
  System.runFrom_reachable System.Reachable.init helloEvents (by rfl)

/-- After that run the second byte is the one left, at `data[nread % PIPESIZE]`,
and the counters are one apart. -/
theorem pipe_fifo_helloRead :
    helloState.inserted = [104, 105] ∧ helloState.removed = [104] ∧
      helloState.pipe.data (slot (helloState.pipe.nread + UInt32.ofNat 0)) = 105 ∧
      (helloState.pipe.nwrite - helloState.pipe.nread).toNat = 1 := by
  have inserted : helloState.inserted = [104, 105] := by rfl
  have removed : helloState.removed = [104] := by rfl
  obtain ⟨-, buffered, count, -⟩ := pipe_fifo helloState_reachable
  refine ⟨inserted, removed, ?_, ?_⟩
  · rw [buffered 0 (by simp [inserted, removed])]
    simp [inserted, removed]
  · rw [count, inserted, removed]
    rfl

end Scenario

end PipeSys

end Xv6
