import Xv6.Fs.Inode

/-! When the allocators of `fs.c` give up. `balloc` scans the bitmap, `ialloc`
the on-disk inodes and `iget` the inode cache; each panics exactly when the
scan finds nothing free, and otherwise stops only where `log_write` or a
nested `iget` does, with their own messages. -/

namespace Xv6.Fs

open Xv6.Lib

namespace FsState

variable {s : FsState}

theorem logWrite_eq_error {b : Nat} {message : String} (write : s.logWrite b = .error message) :
    message = "too big a transaction" ∨ message = "log_write outside of trans" := by
  unfold FsState.logWrite at write
  cases logged : s.log.logWrite b with
  | error e =>
    rw [logged] at write
    cases write
    rcases Log.logWrite_eq_error logged with ⟨same, -⟩ | ⟨same, -⟩
    · exact .inl same
    · exact .inr same
  | ok log =>
    rw [logged] at write
    cases write

theorem logWrite_ne {b : Nat} {message : String}
    (other : message ≠ "too big a transaction" ∧ message ≠ "log_write outside of trans") :
    s.logWrite b ≠ .error message := fun write =>
  (logWrite_eq_error write).elim other.1 other.2

theorem iget_eq_error {dev inum : Nat} {message : String} (got : s.iget dev inum = .error message) :
    message = "iget: no inodes" := by
  unfold iget at got
  split at got
  · cases got
  · split at got
    · cases got
    · cases got
      rfl

theorem freeBit_eq_none_iff {blk : Block} {b size : Nat} :
    freeBit blk b size = none ↔ ∀ bi < bpb, b + bi < size → bitSet blk bi = true := by
  unfold freeBit
  rw [List.find?_eq_none]
  refine forall_congr' fun bi => ?_
  rw [List.mem_range]
  simp only [Bool.and_eq_true, decide_eq_true_eq, Bool.not_eq_true', not_and, Bool.not_eq_false]

theorem freeBit_eq_some {blk : Block} {b size bi : Nat} (found : freeBit blk b size = some bi) :
    bi < bpb ∧ b + bi < size ∧ bitSet blk bi = false := by
  unfold freeBit at found
  have within := List.mem_range.mp (List.mem_of_find?_eq_some found)
  have clear := List.find?_some found
  simp only [Bool.and_eq_true, decide_eq_true_eq, Bool.not_eq_true'] at clear
  exact ⟨within, clear⟩

theorem bblock_of_stretch {k bi : Nat} (within : bi < bpb) :
    bblock (k * bpb + bi) s.sb = bblock (k * bpb) s.sb ∧ (k * bpb + bi) % bpb = bi := by
  have positive : 0 < bpb := by decide
  refine ⟨?_, ?_⟩
  · simp only [bblock, Nat.mul_div_cancel _ positive]
    rw [Nat.mul_comm, Nat.mul_add_div positive, Nat.div_eq_of_lt within, Nat.add_zero]
  · rw [Nat.mul_comm, Nat.mul_add_mod, Nat.mod_eq_of_lt within]

theorem ballocFound_ne {bb bi b : Nat} :
    (do
      let s ← (s.setBlock bb (markBit (s.blocks bb) bi)).logWrite bb
      let s ← s.bzero (b + bi)
      return (b + bi, s) : Except String (Nat × FsState)) ≠ .error "balloc: out of blocks" := by
  intro stops
  cases logged : (s.setBlock bb (markBit (s.blocks bb) bi)).logWrite bb with
  | error e =>
    rw [logged] at stops
    cases stops
    exact logWrite_ne ⟨by decide, by decide⟩ logged
  | ok s' =>
    rw [logged] at stops
    cases zeroed : s'.bzero (b + bi) with
    | error e =>
      simp only [bind, Except.bind, zeroed] at stops
      cases stops
      exact logWrite_ne ⟨by decide, by decide⟩ zeroed
    | ok s'' => simp [bind, Except.bind, zeroed, pure, Except.pure] at stops

theorem ballocLoop_out_iff (fuel k : Nat) (enough : s.sb.size ≤ (k + fuel) * bpb) :
    (s.ballocLoop fuel (k * bpb) = .error "balloc: out of blocks" ↔
      ∀ blk, k * bpb ≤ blk → blk < s.sb.size → bitSet (s.blocks (bblock blk s.sb)) (blk % bpb) = true) := by
  induction fuel generalizing k with
  | zero =>
    simp only [Nat.add_zero] at enough
    exact ⟨fun _ blk low high => absurd (Nat.lt_of_lt_of_le high enough) (by omega), fun _ => rfl⟩
  | succ fuel ih =>
    rw [ballocLoop]
    by_cases below : k * bpb < s.sb.size
    case neg =>
      rw [if_neg below]
      exact ⟨fun _ blk low high => absurd high (by omega), fun _ => rfl⟩
    rw [if_pos below]
    dsimp only
    cases found : freeBit (s.blocks (bblock (k * bpb) s.sb)) (k * bpb) s.sb.size with
    | some bi =>
      obtain ⟨within, inRange, clear⟩ := freeBit_eq_some found
      obtain ⟨sameBlock, sameBit⟩ := bblock_of_stretch (s := s) (k := k) within
      refine ⟨fun stops => absurd stops ballocFound_ne, fun full => ?_⟩
      have marked := full (k * bpb + bi) (Nat.le_add_right _ _) inRange
      rw [sameBlock, sameBit, clear] at marked
      cases marked
    | none =>
      have stretch := freeBit_eq_none_iff.mp found
      have next : k * bpb + bpb = (k + 1) * bpb := by rw [Nat.succ_mul]
      dsimp only
      rw [next, ih (k + 1) (by rw [Nat.add_right_comm]; exact enough)]
      constructor
      · intro rest blk low high
        by_cases here : blk < (k + 1) * bpb
        · have within : blk - k * bpb < bpb := by rw [Nat.succ_mul] at here; omega
          obtain ⟨sameBlock, sameBit⟩ := bblock_of_stretch (s := s) (k := k) within
          rw [Nat.add_sub_cancel' low] at sameBlock sameBit
          rw [sameBlock, sameBit]
          exact stretch (blk - k * bpb) within (by omega)
        · exact rest blk (by omega) high
      · intro full blk low high
        exact full blk (by rw [Nat.succ_mul] at low; omega) high

theorem balloc_out_iff : s.balloc = .error "balloc: out of blocks" ↔
    ∀ b < s.sb.size, bitSet (s.blocks (bblock b s.sb)) (b % bpb) = true := by
  have enough : s.sb.size ≤ (0 + (s.sb.size / bpb + 1)) * bpb := by
    have := Nat.lt_div_mul_add (a := s.sb.size) (b := bpb) (by decide)
    rw [Nat.zero_add, Nat.succ_mul]
    omega
  rw [balloc, ← Nat.zero_mul bpb, ballocLoop_out_iff _ 0 enough]
  simp only [Nat.zero_mul, Nat.zero_le, true_implies]

theorem iget_full_iff {dev inum : Nat} : s.iget dev inum = .error "iget: no inodes" ↔
    ∀ i, 0 < (s.icache i).ref ∧ ¬((s.icache i).dev = dev ∧ (s.icache i).inum = inum) := by
  unfold iget
  cases cached : (List.finRange ninode).find? fun i =>
      decide (0 < (s.icache i).ref) && (s.icache i).dev == dev && (s.icache i).inum == inum with
  | some i =>
    have holds := List.find?_some cached
    simp only [Bool.and_eq_true, decide_eq_true_eq, beq_iff_eq] at holds
    exact ⟨fun stops => (by cases stops), fun full => absurd ⟨holds.1.2, holds.2⟩ (full i).2⟩
  | none =>
    have none := List.find?_eq_none.mp cached
    cases empty : (List.finRange ninode).find? fun i => (s.icache i).ref == 0 with
    | some i =>
      have zero := List.find?_some empty
      simp only [beq_iff_eq] at zero
      exact ⟨fun stops => (by cases stops), fun full => absurd (full i).1 (by omega)⟩
    | none =>
      have noEmpty := List.find?_eq_none.mp empty
      refine ⟨fun _ i => ?_, fun _ => rfl⟩
      have used := noEmpty i (List.mem_finRange i)
      have other := none i (List.mem_finRange i)
      simp only [beq_iff_eq] at used
      simp only [Bool.and_eq_true, decide_eq_true_eq, beq_iff_eq, not_and] at other
      exact ⟨Nat.pos_of_ne_zero used, fun ⟨sameDev, sameInum⟩ => other ⟨Nat.pos_of_ne_zero used, sameDev⟩ sameInum⟩

theorem iallocFound_ne {bn dev inum : Nat} {block : Block} :
    (do
      let s ← (s.setBlock bn block).logWrite bn
      s.iget dev inum : Except String (Fin ninode × FsState)) ≠ .error "ialloc: no inodes" := by
  intro stops
  cases logged : (s.setBlock bn block).logWrite bn with
  | error e =>
    rw [logged] at stops
    cases stops
    exact logWrite_ne ⟨by decide, by decide⟩ logged
  | ok s' =>
    rw [logged] at stops
    cases got : s'.iget dev inum with
    | error e =>
      simp only [bind, Except.bind, got] at stops
      cases stops
      exact absurd (iget_eq_error got) (by decide)
    | ok r => simp [bind, Except.bind, got] at stops

theorem iallocLoop_out_iff {dev type : Nat} : ∀ fuel inum, s.sb.ninodes ≤ inum + fuel →
    (s.iallocLoop dev type fuel inum = .error "ialloc: no inodes" ↔
      ∀ j, inum ≤ j → j < s.sb.ninodes → (Dinode.read (s.blocks (iblock j s.sb)) (dinodeOff j)).type ≠ 0)
  | 0, inum, enough => ⟨fun _ j low high => absurd high (by omega), fun _ => rfl⟩
  | fuel + 1, inum, enough => by
    unfold iallocLoop
    by_cases below : inum < s.sb.ninodes
    case neg =>
      rw [if_neg below]
      exact ⟨fun _ j low high => absurd high (by omega), fun _ => rfl⟩
    rw [if_pos below]
    by_cases free : (Dinode.read (s.blocks (iblock inum s.sb)) (dinodeOff inum)).type = 0
    · rw [if_pos free]
      exact ⟨fun stops => absurd stops iallocFound_ne, fun used => absurd free (used inum (Nat.le_refl _) below)⟩
    · rw [if_neg free, iallocLoop_out_iff fuel (inum + 1) (by omega)]
      constructor
      · intro rest j low high
        by_cases here : j = inum
        · rw [here]
          exact free
        · exact rest j (by omega) high
      · intro used j low high
        exact used j (by omega) high

theorem ialloc_out_iff {dev type : Nat} : s.ialloc dev type = .error "ialloc: no inodes" ↔
    ∀ j, 1 ≤ j → j < s.sb.ninodes → (Dinode.read (s.blocks (iblock j s.sb)) (dinodeOff j)).type ≠ 0 :=
  iallocLoop_out_iff _ 1 (by omega)

theorem ballocLoop_refused {message : String} (refused : ∀ b, s.log.logWrite b = .error message) :
    ∀ fuel b, s.ballocLoop fuel b = .error message ∨ s.ballocLoop fuel b = .error "balloc: out of blocks"
  | 0, _ => .inr rfl
  | fuel + 1, b => by
    rw [ballocLoop]
    by_cases below : b < s.sb.size
    case neg => exact .inr (if_neg below)
    rw [if_pos below]
    dsimp only
    cases freeBit (s.blocks (bblock b s.sb)) b s.sb.size with
    | some bi =>
      refine .inl ?_
      have logged : (s.setBlock (bblock b s.sb) (markBit (s.blocks (bblock b s.sb)) bi)).logWrite (bblock b s.sb) =
          .error message := by
        simp only [FsState.logWrite, setBlock, refused, bind, Except.bind]
      simp only [logged, bind, Except.bind]
    | none => exact ballocLoop_refused refused fuel (b + bpb)

theorem balloc_refused {message : String} (refused : ∀ b, s.log.logWrite b = .error message)
    (free : ∃ b < s.sb.size, bitSet (s.blocks (bblock b s.sb)) (b % bpb) = false) : s.balloc = .error message := by
  rcases ballocLoop_refused refused (s.sb.size / bpb + 1) 0 with stops | full
  · exact stops
  · obtain ⟨b, below, clear⟩ := free
    have marked := balloc_out_iff.mp full b below
    rw [clear] at marked
    cases marked

theorem ballocLoop_eq_error {message : String} : ∀ fuel b, s.ballocLoop fuel b = .error message →
    message = "balloc: out of blocks" ∨ message = "too big a transaction" ∨ message = "log_write outside of trans" := by
  intro fuel
  induction fuel with
  | zero =>
    intro b stop
    cases stop
    exact .inl rfl
  | succ fuel ih =>
    intro b stop
    rw [ballocLoop] at stop
    split at stop
    · dsimp only at stop
      split at stop
      · rename_i bi found
        cases logged : (s.setBlock (bblock b s.sb) (markBit (s.blocks (bblock b s.sb)) bi)).logWrite
            (bblock b s.sb) with
        | error e =>
          rw [logged] at stop
          cases stop
          exact .inr (logWrite_eq_error logged)
        | ok s' =>
          rw [logged] at stop
          cases zeroed : s'.bzero (b + bi) with
          | error e =>
            simp only [bind, Except.bind, zeroed] at stop
            cases stop
            exact .inr (logWrite_eq_error zeroed)
          | ok s'' => simp [bind, Except.bind, zeroed, pure, Except.pure] at stop
      · exact ih _ stop
    · cases stop
      exact .inl rfl

theorem iallocLoop_eq_error {dev type : Nat} {message : String} : ∀ fuel inum,
    s.iallocLoop dev type fuel inum = .error message →
      message = "ialloc: no inodes" ∨ message = "iget: no inodes" ∨
        message = "too big a transaction" ∨ message = "log_write outside of trans" := by
  intro fuel
  induction fuel generalizing s with
  | zero =>
    intro inum stop
    cases stop
    exact .inl rfl
  | succ fuel ih =>
    intro inum stop
    rw [iallocLoop] at stop
    split at stop
    · dsimp only at stop
      split at stop
      · cases logged : (s.setBlock (iblock inum s.sb) (setLE (fillBytes (s.blocks (iblock inum s.sb))
            (dinodeOff inum) dinodeSize 0) (dinodeOff inum) 2 type)).logWrite (iblock inum s.sb) with
        | error e =>
          rw [logged] at stop
          cases stop
          exact .inr (.inr (logWrite_eq_error logged))
        | ok s' =>
          rw [logged] at stop
          exact .inr (.inl (iget_eq_error stop))
      · exact ih _ stop
    · cases stop
      exact .inl rfl

/-- Each allocator panics, with its own message, exactly when what it looks
for is used up: `balloc` when every block below `sb.size` is marked in the
bitmap, `ialloc` when every inode from `1` below `sb.ninodes` has a type, and
`iget` when every cache entry is referenced and none holds the inode. Any
other stop is `log_write`'s, or in `ialloc` the nested `iget`'s. -/
theorem exhaustion_panics (s : FsState) (dev type inum : Nat) :
    (s.balloc = .error "balloc: out of blocks" ↔
      ∀ b < s.sb.size, bitSet (s.blocks (bblock b s.sb)) (b % bpb) = true) ∧
    (s.ialloc dev type = .error "ialloc: no inodes" ↔
      ∀ j, 1 ≤ j → j < s.sb.ninodes → (Dinode.read (s.blocks (iblock j s.sb)) (dinodeOff j)).type ≠ 0) ∧
    (s.iget dev inum = .error "iget: no inodes" ↔
      ∀ i, 0 < (s.icache i).ref ∧ ¬((s.icache i).dev = dev ∧ (s.icache i).inum = inum)) ∧
    (∀ e, s.balloc = .error e →
      e = "balloc: out of blocks" ∨ e = "too big a transaction" ∨ e = "log_write outside of trans") ∧
    (∀ e, s.ialloc dev type = .error e →
      e = "ialloc: no inodes" ∨ e = "iget: no inodes" ∨ e = "too big a transaction" ∨
        e = "log_write outside of trans") ∧
    (∀ e, s.iget dev inum = .error e → e = "iget: no inodes") :=
  ⟨balloc_out_iff, ialloc_out_iff, iget_full_iff, fun _ stop => ballocLoop_eq_error _ _ stop,
    fun _ stop => iallocLoop_eq_error _ _ stop, fun _ got => iget_eq_error got⟩

end FsState

/-- A disk of `FSSIZE` blocks with the layout `mkfs` gives it, whose bitmap
block marks every block in use, during a system call (one operation is
outstanding in the log). -/
def fullDisk : FsState where
  blocks := fun b => if b = 45 then fun _ => 255 else fun _ => 0
  log := { start := 2, size := 30, outstanding := 1, committing := false, lh := [] }
  icache := fun _ => { dev := 0, inum := 0, ref := 0, valid := false, din := Dinode.zero }
  sb :=
    { magic := fsmagic, size := fssize, nblocks := 1954, ninodes := 200, nlog := 30, logstart := 2,
      inodestart := 32, bmapstart := 45 }

theorem bitSet_ones (bi : Nat) : bitSet (fun _ => 255) bi = true := by
  show ((255 : UInt8) &&& (1 : UInt8) <<< UInt8.ofNat (bi % 8) != 0) = true
  have small : bi % 8 < 8 := Nat.mod_lt _ (by decide)
  generalize bi % 8 = k at small ⊢
  match k, small with
  | 0, _ | 1, _ | 2, _ | 3, _ | 4, _ | 5, _ | 6, _ | 7, _ => decide

/-- On the full disk, the `balloc` of a `write` panics rather than fail. -/
theorem fullDisk_balloc_panics : fullDisk.balloc = .error "balloc: out of blocks" := by
  refine FsState.balloc_out_iff.mpr fun b below => ?_
  have bitmap : bblock b fullDisk.sb = 45 := by
    simp only [fullDisk, bblock, bpb, bsize, fssize] at below ⊢
    omega
  rw [bitmap]
  exact bitSet_ones _

end Xv6.Fs
