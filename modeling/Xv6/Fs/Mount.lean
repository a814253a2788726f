import Xv6.Fs.Alloc

/-! `fsinit` and the first reads of a directory after it. Booting reads the
superblock, recovers the log and leaves every inode-cache entry unreferenced;
`iget` then takes the first entry and `ilock` reads the inode from its block.
A `readi` at an offset whose block the inode does not map allocates one with
`balloc`, and outside a transaction (`fileread` has no `begin_op`) that
allocation stops at `log_write`. -/

namespace Xv6.Fs

open Xv6.Lib

/-- `install_trans` at boot: log block `start + tail + 1` copied home to
`lh.block[tail]`, for each `tail < n` in turn. -/
def installTrans (start : Nat) (head : Block) : Nat → (Nat → Block) → Nat → Block
  | 0, disk => disk
  | tail + 1, disk =>
    let disk := installTrans start head tail disk
    Function.update disk (getLE head (4 + 4 * tail) 4) (disk (start + tail + 1))

/-- The inode-cache entry `iinit` leaves. -/
def Inode.unused : Inode := { dev := 0, inum := 0, ref := 0, valid := false, din := Dinode.zero }

/-- `fsinit(dev)` on a disk: `readsb`, the magic test, and `initlog`, whose
`recover_from_log` installs the blocks the on-disk log header names and clears
the header; every inode-cache entry is unreferenced. `lh.n` is an `int`: a
header that reads as negative installs nothing. -/
def mount (disk : Nat → Block) : Except String FsState :=
  let sb := Superblock.read (disk 1)
  if sb.magic ≠ fsmagic then .error "invalid file system"
  else
    let head := disk sb.logstart
    let n := getLE head 0 4
    let blocks := installTrans sb.logstart head (if n < 2 ^ 31 then n else 0) disk
    let blocks := Function.update blocks sb.logstart (setLE (blocks sb.logstart) 0 4 0)
    .ok
      { blocks, sb
        log := { start := sb.logstart, size := sb.nlog, outstanding := 0, committing := false, lh := [] }
        icache := fun _ => Inode.unused }

theorem mount_clean {disk : Nat → Block} (magic : (Superblock.read (disk 1)).magic = fsmagic)
    (clean : getLE (disk (Superblock.read (disk 1)).logstart) 0 4 = 0) :
    mount disk = .ok
      { blocks := Function.update disk (Superblock.read (disk 1)).logstart
          (setLE (disk (Superblock.read (disk 1)).logstart) 0 4 0),
        sb := Superblock.read (disk 1),
        log :=
          { start := (Superblock.read (disk 1)).logstart, size := (Superblock.read (disk 1)).nlog
            outstanding := 0, committing := false, lh := [] }
        icache := fun _ => Inode.unused } := by
  simp only [mount, magic, ne_eq, not_true_eq_false, if_false, clean, ite_self, installTrans]

namespace FsState

variable {s : FsState}

theorem iget_unreferenced (unreferenced : ∀ i, (s.icache i).ref = 0) (dev inum : Nat) :
    s.iget dev inum = .ok (⟨0, by decide⟩,
      s.setInode ⟨0, by decide⟩ { s.icache ⟨0, by decide⟩ with dev, inum, ref := 1, valid := false }) := by
  have noHolder : (List.finRange ninode).find? (fun i =>
      decide (0 < (s.icache i).ref) && (s.icache i).dev == dev && (s.icache i).inum == inum) = none :=
    List.find?_eq_none.mpr fun i _ => by simp [unreferenced i]
  have first : (List.finRange ninode).find? (fun i => (s.icache i).ref == 0) = some ⟨0, by decide⟩ := by
    simp only [unreferenced, beq_self_eq_true]
    rfl
  simp only [iget, noHolder, first]

theorem ilock_read {i : Fin ninode} (held : 1 ≤ (s.icache i).ref) (stale : (s.icache i).valid = false)
    (typed : (Dinode.read (s.blocks (iblock (s.icache i).inum s.sb)) (dinodeOff (s.icache i).inum)).type ≠ 0) :
    s.ilock i = .ok (s.setInode i { s.icache i with
      din := Dinode.read (s.blocks (iblock (s.icache i).inum s.sb)) (dinodeOff (s.icache i).inum), valid := true }) := by
  simp only [ilock, if_neg (Nat.not_lt.mpr held), stale, Bool.false_eq_true, if_false, if_neg typed]

theorem readi_hole {message : String} {i : Fin ninode} {k n : Nat} (direct : k < ndirect)
    (hole : (s.icache i).din.addrs k = 0) (inside : k * bsize < (s.icache i).din.size) (wants : 0 < n)
    (small : k * bsize + n < 2 ^ 32) (stops : s.balloc = .error message) :
    s.readi i (k * bsize) n = .error message := by
  have start : k * bsize / bsize = k := Nat.mul_div_cancel k (by decide)
  unfold readi
  rw [if_neg (by omega)]
  dsimp only
  have pass : ∀ left fuel got, 0 < left → readLoop (fuel + 1) s i (k * bsize) left got = .error message :=
    fun left fuel got positive => by
      rw [readLoop, if_neg (by omega), bmap, start, if_pos direct]
      simp only [hole, if_true, stops, bind, Except.bind]
  split
  · rw [pass _ _ _ (by omega)]
    rfl
  · rw [pass _ _ _ wants]
    rfl

theorem readi_mapped {i : Fin ninode} {k r n : Nat} (direct : k < ndirect)
    (mapped : (s.icache i).din.addrs k ≠ 0) (within : r + n ≤ bsize)
    (inside : k * bsize + r + n ≤ (s.icache i).din.size) (small : k * bsize + r + n < 2 ^ 32) :
    s.readi i (k * bsize + r) n = .ok (some (bytesAt (s.blocks ((s.icache i).din.addrs k)) r n), s) := by
  unfold readi
  rw [if_neg (by omega)]
  dsimp only
  rw [if_neg (by omega)]
  cases n with
  | zero =>
    rw [readLoop, if_pos rfl]
    rfl
  | succ n =>
    have block : (k * bsize + r) / bsize = k := by
      simp only [bsize] at within ⊢
      omega
    have offset : (k * bsize + r) % bsize = r := by
      simp only [bsize] at within ⊢
      omega
    rw [readLoop, if_neg (Nat.succ_ne_zero n), bmap, block, if_pos direct, if_neg mapped]
    simp only [bind, Except.bind, offset, Nat.min_eq_left (show n + 1 ≤ bsize - r by omega), Nat.sub_self]
    rw [readLoop, if_pos rfl]
    rfl

end FsState

end Xv6.Fs
