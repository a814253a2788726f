import Mathlib
import Xv6.Fs.Layout

/-! Round trips of the on-disk format: what `Superblock.write` and
`Dinode.write` store reads back, a store at another inode's offset leaves an
inode, a `struct dirent` copied into a block decodes to its number and name,
and `markBit` sets exactly the bit `bitSet` tests. -/

namespace Xv6.Fs

open Xv6.Lib

/-- Every field of the superblock fits its `uint`. -/
def Superblock.Fits (sb : Superblock) : Prop :=
  sb.magic < 2 ^ 32 ∧ sb.size < 2 ^ 32 ∧ sb.nblocks < 2 ^ 32 ∧ sb.ninodes < 2 ^ 32 ∧
    sb.nlog < 2 ^ 32 ∧ sb.logstart < 2 ^ 32 ∧ sb.inodestart < 2 ^ 32 ∧ sb.bmapstart < 2 ^ 32

instance (sb : Superblock) : Decidable sb.Fits := by
  unfold Superblock.Fits
  infer_instance

theorem Superblock.read_write (sb : Superblock) (fits : sb.Fits) (b : Block) :
    Superblock.read (sb.write b) = sb := by
  obtain ⟨magic, size, nblocks, ninodes, nlog, logstart, inodestart, bmapstart⟩ := sb
  have field : ∀ k < 8, getLE (Superblock.write ⟨magic, size, nblocks, ninodes, nlog, logstart, inodestart,
      bmapstart⟩ b) (4 * k) 4 = [magic, size, nblocks, ninodes, nlog, logstart, inodestart,
        bmapstart].getD k 0 % 256 ^ 4 := fun k below => by
    rw [← Nat.zero_add (4 * k)]
    exact getLE_setArray _ 8 below
  obtain ⟨f0, f1, f2, f3, f4, f5, f6, f7⟩ := fits
  simp only [Superblock.read, Superblock.mk.injEq]
  exact ⟨(field 0 (by decide)).trans (Nat.mod_eq_of_lt f0), (field 1 (by decide)).trans (Nat.mod_eq_of_lt f1),
    (field 2 (by decide)).trans (Nat.mod_eq_of_lt f2), (field 3 (by decide)).trans (Nat.mod_eq_of_lt f3),
    (field 4 (by decide)).trans (Nat.mod_eq_of_lt f4), (field 5 (by decide)).trans (Nat.mod_eq_of_lt f5),
    (field 6 (by decide)).trans (Nat.mod_eq_of_lt f6), (field 7 (by decide)).trans (Nat.mod_eq_of_lt f7)⟩

namespace Dinode

/-- Every field of a `struct dinode` fits its C type, and the `addrs` past
`NDIRECT` are `0`. -/
structure Fits (d : Dinode) : Prop where
  type : d.type < 2 ^ 16
  major : d.major < 2 ^ 16
  minor : d.minor < 2 ^ 16
  nlink : d.nlink < 2 ^ 16
  size : d.size < 2 ^ 32
  addrs : ∀ k, d.addrs k < 2 ^ 32
  beyond : ∀ k, ndirect + 1 ≤ k → d.addrs k = 0

variable {d : Dinode} {b b' : Block} {off off' : Nat}

theorem write_outside {i : Nat} (outside : i < off ∨ off + dinodeSize ≤ i) : d.write b off i = b i := by
  simp only [write, dinodeSize, ndirect] at outside ⊢
  rw [setArray_outside _ _ (by omega), setLE_outside _ _ _ _ (by omega), setLE_outside _ _ _ _ (by omega),
    setLE_outside _ _ _ _ (by omega), setLE_outside _ _ _ _ (by omega), setLE_outside _ _ _ _ (by omega)]

theorem read_congr (same : ∀ i, off ≤ i → i < off + dinodeSize → b i = b' i) : read b off = read b' off := by
  have bytes : ∀ j w, off ≤ j → j + w ≤ off + dinodeSize → getLE b j w = getLE b' j w := fun j w low high =>
    getLE_congr w j fun i l h => same i (by omega) (by omega)
  simp only [dinodeSize] at bytes
  ext
  · exact bytes off 2 (by omega) (by omega)
  · exact bytes (off + 2) 2 (by omega) (by omega)
  · exact bytes (off + 4) 2 (by omega) (by omega)
  · exact bytes (off + 6) 2 (by omega) (by omega)
  · exact bytes (off + 8) 4 (by omega) (by omega)
  · rename_i k
    simp only [read]
    split
    · exact bytes (off + 12 + 4 * k) 4 (by omega) (by simp only [ndirect] at *; omega)
    · rfl

theorem read_write (fits : d.Fits) (b : Block) (off : Nat) : read (d.write b off) off = d := by
  ext
  · simp (disch := omega) only [read, write, getLE_setArray_of_disjoint, getLE_setLE_of_disjoint, getLE_setLE]
    exact Nat.mod_eq_of_lt fits.type
  · simp (disch := omega) only [read, write, getLE_setArray_of_disjoint, getLE_setLE_of_disjoint, getLE_setLE]
    exact Nat.mod_eq_of_lt fits.major
  · simp (disch := omega) only [read, write, getLE_setArray_of_disjoint, getLE_setLE_of_disjoint, getLE_setLE]
    exact Nat.mod_eq_of_lt fits.minor
  · simp (disch := omega) only [read, write, getLE_setArray_of_disjoint, getLE_setLE_of_disjoint, getLE_setLE]
    exact Nat.mod_eq_of_lt fits.nlink
  · simp (disch := omega) only [read, write, getLE_setArray_of_disjoint, getLE_setLE]
    exact Nat.mod_eq_of_lt fits.size
  · rename_i k
    simp only [read]
    split
    · rw [write, getLE_setArray _ _ (by assumption)]
      exact Nat.mod_eq_of_lt (fits.addrs k)
    · exact (fits.beyond k (by omega)).symm

theorem read_write_of_disjoint (apart : off + dinodeSize ≤ off' ∨ off' + dinodeSize ≤ off) :
    read (d.write b off') off = read b off :=
  read_congr fun _ low high => write_outside (by omega)

end Dinode

theorem dinodeOff_apart {i j : Nat} (other : i ≠ j) (sameBlock : i / ipb = j / ipb) :
    dinodeOff i + dinodeSize ≤ dinodeOff j ∨ dinodeOff j + dinodeSize ≤ dinodeOff i := by
  simp only [dinodeOff, dinodeSize, ipb, bsize] at sameBlock ⊢
  omega

theorem Dirent.read_congr {m m' : Mem} {o : Nat} (same : ∀ i, o ≤ i → i < o + direntSize → m i = m' i) :
    Dirent.read m o = Dirent.read m' o := by
  simp only [direntSize] at same
  simp only [Dirent.read, Dirent.mk.injEq]
  exact ⟨getLE_congr 2 o fun i low high => same i low (by omega),
    bytesAt_congr fun i low high => same i (by omega) (by simp only [dirsiz] at high; omega)⟩

theorem Dirent.read_bytesAt (m : Mem) (o : Nat) :
    Dirent.read (fun j => (bytesAt m o direntSize).getD j 0) 0 = Dirent.read m o := by
  calc Dirent.read (fun j => (bytesAt m o direntSize).getD j 0) 0
      = Dirent.read (fun j => m (o + j)) 0 :=
        Dirent.read_congr fun i _ below => bytesAt_getD (by rw [Nat.zero_add] at below; exact below)
    _ = Dirent.read m o := by
        simp only [Dirent.read, getLE_shift, bytesAt_shift, Nat.add_zero]

theorem Dirent.read_copy (buf : Block) (o inum : Nat) {name : List UInt8} (fourteen : name.length = dirsiz) :
    Dirent.read (copyBytes buf o (fun i => (UInt8.ofNat inum :: UInt8.ofNat (inum / 256) :: name).getD i 0) 0 direntSize) o =
      { inum := inum % 65536, name } := by
  have inside : ∀ i < direntSize, copyBytes buf o (fun i => (UInt8.ofNat inum :: UInt8.ofNat (inum / 256) :: name).getD i 0)
      0 direntSize (o + i) = (UInt8.ofNat inum :: UInt8.ofNat (inum / 256) :: name).getD i 0 := fun i below => by
    rw [copyBytes_inside ⟨Nat.le_add_right o i, by omega⟩, Nat.add_sub_cancel_left, Nat.zero_add]
  simp only [Dirent.read, Dirent.mk.injEq]
  constructor
  · have low := inside 0 (by decide)
    have high := inside 1 (by decide)
    rw [Nat.add_zero] at low
    simp only [getLE, low, high, List.getD_cons_zero, List.getD_cons_succ, UInt8.toNat_ofNat']
    omega
  · apply List.ext_getElem (by rw [bytesAt_length, fourteen])
    intro i within _
    simp only [bytesAt, List.getElem_map, List.getElem_range]
    rw [bytesAt_length] at within
    rw [Nat.add_assoc, inside (2 + i) (by simp only [dirsiz, direntSize] at within ⊢; omega), Nat.add_comm,
      List.getD_cons_succ, List.getD_cons_succ, List.getD_eq_getElem]

theorem one_shiftLeft_toNat {a : Nat} (small : a < 8) : ((1 : UInt8) <<< UInt8.ofNat a).toNat = 2 ^ a := by
  rw [UInt8.toNat_shiftLeft, UInt8.toNat_one, UInt8.toNat_ofNat', Nat.mod_eq_of_lt (by omega : a < 2 ^ 8),
    Nat.mod_eq_of_lt (by omega : a < 8), Nat.one_shiftLeft,
    Nat.mod_eq_of_lt (Nat.pow_lt_pow_right (by decide) small)]

theorem bitSet_eq_testBit (blk : Block) (bi : Nat) : bitSet blk bi = (blk (bi / 8)).toNat.testBit (bi % 8) := by
  apply Bool.eq_iff_iff.mpr
  rw [bitSet, bne_iff_ne, ne_eq, ← UInt8.toNat_inj, UInt8.toNat_and, one_shiftLeft_toNat (Nat.mod_lt _ (by decide)),
    Nat.land_comm, Nat.two_pow_and, UInt8.toNat_zero]
  cases (blk (bi / 8)).toNat.testBit (bi % 8) <;> simp

theorem bitSet_markBit (blk : Block) (i j : Nat) : bitSet (markBit blk j) i = (bitSet blk i || decide (i = j)) := by
  rw [bitSet_eq_testBit, bitSet_eq_testBit, markBit]
  by_cases sameByte : i / 8 = j / 8
  · rw [sameByte, Function.update_self, UInt8.toNat_or, one_shiftLeft_toNat (Nat.mod_lt _ (by decide)),
      Nat.testBit_or, Nat.testBit_two_pow]
    have sameBit : j % 8 = i % 8 ↔ i = j := by omega
    simp only [sameBit]
  · rw [Function.update_of_ne sameByte, decide_eq_false (fun same => sameByte (by rw [same])), Bool.or_false]

end Xv6.Fs
