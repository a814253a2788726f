import Mathlib
import Xv6.Fs.Content

/-! `fileread` and `filewrite` of `file.c` on a file of type `FD_INODE`: the
offset the file keeps, `readi` and `writei` at that offset under the inode's
lock, and the count each call returns. The count `n` of the system call is an
`int`, which `readi` and `writei` take as a `uint`. -/

namespace Xv6.Files

open Xv6.Lib Xv6.Fs

/-- The fields of an `FD_INODE` `struct file` that `fileread` and
`filewrite` read and write; its `type` is `FD_INODE` and its `ref` is no
concern of the calls. -/
structure InodeFile where
  readable : Bool
  writable : Bool
  ip : Fin ninode
  off : Nat
  deriving DecidableEq

variable {s : FsState} {f : InodeFile}

/-- `fileread(f, addr, n)` of an `FD_INODE` file: `readi` at `f->off` under the
inode's lock, the offset advanced by what it returns. Returned with the count
are the bytes `readi` copies out to `addr`, every copy succeeding. -/
def fileread (s : FsState) (f : InodeFile) (n : Int32) :
    Except String (Int × List UInt8 × InodeFile × FsState) :=
  if !f.readable then .ok (-1, [], f, s)
  else do
    let s ← s.ilock f.ip
    let (got, s) ← s.readi f.ip f.off n.toUInt32.toNat
    match got with
    | none => return (-1, [], f, s)
    | some bytes =>
      let f := if bytes.length > 0 then { f with off := f.off + bytes.length } else f
      return (bytes.length, bytes, f, s)

theorem ilock_valid {i : Fin ninode} (held : 1 ≤ (s.icache i).ref) (valid : (s.icache i).valid = true) :
    s.ilock i = pure s := by
  simp [FsState.ilock, valid, Nat.not_lt.mpr held]
  rfl

/-- `fileread` passes its `int n` to `readi`'s `uint n`: `-1` becomes
`2^32 - 1`, which from offset `0` does not wrap, so `readi` cuts it to the
file's size. A read of `-1` bytes at offset `0` reads the whole file,
returns its size and moves the offset to the end. -/
theorem fileread_negative_reads_file (owns : s.Owns f.ip) (readable : f.readable = true) (start : f.off = 0)
    (held : 1 ≤ (s.icache f.ip).ref) (valid : (s.icache f.ip).valid = true) :
    fileread s f (-1) =
      .ok ((s.icache f.ip).din.size, s.content f.ip, { f with off := (s.icache f.ip).din.size }, s) := by
  have fits : (s.icache f.ip).din.size < 2 ^ 32 - 1 := by
    have := owns.fits
    simp only [maxfile, ndirect, nindirect, bsize] at this
    omega
  have count : (-1 : Int32).toUInt32.toNat = 2 ^ 32 - 1 := by decide
  have whole : s.readi f.ip f.off (2 ^ 32 - 1) = pure (some (s.content f.ip), s) := by
    rw [owns.readi, start, if_pos ⟨Nat.zero_le _, by omega⟩, List.drop_zero,
      List.take_of_length_le (by rw [FsState.length_content]; omega)]
    rfl
  unfold fileread
  rw [if_neg (by simp [readable]), ilock_valid held valid, pure_bind, count, whole, pure_bind]
  by_cases empty : (s.icache f.ip).din.size = 0
  · have same : { f with off := 0 } = f := by
      cases f
      simp only at start
      rw [start]
    simp only [empty, FsState.length_content, gt_iff_lt, Nat.lt_irrefl, if_false, same]
    rfl
  · simp only [FsState.length_content, gt_iff_lt, Nat.pos_of_ne_zero empty, if_true, start, Nat.zero_add]
    rfl

/-- The spare disk with a file of five bytes, `hello`, in block `46`, the
first data block, held by inode `1` in cache entry `0`, which one open file
references and whose copy is valid. -/
def helloDisk : FsState :=
  { spareDisk with
    blocks := Function.update spareDisk.blocks 46 fun j => ([104, 101, 108, 108, 111] : List UInt8).getD j 0
    icache := fun _ =>
      { dev := 1, inum := 1, ref := 1, valid := true,
        din := { Dinode.zero with type := 2, size := 5, addrs := fun k => if k = 0 then 46 else 0 } } }

theorem helloDisk_owns : helloDisk.Owns ⟨0, ninode_pos⟩ := by
  have marks : ∀ b < 64, helloDisk.Marked b := fun _ => spareDisk_marks (s := helloDisk) rfl rfl
  exact FsState.owns_of_one_block (by decide) rfl (marks 46 (by decide)) (by decide) (by decide)
    (fun c below _ => marks c (Nat.lt_trans below (by decide))) (by decide) (by decide)

theorem fileread_negative_reads_file_hello :
    helloDisk.Owns ⟨0, ninode_pos⟩ ∧
      (1 ≤ (helloDisk.icache ⟨0, ninode_pos⟩).ref ∧ (helloDisk.icache ⟨0, ninode_pos⟩).valid = true) ∧
      (helloDisk.icache ⟨0, ninode_pos⟩).din.size = 5 ∧
      fileread helloDisk { readable := true, writable := false, ip := ⟨0, ninode_pos⟩, off := 0 } (-1) =
        .ok ((helloDisk.icache ⟨0, ninode_pos⟩).din.size, helloDisk.content ⟨0, ninode_pos⟩,
          { readable := true, writable := false, ip := ⟨0, ninode_pos⟩,
            off := (helloDisk.icache ⟨0, ninode_pos⟩).din.size }, helloDisk) :=
  ⟨helloDisk_owns, ⟨le_refl 1, rfl⟩, rfl,
    fileread_negative_reads_file (f := { readable := true, writable := false, ip := ⟨0, ninode_pos⟩, off := 0 })
      helloDisk_owns rfl rfl (le_refl 1) rfl⟩

end Xv6.Files
