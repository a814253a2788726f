import Mathlib
import Xv6.Fs.Alloc
import Xv6.Fs.Format
import Xv6.Lib.Meets

/-! What an inode's file holds, and what `bmap`, `readi` and `writei` do to
it. A file is the `size` bytes of the blocks its slots name: the direct
`addrs[k]`, the indirect block `addrs[NDIRECT]`, and the indirect block's
entries. `Owns` is what the kernel keeps true of an inode it reads and writes
through: no holes below the size, slots that name distinct blocks, marked in
use and past the metadata, and a bitmap that marks the metadata, so that
`balloc` only ever hands out a block no slot names. From it, `readi` reads
the file's bytes and allocates nothing, and `writei` either stops with the
panic of a full disk or log, or writes its bytes into the file at the offset,
with nothing else of the file changed. -/

namespace Xv6.Fs

open Xv6.Lib

/-- The places that hold a file's block numbers: `addrs[k]` for
`k < NDIRECT`, the indirect block `addrs[NDIRECT]`, and entry `k` of it. -/
inductive Slot where
  | direct (k : Fin ndirect)
  | indirect
  | entry (k : Fin nindirect)
  deriving DecidableEq

/-- The first block past the bitmap: `nmeta` as `mkfs` lays a disk out, whose
bitmap has `size / BPB + 1` blocks from `bmapstart`. -/
def dataStart (sb : Superblock) : Nat :=
  sb.bmapstart + sb.size / bpb + 1

/-- The panics `bmap` and `writei` can stop with: `balloc`'s, when the disk
is full, and `log_write`'s two. -/
def WritePanic (e : String) : Prop :=
  e = "balloc: out of blocks" ∨ e = "too big a transaction" ∨ e = "log_write outside of trans"

/-- The slot that holds block `bn` of a file: direct below `NDIRECT`, then
the entries of the indirect block, none past `MAXFILE` blocks. -/
def slotOf (bn : Nat) : Option Slot :=
  if direct : bn < ndirect then some (.direct ⟨bn, direct⟩)
  else if indirect : bn - ndirect < nindirect then some (.entry ⟨bn - ndirect, indirect⟩)
  else none

namespace FsState

/-- The block number a slot holds, `0` for none; an indirect block not yet
allocated has no entries. -/
def slotBlock (s : FsState) (d : Dinode) : Slot → Nat
  | .direct k => d.addrs k
  | .indirect => d.addrs ndirect
  | .entry k => if d.addrs ndirect = 0 then 0 else getLE (s.blocks (d.addrs ndirect)) (4 * k) 4

/-- Block `bn` of the file as `bmap` finds it without allocating: `0` for a
hole, and past `MAXFILE` blocks. -/
def blockAt (s : FsState) (d : Dinode) (bn : Nat) : Nat :=
  ((slotOf bn).map (s.slotBlock d)).getD 0

/-- Byte `k` of the file. -/
def byteAt (s : FsState) (d : Dinode) (k : Nat) : UInt8 :=
  s.blocks (s.blockAt d (k / bsize)) (k % bsize)

/-- The `size` bytes of inode `i`'s file. -/
def content (s : FsState) (i : Fin ninode) : List UInt8 :=
  (List.range (s.icache i).din.size).map (s.byteAt (s.icache i).din)

/-- The bitmap marks block `b` in use. -/
def Marked (s : FsState) (b : Nat) : Prop :=
  bitSet (s.blocks (bblock b s.sb)) (b % bpb) = true

/-- What reading and writing inode `i` rely on. -/
structure Owns (s : FsState) (i : Fin ninode) : Prop where
  fits : (s.icache i).din.size ≤ maxfile * bsize
  mapped : ∀ bn, bn * bsize < (s.icache i).din.size → s.blockAt (s.icache i).din bn ≠ 0
  apart : ∀ a b, s.slotBlock (s.icache i).din a ≠ 0 →
    s.slotBlock (s.icache i).din a = s.slotBlock (s.icache i).din b → a = b
  marked : ∀ a, s.slotBlock (s.icache i).din a ≠ 0 → s.Marked (s.slotBlock (s.icache i).din a)
  data : ∀ a, s.slotBlock (s.icache i).din a ≠ 0 → dataStart s.sb ≤ s.slotBlock (s.icache i).din a
  inside : ∀ a, s.slotBlock (s.icache i).din a ≠ 0 → s.slotBlock (s.icache i).din a < s.sb.size
  metadata : ∀ b < dataStart s.sb, b < s.sb.size → s.Marked b
  inodeBlock : iblock (s.icache i).inum s.sb < s.sb.bmapstart
  small : s.sb.size < 2 ^ 32

variable {s s' s'' : FsState} {i : Fin ninode} {d : Dinode}

theorem Owns.mapped_byte (owns : s.Owns i) {k : Nat} (below : k < (s.icache i).din.size) :
    s.blockAt (s.icache i).din (k / bsize) ≠ 0 :=
  owns.mapped _ (Nat.lt_of_le_of_lt (Nat.div_mul_le_self k bsize) below)

theorem slotBlock_empty (addrs : d.addrs = fun _ => 0) (a : Slot) : s.slotBlock d a = 0 := by
  cases a <;> simp [slotBlock, addrs]

theorem owns_of_empty (size : (s.icache i).din.size = 0) (addrs : (s.icache i).din.addrs = fun _ => 0)
    (metadata : ∀ b < dataStart s.sb, b < s.sb.size → s.Marked b)
    (inodeBlock : iblock (s.icache i).inum s.sb < s.sb.bmapstart) (small : s.sb.size < 2 ^ 32) : s.Owns i where
  fits := by simp [size]
  mapped _ below := absurd below (by simp [size])
  apart a _ named := absurd (slotBlock_empty addrs a) named
  marked a named := absurd (slotBlock_empty addrs a) named
  data a named := absurd (slotBlock_empty addrs a) named
  inside a named := absurd (slotBlock_empty addrs a) named
  metadata := metadata
  inodeBlock := inodeBlock
  small := small

theorem slotBlock_one {b : Nat} (addrs : d.addrs = fun k => if k = 0 then b else 0) (a : Slot)
    (named : s.slotBlock d a ≠ 0) : s.slotBlock d a = b ∧ ∃ k : Fin ndirect, k.val = 0 ∧ a = .direct k := by
  cases a with
  | direct k =>
    by_cases first : k.val = 0
    · simp [slotBlock, addrs, first]
    · simp [slotBlock, addrs, first] at named
  | indirect => simp [slotBlock, addrs, ndirect] at named
  | entry k => simp [slotBlock, addrs, ndirect] at named

theorem owns_of_one_block {b : Nat} (size : (s.icache i).din.size ≤ bsize)
    (addrs : (s.icache i).din.addrs = fun k => if k = 0 then b else 0) (marked : s.Marked b)
    (data : dataStart s.sb ≤ b) (inside : b < s.sb.size)
    (metadata : ∀ c < dataStart s.sb, c < s.sb.size → s.Marked c)
    (inodeBlock : iblock (s.icache i).inum s.sb < s.sb.bmapstart) (small : s.sb.size < 2 ^ 32) : s.Owns i where
  fits := Nat.le_trans size (by simp [maxfile, ndirect, nindirect, bsize])
  mapped bn below := by
    have first : bn = 0 := by
      simp only [bsize] at size below ⊢
      rcases bn with _ | bn
      · rfl
      · nlinarith
    subst first
    have positive : 0 < b := Nat.lt_of_lt_of_le (by simp [dataStart]) data
    simp [blockAt, slotOf, slotBlock, addrs, ndirect, Nat.pos_iff_ne_zero.mp positive]
  apart a a' named same := by
    obtain ⟨value, k, first, rfl⟩ := slotBlock_one addrs a named
    obtain ⟨_, k', first', rfl⟩ := slotBlock_one addrs a' (same ▸ named)
    rw [Fin.ext (first.trans first'.symm)]
  marked a named := by
    rw [(slotBlock_one addrs a named).1]
    exact marked
  data a named := by
    rw [(slotBlock_one addrs a named).1]
    exact data
  inside a named := by
    rw [(slotBlock_one addrs a named).1]
    exact inside
  metadata := metadata
  inodeBlock := inodeBlock
  small := small

@[simp] theorem setBlock_blocks {b : Nat} {blk : Block} :
    (s.setBlock b blk).blocks = Function.update s.blocks b blk := rfl

@[simp] theorem setBlock_icache {b : Nat} {blk : Block} : (s.setBlock b blk).icache = s.icache := rfl

@[simp] theorem setBlock_sb {b : Nat} {blk : Block} : (s.setBlock b blk).sb = s.sb := rfl

@[simp] theorem setInode_blocks {j : Fin ninode} {ip : Inode} : (s.setInode j ip).blocks = s.blocks := rfl

@[simp] theorem setInode_icache {j : Fin ninode} {ip : Inode} :
    (s.setInode j ip).icache = Function.update s.icache j ip := rfl

@[simp] theorem setInode_sb {j : Fin ninode} {ip : Inode} : (s.setInode j ip).sb = s.sb := rfl

/-! ### `log_write` and `balloc` -/

theorem meets_logWrite (b : Nat) :
    Meets WritePanic (fun s' => s'.blocks = s.blocks ∧ s'.icache = s.icache ∧ s'.sb = s.sb) (s.logWrite b) := by
  cases write : s.logWrite b with
  | error e => exact .inr (logWrite_eq_error write)
  | ok s' =>
    unfold logWrite at write
    cases logged : s.log.logWrite b with
    | error e =>
      rw [logged] at write
      cases write
    | ok log =>
      rw [logged] at write
      cases write
      exact ⟨rfl, rfl, rfl⟩

theorem meets_ballocLoop : ∀ fuel k,
    Meets WritePanic (fun r => r.1 < s.sb.size ∧ ¬ s.Marked r.1 ∧ r.2.sb = s.sb ∧ r.2.icache = s.icache ∧
      r.2.blocks = Function.update (Function.update s.blocks (bblock r.1 s.sb)
        (markBit (s.blocks (bblock r.1 s.sb)) (r.1 % bpb))) r.1 fun _ => 0)
      (s.ballocLoop fuel (k * bpb)) := by
  intro fuel
  induction fuel with
  | zero => exact fun _ => .inl rfl
  | succ fuel ih =>
    intro k
    rw [ballocLoop]
    by_cases below : k * bpb < s.sb.size
    case neg =>
      rw [if_neg below]
      exact .inl rfl
    rw [if_pos below]
    dsimp only
    cases found : freeBit (s.blocks (bblock (k * bpb) s.sb)) (k * bpb) s.sb.size with
    | none =>
      have next : k * bpb + bpb = (k + 1) * bpb := by rw [Nat.succ_mul]
      dsimp only
      rw [next]
      exact ih (k + 1)
    | some bi =>
      obtain ⟨within, inRange, clear⟩ := freeBit_eq_some found
      obtain ⟨sameBlock, sameBit⟩ := bblock_of_stretch (s := s) (k := k) within
      dsimp only
      apply meets_bind
      refine (meets_logWrite _).mono fun s1 logged => ?_
      obtain ⟨blocks1, icache1, sb1⟩ := logged
      apply meets_bind
      refine (meets_logWrite _).mono fun s2 zeroed => ?_
      obtain ⟨blocks2, icache2, sb2⟩ := zeroed
      refine meets_pure ⟨inRange, ?_, ?_, ?_, ?_⟩
      · simp only [Marked, sameBlock, sameBit, clear, Bool.false_eq_true, not_false_eq_true]
      · simp [sb2, sb1]
      · simp [icache2, icache1]
      · simp [blocks2, blocks1, sameBlock, sameBit]

theorem meets_balloc :
    Meets WritePanic (fun r => r.1 < s.sb.size ∧ ¬ s.Marked r.1 ∧ r.2.sb = s.sb ∧ r.2.icache = s.icache ∧
      r.2.blocks = Function.update (Function.update s.blocks (bblock r.1 s.sb)
        (markBit (s.blocks (bblock r.1 s.sb)) (r.1 % bpb))) r.1 fun _ => 0) s.balloc := by
  have start := meets_ballocLoop (s := s) (s.sb.size / bpb + 1) 0
  rwa [Nat.zero_mul] at start

/-! ### Slots and the blocks they name -/

theorem slotBlock_congr
    (same : d.addrs ndirect ≠ 0 → s'.blocks (d.addrs ndirect) = s.blocks (d.addrs ndirect)) :
    s'.slotBlock d = s.slotBlock d := by
  funext a
  cases a with
  | direct k => rfl
  | indirect => rfl
  | entry k =>
    simp only [slotBlock]
    split
    · rfl
    · rename_i present
      rw [same present]

theorem blockAt_congr {d' : Dinode} (same : s'.slotBlock d' = s.slotBlock d) : s'.blockAt d' = s.blockAt d := by
  funext bn
  simp only [blockAt, same]

theorem blockAt_slot {bn : Nat} (mapped : s.blockAt d bn ≠ 0) :
    ∃ a, slotOf bn = some a ∧ s.slotBlock d a = s.blockAt d bn := by
  cases found : slotOf bn with
  | none => simp [blockAt, found] at mapped
  | some a => exact ⟨a, rfl, by simp [blockAt, found]⟩

theorem blockAt_of_slotOf {bn : Nat} {a : Slot} (found : slotOf bn = some a) :
    s.blockAt d bn = s.slotBlock d a := by
  simp only [blockAt, found, Option.map_some, Option.getD_some]

theorem slotOf_ne_indirect {bn : Nat} : slotOf bn ≠ some .indirect := by
  unfold slotOf
  split
  · simp
  · split <;> simp

theorem slotOf_eq_some {bn : Nat} {a : Slot} (found : slotOf bn = some a) :
    (∃ direct : bn < ndirect, a = .direct ⟨bn, direct⟩) ∨
      ∃ indirect : bn - ndirect < nindirect, ndirect ≤ bn ∧ a = .entry ⟨bn - ndirect, indirect⟩ := by
  unfold slotOf at found
  split at found
  · rename_i direct
    exact .inl ⟨direct, (Option.some.inj found).symm⟩
  · split at found
    · rename_i far indirect
      exact .inr ⟨indirect, by omega, (Option.some.inj found).symm⟩
    · cases found

theorem slotOf_inj {bn bn' : Nat} {a : Slot} (first : slotOf bn = some a) (second : slotOf bn' = some a) :
    bn = bn' := by
  rcases slotOf_eq_some first with ⟨_, rfl⟩ | ⟨_, far, rfl⟩ <;>
    rcases slotOf_eq_some second with ⟨_, same⟩ | ⟨_, far', same⟩
  · simpa [Fin.ext_iff] using same
  · cases same
  · cases same
  · simp only [Slot.entry.injEq, Fin.ext_iff] at same
    omega

/-! ### What a step keeps of a file -/

/-- `s'` holds `bytes` from offset `off` of inode `i`'s file, and what `s`
held at every other offset whose block `s` mapped; every block `s` mapped is
where it was, and the size, the inode number, the reference count and the
validity of the cached inode are those of `s`. -/
structure Wrote (s s' : FsState) (i : Fin ninode) (off : Nat) (bytes : List UInt8) : Prop where
  size : (s'.icache i).din.size = (s.icache i).din.size
  inum : (s'.icache i).inum = (s.icache i).inum
  ref : (s'.icache i).ref = (s.icache i).ref
  valid : (s'.icache i).valid = (s.icache i).valid
  blocks : ∀ bn, s.blockAt (s.icache i).din bn ≠ 0 →
    s'.blockAt (s'.icache i).din bn = s.blockAt (s.icache i).din bn
  written : ∀ k, off ≤ k → k < off + bytes.length →
    s'.blockAt (s'.icache i).din (k / bsize) ≠ 0 ∧ s'.byteAt (s'.icache i).din k = bytes.getD (k - off) 0
  kept : ∀ k, (k < off ∨ off + bytes.length ≤ k) → s.blockAt (s.icache i).din (k / bsize) ≠ 0 →
    s'.byteAt (s'.icache i).din k = s.byteAt (s.icache i).din k

/-- `s'` keeps inode `i`'s file as `s` had it: writes nothing into it. -/
def Keeps (s s' : FsState) (i : Fin ninode) : Prop :=
  Wrote s s' i 0 []

theorem Keeps.wrote (keeps : Keeps s s' i) (off : Nat) : Wrote s s' i off [] where
  size := keeps.size
  inum := keeps.inum
  ref := keeps.ref
  valid := keeps.valid
  blocks := keeps.blocks
  written _ low high := absurd high (by simp only [List.length_nil, Nat.add_zero]; omega)
  kept k _ mapped := keeps.kept k (.inr (by simp)) mapped

theorem Keeps.refl : Keeps s s i where
  size := rfl
  inum := rfl
  ref := rfl
  valid := rfl
  blocks _ _ := rfl
  written _ _ high := absurd high (by simp)
  kept _ _ _ := rfl

theorem Wrote.append {off : Nat} {xs ys : List UInt8} (first : Wrote s s' i off xs)
    (second : Wrote s' s'' i (off + xs.length) ys) : Wrote s s'' i off (xs ++ ys) where
  size := second.size.trans first.size
  inum := second.inum.trans first.inum
  ref := second.ref.trans first.ref
  valid := second.valid.trans first.valid
  blocks bn mapped := (second.blocks bn (by rw [first.blocks bn mapped]; exact mapped)).trans (first.blocks bn mapped)
  written k low high := by
    rw [List.length_append] at high
    by_cases inFirst : k < off + xs.length
    · obtain ⟨mapped, byte⟩ := first.written k low inFirst
      refine ⟨?_, ?_⟩
      · rw [second.blocks _ mapped]
        exact mapped
      · rw [second.kept k (.inl inFirst) mapped, byte, List.getD_append _ _ _ _ (by omega)]
    · obtain ⟨mapped, byte⟩ := second.written k (by omega) (by omega)
      refine ⟨mapped, ?_⟩
      rw [byte, List.getD_append_right _ _ _ _ (by omega), Nat.sub_sub]
  kept k outside mapped := by
    rw [List.length_append] at outside
    rw [second.kept k (by omega) (by rw [first.blocks _ mapped]; exact mapped), first.kept k (by omega) mapped]

theorem Keeps.trans (first : Keeps s s' i) (second : Keeps s' s'' i) : Keeps s s'' i := by
  simpa [Keeps] using first.append second

theorem Wrote.keeps {off : Nat} {bytes : List UInt8} (wrote : Wrote s s' i off bytes) (keeps : Keeps s' s'' i) :
    Wrote s s'' i off bytes := by
  simpa using wrote.append (keeps.wrote _)

theorem Keeps.then {off : Nat} {bytes : List UInt8} (keeps : Keeps s s' i) (wrote : Wrote s' s'' i off bytes) :
    Wrote s s'' i off bytes := by
  simpa using (keeps.wrote off).append (by simpa using wrote)

theorem keeps_of_slots (size : (s'.icache i).din.size = (s.icache i).din.size)
    (inum : (s'.icache i).inum = (s.icache i).inum) (ref : (s'.icache i).ref = (s.icache i).ref)
    (valid : (s'.icache i).valid = (s.icache i).valid)
    (slots : ∀ a, s.slotBlock (s.icache i).din a ≠ 0 →
      s'.slotBlock (s'.icache i).din a = s.slotBlock (s.icache i).din a)
    (data : ∀ a, a ≠ .indirect → s.slotBlock (s.icache i).din a ≠ 0 →
      s'.blocks (s.slotBlock (s.icache i).din a) = s.blocks (s.slotBlock (s.icache i).din a)) :
    Keeps s s' i where
  size := size
  inum := inum
  ref := ref
  valid := valid
  blocks bn mapped := by
    obtain ⟨a, found, named⟩ := blockAt_slot mapped
    rw [← named] at mapped ⊢
    simp only [blockAt, found, Option.map_some, Option.getD_some, slots a mapped]
  written _ _ high := absurd high (by simp)
  kept k _ mapped := by
    obtain ⟨a, found, named⟩ := blockAt_slot mapped
    have moved : s'.blockAt (s'.icache i).din (k / bsize) = s.blockAt (s.icache i).din (k / bsize) := by
      rw [← named] at mapped ⊢
      simp only [blockAt, found, Option.map_some, Option.getD_some, slots a mapped]
    have notIndirect : a ≠ .indirect := fun same => slotOf_ne_indirect (same ▸ found)
    rw [← named] at mapped
    simp only [byteAt, moved, ← named, data a notIndirect mapped]

/-! ### The invariant across the steps of `bmap` and `writei` -/

theorem Owns.resize (owns : s.Owns i) (fits : (s'.icache i).din.size ≤ maxfile * bsize)
    (mapped : ∀ bn, bn * bsize < (s'.icache i).din.size → s.blockAt (s.icache i).din bn ≠ 0)
    (inum : (s'.icache i).inum = (s.icache i).inum) (sb : s'.sb = s.sb)
    (slots : s'.slotBlock (s'.icache i).din = s.slotBlock (s.icache i).din)
    (marks : ∀ c < s.sb.size, s.Marked c → s'.Marked c) : s'.Owns i where
  fits := fits
  mapped bn below := by
    rw [blockAt_congr slots]
    exact mapped bn below
  apart a b := by
    rw [slots]
    exact owns.apart a b
  marked a named := by
    rw [slots] at named ⊢
    exact marks _ (owns.inside a named) (owns.marked a named)
  data a named := by
    rw [slots] at named ⊢
    rw [sb]
    exact owns.data a named
  inside a named := by
    rw [slots] at named ⊢
    rw [sb]
    exact owns.inside a named
  metadata c below inDisk := by
    rw [sb] at below inDisk
    exact marks c inDisk (owns.metadata c below inDisk)
  inodeBlock := by
    rw [inum, sb]
    exact owns.inodeBlock
  small := sb ▸ owns.small

theorem Owns.of_slots (owns : s.Owns i) (size : (s'.icache i).din.size = (s.icache i).din.size)
    (inum : (s'.icache i).inum = (s.icache i).inum) (sb : s'.sb = s.sb)
    (slots : s'.slotBlock (s'.icache i).din = s.slotBlock (s.icache i).din)
    (marks : ∀ c < s.sb.size, s.Marked c → s'.Marked c) : s'.Owns i :=
  owns.resize (size ▸ owns.fits) (fun bn below => owns.mapped bn (size ▸ below)) inum sb slots marks

theorem Owns.claim (owns : s.Owns i) {a : Slot} {b : Nat}
    (slots : s'.slotBlock (s'.icache i).din = Function.update (s.slotBlock (s.icache i).din) a b)
    (empty : s.slotBlock (s.icache i).din a = 0) (fresh : ∀ c, s.slotBlock (s.icache i).din c ≠ b)
    (start : dataStart s.sb ≤ b) (inside : b < s.sb.size) (marked : s.Marked b)
    (size : (s'.icache i).din.size = (s.icache i).din.size) (inum : (s'.icache i).inum = (s.icache i).inum)
    (sb : s'.sb = s.sb) (marks : ∀ c < s.sb.size, s.Marked c → s'.Marked c) : s'.Owns i where
  fits := size ▸ owns.fits
  mapped bn below := by
    have mapped := owns.mapped bn (size ▸ below)
    obtain ⟨c, found, named⟩ := blockAt_slot mapped
    have other : c ≠ a := fun same => by rw [same, empty] at named; exact mapped named.symm
    rw [blockAt_of_slotOf found, slots, Function.update_of_ne other, named]
    exact mapped
  apart x y named same := by
    rw [slots] at named same
    by_cases xa : x = a <;> by_cases ya : y = a
    · rw [xa, ya]
    · rw [xa, Function.update_self, Function.update_of_ne ya] at same
      exact absurd same.symm (fresh y)
    · rw [ya, Function.update_self, Function.update_of_ne xa] at same
      exact absurd same (fresh x)
    · rw [Function.update_of_ne xa, Function.update_of_ne ya] at same
      rw [Function.update_of_ne xa] at named
      exact owns.apart x y named same
  marked x named := by
    rw [slots] at named ⊢
    by_cases xa : x = a
    · rw [xa, Function.update_self]
      exact marks b inside marked
    · rw [Function.update_of_ne xa] at named ⊢
      exact marks _ (owns.inside x named) (owns.marked x named)
  data x named := by
    rw [slots] at named ⊢
    rw [sb]
    by_cases xa : x = a
    · rw [xa, Function.update_self]
      exact start
    · rw [Function.update_of_ne xa] at named ⊢
      exact owns.data x named
  inside x named := by
    rw [slots] at named ⊢
    rw [sb]
    by_cases xa : x = a
    · rw [xa, Function.update_self]
      exact inside
    · rw [Function.update_of_ne xa] at named ⊢
      exact owns.inside x named
  metadata c below inDisk := by
    rw [sb] at below inDisk
    exact marks c inDisk (owns.metadata c below inDisk)
  inodeBlock := by
    rw [inum, sb]
    exact owns.inodeBlock
  small := sb ▸ owns.small

theorem Owns.unmarked (owns : s.Owns i) {b : Nat} (inDisk : b < s.sb.size) (clear : ¬ s.Marked b) :
    dataStart s.sb ≤ b ∧ ∀ a, s.slotBlock (s.icache i).din a ≠ b := by
  have start : dataStart s.sb ≤ b := Nat.le_of_not_lt fun below => clear (owns.metadata b below inDisk)
  refine ⟨start, fun a named => ?_⟩
  have positive : b ≠ 0 := Nat.pos_iff_ne_zero.mp (Nat.lt_of_lt_of_le (by simp [dataStart]) start)
  rw [← named] at clear positive
  exact clear (owns.marked a positive)

theorem bblock_lt_dataStart {b : Nat} (inDisk : b < s.sb.size) : bblock b s.sb < dataStart s.sb := by
  have stretch : b / bpb ≤ s.sb.size / bpb := Nat.div_le_div_right (Nat.le_of_lt inDisk)
  simp only [bblock, dataStart]
  omega

/-- What a `balloc` that returned `b` in `s'` gives a caller holding inode `i`:
the file kept, and `b` a zeroed block of the disk past the metadata, marked in
use and named by no slot. -/
structure Allocated (s s' : FsState) (i : Fin ninode) (b : Nat) : Prop where
  owns : s'.Owns i
  keeps : Keeps s s' i
  slots : s'.slotBlock (s'.icache i).din = s.slotBlock (s.icache i).din
  icache : s'.icache = s.icache
  sb : s'.sb = s.sb
  marks : ∀ c < s.sb.size, s.Marked c → s'.Marked c
  start : dataStart s.sb ≤ b
  inside : b < s.sb.size
  marked : s'.Marked b
  zeroed : s'.blocks b = fun _ => 0
  fresh : ∀ a, s'.slotBlock (s'.icache i).din a ≠ b

theorem marked_balloc {b : Nat} (sb : s'.sb = s.sb) (start : dataStart s.sb ≤ b)
    (blocks : s'.blocks = Function.update (Function.update s.blocks (bblock b s.sb)
      (markBit (s.blocks (bblock b s.sb)) (b % bpb))) b fun _ => 0)
    {c : Nat} (inDisk : c < s.sb.size) : s'.Marked c ↔ s.Marked c ∨ c = b := by
  have bitmap := bblock_lt_dataStart (s := s) inDisk
  unfold Marked
  rw [sb, blocks, Function.update_of_ne (by omega)]
  by_cases same : bblock c s.sb = bblock b s.sb
  · have sameBit : c % bpb = b % bpb ↔ c = b := by
      refine ⟨fun bit => ?_, fun eq => by rw [eq]⟩
      simp only [bblock] at same
      rw [← Nat.div_add_mod c bpb, ← Nat.div_add_mod b bpb, bit, show c / bpb = b / bpb by omega]
    rw [same, Function.update_self, bitSet_markBit, ← same, Bool.or_eq_true, decide_eq_true_iff, sameBit]
  · rw [Function.update_of_ne same]
    exact ⟨.inl, fun marked => marked.resolve_right fun eq => same (by rw [eq])⟩

theorem Owns.meets_balloc (owns : s.Owns i) : Meets WritePanic (fun r => Allocated s r.2 i r.1) s.balloc := by
  refine FsState.meets_balloc.mono fun r got => ?_
  obtain ⟨b, s'⟩ := r
  obtain ⟨inDisk, clear, sb, icache, blocks⟩ := got
  obtain ⟨start, fresh⟩ := owns.unmarked inDisk clear
  have bitmapBlock := bblock_lt_dataStart (s := s) inDisk
  have untouched : ∀ a, s.slotBlock (s.icache i).din a ≠ 0 →
      s'.blocks (s.slotBlock (s.icache i).din a) = s.blocks (s.slotBlock (s.icache i).din a) := by
    intro a named
    have past := owns.data a named
    rw [blocks, Function.update_of_ne (fresh a), Function.update_of_ne (by omega)]
  have slots : s'.slotBlock (s'.icache i).din = s.slotBlock (s.icache i).din := by
    rw [icache]
    exact slotBlock_congr fun present => untouched .indirect present
  have marks : ∀ c < s.sb.size, s.Marked c → s'.Marked c := fun c inDisk' set =>
    (marked_balloc sb start blocks inDisk').mpr (.inl set)
  have keptOwns := owns.of_slots (by rw [icache]) (by rw [icache]) sb slots marks
  refine ⟨keptOwns, ?_, slots, icache, sb, marks, start, inDisk, (marked_balloc sb start blocks inDisk).mpr (.inr rfl),
    ?_, ?_⟩
  · exact keeps_of_slots (by rw [icache]) (by rw [icache]) (by rw [icache]) (by rw [icache])
      (fun a _ => by rw [slots]) fun a _ named => untouched a named
  · rw [blocks, Function.update_self]
  · intro a
    rw [slots]
    exact fresh a

theorem marks_setBlock {x : Nat} {blk : Block} (past : dataStart s.sb ≤ x) :
    ∀ c < s.sb.size, s.Marked c → (s.setBlock x blk).Marked c := by
  intro c inDisk set
  have bitmap := bblock_lt_dataStart (s := s) inDisk
  unfold Marked at set ⊢
  rw [setBlock_sb, setBlock_blocks, Function.update_of_ne (by omega)]
  exact set

theorem Owns.logged (owns : s.Owns i) (blocks : s'.blocks = s.blocks) (icache : s'.icache = s.icache)
    (sb : s'.sb = s.sb) :
    s'.Owns i ∧ Keeps s s' i ∧ s'.slotBlock (s'.icache i).din = s.slotBlock (s.icache i).din := by
  have slots : s'.slotBlock (s'.icache i).din = s.slotBlock (s.icache i).din := by
    rw [icache]
    exact slotBlock_congr fun _ => by rw [blocks]
  refine ⟨owns.of_slots (by rw [icache]) (by rw [icache]) sb slots fun c _ set => ?_, ?_, slots⟩
  · unfold Marked at set ⊢
    rw [sb, blocks]
    exact set
  · exact keeps_of_slots (by rw [icache]) (by rw [icache]) (by rw [icache]) (by rw [icache])
      (fun a _ => by rw [slots]) fun a _ _ => by rw [blocks]

@[simp] theorem setAddr_blocks {k b : Nat} : (s.setAddr i k b).blocks = s.blocks := rfl

@[simp] theorem setAddr_sb {k b : Nat} : (s.setAddr i k b).sb = s.sb := rfl

@[simp] theorem setAddr_self {k b : Nat} : (s.setAddr i k b).icache i =
    { s.icache i with din := { (s.icache i).din with addrs := Function.update (s.icache i).din.addrs k b } } := by
  simp [setAddr]

theorem setAddr_direct_slots {k : Fin ndirect} {b : Nat} :
    (s.setAddr i k b).slotBlock ((s.setAddr i k b).icache i).din =
      Function.update (s.slotBlock (s.icache i).din) (.direct k) b := by
  have notIndirect : ndirect ≠ (k : Nat) := Nat.ne_of_gt k.isLt
  funext a
  cases a with
  | direct k' =>
    by_cases same : k' = k
    · subst same
      simp [slotBlock]
    · have other : (k' : Nat) ≠ k := fun eq => same (Fin.ext eq)
      simp [slotBlock, Function.update_of_ne other, same]
  | indirect => simp [slotBlock, Function.update_of_ne notIndirect]
  | entry e => simp [slotBlock, Function.update_of_ne notIndirect]

theorem setAddr_indirect_slots {b : Nat} (empty : (s.icache i).din.addrs ndirect = 0)
    (zeroed : s.blocks b = fun _ => 0) :
    (s.setAddr i ndirect b).slotBlock ((s.setAddr i ndirect b).icache i).din =
      Function.update (s.slotBlock (s.icache i).din) .indirect b := by
  funext a
  cases a with
  | direct k => simp [slotBlock, Function.update_of_ne (Nat.ne_of_lt k.isLt)]
  | indirect => simp [slotBlock]
  | entry e =>
    simp only [slotBlock, setAddr_self, Function.update_self, setAddr_blocks, zeroed, empty, if_true, ne_eq,
      reduceCtorEq, not_false_eq_true, Function.update_of_ne]
    split
    · rfl
    · exact getLE_zero 4 _ fun _ _ _ => rfl

theorem setEntry_slots {e : Fin nindirect} {b : Nat} (present : (s.icache i).din.addrs ndirect ≠ 0)
    (small : b < 2 ^ 32) :
    (s.setBlock ((s.icache i).din.addrs ndirect)
        (setLE (s.blocks ((s.icache i).din.addrs ndirect)) (4 * e) 4 b)).slotBlock (s.icache i).din =
      Function.update (s.slotBlock (s.icache i).din) (.entry e) b := by
  funext a
  cases a with
  | direct k => simp [slotBlock]
  | indirect => simp [slotBlock]
  | entry e' =>
    simp only [slotBlock, present, if_false, setBlock_blocks, Function.update_self]
    by_cases same : e' = e
    · subst same
      rw [Function.update_self, getLE_of_lt (by simpa using small)]
    · have apart : (e' : Nat) ≠ e := fun eq => same (Fin.ext eq)
      rw [Function.update_of_ne (by simpa using same), getLE_setLE_of_disjoint (by omega)]
      simp [slotBlock, present]

/-! ### `bmap` -/

theorem bmap_mapped {bn : Nat} (mapped : s.blockAt (s.icache i).din bn ≠ 0) :
    s.bmap i bn = .ok (s.blockAt (s.icache i).din bn, s) := by
  obtain ⟨a, found, named⟩ := blockAt_slot mapped
  rw [← named] at mapped ⊢
  rcases slotOf_eq_some found with ⟨direct, rfl⟩ | ⟨indirect, far, rfl⟩
  · simp only [slotBlock] at mapped ⊢
    simp [bmap, direct, mapped]
  · simp only [slotBlock] at mapped ⊢
    split at mapped
    · contradiction
    · rename_i present
      rw [if_neg present]
      simp [bmap, show ¬ bn < ndirect by omega, indirect, present, mapped]

/-- What a `bmap` of block `bn` that returned `addr` in `s'` gives: the
invariant, the file kept, and `addr` the file's block `bn`. -/
structure Placed (s s' : FsState) (i : Fin ninode) (bn addr : Nat) : Prop where
  owns : s'.Owns i
  keeps : Keeps s s' i
  found : s'.blockAt (s'.icache i).din bn = addr
  positive : addr ≠ 0

theorem Allocated.claim {s₀ : FsState} {a : Slot} {b : Nat} (alloc : Allocated s₀ s i b)
    (slots : s'.slotBlock (s'.icache i).din = Function.update (s.slotBlock (s.icache i).din) a b)
    (empty : s.slotBlock (s.icache i).din a = 0)
    (size : (s'.icache i).din.size = (s.icache i).din.size) (inum : (s'.icache i).inum = (s.icache i).inum)
    (ref : (s'.icache i).ref = (s.icache i).ref) (valid : (s'.icache i).valid = (s.icache i).valid)
    (sb : s'.sb = s.sb) (marks : ∀ c < s.sb.size, s.Marked c → s'.Marked c)
    (data : ∀ c, c ≠ .indirect → s.slotBlock (s.icache i).din c ≠ 0 →
      s'.blocks (s.slotBlock (s.icache i).din c) = s.blocks (s.slotBlock (s.icache i).din c)) :
    s'.Owns i ∧ Keeps s₀ s' i ∧ s'.slotBlock (s'.icache i).din a = b := by
  have start : dataStart s.sb ≤ b := by rw [alloc.sb]; exact alloc.start
  have inside : b < s.sb.size := by rw [alloc.sb]; exact alloc.inside
  refine ⟨alloc.owns.claim slots empty alloc.fresh start inside alloc.marked size inum sb marks,
    alloc.keeps.trans (keeps_of_slots size inum ref valid (fun c named => ?_) data), by rw [slots, Function.update_self]⟩
  have other : c ≠ a := fun same => named (same ▸ empty)
  rw [slots, Function.update_of_ne other]

theorem Allocated.positive {s₀ : FsState} {b : Nat} (alloc : Allocated s₀ s i b) : b ≠ 0 :=
  Nat.pos_iff_ne_zero.mp (Nat.lt_of_lt_of_le (by simp [dataStart]) alloc.start)

theorem Owns.meets_bmap_direct (owns : s.Owns i) {bn : Nat} (direct : bn < ndirect)
    (hole : s.blockAt (s.icache i).din bn = 0) : Meets WritePanic (fun r => Placed s r.2 i bn r.1) (s.bmap i bn) := by
  have found : slotOf bn = some (.direct ⟨bn, direct⟩) := by simp [slotOf, direct]
  have empty : (s.icache i).din.addrs bn = 0 := by
    rw [blockAt_of_slotOf found] at hole
    exact hole
  rw [bmap, if_pos direct]
  simp only [empty, if_true]
  apply meets_bind
  refine owns.meets_balloc.mono fun r alloc => ?_
  obtain ⟨b, s1⟩ := r
  refine meets_pure ?_
  have emptySlot : s1.slotBlock (s1.icache i).din (.direct ⟨bn, direct⟩) = 0 := by
    rw [alloc.slots]
    exact empty
  obtain ⟨owns2, keeps2, named⟩ := alloc.claim (a := .direct ⟨bn, direct⟩) setAddr_direct_slots emptySlot
    (by simp) (by simp) (by simp) (by simp) (by simp) (fun c _ set => by simpa [Marked] using set)
    (fun c _ _ => by simp)
  exact ⟨owns2, keeps2, by rw [blockAt_of_slotOf found, named], alloc.positive⟩

theorem Owns.meets_bmap_present (owns : s.Owns i) {bn : Nat} (far : ndirect ≤ bn)
    (indirect : bn - ndirect < nindirect) (present : (s.icache i).din.addrs ndirect ≠ 0)
    (hole : s.blockAt (s.icache i).din bn = 0) : Meets WritePanic (fun r => Placed s r.2 i bn r.1) (s.bmap i bn) := by
  have found : slotOf bn = some (.entry ⟨bn - ndirect, indirect⟩) := by
    simp [slotOf, show ¬ bn < ndirect by omega, indirect]
  have entry : getLE (s.blocks ((s.icache i).din.addrs ndirect)) (4 * (bn - ndirect)) 4 = 0 := by
    rw [blockAt_of_slotOf found] at hole
    simpa [slotBlock, present] using hole
  rw [bmap, if_neg (by omega)]
  dsimp only
  rw [if_pos indirect, if_neg present]
  simp only [pure_bind, entry, if_true]
  apply meets_bind
  refine owns.meets_balloc.mono fun r alloc => ?_
  obtain ⟨b, s2⟩ := r
  apply meets_bind
  refine (meets_logWrite _).mono fun s4 logged => ?_
  obtain ⟨blocks4, icache4, sb4⟩ := logged
  refine meets_pure ?_
  dsimp only at alloc blocks4 icache4 sb4 ⊢
  have ind2 : (s2.icache i).din.addrs ndirect = (s.icache i).din.addrs ndirect := by rw [alloc.icache]
  have present2 : (s2.icache i).din.addrs ndirect ≠ 0 := by rw [ind2]; exact present
  have emptySlot : s2.slotBlock (s2.icache i).din (.entry ⟨bn - ndirect, indirect⟩) = 0 := by
    rw [alloc.slots, ← blockAt_of_slotOf found]
    exact hole
  have past : dataStart s2.sb ≤ (s.icache i).din.addrs ndirect := by
    rw [← ind2]
    exact alloc.owns.data .indirect present2
  have slots := setEntry_slots (s := s2) (i := i) (e := ⟨bn - ndirect, indirect⟩) present2
    (Nat.lt_trans (by rw [alloc.sb]; exact alloc.inside) alloc.owns.small)
  rw [ind2] at slots
  obtain ⟨owns3, keeps3, named⟩ := alloc.claim slots emptySlot (by simp) (by simp) (by simp) (by simp) (by simp)
    (marks_setBlock past) (fun c notIndirect named => by
      have other : s2.slotBlock (s2.icache i).din c ≠ (s.icache i).din.addrs ndirect :=
        fun same => notIndirect (alloc.owns.apart c .indirect named (same.trans ind2.symm))
      simp [Function.update_of_ne other])
  obtain ⟨owns4, keeps4, slots4⟩ := owns3.logged blocks4 icache4 sb4
  refine ⟨owns4, keeps3.trans keeps4, ?_, alloc.positive⟩
  rw [blockAt_of_slotOf found, slots4]
  exact named

theorem Owns.meets_bmap_absent (owns : s.Owns i) {bn : Nat} (far : ndirect ≤ bn)
    (indirect : bn - ndirect < nindirect) (absent : (s.icache i).din.addrs ndirect = 0) :
    Meets WritePanic (fun r => Placed s r.2 i bn r.1) (s.bmap i bn) := by
  have found : slotOf bn = some (.entry ⟨bn - ndirect, indirect⟩) := by
    simp [slotOf, show ¬ bn < ndirect by omega, indirect]
  rw [bmap, if_neg (by omega)]
  dsimp only
  rw [if_pos indirect, if_pos absent]
  apply meets_bind
  refine owns.meets_balloc.mono fun r alloc => ?_
  obtain ⟨ind, s1⟩ := r
  dsimp only at alloc ⊢
  rw [pure_bind]
  have absent1 : (s1.icache i).din.addrs ndirect = 0 := by rw [alloc.icache]; exact absent
  have slots := setAddr_indirect_slots absent1 alloc.zeroed
  have emptySlot : s1.slotBlock (s1.icache i).din .indirect = 0 := absent1
  obtain ⟨owns2, keeps2, _⟩ := alloc.claim slots emptySlot (by simp) (by simp) (by simp) (by simp) (by simp)
    (fun c _ set => by simpa [Marked] using set) (fun c _ _ => by simp)
  have present2 : ((s1.setAddr i ndirect ind).icache i).din.addrs ndirect ≠ 0 := by simp [alloc.positive]
  have hole2 : (s1.setAddr i ndirect ind).blockAt ((s1.setAddr i ndirect ind).icache i).din bn = 0 := by
    rw [blockAt_of_slotOf found, slots, Function.update_of_ne (by simp)]
    simp [slotBlock, absent1]
  have rest := owns2.meets_bmap_present far indirect present2 hole2
  rw [bmap, if_neg (by omega)] at rest
  dsimp only at rest
  rw [if_pos indirect, if_neg present2] at rest
  simp only [pure_bind, setAddr_self, Function.update_self] at rest ⊢
  exact rest.mono fun r placed => ⟨placed.owns, keeps2.trans placed.keeps, placed.found, placed.positive⟩

theorem Owns.meets_bmap (owns : s.Owns i) {bn : Nat} (within : bn < maxfile) :
    Meets WritePanic (fun r => Placed s r.2 i bn r.1) (s.bmap i bn) := by
  by_cases mapped : s.blockAt (s.icache i).din bn = 0
  case neg =>
    rw [bmap_mapped mapped]
    exact ⟨owns, Keeps.refl, rfl, mapped⟩
  by_cases direct : bn < ndirect
  · exact owns.meets_bmap_direct direct mapped
  have indirect : bn - ndirect < nindirect := by
    simp only [maxfile] at within
    omega
  by_cases absent : (s.icache i).din.addrs ndirect = 0
  · exact owns.meets_bmap_absent (by omega) indirect absent
  · exact owns.meets_bmap_present (by omega) indirect absent mapped

/-! ### Copying into a block -/

theorem Owns.blockAt_inj (owns : s.Owns i) {bn bn' : Nat} (mapped : s.blockAt (s.icache i).din bn ≠ 0)
    (same : s.blockAt (s.icache i).din bn' = s.blockAt (s.icache i).din bn) : bn' = bn := by
  obtain ⟨a, found, named⟩ := blockAt_slot mapped
  obtain ⟨a', found', named'⟩ := blockAt_slot (same ▸ mapped)
  have sameSlot : a' = a :=
    owns.apart a' a (by rw [named', same]; exact mapped) (by rw [named', named, same])
  rw [sameSlot] at found'
  exact slotOf_inj found' found

theorem Owns.writeBlock (owns : s.Owns i) {bn r addr : Nat} {bytes : List UInt8}
    (found : s.blockAt (s.icache i).din bn = addr) (positive : addr ≠ 0) (within : r + bytes.length ≤ bsize) :
    (s.setBlock addr (copyBytes (s.blocks addr) r (fun k => bytes.getD k 0) 0 bytes.length)).Owns i ∧
      Wrote s (s.setBlock addr (copyBytes (s.blocks addr) r (fun k => bytes.getD k 0) 0 bytes.length)) i
        (bn * bsize + r) bytes := by
  obtain ⟨a, slotA, named⟩ := blockAt_slot (found ▸ positive)
  rw [found] at named
  have notIndirect : a ≠ .indirect := fun same => slotOf_ne_indirect (same ▸ slotA)
  have slots : (s.setBlock addr (copyBytes (s.blocks addr) r (fun k => bytes.getD k 0) 0 bytes.length)).slotBlock
      (s.icache i).din = s.slotBlock (s.icache i).din := by
    refine slotBlock_congr fun present => ?_
    have other : (s.icache i).din.addrs ndirect ≠ addr := fun same =>
      notIndirect (owns.apart a .indirect (by rw [named]; exact positive) (named.trans same.symm))
    simp [Function.update_of_ne other]
  have past : dataStart s.sb ≤ addr := named ▸ owns.data a (by rw [named]; exact positive)
  refine ⟨owns.of_slots rfl rfl rfl slots (marks_setBlock past), ⟨rfl, rfl, rfl, rfl, ?_, ?_, ?_⟩⟩
  · intro bn' _
    rw [setBlock_icache, blockAt_congr slots]
  · intro k low high
    have block : k / bsize = bn := by simp only [bsize] at within low high ⊢; omega
    have offset : k % bsize = r + (k - (bn * bsize + r)) := by simp only [bsize] at within low high ⊢; omega
    refine ⟨by rw [setBlock_icache, blockAt_congr slots, block, found]; exact positive, ?_⟩
    simp only [byteAt, setBlock_icache, blockAt_congr slots, block, found, setBlock_blocks, Function.update_self,
      offset]
    rw [copyBytes_inside (by omega)]
    simp
  · intro k outside mapped
    simp only [byteAt, setBlock_icache, blockAt_congr slots, setBlock_blocks]
    by_cases sameBlock : k / bsize = bn
    · rw [sameBlock, found, Function.update_self,
        copyBytes_outside (by simp only [bsize] at within sameBlock outside ⊢; omega)]
    · have other : s.blockAt (s.icache i).din (k / bsize) ≠ addr := fun same =>
        sameBlock (owns.blockAt_inj (found ▸ positive) (same.trans found.symm))
      rw [Function.update_of_ne other]

/-! ### `readi` -/

/-- A pass of the loops of `readi` and `writei` moves at least one byte, all
within one block. -/
theorem chunk_within (off : Nat) {left : Nat} (positive : 0 < left) :
    0 < min left (bsize - off % bsize) ∧ off % bsize + min left (bsize - off % bsize) ≤ bsize := by
  have := Nat.mod_lt off (show bsize > 0 by decide)
  omega

theorem bytesAt_block {off m : Nat} (within : off % bsize + m ≤ bsize) :
    bytesAt (s.blocks (s.blockAt d (off / bsize))) (off % bsize) m =
      (List.range m).map fun j => s.byteAt d (off + j) := by
  simp only [bytesAt, List.map_inj_left, List.mem_range]
  intro j below
  have block : (off + j) / bsize = off / bsize := by simp only [bsize] at within ⊢; omega
  have offset : (off + j) % bsize = off % bsize + j := by simp only [bsize] at within ⊢; omega
  rw [byteAt, block, offset]

theorem readLoop_mapped : ∀ fuel off left got, left < fuel →
    (∀ k, off ≤ k → k < off + left → s.blockAt (s.icache i).din (k / bsize) ≠ 0) →
    s.readLoop fuel i off left got = .ok (got ++ (List.range left).map fun j => s.byteAt (s.icache i).din (off + j), s)
  | 0, _, _, _, short, _ => absurd short (Nat.not_lt_zero _)
  | fuel + 1, off, left, got, short, mapped => by
    rw [readLoop]
    by_cases done : left = 0
    · simp [done]
    rw [if_neg done]
    have chunk : min left (bsize - off % bsize) ≤ left := Nat.min_le_left _ _
    obtain ⟨positive, fits⟩ := chunk_within off (Nat.pos_of_ne_zero done)
    simp only [bmap_mapped (mapped off (Nat.le_refl _) (by omega)), bind, Except.bind]
    rw [readLoop_mapped fuel (off + min left (bsize - off % bsize)) (left - min left (bsize - off % bsize)) _
      (by omega) (fun k low high => mapped k (by omega) (by omega)),
      bytesAt_block fits]
    congr 2
    conv => rhs; rw [show left = min left (bsize - off % bsize) + (left - min left (bsize - off % bsize)) by omega]
    rw [List.range_add, List.map_append, List.append_assoc, List.map_map]
    simp [Function.comp_def, Nat.add_assoc]

theorem content_drop_take (off n : Nat) :
    ((s.content i).drop off).take n =
      (List.range (min n ((s.icache i).din.size - off))).map fun j => s.byteAt (s.icache i).din (off + j) := by
  apply List.ext_getElem
  · simp [content]
  · intro j _ _
    simp [content, List.getElem_take, List.getElem_drop]

theorem Owns.readi (owns : s.Owns i) (off n : Nat) :
    s.readi i off n =
      if off ≤ (s.icache i).din.size ∧ off + n < 2 ^ 32 then .ok (some (((s.content i).drop off).take n), s)
      else .ok (none, s) := by
  unfold FsState.readi
  by_cases outside : off > (s.icache i).din.size ∨ off + n ≥ 2 ^ 32
  · rw [if_pos outside, if_neg (by omega)]
  rw [if_neg outside, if_pos (show off ≤ (s.icache i).din.size ∧ off + n < 2 ^ 32 by omega)]
  dsimp only
  have length : (if off + n > (s.icache i).din.size then (s.icache i).din.size - off else n) =
      min n ((s.icache i).din.size - off) := by split <;> omega
  rw [length, readLoop_mapped _ off _ [] (Nat.lt_succ_self _) fun k low high =>
    owns.mapped_byte (by omega), content_drop_take]
  rfl

/-! ### `writei` -/

theorem copyinPrefix_list {src : Nat → Option UInt8} (data : List UInt8)
    (copies : ∀ k < data.length, src k = data[k]?) :
    ∀ m p, p + m ≤ data.length → copyinPrefix src p m = (data.drop p).take m
  | 0, _, _ => by simp [copyinPrefix]
  | m + 1, p, inside => by
    rw [copyinPrefix, copies p (by omega), List.getElem?_eq_getElem (by omega)]
    simp only [copyinPrefix_list data copies m (p + 1) (by omega)]
    rw [List.drop_eq_getElem_cons (show p < data.length by omega), List.take_succ_cons]

theorem Owns.meets_writeLoop {src : Nat → Option UInt8} (data : List UInt8)
    (copies : ∀ k < data.length, src k = data[k]?) {off₀ n : Nat} (enough : n ≤ data.length)
    (inRange : off₀ + n ≤ maxfile * bsize) :
    ∀ fuel tot (s : FsState), s.Owns i → tot ≤ n → n - tot < fuel →
      Meets WritePanic (fun r => r.1 = off₀ + n ∧ r.2.Owns i ∧
          Wrote s r.2 i (off₀ + tot) ((data.drop tot).take (n - tot)))
        (s.writeLoop src fuel i tot (off₀ + tot) n) := by
  intro fuel
  induction fuel with
  | zero => exact fun _ _ _ _ short => absurd short (Nat.not_lt_zero _)
  | succ fuel ih =>
    intro tot s owns below short
    rw [writeLoop]
    by_cases done : tot < n
    case neg =>
      have last : tot = n := by omega
      rw [if_neg done]
      subst last
      exact ⟨rfl, owns, by simpa using Keeps.refl.wrote (off₀ + tot)⟩
    rw [if_pos done]
    have within : (off₀ + tot) / bsize < maxfile := by
      simp only [bsize, maxfile] at inRange ⊢
      omega
    apply meets_bind
    refine (owns.meets_bmap within).mono fun r placed => ?_
    obtain ⟨addr, s1⟩ := r
    dsimp only at placed ⊢
    obtain ⟨positive, fits⟩ := chunk_within (off₀ + tot) (show 0 < n - tot by omega)
    rw [copyinPrefix_list data copies _ tot (by omega)]
    have length : ((data.drop tot).take (min (n - tot) (bsize - (off₀ + tot) % bsize))).length =
        min (n - tot) (bsize - (off₀ + tot) % bsize) := by
      simp only [List.length_take, List.length_drop]
      omega
    rw [if_neg (by omega)]
    obtain ⟨owns2, wrote2⟩ := placed.owns.writeBlock placed.found placed.positive (by rw [length]; exact fits)
    rw [Nat.div_add_mod'] at wrote2
    apply meets_bind
    refine (meets_logWrite _).mono fun s3 logged => ?_
    obtain ⟨blocks3, icache3, sb3⟩ := logged
    obtain ⟨owns3, keeps3, _⟩ := owns2.logged blocks3 icache3 sb3
    have rest := ih (tot + min (n - tot) (bsize - (off₀ + tot) % bsize)) s3 owns3 (by omega) (by omega)
    rw [← Nat.add_assoc] at rest
    refine rest.mono fun r after => ⟨after.1, after.2.1, ?_⟩
    have whole := (placed.keeps.then wrote2).keeps keeps3 |>.append (by rw [length]; exact after.2.2)
    have split : n - tot = min (n - tot) (bsize - (off₀ + tot) % bsize) +
        (n - (tot + min (n - tot) (bsize - (off₀ + tot) % bsize))) := by omega
    rwa [split, List.take_add, List.drop_drop]

@[simp] theorem setSize_blocks {size : Nat} : (s.setSize i size).blocks = s.blocks := rfl

@[simp] theorem setSize_sb {size : Nat} : (s.setSize i size).sb = s.sb := rfl

@[simp] theorem setSize_self {size : Nat} :
    (s.setSize i size).icache i = { s.icache i with din := { (s.icache i).din with size } } := by
  simp [setSize]

theorem setSize_slots {size : Nat} :
    (s.setSize i size).slotBlock ((s.setSize i size).icache i).din = s.slotBlock (s.icache i).din := by
  funext a
  cases a <;> simp [slotBlock]

theorem Owns.meets_iupdate (owns : s.Owns i) :
    Meets WritePanic (fun s' => s'.Owns i ∧ Keeps s s' i ∧
      s'.slotBlock (s'.icache i).din = s.slotBlock (s.icache i).din) (s.iupdate i) := by
  unfold iupdate
  have before := owns.inodeBlock
  set bn := iblock (s.icache i).inum s.sb with inodeBlock
  set s0 := s.setBlock bn ((s.icache i).din.write (s.blocks bn) (dinodeOff (s.icache i).inum)) with stored
  have other : ∀ a, s.slotBlock (s.icache i).din a ≠ 0 → s.slotBlock (s.icache i).din a ≠ bn :=
    fun a named same => by
      have past := owns.data a named
      simp only [dataStart, bpb, bsize] at past
      omega
  have slots : s0.slotBlock (s0.icache i).din = s.slotBlock (s.icache i).din :=
    slotBlock_congr fun present => by
      simp [s0, Function.update_of_ne (show (s.icache i).din.addrs ndirect ≠ bn from other .indirect present)]
  have marks : ∀ c < s.sb.size, s.Marked c → s0.Marked c := by
    intro c _ set
    unfold Marked at set ⊢
    have bitmap : bblock c s.sb ≠ bn := by
      simp only [bblock, bpb, bsize]
      omega
    simpa [s0, Function.update_of_ne bitmap] using set
  have owns1 : s0.Owns i := owns.of_slots rfl rfl rfl slots marks
  have keeps1 : Keeps s s0 i := keeps_of_slots rfl rfl rfl rfl (fun a _ => by rw [slots])
    fun a _ named => by simp [s0, Function.update_of_ne (other a named)]
  refine (meets_logWrite _).mono fun s' logged => ?_
  obtain ⟨blocks', icache', sb'⟩ := logged
  obtain ⟨owns', keeps', slots'⟩ := owns1.logged blocks' icache' sb'
  exact ⟨owns', keeps1.trans keeps', slots'.trans slots⟩

@[simp] theorem length_content : (s.content i).length = (s.icache i).din.size := by
  simp [content]

@[simp] theorem getElem_content {k : Nat} (h : k < (s.content i).length) :
    (s.content i)[k] = s.byteAt (s.icache i).din k := by
  simp [content]

theorem Owns.content_spliced (owns : s.Owns i) {off : Nat} {data : List UInt8} (wrote : Wrote s s' i off data)
    (start : off ≤ (s.icache i).din.size)
    (size : (s''.icache i).din.size = max (s.icache i).din.size (off + data.length))
    (bytes : ∀ k < (s''.icache i).din.size, s''.byteAt (s''.icache i).din k = s'.byteAt (s'.icache i).din k) :
    s''.content i = (s.content i).take off ++ data ++ (s.content i).drop (off + data.length) := by
  apply List.ext_getElem
  · simp only [length_content, List.length_append, List.length_take, List.length_drop, size]
    omega
  intro k inside _
  have below : k < (s''.icache i).din.size := by simpa using inside
  have kept : k < (s.icache i).din.size → (k < off ∨ off + data.length ≤ k) →
      s''.byteAt (s''.icache i).din k = s.byteAt (s.icache i).din k := fun within outside =>
    (bytes k below).trans (wrote.kept k outside (owns.mapped_byte within))
  rw [getElem_content]
  by_cases first : k < off
  case pos =>
    rw [List.getElem_append_left (by simp; omega), List.getElem_append_left (by simp; omega),
      List.getElem_take, getElem_content]
    exact kept (by omega) (.inl first)
  by_cases middle : k < off + data.length
  case pos =>
    rw [List.getElem_append_left (by simp; omega), List.getElem_append_right (by simp; omega)]
    obtain ⟨_, byte⟩ := wrote.written k (by omega) (by omega)
    rw [bytes k below, byte, List.getD_eq_getElem _ _ (by omega)]
    simp only [List.length_take, length_content, Nat.min_eq_left start]
  have within : k < (s.icache i).din.size := by omega
  rw [List.getElem_append_right (by simp; omega), List.getElem_drop, getElem_content]
  simp only [List.length_append, List.length_take, length_content, Nat.min_eq_left start]
  rw [kept within (.inr (by omega))]
  congr 1
  omega

theorem Owns.grow (owns : s.Owns i) {size : Nat} (fits : size ≤ maxfile * bsize)
    (mapped : ∀ bn, bn * bsize < size → s.blockAt (s.icache i).din bn ≠ 0) : (s.setSize i size).Owns i :=
  owns.resize (by simpa using fits) (by simpa using mapped) (by simp) rfl setSize_slots fun _ _ set => set

theorem byteAt_setSize {size : Nat} :
    (s.setSize i size).byteAt ((s.setSize i size).icache i).din = s.byteAt (s.icache i).din := by
  funext k
  simp only [byteAt, blockAt_congr setSize_slots, setSize_blocks]

/-- What `writei` of `data` at `off` leaves of inode `i`: the invariant, the
file's bytes with `data` in place of those from `off`, and the same inode. -/
structure Written (s s' : FsState) (i : Fin ninode) (off : Nat) (data : List UInt8) : Prop where
  owns : s'.Owns i
  content : s'.content i = (s.content i).take off ++ data ++ (s.content i).drop (off + data.length)
  inum : (s'.icache i).inum = (s.icache i).inum

theorem Written.size {off : Nat} {data : List UInt8} (written : Written s s' i off data)
    (start : off ≤ (s.icache i).din.size) :
    (s'.icache i).din.size = max (s.icache i).din.size (off + data.length) := by
  have length := congrArg List.length written.content
  simp only [length_content, List.length_append, List.length_take, List.length_drop] at length
  omega

theorem Owns.meets_writei (owns : s.Owns i) {off : Nat} {src : Nat → Option UInt8} {data : List UInt8}
    (copies : ∀ k < data.length, src k = data[k]?) (start : off ≤ (s.icache i).din.size)
    (inRange : off + data.length ≤ maxfile * bsize) :
    Meets WritePanic (fun r => r.1 = (data.length : Int) ∧ Written s r.2 i off data)
      (s.writei i src off data.length) := by
  have small : off + data.length < 2 ^ 32 := by
    simp only [maxfile, ndirect, nindirect, bsize] at inRange
    omega
  unfold writei
  rw [if_neg (by omega), if_neg (by omega)]
  have loop := owns.meets_writeLoop data copies (Nat.le_refl _) inRange (data.length + 1) 0 s (Nat.zero_le _) (by omega)
  simp only [Nat.add_zero, List.drop_zero, Nat.sub_zero, List.take_length] at loop
  apply meets_bind
  refine loop.mono fun r after => ?_
  obtain ⟨off', s1⟩ := r
  obtain ⟨stopped, owns1, wrote⟩ := after
  dsimp only at stopped owns1 wrote ⊢
  subst stopped
  by_cases nonempty : data.length > 0
  case neg =>
    rw [if_neg nonempty]
    have nothing : data.length = 0 := by omega
    exact ⟨rfl, owns1, owns.content_spliced wrote start (by rw [wrote.size, nothing]; omega)
      fun _ _ => rfl, wrote.inum⟩
  rw [if_pos nonempty]
  have finish : ∀ s2 : FsState, s2.Owns i →
      (s2.icache i).din.size = max (s.icache i).din.size (off + data.length) →
      (s2.icache i).inum = (s.icache i).inum →
      s2.byteAt (s2.icache i).din = s1.byteAt (s1.icache i).din →
      Meets WritePanic (fun r => r.1 = (data.length : Int) ∧ Written s r.2 i off data)
        (do let s3 ← s2.iupdate i; return ((data.length : Int), s3)) := by
    intro s2 owns2 size2 inum2 bytes2
    apply meets_bind
    refine owns2.meets_iupdate.mono fun s3 updated => ?_
    obtain ⟨owns3, keeps3, _⟩ := updated
    refine meets_pure ⟨rfl, owns3, owns.content_spliced wrote start (keeps3.size.trans size2) fun k below => ?_,
      keeps3.inum.trans inum2⟩
    rw [keeps3.size] at below
    rw [keeps3.kept k (.inr (by simp)) (owns2.mapped_byte below), bytes2]
  by_cases grows : off + data.length > (s1.icache i).din.size
  case neg =>
    rw [if_neg grows]
    exact finish s1 owns1 (by rw [wrote.size] at grows ⊢; omega) wrote.inum rfl
  rw [if_pos grows]
  have mapped : ∀ bn, bn * bsize < off + data.length → s1.blockAt (s1.icache i).din bn ≠ 0 := by
    intro bn below
    by_cases inside : bn * bsize < off
    · exact owns1.mapped bn (by rw [wrote.size]; omega)
    · have block := (wrote.written (bn * bsize) (by omega) below).1
      rwa [Nat.mul_div_cancel _ (by decide)] at block
  exact finish _ (owns1.grow inRange mapped) (by rw [wrote.size] at grows; simp; omega) (by simp [wrote.inum])
    byteAt_setSize

theorem Owns.meets_writei_readi (owns : s.Owns i) {off : Nat} {src : Nat → Option UInt8} {data : List UInt8}
    (copies : ∀ k < data.length, src k = data[k]?) (start : off ≤ (s.icache i).din.size)
    (inRange : off + data.length ≤ maxfile * bsize) :
    Meets WritePanic (fun r => r.1 = (data.length : Int) ∧ r.2.Owns i ∧
        (r.2.icache i).din.size = max (s.icache i).din.size (off + data.length) ∧
        r.2.readi i 0 (r.2.icache i).din.size =
          .ok (some ((s.content i).take off ++ data ++ (s.content i).drop (off + data.length)), r.2))
      (s.writei i src off data.length) := by
  refine (owns.meets_writei copies start inRange).mono fun r after => ?_
  obtain ⟨count, written⟩ := after
  refine ⟨count, written.owns, written.size start, ?_⟩
  have fits := written.owns.fits
  have small : 0 + (r.2.icache i).din.size < 2 ^ 32 := by
    simp only [maxfile, ndirect, nindirect, bsize] at fits
    omega
  rw [written.owns.readi, if_pos ⟨Nat.zero_le _, small⟩, List.drop_zero,
    List.take_of_length_le (by simp), written.content]

end FsState

/-- The disk of `fullDisk` with its bitmap marking only blocks `0` to `63`,
the metadata among them, and the rest free. -/
def spareDisk : FsState :=
  { fullDisk with blocks := fun b => if b = 45 then fun j => if j < 8 then 255 else 0 else fun _ => 0 }

theorem spareDisk_marks {s : FsState} (sb : s.sb = spareDisk.sb) (bitmap : s.blocks 45 = spareDisk.blocks 45)
    {b : Nat} (below : b < 64) : s.Marked b := by
  have block : bblock b s.sb = 45 := by
    simp only [sb, spareDisk, fullDisk, bblock, bpb, bsize]
    omega
  have byte : b % bpb / 8 < 8 := by
    simp only [bpb, bsize]
    omega
  have ones : s.blocks 45 (b % bpb / 8) = 255 := by
    simp [bitmap, spareDisk, byte]
  unfold FsState.Marked bitSet
  rw [block, ones]
  exact bitSet_ones (b % bpb)

theorem spareDisk_owns : spareDisk.Owns ⟨0, ninode_pos⟩ :=
  FsState.owns_of_empty rfl rfl
    (fun _ below _ => spareDisk_marks rfl rfl (Nat.lt_of_lt_of_le below (by decide))) (by decide) (by decide)

end Xv6.Fs
