import Mathlib
import Xv6.Fs.Content

/-! What `writei` needs to return rather than panic: an open transaction,
room in the log header for every `log_write` it makes, and a clear bit in
the bitmap for every `balloc`. A pass of its loop makes at most two
`balloc`s, for the indirect block and the entry, and six `log_write`s: two
for each `balloc`, one for the entry and one for the data; `iupdate` makes
one more. -/

namespace Xv6.Fs

open Xv6.Lib

/-- Inside a transaction, with room in the header for `w` more `log_write`s. -/
structure Log.Room (log : Log) (w : Nat) : Prop where
  inTrans : 1 ≤ log.outstanding
  fits : log.lh.length + w ≤ min logSize (log.size - 1)

/-- The blocks of a file that `n` bytes from `off` lie in: the passes of `writei`'s loop. -/
def blocksTouched (off n : Nat) : Nat :=
  if n = 0 then 0 else (off + n - 1) / bsize - off / bsize + 1

theorem blocksTouched_step {off n : Nat} (positive : 0 < n) :
    blocksTouched off n =
      blocksTouched (off + min n (bsize - off % bsize)) (n - min n (bsize - off % bsize)) + 1 := by
  have below := Nat.mod_lt off (show bsize > 0 by decide)
  unfold blocksTouched
  rw [if_neg (Nat.pos_iff_ne_zero.mp positive)]
  by_cases last : n - min n (bsize - off % bsize) = 0
  · rw [if_pos last]
    simp only [bsize] at below last ⊢
    omega
  · rw [if_neg last]
    simp only [bsize] at below last ⊢
    omega

namespace Log

variable {log : Log} {w : Nat}

theorem Room.mono {w' : Nat} (room : log.Room w) (fewer : w' ≤ w) : log.Room w' :=
  ⟨room.inTrans, Nat.le_trans (Nat.add_le_add_left fewer _) room.fits⟩

theorem Room.logWrite (room : log.Room (w + 1)) (b : Nat) :
    log.logWrite b = .ok (log.logWriteLocked b) ∧ (log.logWriteLocked b).Room w := by
  have fits := room.fits
  have passed : log.logWriteTest = .ok () := by
    unfold logWriteTest
    rw [if_neg (by omega), if_neg (by have := room.inTrans; omega)]
  have grew : (log.logWriteLocked b).lh.length ≤ log.lh.length + 1 := length_logWriteLocked_le
  refine ⟨by rw [Log.logWrite, passed]; rfl, ⟨by simpa using room.inTrans, ?_⟩⟩
  rw [logWriteLocked_size]
  omega

end Log

namespace FsState

/-- The blocks of the disk whose bit the bitmap leaves clear. -/
def freeBlocks (s : FsState) : Finset Nat :=
  (Finset.range s.sb.size).filter fun b => bitSet (s.blocks (bblock b s.sb)) (b % bpb) = false

/-- The bitmap marks every metadata block of the disk. -/
def Reserved (s : FsState) : Prop :=
  ∀ b < dataStart s.sb, b < s.sb.size → s.Marked b

/-- Room for `w` more `log_write`s and `a` more `balloc`s. -/
structure Room (s : FsState) (w a : Nat) : Prop where
  log : s.log.Room w
  free : a ≤ s.freeBlocks.card

variable {s s' : FsState} {i : Fin ninode} {w a : Nat}

theorem mem_freeBlocks {b : Nat} : b ∈ s.freeBlocks ↔ b < s.sb.size ∧ ¬ s.Marked b := by
  simp [freeBlocks, Marked]

theorem Room.mono {w' a' : Nat} (room : s.Room w a) (fewer : w' ≤ w) (fewerBlocks : a' ≤ a) : s.Room w' a' :=
  ⟨room.log.mono fewer, Nat.le_trans fewerBlocks room.free⟩

theorem Room.congr (room : s.Room w a) (log : s'.log = s.log) (sb : s'.sb = s.sb)
    (bitmap : ∀ c < s.sb.size, s'.blocks (bblock c s.sb) = s.blocks (bblock c s.sb)) : s'.Room w a := by
  have same : s'.freeBlocks = s.freeBlocks := by
    ext c
    simp only [freeBlocks, Finset.mem_filter, Finset.mem_range, sb]
    exact and_congr_right fun inDisk => by rw [bitmap c inDisk]
  refine ⟨?_, ?_⟩
  · rw [log]
    exact room.log
  · rw [same]
    exact room.free

theorem Room.setBlock (room : s.Room w a) {x : Nat} {blk : Block}
    (notBitmap : ∀ c < s.sb.size, bblock c s.sb ≠ x) : (s.setBlock x blk).Room w a :=
  room.congr rfl rfl fun c inDisk => by simp [Function.update_of_ne (notBitmap c inDisk)]

theorem Room.setInode (room : s.Room w a) {j : Fin ninode} {ip : Inode} : (s.setInode j ip).Room w a :=
  room.congr rfl rfl fun _ _ => rfl

theorem bblock_ne_of_data {x : Nat} (past : dataStart s.sb ≤ x) : ∀ c < s.sb.size, bblock c s.sb ≠ x :=
  fun _ inDisk => Nat.ne_of_lt (Nat.lt_of_lt_of_le (bblock_lt_dataStart inDisk) past)

theorem bblock_ne_of_inode {x : Nat} (before : x < s.sb.bmapstart) : ∀ c < s.sb.size, bblock c s.sb ≠ x :=
  fun _ _ => Nat.ne_of_gt (Nat.lt_of_lt_of_le before (Nat.le_add_left _ _))

theorem logWrite_of_room (room : s.log.Room (w + 1)) (b : Nat) :
    s.logWrite b = .ok { s with log := s.log.logWriteLocked b } := by
  rw [FsState.logWrite, (room.logWrite b).1]
  rfl

theorem Room.meets_logWrite (room : s.Room (w + 1) a) (b : Nat) :
    Meets (fun _ => False) (fun s' => s'.Room w a) (s.logWrite b) := by
  rw [logWrite_of_room room.log]
  exact ⟨(room.log.logWrite b).2, room.free⟩

theorem ballocLoop_room (room : s.log.Room (w + 2)) :
    ∀ fuel b, Meets (fun e => e = "balloc: out of blocks") (fun r => r.2.log.Room w) (s.ballocLoop fuel b) := by
  intro fuel
  induction fuel with
  | zero => exact fun _ => rfl
  | succ fuel ih =>
    intro b
    rw [ballocLoop]
    split
    · dsimp only
      split
      · rename_i bi _
        have marked := (room.logWrite (bblock b s.sb)).2
        apply meets_bind_ok (logWrite_of_room (s := s.setBlock _ _) room _)
        apply meets_bind_ok
        · exact logWrite_of_room marked _
        · exact (marked.logWrite (b + bi)).2
      · exact ih _
    · rfl

/-- With room, and the metadata marked, `balloc` returns a data block. -/
theorem Room.balloc (reserved : s.Reserved) (room : s.Room (w + 2) (a + 1)) :
    Meets (fun _ => False)
      (fun r => r.2.Room w a ∧ r.2.Reserved ∧ dataStart s.sb ≤ r.1 ∧ r.2.sb = s.sb ∧ r.2.icache = s.icache)
      s.balloc := by
  obtain ⟨c, free⟩ := Finset.card_pos.mp (Nat.lt_of_lt_of_le (Nat.succ_pos a) room.free)
  have found : s.balloc ≠ .error "balloc: out of blocks" := fun full => by
    obtain ⟨inDisk, clear⟩ := mem_freeBlocks.mp free
    exact clear (balloc_out_iff.mp full c inDisk)
  have loop : Meets (fun e => e = "balloc: out of blocks") (fun r => r.2.log.Room w) s.balloc :=
    ballocLoop_room room.log _ _
  refine ((loop.of_ne found).and meets_balloc).mono fun r got => ?_
  obtain ⟨logRoom, inDisk, clear, sb, icache, blocks⟩ := got
  have start : dataStart s.sb ≤ r.1 := Nat.le_of_not_lt fun below => clear (reserved r.1 below inDisk)
  refine ⟨⟨logRoom, ?_⟩, fun c below inDisk' => ?_, start, sb, icache⟩
  · have kept : s.freeBlocks.erase r.1 ⊆ r.2.freeBlocks := fun c member => by
      obtain ⟨other, free⟩ := Finset.mem_erase.mp member
      obtain ⟨inDisk, clear⟩ := mem_freeBlocks.mp free
      refine mem_freeBlocks.mpr ⟨by rw [sb]; exact inDisk, fun set => ?_⟩
      exact ((marked_balloc sb start blocks inDisk).mp set).elim clear other
    have fewer := Finset.card_le_card kept
    have erased := Finset.pred_card_le_card_erase (s := s.freeBlocks) (a := r.1)
    have enough := room.free
    omega
  · rw [sb] at below inDisk'
    exact (marked_balloc sb start blocks inDisk').mpr (.inl (reserved c below inDisk'))

theorem Owns.blockAt_data (owns : s.Owns i) {bn : Nat} (mapped : s.blockAt (s.icache i).din bn ≠ 0) :
    dataStart s.sb ≤ s.blockAt (s.icache i).din bn := by
  obtain ⟨a, _, named⟩ := blockAt_slot mapped
  rw [← named] at mapped ⊢
  exact owns.data a mapped

theorem Room.bmapEntry (reserved : s.Reserved) {ind : Nat} (past : dataStart s.sb ≤ ind) (k : Nat)
    (room : s.Room (w + 3) (a + 1)) :
    Meets (fun _ => False) (fun r => r.2.Room w a)
      (if getLE (s.blocks ind) (4 * k) 4 = 0 then do
          let r ← s.balloc
          let s' ← (r.2.setBlock ind (setLE (r.2.blocks ind) (4 * k) 4 r.1)).logWrite ind
          pure (r.1, s')
        else .ok (getLE (s.blocks ind) (4 * k) 4, s)) := by
  split
  · apply meets_bind
    refine (room.balloc reserved).mono fun r got => ?_
    obtain ⟨room1, -, -, sb1, -⟩ := got
    have notBitmap : ∀ c < r.2.sb.size, bblock c r.2.sb ≠ ind := by
      rw [sb1]
      exact bblock_ne_of_data past
    apply meets_bind
    exact ((room1.setBlock notBitmap).meets_logWrite ind).mono fun _ room' => meets_pure room'
  · exact room.mono (by omega) (by omega)

/-- With room for five `log_write`s and two `balloc`s, `bmap` below `MAXFILE` returns. -/
theorem Owns.room_bmap (owns : s.Owns i) {bn : Nat} (within : bn < maxfile) (room : s.Room (w + 5) (a + 2)) :
    Meets (fun _ => False) (fun r => r.2.Room w a) (s.bmap i bn) := by
  unfold bmap
  split
  · dsimp only
    split
    · apply meets_bind
      refine ((room.mono (by omega) (by omega) : s.Room (w + 2) (a + 1)).balloc owns.metadata).mono
        fun r got => meets_pure got.1.setInode
    · exact room.mono (by omega) (by omega)
  · dsimp only
    split
    · split
      · apply meets_bind
        refine ((room.mono (by omega) (by omega) : s.Room (w + 3 + 2) (a + 1 + 1)).balloc owns.metadata).mono
          fun r got => ?_
        obtain ⟨room1, reserved1, start1, sb1, -⟩ := got
        apply meets_bind_ok rfl
        exact Room.bmapEntry (s := r.2.setAddr i ndirect r.1) reserved1 (by rw [setAddr_sb, sb1]; exact start1) _
          room1.setInode
      · rename_i present
        apply meets_bind_ok rfl
        exact Room.bmapEntry owns.metadata (owns.data .indirect present) _ (room.mono (by omega) (by omega))
    · rename_i direct indirect
      simp only [maxfile] at within
      omega

theorem Room.iupdate (room : s.Room (w + 1) a) (inodeBlock : iblock (s.icache i).inum s.sb < s.sb.bmapstart) :
    Meets (fun _ => False) (fun s' => s'.Room w a) (s.iupdate i) :=
  (room.setBlock (bblock_ne_of_inode inodeBlock)).meets_logWrite _

theorem Owns.room_writeLoop {src : Nat → Option UInt8} (data : List UInt8)
    (copies : ∀ k < data.length, src k = data[k]?) {off₀ n : Nat} (enough : n ≤ data.length)
    (inRange : off₀ + n ≤ maxfile * bsize) :
    ∀ fuel tot (s : FsState), s.Owns i → tot ≤ n → n - tot < fuel → ∀ w a,
      s.Room (w + 6 * blocksTouched (off₀ + tot) (n - tot)) (a + 2 * blocksTouched (off₀ + tot) (n - tot)) →
      Meets (fun _ => False) (fun r => r.2.Room w a) (s.writeLoop src fuel i tot (off₀ + tot) n) := by
  intro fuel
  induction fuel with
  | zero => exact fun _ _ _ _ short => absurd short (Nat.not_lt_zero _)
  | succ fuel ih =>
    intro tot s owns below short w a room
    rw [writeLoop]
    by_cases done : tot < n
    case neg =>
      rw [if_neg done]
      exact room.mono (Nat.le_add_right _ _) (Nat.le_add_right _ _)
    rw [if_pos done]
    have within : (off₀ + tot) / bsize < maxfile := by
      simp only [bsize, maxfile] at inRange ⊢
      omega
    obtain ⟨positive, fits⟩ := chunk_within (off₀ + tot) (show 0 < n - tot by omega)
    set m := min (n - tot) (bsize - (off₀ + tot) % bsize) with chunk
    set k := blocksTouched (off₀ + tot + m) (n - tot - m) with touchedRest
    have touched : blocksTouched (off₀ + tot) (n - tot) = k + 1 := blocksTouched_step (by omega)
    rw [touched] at room
    apply meets_bind
    refine ((owns.room_bmap (w := w + 6 * k + 1) (a := a + 2 * k) within (room.mono (by omega) (by omega))).and
      (owns.meets_bmap within)).mono fun r got => ?_
    obtain ⟨addr, s1⟩ := r
    obtain ⟨room1, placed⟩ := got
    dsimp only at room1 placed ⊢
    rw [copyinPrefix_list data copies _ tot (by omega)]
    have length : ((data.drop tot).take m).length = m := by
      simp only [List.length_take, List.length_drop]
      omega
    rw [if_neg (by omega)]
    obtain ⟨owns2, -⟩ := placed.owns.writeBlock placed.found placed.positive (by rw [length]; exact fits)
    have past : dataStart s1.sb ≤ addr := placed.found ▸ placed.owns.blockAt_data (placed.found ▸ placed.positive)
    apply meets_bind
    refine (((room1.setBlock (bblock_ne_of_data past)).meets_logWrite addr).and (meets_logWrite addr)).mono
      fun s3 got => ?_
    obtain ⟨room3, blocks3, icache3, sb3⟩ := got
    obtain ⟨owns3, -, -⟩ := owns2.logged blocks3 icache3 sb3
    have rest : blocksTouched (off₀ + (tot + m)) (n - (tot + m)) = k := by
      rw [touchedRest]
      congr 1 <;> omega
    have next := ih (tot + m) s3 owns3 (by omega) (by omega) w a (by rw [rest]; exact room3)
    rwa [← Nat.add_assoc] at next

/-- With room for the blocks it touches and for `iupdate`, `writei` returns. -/
theorem Owns.room_writei (owns : s.Owns i) {off : Nat} {src : Nat → Option UInt8} {data : List UInt8}
    (copies : ∀ k < data.length, src k = data[k]?) (start : off ≤ (s.icache i).din.size)
    (inRange : off + data.length ≤ maxfile * bsize)
    (room : s.Room (w + 6 * blocksTouched off data.length + 1) (a + 2 * blocksTouched off data.length)) :
    Meets (fun _ => False) (fun r => r.2.Room w a) (s.writei i src off data.length) := by
  have small : off + data.length < 2 ^ 32 := by
    simp only [maxfile, ndirect, nindirect, bsize] at inRange
    omega
  unfold writei
  rw [if_neg (by omega), if_neg (by omega)]
  have loop := owns.room_writeLoop data copies (Nat.le_refl _) inRange (data.length + 1) 0 s
    (Nat.zero_le _) (by omega) (w + 1) a
  have spec := owns.meets_writeLoop data copies (Nat.le_refl _) inRange (data.length + 1) 0 s
    (Nat.zero_le _) (by omega)
  simp only [Nat.add_zero, Nat.sub_zero] at loop spec
  apply meets_bind
  refine ((loop (room.mono (by omega) (Nat.le_refl _))).and spec).mono fun r got => ?_
  obtain ⟨off', s1⟩ := r
  obtain ⟨room1, -, owns1, -⟩ := got
  dsimp only at room1 owns1 ⊢
  split
  · apply meets_bind
    split
    · exact (room1.setInode.iupdate (by simpa using owns1.inodeBlock)).mono fun _ room' => meets_pure room'
    · exact (room1.iupdate owns1.inodeBlock).mono fun _ room' => meets_pure room'
  · exact meets_pure (room1.mono (Nat.le_add_right _ _) (Nat.le_refl _))

/-- An inode's file is an array of `size` bytes. `readi` reads its bytes
from `off`, `n` of them or to the end. `writei` of `n` bytes a copy can read,
from inside the file and ending within `MAXFILE` blocks, never asks `bmap`
for a block past `MAXFILE`: what it returns is `n`, with the old bytes before
`off`, the data and the old bytes after it, of size `max size (off + n)`, as
`readi` of the whole file reads them, and otherwise it stops with a panic of
a full disk or log. Inside a transaction with room in the log and free
blocks on the disk for the blocks it touches, it returns. -/
theorem inode_content_array (owns : s.Owns i) :
    (∀ off n, s.readi i off n =
      if off ≤ (s.icache i).din.size ∧ off + n < 2 ^ 32 then .ok (some (((s.content i).drop off).take n), s)
      else .ok (none, s)) ∧
    ∀ off (src : Nat → Option UInt8) (data : List UInt8), (∀ k < data.length, src k = data[k]?) →
      off ≤ (s.icache i).din.size → off + data.length ≤ maxfile * bsize →
      Meets WritePanic (fun r => r.1 = (data.length : Int) ∧ r.2.Owns i ∧
          (r.2.icache i).din.size = max (s.icache i).din.size (off + data.length) ∧
          r.2.readi i 0 (r.2.icache i).din.size =
            .ok (some ((s.content i).take off ++ data ++ (s.content i).drop (off + data.length)), r.2))
        (s.writei i src off data.length) ∧
      (s.Room (6 * blocksTouched off data.length + 1) (2 * blocksTouched off data.length) →
        ∃ r, s.writei i src off data.length = .ok r) := by
  refine ⟨owns.readi, fun off src data copies start inRange => ⟨owns.meets_writei_readi copies start inRange,
    fun room => ?_⟩⟩
  obtain ⟨r, wrote, -⟩ :=
    (owns.room_writei (w := 0) (a := 0) copies start inRange (by simpa using room)).returns
  exact ⟨r, wrote⟩

end FsState

theorem spareDisk_room : spareDisk.Room 7 2 := by
  have free : ({64, 65} : Finset Nat) ⊆ spareDisk.freeBlocks := by
    intro b member
    simp only [Finset.mem_insert, Finset.mem_singleton] at member
    rcases member with rfl | rfl <;> exact Finset.mem_filter.mpr ⟨Finset.mem_range.mpr (by decide), by decide⟩
  exact ⟨⟨by decide, by decide⟩, Finset.card_le_card free⟩

theorem spareDisk_content_array :
    spareDisk.Owns ⟨0, ninode_pos⟩ ∧ spareDisk.Room 7 2 ∧
      ∃ r, spareDisk.writei ⟨0, ninode_pos⟩ (fun k => [7, 8, 9][k]?) 0 3 = .ok r ∧
        r.2.readi ⟨0, ninode_pos⟩ 0 (r.2.icache ⟨0, ninode_pos⟩).din.size = .ok (some [7, 8, 9], r.2) := by
  obtain ⟨-, write⟩ := FsState.inode_content_array spareDisk_owns
  obtain ⟨meets, returns⟩ := write 0 (fun k => [7, 8, 9][k]?) [7, 8, 9] (fun _ _ => rfl) (Nat.zero_le _) (by decide)
  obtain ⟨r, wrote⟩ := returns spareDisk_room
  obtain ⟨-, -, -, read⟩ := meets.of_ok wrote
  have empty : spareDisk.content ⟨0, ninode_pos⟩ = [] := rfl
  rw [empty] at read
  exact ⟨spareDisk_owns, spareDisk_room, r, wrote, read⟩

end Xv6.Fs
