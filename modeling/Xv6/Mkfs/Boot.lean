import Xv6.Mkfs.Main
import Xv6.Fs.Mount

/-! The kernel booted on the image `main` writes. The superblock, the root
inode and the root's entries read back as `main` wrote them; the bitmap marks
exactly the blocks it used. Two things `main` never checks show through: the
root's size, rounded up past its blocks when its entries fill them exactly,
and the input files' names, which may repeat. -/

namespace Xv6.Mkfs

open Xv6.Lib Xv6.Fs

theorem bitSet_usedBitmap (used i : Nat) : bitSet (usedBitmap used) i = decide (i < used) := by
  induction used with
  | zero =>
    rw [usedBitmap, bitSet_eq_testBit]
    exact Nat.zero_testBit _
  | succ used ih =>
    rw [usedBitmap, bitSet_markBit, ih]
    by_cases below : i < used
    · simp [below, show i < used + 1 by omega]
    · by_cases last : i = used
      · simp [last]
      · have beyond : ¬i < used + 1 := by omega
        simp [below, last, beyond]

theorem rootEntries_length (args : List CString) : (rootEntries args).length = args.length + 2 := by
  rw [rootEntries, List.length_append, List.length_mapIdx, Nat.add_comm]
  rfl

theorem rootEntries_file (args : List CString) {j : Nat} (within : j < args.length)
    (listed : j + 2 < (rootEntries args).length) : (rootEntries args)[j + 2] = fileEntry (j + 2) args[j] := by
  simp only [rootEntries]
  rw [List.getElem_append_right (by simp), List.getElem_mapIdx]
  simp

/-- The file system `fsinit` leaves on an image `main` made: `main`'s
superblock, the cleared log header, an empty log outside any transaction, and
an unreferenced inode cache. -/
def booted (img : State) : FsState :=
  { blocks := Function.update img.sector sb.logstart (setLE zeroes 0 4 0), sb
    log := { start := sb.logstart, size := sb.nlog, outstanding := 0, committing := false, lh := [] }
    icache := fun _ => Inode.unused }

/-- The booted file system with the root open: `iget(ROOTDEV, ROOTINO)` took
the first cache entry and `ilock` read the root's inode into it. -/
def opened (img : State) : FsState :=
  (booted img).setInode ⟨0, by decide⟩
    { dev := rootdev, inum := rootino, ref := 1, valid := true, din := img.inode rootino }

theorem booted_blocks (img : State) {b : Nat} (past : 2 < b) : (booted img).blocks b = img.sector b :=
  Function.update_of_ne (show b ≠ 2 by omega) _ _

theorem booted_inode (img : State) {inum : Nat} (few : inum < ninodes) :
    Dinode.read ((booted img).blocks (iblock inum (booted img).sb)) (dinodeOff inum) = img.inode inum := by
  obtain ⟨low, -⟩ := iblock_bounds few
  rw [show (booted img).sb = sb from rfl, booted_blocks img low]
  rfl

@[simp] theorem opened_root (img : State) : ((opened img).icache ⟨0, by decide⟩).din = img.inode rootino := by
  simp [opened, FsState.setInode]

theorem rootCapacity_of_few {n : Nat} (few : n < ninodes) : n ≤ rootCapacity := by
  simp only [ninodes, rootCapacity, ndirect, bsize, direntSize] at few ⊢
  omega

namespace State

variable {img : State} {entries : List (Nat × List UInt8)}

theorem Made.mount (made : img.Made entries) : mount img.sector = .ok (booted img) := by
  have super : Superblock.read (img.sector 1) = sb := by
    rw [made.super]
    exact Superblock.read_write sb (by decide) zeroes
  rw [mount_clean (by rw [super]; rfl) (by rw [super, made.header]; rfl), super, made.header]
  rfl

theorem Made.ilock_root (made : img.Made entries) :
    ((booted img).setInode ⟨0, by decide⟩ { (booted img).icache ⟨0, by decide⟩ with
      dev := rootdev, inum := rootino, ref := 1, valid := false }).ilock ⟨0, by decide⟩ = .ok (opened img) := by
  have typed : (img.inode rootino).type = tDir := by rw [made.root]; rfl
  rw [FsState.ilock_read (by simp [FsState.setInode]) (by simp [FsState.setInode]) (by
    simp only [FsState.setInode, Function.update_self]
    rw [booted_inode img (by decide), typed]
    decide)]
  simp only [opened, FsState.setInode, Function.update_self, Function.update_idem]
  rw [booted_inode img (by decide)]

theorem Made.readi_entry (made : img.Made entries) (roomy : entries.length ≤ rootCapacity) {e : Nat}
    (listed : e < entries.length) :
    (opened img).readi ⟨0, by decide⟩ (e * direntSize) direntSize =
      .ok (some (bytesAt (img.sector (nmeta + e * direntSize / bsize)) (e * direntSize % bsize) direntSize),
        opened img) := by
  have direct := rootBlocks_le roomy
  have mapped : e * direntSize / bsize < rootBlocks entries.length := by
    simp only [rootBlocks, direntSize, bsize]
    omega
  have addr : ((opened img).icache ⟨0, by decide⟩).din.addrs (e * direntSize / bsize) =
      nmeta + e * direntSize / bsize := by
    rw [opened_root, made.root]
    exact if_pos mapped
  have size : ((opened img).icache ⟨0, by decide⟩).din.size =
      (entries.length * direntSize / bsize + 1) * bsize := by
    rw [opened_root, made.root]
  have read := FsState.readi_mapped (s := opened img) (i := ⟨0, by decide⟩) (n := direntSize)
    (show e * direntSize / bsize < ndirect by omega) (by rw [addr]; simp [nmeta])
    (show e * direntSize % bsize + direntSize ≤ bsize by simp only [direntSize, bsize]; omega)
    (by rw [size]; simp only [direntSize, bsize]; omega)
    (by simp only [rootCapacity, ndirect, direntSize, bsize] at roomy ⊢; omega)
  rw [Nat.div_add_mod', addr] at read
  rw [read, show (opened img).blocks = (booted img).blocks from rfl,
    booted_blocks img (Nat.lt_of_lt_of_le (by decide) (Nat.le_add_right nmeta _))]

end State

theorem root_hole_panics (host : List UInt8 → Option (List UInt8)) (args : List CString)
    (few : args.length + 2 < ninodes) (plain : ∀ a ∈ args, 47 ∉ dropUser a.bytes ∧ host a.bytes = some [])
    (filled : (args.length + 2) * direntSize % bsize = 0) :
    ∃ img, main host args = .ok img ∧
      (args.length + 2) * direntSize < (img.inode rootino).size ∧
      (img.inode rootino).addrs ((args.length + 2) * direntSize / bsize) = 0 ∧
      (do
        let s ← mount img.sector
        let (ip, s) ← s.iget rootdev rootino
        let s ← s.ilock ip
        s.readi ip ((args.length + 2) * direntSize) direntSize) = .error "log_write outside of trans" := by
  obtain ⟨img, run, made⟩ := main_empty host args few plain
  have root := made.root
  rw [rootEntries_length] at root
  have blocks := ((rootBlocks_succ (args.length + 2)).1 filled).1
  have whole : (args.length + 2) * direntSize = (args.length + 2) * direntSize / bsize * bsize :=
    (Nat.div_mul_cancel (Nat.dvd_of_mod_eq_zero filled)).symm
  have direct : (args.length + 2) * direntSize / bsize < ndirect := by
    simp only [ninodes, direntSize, bsize, ndirect] at few ⊢
    omega
  have hole : (img.inode rootino).addrs ((args.length + 2) * direntSize / bsize) = 0 := by
    rw [root]
    exact if_neg (by rw [blocks]; exact Nat.lt_irrefl _)
  have inside : (args.length + 2) * direntSize < (img.inode rootino).size := by
    rw [root]
    simp only [direntSize, bsize]
    omega
  obtain ⟨inImage, inBitmap⟩ := rootBlocks_used (rootCapacity_of_few few)
  have bitmap : bblock (nmeta + rootBlocks (args.length + 2)) sb = sb.bmapstart := by
    simp only [bblock, bpb]
    rw [Nat.div_eq_of_lt inBitmap, Nat.zero_add]
  have stops : (opened img).balloc = .error "log_write outside of trans" := by
    refine FsState.balloc_refused (fun b => rfl) ⟨nmeta + rootBlocks (args.length + 2), inImage, ?_⟩
    show bitSet ((booted img).blocks (bblock _ sb)) _ = false
    rw [bitmap, booted_blocks img (by decide), made.bitmap, rootEntries_length, bitSet_usedBitmap,
      Nat.mod_eq_of_lt (show nmeta + rootBlocks (args.length + 2) < bpb from inBitmap)]
    exact decide_eq_false (Nat.lt_irrefl _)
  refine ⟨img, run, inside, hole, ?_⟩
  simp only [made.mount, bind, Except.bind, FsState.iget_unreferenced (s := booted img) (fun _ => rfl),
    made.ilock_root]
  rw [whole]
  refine FsState.readi_hole direct hole (by rw [← whole]; exact inside) (by decide) ?_ stops
  rw [← whole]
  simp only [ninodes, direntSize] at few ⊢
  omega

/-- The host's files, all empty. -/
def emptyFiles : List UInt8 → Option (List UInt8) := fun _ => some []

/-- The `k`-th lower-case letter, cyclically. -/
def letter (k : Nat) : UInt8 := UInt8.ofNat (97 + k % 26)

theorem letter_ne (k : Nat) {c : UInt8} (other : c.toNat < 97) : letter k ≠ c := fun same => by
  have code : (letter k).toNat = 97 + k % 26 := by
    rw [letter, UInt8.toNat_ofNat']
    omega
  rw [same] at code
  omega

/-- The name `aa`, `ab`, …, `zz` numbered `i`. -/
def pairName (i : Nat) : CString :=
  ⟨[letter (i / 26), letter i], by
    simp only [List.mem_cons, List.not_mem_nil, or_false, not_or]
    exact ⟨(letter_ne _ (by decide)).symm, (letter_ne _ (by decide)).symm⟩⟩

/-- Sixty-two distinct names: with `.` and `..` the root holds 64 entries,
one block exactly. -/
def pairNames : List CString := (List.range 62).map pairName

theorem pairNames_root_hole :
    pairNames.length + 2 < ninodes ∧
    (∀ a ∈ pairNames, 47 ∉ dropUser a.bytes ∧ emptyFiles a.bytes = some []) ∧
    (pairNames.length + 2) * direntSize % bsize = 0 ∧
    ∃ img, main emptyFiles pairNames = .ok img ∧
      (pairNames.length + 2) * direntSize < (img.inode rootino).size ∧
      (img.inode rootino).addrs ((pairNames.length + 2) * direntSize / bsize) = 0 ∧
      (do
        let s ← mount img.sector
        let (ip, s) ← s.iget rootdev rootino
        let s ← s.ilock ip
        s.readi ip ((pairNames.length + 2) * direntSize) direntSize) = .error "log_write outside of trans" :=
  have few : pairNames.length + 2 < ninodes := by decide
  have plain : ∀ a ∈ pairNames, 47 ∉ dropUser a.bytes ∧ emptyFiles a.bytes = some [] := by decide
  have filled : (pairNames.length + 2) * direntSize % bsize = 0 := by decide
  ⟨few, plain, filled, root_hole_panics emptyFiles pairNames few plain filled⟩

theorem duplicate_names_kept (host : List UInt8 → Option (List UInt8)) (args : List CString)
    (few : args.length + 2 < ninodes) (plain : ∀ a ∈ args, 47 ∉ dropUser a.bytes ∧ host a.bytes = some [])
    {i j : Nat} (before : i < j) (within : j < args.length)
    (same : strncpy (dropUnderscore (dropUser (args.get ⟨i, Nat.lt_trans before within⟩).bytes)) dirsiz =
      strncpy (dropUnderscore (dropUser args[j].bytes)) dirsiz) :
    ∃ img first second, main host args = .ok img ∧
      (do
        let s ← mount img.sector
        let (ip, s) ← s.iget rootdev rootino
        let s ← s.ilock ip
        let (first, s) ← s.readi ip ((i + 2) * direntSize) direntSize
        let (second, _) ← s.readi ip ((j + 2) * direntSize) direntSize
        pure (first, second)) = .ok (some first, some second) ∧
      Dirent.read (fun k => first.getD k 0) 0 =
        { inum := i + 2, name := strncpy (dropUnderscore (dropUser args[j].bytes)) dirsiz } ∧
      Dirent.read (fun k => second.getD k 0) 0 =
        { inum := j + 2, name := strncpy (dropUnderscore (dropUser args[j].bytes)) dirsiz } := by
  rw [List.get_eq_getElem] at same
  obtain ⟨img, run, made⟩ := main_empty host args few plain
  have listed := rootEntries_length args
  have roomy : (rootEntries args).length ≤ rootCapacity := rootCapacity_of_few (by rw [listed]; exact few)
  have entry : ∀ e (h : e < (rootEntries args).length),
      Dirent.read (fun k => (bytesAt (img.sector (nmeta + e * direntSize / bsize)) (e * direntSize % bsize)
        direntSize).getD k 0) 0 = { inum := (rootEntries args)[e].1, name := (rootEntries args)[e].2 } :=
    fun e h => by rw [Dirent.read_bytesAt, made.dirents e h]
  have first := entry (i + 2) (by omega)
  have second := entry (j + 2) (by omega)
  rw [rootEntries_file args (by omega) (by omega), fileEntry, same] at first
  rw [rootEntries_file args within (by omega), fileEntry] at second
  refine ⟨img, _, _, run, ?_, first, second⟩
  simp only [made.mount, bind, Except.bind, FsState.iget_unreferenced (s := booted img) (fun _ => rfl),
    made.ilock_root, made.readi_entry roomy (show i + 2 < (rootEntries args).length by omega),
    made.readi_entry roomy (show j + 2 < (rootEntries args).length by omega)]
  rfl

/-- The same name given twice. -/
def twice : List CString := [pairName 0, pairName 0]

theorem twice_names_kept :
    twice.length + 2 < ninodes ∧
    (∀ a ∈ twice, 47 ∉ dropUser a.bytes ∧ emptyFiles a.bytes = some []) ∧
    0 < 1 ∧ 1 < twice.length ∧
    strncpy (dropUnderscore (dropUser (pairName 0).bytes)) dirsiz =
      strncpy (dropUnderscore (dropUser (pairName 0).bytes)) dirsiz ∧
    ∃ img first second, main emptyFiles twice = .ok img ∧
      (do
        let s ← mount img.sector
        let (ip, s) ← s.iget rootdev rootino
        let s ← s.ilock ip
        let (first, s) ← s.readi ip ((0 + 2) * direntSize) direntSize
        let (second, _) ← s.readi ip ((1 + 2) * direntSize) direntSize
        pure (first, second)) = .ok (some first, some second) ∧
      Dirent.read (fun k => first.getD k 0) 0 =
        { inum := 0 + 2, name := strncpy (dropUnderscore (dropUser (pairName 0).bytes)) dirsiz } ∧
      Dirent.read (fun k => second.getD k 0) 0 =
        { inum := 1 + 2, name := strncpy (dropUnderscore (dropUser (pairName 0).bytes)) dirsiz } :=
  have few : twice.length + 2 < ninodes := by decide
  have plain : ∀ a ∈ twice, 47 ∉ dropUser a.bytes ∧ emptyFiles a.bytes = some [] := by decide
  ⟨few, plain, Nat.one_pos, by decide, rfl,
    duplicate_names_kept emptyFiles twice few plain Nat.one_pos (show 1 < twice.length by decide) rfl⟩

end Xv6.Mkfs
