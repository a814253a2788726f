import Mathlib
import Xv6.Mkfs.Mkfs
import Xv6.Fs.Format

/-! The image `main` writes when every input file is empty: the root
directory's inode and entries, one empty `T_FILE` inode per file, and the
bitmap. The root gets one more entry per file and a new block whenever its
entries fill the last one; at the end its size is rounded up to the next
block boundary, past the blocks it has whenever the entries fill them
exactly. -/

namespace Xv6.Mkfs

open Xv6.Lib Xv6.Fs

/-- The blocks `n` root entries fill: `⌈16 n / BSIZE⌉`. -/
def rootBlocks (n : Nat) : Nat := (n * direntSize + bsize - 1) / bsize

/-- The root directory's inode once it holds `n` entries: its blocks are the
ones `iappend` took from `freeblock`, from `nmeta` on. -/
def rootDin (n : Nat) : Dinode :=
  { Dinode.zero with
    type := tDir, nlink := 1, size := n * direntSize
    addrs := fun k => if k < rootBlocks n then nmeta + k else 0 }

/-- The inode `ialloc(type)` writes. -/
def newDin (type : Nat) : Dinode := { Dinode.zero with type, nlink := 1, size := 0 }

theorem rootBlocks_succ (n : Nat) :
    (n * direntSize % bsize = 0 → rootBlocks n = n * direntSize / bsize ∧ rootBlocks (n + 1) = rootBlocks n + 1) ∧
    (n * direntSize % bsize ≠ 0 → rootBlocks n = n * direntSize / bsize + 1 ∧ rootBlocks (n + 1) = rootBlocks n) := by
  simp only [rootBlocks, direntSize, bsize]
  omega

/-- The entries that fit the direct blocks. -/
def rootCapacity : Nat := ndirect * (bsize / direntSize)

theorem rootBlocks_le {n : Nat} (few : n ≤ rootCapacity) : rootBlocks n ≤ ndirect := by
  simp only [rootBlocks, rootCapacity, ndirect, direntSize, bsize] at few ⊢
  omega

theorem rootBlocks_used {n : Nat} (few : n ≤ rootCapacity) :
    nmeta + rootBlocks n < fssize ∧ nmeta + rootBlocks n < bsize * 8 := by
  have direct := rootBlocks_le few
  simp only [ndirect] at direct
  simp only [nmeta, nlog, logSize, maxOpBlocks, ninodeblocks, ninodes, ipb, dinodeSize, nbitmap, fssize, bsize]
  omega

theorem rootDin_fits {n : Nat} (few : n ≤ rootCapacity) : (rootDin n).Fits where
  type := show tDir < 2 ^ 16 by decide
  major := show 0 < 2 ^ 16 by decide
  minor := show 0 < 2 ^ 16 by decide
  nlink := show 1 < 2 ^ 16 by decide
  size := by simp only [rootDin, rootCapacity, ndirect, direntSize, bsize] at few ⊢; omega
  addrs k := by
    have blocks := rootBlocks_le few
    simp only [rootDin]
    split
    · simp only [nmeta, nlog, ninodeblocks, nbitmap, logSize, maxOpBlocks, ninodes, ipb, bsize, dinodeSize,
        fssize, ndirect] at *
      omega
    · decide
  beyond k above := by
    have blocks := rootBlocks_le few
    simp only [rootDin]
    exact if_neg (by omega)

@[simp] theorem rootDin_size (n : Nat) : (rootDin n).size = n * direntSize := rfl

theorem rootDin_grow (n : Nat) :
    { { rootDin n with addrs := (rootDin (n + 1)).addrs } with size := n * direntSize + direntSize } =
      rootDin (n + 1) :=
  Dinode.ext rfl rfl rfl rfl (Nat.succ_mul n direntSize).symm rfl

theorem newDin_fits {type : Nat} (small : type < 2 ^ 16) : (newDin type).Fits where
  type := small
  major := show 0 < 2 ^ 16 by decide
  minor := show 0 < 2 ^ 16 by decide
  nlink := show 1 < 2 ^ 16 by decide
  size := show 0 < 2 ^ 32 by decide
  addrs _ := show 0 < 2 ^ 32 by decide
  beyond _ _ := rfl

theorem iblock_bounds {inum : Nat} (few : inum < ninodes) : 2 < iblock inum sb ∧ iblock inum sb + 1 < nmeta := by
  simp only [iblock, sb, ipb, bsize, dinodeSize, nlog, logSize, maxOpBlocks, nmeta, ninodeblocks, nbitmap,
    ninodes, fssize] at few ⊢
  omega

namespace State

variable {st : State} {inum j sec n : Nat} {din : Dinode} {buf : Block}

/-- Inode `inum` as the image holds it, where `rinode` reads it. -/
def inode (st : State) (inum : Nat) : Dinode :=
  Dinode.read (st.sector (iblock inum sb)) (dinodeOff inum)

theorem inode_wsect (other : sec ≠ iblock inum sb) : (st.wsect sec buf).inode inum = st.inode inum := by
  simp only [inode, wsect_sector_of_ne (Ne.symm other)]

theorem inode_putInode_self (fits : din.Fits) : (st.putInode inum din).inode inum = din := by
  simp only [inode, putInode, wsect_sector_self, Dinode.read_write fits]

theorem inode_putInode_other (other : j ≠ inum) : (st.putInode j din).inode inum = st.inode inum := by
  unfold putInode inode
  by_cases sameBlock : iblock inum sb = iblock j sb
  · have apart := dinodeOff_apart (Ne.symm other) (by simp only [iblock] at sameBlock; omega)
    rw [sameBlock, wsect_sector_self, Dinode.read_write_of_disjoint apart]
  · rw [wsect_sector_of_ne sameBlock]

theorem putInode_sector (other : sec ≠ iblock inum sb) : (st.putInode inum din).sector sec = st.sector sec :=
  wsect_sector_of_ne other

@[simp] theorem putInode_length : (st.putInode inum din).length = max st.length (iblock inum sb + 1) := rfl

@[simp] theorem putInode_freeinode : (st.putInode inum din).freeinode = st.freeinode := rfl

@[simp] theorem putInode_freeblock : (st.putInode inum din).freeblock = st.freeblock := rfl

/-- The `n`-th root entry, `bytes`, copied into its place in the root's
blocks. -/
def putEntry (st : State) (n : Nat) (bytes : List UInt8) : State :=
  let x := nmeta + n * direntSize / bsize
  st.wsect x (copyBytes (st.sector x) (n * direntSize % bsize) (fun i => bytes.getD i 0) 0 direntSize)

theorem blockFor_root (free : st.freeblock = nmeta + rootBlocks n) (few : n < rootCapacity) :
    st.blockFor (rootDin n) (n * direntSize / bsize) =
      .ok (nmeta + n * direntSize / bsize, { st with freeblock := nmeta + rootBlocks (n + 1) },
        { rootDin n with addrs := (rootDin (n + 1)).addrs }) := by
  have direct : n * direntSize / bsize < ndirect := by
    simp only [rootCapacity, ndirect, direntSize, bsize] at few ⊢
    omega
  unfold blockFor
  rw [if_pos direct]
  obtain ⟨filled, unfilled⟩ := rootBlocks_succ n
  by_cases full : n * direntSize % bsize = 0
  · obtain ⟨last, next⟩ := filled full
    have hole : (rootDin n).addrs (n * direntSize / bsize) = 0 := if_neg (by omega)
    have addrs : Function.update (rootDin n).addrs (n * direntSize / bsize) (nmeta + n * direntSize / bsize) =
        (rootDin (n + 1)).addrs := by
      funext k
      simp only [rootDin, Function.update_apply, next, last]
      split_ifs <;> omega
    rw [if_pos hole, free, last]
    simp only [setAddr, addrs, next, last]
    rfl
  · obtain ⟨last, next⟩ := unfilled full
    have mapped : (rootDin n).addrs (n * direntSize / bsize) = nmeta + n * direntSize / bsize := if_pos (by omega)
    have addrs : (rootDin (n + 1)).addrs = (rootDin n).addrs := by
      funext k
      simp only [rootDin, next]
    rw [if_neg (by rw [mapped]; simp only [nmeta]; omega), mapped, addrs, next, ← free]

theorem appendLoop_entry {bytes : List UInt8} (length : st.length = fssize)
    (free : st.freeblock = nmeta + rootBlocks n) (few : n < rootCapacity) (sixteen : bytes.length = direntSize) :
    st.appendLoop (rootDin n) (n * direntSize) bytes =
      .ok ({ st with freeblock := nmeta + rootBlocks (n + 1) }.putEntry n bytes,
        { rootDin n with addrs := (rootDin (n + 1)).addrs }, n * direntSize + direntSize) := by
  have nonempty : bytes ≠ [] := by
    intro empty
    rw [empty] at sixteen
    cases sixteen
  have bounds : n * direntSize / bsize < maxfile ∧ nmeta + n * direntSize / bsize < fssize ∧
      min bytes.length ((n * direntSize / bsize + 1) * bsize - n * direntSize) = direntSize ∧
      n * direntSize - n * direntSize / bsize * bsize = n * direntSize % bsize := by
    simp only [rootCapacity, maxfile, nindirect, ndirect, nmeta, nlog, logSize, maxOpBlocks, ninodeblocks,
      ninodes, ipb, dinodeSize, nbitmap, fssize, sixteen, direntSize, bsize] at few ⊢
    omega
  obtain ⟨inFile, onDisk, whole, offset⟩ := bounds
  rw [appendLoop, dif_neg nonempty, if_pos inFile]
  simp only [blockFor_root free few, bind, Except.bind, rsect, length, onDisk, if_true, whole, offset]
  rw [appendLoop, dif_pos (List.drop_eq_nil_of_le (by rw [sixteen]))]
  rfl

theorem putEntry_length {bytes : List UInt8} (length : st.length = fssize) (few : n < rootCapacity) :
    (st.putEntry n bytes).length = fssize := by
  simp only [putEntry, wsect_length, length]
  simp only [rootCapacity, nmeta, nlog, logSize, maxOpBlocks, ninodeblocks, ninodes, ipb, dinodeSize, nbitmap,
    fssize, ndirect, direntSize, bsize] at few ⊢
  omega

theorem iappend_root {bytes : List UInt8} (length : st.length = fssize) (root : st.inode rootino = rootDin n)
    (free : st.freeblock = nmeta + rootBlocks n) (few : n < rootCapacity) (sixteen : bytes.length = direntSize) :
    st.iappend rootino bytes =
      .ok (({ st with freeblock := nmeta + rootBlocks (n + 1) }.putEntry n bytes).putInode rootino
        (rootDin (n + 1))) := by
  have rootBlock : iblock rootino sb < fssize := by decide
  have read : st.rinode rootino = .ok (rootDin n) := by
    rw [rinode_of_lt (by rw [length]; exact rootBlock), ← root]
    rfl
  have written : ({ st with freeblock := nmeta + rootBlocks (n + 1) }.putEntry n bytes).length = fssize :=
    putEntry_length length few
  simp only [iappend, read, bind, Except.bind, rootDin_size, appendLoop_entry length free few sixteen,
    winode_of_lt (show _ < _ by rw [written]; exact rootBlock)]
  congr 2
  exact rootDin_grow n

end State

/-- The root entry `main` writes for the input file `path`, with inode `inum`:
its short name, truncated to `DIRSIZ` by `strncpy`. -/
def fileEntry (inum : Nat) (path : CString) : Nat × List UInt8 :=
  (inum, strncpy (dropUnderscore (dropUser path.bytes)) dirsiz)

/-- The root's entries: `.`, `..`, then one per input file, whose inodes are
numbered from `2` in order. -/
def rootEntries (args : List CString) : List (Nat × List UInt8) :=
  [(rootino, strncpy dot dirsiz), (rootino, strncpy dotdot dirsiz)] ++
    args.mapIdx fun j path => fileEntry (j + 2) path

/-- The root directory while `main` appends its entries: the root inode holds
`entries`, which decode from its blocks, and the superblock and the empty log
header stand as written. -/
structure State.Rooted (st : State) (entries : List (Nat × List UInt8)) : Prop where
  length : st.length = fssize
  super : st.sector 1 = sb.write zeroes
  header : st.sector sb.logstart = zeroes
  freeblock : st.freeblock = nmeta + rootBlocks entries.length
  root : st.inode rootino = rootDin entries.length
  dirents : ∀ e (h : e < entries.length),
    Dirent.read (st.sector (nmeta + e * direntSize / bsize)) (e * direntSize % bsize) =
      { inum := entries[e].1, name := entries[e].2 }

/-- The image while `main` adds empty files: after `.` and `..`, one entry per
file, whose inode is the next one and an empty `T_FILE`. -/
structure State.Laid (st : State) (entries : List (Nat × List UInt8)) : Prop extends st.Rooted entries where
  dots : 2 ≤ entries.length
  freeinode : st.freeinode = entries.length
  files : ∀ j, 2 ≤ j → j < entries.length → st.inode j = newDin tFile

namespace State

variable {st : State} {entries : List (Nat × List UInt8)} {n : Nat} {bytes : List UInt8}

theorem putEntry_dirent_self {inum : Nat} {name : List UInt8} (fourteen : name.length = dirsiz) :
    Dirent.read ((st.putEntry n (direntBytes inum name)).sector (nmeta + n * direntSize / bsize))
      (n * direntSize % bsize) = { inum := inum % 65536, name } := by
  rw [putEntry, wsect_sector_self]
  exact Dirent.read_copy _ _ inum fourteen

theorem putEntry_dirent_other {e : Nat} (before : e < n) :
    Dirent.read ((st.putEntry n bytes).sector (nmeta + e * direntSize / bsize)) (e * direntSize % bsize) =
      Dirent.read (st.sector (nmeta + e * direntSize / bsize)) (e * direntSize % bsize) := by
  unfold putEntry
  by_cases sameBlock : e * direntSize / bsize = n * direntSize / bsize
  · rw [sameBlock, wsect_sector_self]
    refine Dirent.read_congr fun i low high => copyBytes_outside ?_ _ _
    simp only [direntSize, bsize] at sameBlock low high ⊢
    omega
  · rw [wsect_sector_of_ne (by omega)]

theorem inode_freeinode (inum : Nat) (k : Nat) : { st with freeinode := k }.inode inum = st.inode inum := rfl

theorem inode_freeblock (inum : Nat) (k : Nat) : { st with freeblock := k }.inode inum = st.inode inum := rfl

theorem Rooted.freeinode (rooted : st.Rooted entries) (k : Nat) : { st with freeinode := k }.Rooted entries :=
  ⟨rooted.length, rooted.super, rooted.header, rooted.freeblock, rooted.root, rooted.dirents⟩

theorem Rooted.putInode (rooted : st.Rooted entries) {inum : Nat} (notRoot : inum ≠ rootino)
    (few : inum < ninodes) (din : Dinode) : (st.putInode inum din).Rooted entries := by
  obtain ⟨length, super, header, freeblock, root, dirents⟩ := rooted
  obtain ⟨low, high⟩ := iblock_bounds few
  have metaSmall : nmeta < fssize := by decide
  refine ⟨?_, ?_, ?_, freeblock, ?_, ?_⟩
  · rw [putInode_length, length]
    omega
  · rw [putInode_sector (by omega), super]
  · rw [show sb.logstart = 2 from rfl, putInode_sector (by omega)]
    exact header
  · rw [inode_putInode_other notRoot, root]
  · intro e within
    have dataBlock : nmeta ≤ nmeta + e * direntSize / bsize := Nat.le_add_right _ _
    rw [putInode_sector (by omega), dirents e within]

theorem Rooted.append (rooted : st.Rooted entries) (roomy : entries.length < rootCapacity) {inum : Nat}
    (small : inum < 65536) {name : List UInt8} (fourteen : name.length = dirsiz) :
    ∃ st', st.iappend rootino (direntBytes inum name) = .ok st' ∧ st'.Rooted (entries ++ [(inum, name)]) ∧
      st'.freeinode = st.freeinode ∧ ∀ j, j ≠ rootino → j < ninodes → st'.inode j = st.inode j := by
  obtain ⟨length, super, header, freeblock, root, dirents⟩ := rooted
  obtain ⟨rootLow, rootHigh⟩ := iblock_bounds (show rootino < ninodes by decide)
  have entryAbove : nmeta ≤ nmeta + entries.length * direntSize / bsize := Nat.le_add_right _ _
  have grown : (entries ++ [(inum, name)]).length = entries.length + 1 := by
    rw [List.length_append, List.length_singleton]
  refine ⟨_, iappend_root length root freeblock roomy
    (by rw [direntBytes, List.length_cons, List.length_cons, fourteen]; rfl), ⟨?length, ?super, ?header,
      by rw [grown]; rfl, ?root, ?dirents⟩, rfl, ?others⟩
  case length =>
    rw [putInode_length,
      putEntry_length (show ({ st with freeblock := nmeta + rootBlocks (entries.length + 1) }).length = fssize
        from length) roomy]
    decide
  case super =>
    rw [putInode_sector (by omega), putEntry, wsect_sector_of_ne (by omega)]
    exact super
  case header =>
    rw [show sb.logstart = 2 from rfl, putInode_sector (by omega), putEntry, wsect_sector_of_ne (by omega)]
    exact header
  case root =>
    rw [inode_putInode_self (rootDin_fits (by omega)), grown]
  case dirents =>
    intro e within
    rw [grown] at within
    have dataBlock : nmeta ≤ nmeta + e * direntSize / bsize := Nat.le_add_right _ _
    rw [putInode_sector (by omega)]
    by_cases last : e = entries.length
    · subst last
      have pick : (entries ++ [(inum, name)])[entries.length] = (inum, name) := by simp
      rw [putEntry_dirent_self fourteen, pick, Nat.mod_eq_of_lt small]
    · have before : e < entries.length := by omega
      rw [putEntry_dirent_other before]
      exact (dirents e before).trans (by rw [List.getElem_append_left before])
  case others =>
    intro j notRoot few
    obtain ⟨_, jHigh⟩ := iblock_bounds few
    rw [inode_putInode_other (Ne.symm notRoot), putEntry, inode_wsect (by omega), inode_freeblock]

theorem Laid.addFile (laid : st.Laid entries) (few : entries.length + 1 < ninodes)
    (host : List UInt8 → Option (List UInt8)) (path : CString) (slashFree : 47 ∉ dropUser path.bytes)
    (empty : host path.bytes = some []) :
    ∃ st', st.addFile host rootino path = .ok st' ∧ st'.Laid (entries ++ [fileEntry entries.length path]) := by
  obtain ⟨rooted, dots, freeinode, files⟩ := laid
  obtain ⟨_, inodeHigh⟩ := iblock_bounds (show entries.length < ninodes by omega)
  have metaSmall : nmeta < fssize := by decide
  have notRoot : entries.length ≠ rootino := by simp only [rootino]; omega
  have alloc : st.ialloc tFile =
      .ok (entries.length, { st with freeinode := entries.length + 1 }.putInode entries.length (newDin tFile)) := by
    rw [ialloc_of_lt (by rw [rooted.length, freeinode]; omega), freeinode]
    rfl
  have allocated := (rooted.freeinode (entries.length + 1)).putInode notRoot (by omega) (newDin tFile)
  obtain ⟨st', append, rooted', kept, others⟩ := allocated.append
    (by simp only [rootCapacity, ninodes, ndirect, bsize, direntSize] at few ⊢; omega)
    (show entries.length < 65536 by simp only [ninodes] at few; omega)
    (strncpy_length (dropUnderscore (dropUser path.bytes)) dirsiz)
  have grown : (entries ++ [fileEntry entries.length path]).length = entries.length + 1 := by
    rw [List.length_append, List.length_singleton]
  refine ⟨st', ?_, rooted', by rw [grown]; omega, by rw [kept, grown]; rfl, ?_⟩
  · unfold State.addFile
    simp only [if_neg slashFree, empty, bind, Except.bind, alloc, append, chunks_nil, State.appendChunks]
  · intro j low high
    rw [grown] at high
    rw [others j (by simp only [rootino]; omega) (by omega)]
    by_cases last : j = entries.length
    · rw [last, inode_putInode_self (newDin_fits (by decide))]
    · rw [inode_putInode_other (Ne.symm last), inode_freeinode, files j low (by omega)]

end State

end Xv6.Mkfs
