import Xv6.Mkfs.Image

/-! `main` run to its end on input files that are all empty. It zeroes the
image, makes the root directory with `.` and `..`, adds each file's inode and
entry (the step `State.Laid.addFile`), fixes the root's size and writes the
bitmap: the image it leaves is `State.Made`. -/

namespace Xv6.Mkfs

open Xv6.Lib Xv6.Fs

/-- The root's entries `main` writes first. -/
def dotEntries : List (Nat × List UInt8) := [(rootino, strncpy dot dirsiz), (rootino, strncpy dotdot dirsiz)]

/-- What `main` leaves when every file is empty: the layout of `State.Laid`,
with the root's size rounded up to the next block boundary and the bitmap
marking the first `freeblock` blocks. -/
structure State.Made (st : State) (entries : List (Nat × List UInt8)) : Prop where
  length : st.length = fssize
  super : st.sector 1 = sb.write zeroes
  header : st.sector sb.logstart = zeroes
  root : st.inode rootino =
    { rootDin entries.length with size := (entries.length * direntSize / bsize + 1) * bsize }
  files : ∀ j, 2 ≤ j → j < entries.length → st.inode j = newDin tFile
  dirents : ∀ e (h : e < entries.length),
    Dirent.read (st.sector (nmeta + e * direntSize / bsize)) (e * direntSize % bsize) =
      { inum := entries[e].1, name := entries[e].2 }
  bitmap : st.sector sb.bmapstart = usedBitmap (nmeta + rootBlocks entries.length)

theorem zeroSectors_start (n : Nat) : start.zeroSectors n = { start with length := n } := by
  induction n with
  | zero => rfl
  | succ n ih =>
    rw [State.zeroSectors, ih]
    simp only [State.wsect, start, Function.update_eq_self]
    congr 1
    omega

theorem rootDin_zero : rootDin 0 = newDin tDir :=
  Dinode.ext rfl rfl rfl rfl rfl (funext fun k =>
    show (if k < rootBlocks 0 then nmeta + k else 0) = 0 from if_neg (Nat.not_lt_zero k))

/-- The image once `main` has zeroed its `FSSIZE` sectors and written the
superblock. -/
def zeroed : State := { start with length := fssize }.wsect 1 (sb.write zeroes)

/-- `zeroed` with the root inode `ialloc(T_DIR)` writes. -/
def rooted : State := { zeroed with freeinode := rootino + 1 }.putInode rootino (newDin tDir)

theorem rooted_rooted : rooted.Rooted [] where
  length := by decide
  super := by
    rw [rooted, State.putInode_sector (by decide)]
    show zeroed.sector 1 = _
    exact State.wsect_sector_self
  header := by
    rw [show sb.logstart = 2 from rfl, rooted, State.putInode_sector (by decide), zeroed,
      State.wsect_sector_of_ne (by decide)]
    rfl
  freeblock := rfl
  root := by
    rw [rooted, State.inode_putInode_self (newDin_fits (by decide)), ← rootDin_zero]
    rfl
  dirents e h := absurd h (Nat.not_lt_zero e)

theorem main_dotted : ∃ st : State, st.Laid dotEntries ∧ ∀ host args, main host args = (do
      let st ← st.addFiles host rootino args
      let din ← st.rinode rootino
      let st ← st.winode rootino { din with size := (din.size / bsize + 1) * bsize % 2 ^ 32 }
      st.balloc st.freeblock) := by
  have alloc : zeroed.ialloc tDir = .ok (rootino, rooted) := State.ialloc_of_lt (by decide)
  obtain ⟨st1, append1, rooted1, free1, -⟩ := rooted_rooted.append (by decide) (show rootino < 65536 by decide)
    (strncpy_length dot dirsiz)
  obtain ⟨st2, append2, rooted2, free2, -⟩ := rooted1.append (by decide) (show rootino < 65536 by decide)
    (strncpy_length dotdot dirsiz)
  refine ⟨st2, ⟨rooted2, le_refl 2, by rw [free2, free1]; rfl, fun j low high => absurd high (by rw [show dotEntries.length = 2 from rfl]; omega)⟩, ?_⟩
  intro host args
  simp only [main, zeroSectors_start]
  rw [show ({ start with length := fssize } : State).wsect 1 (sb.write zeroes) = zeroed from rfl]
  simp only [alloc, bind, Except.bind, ne_eq, not_true_eq_false, if_false, append1, append2]

namespace State

variable {st : State} {entries : List (Nat × List UInt8)}

theorem Laid.addFiles (host : List UInt8 → Option (List UInt8)) :
    ∀ (args : List CString) {st : State} {entries : List (Nat × List UInt8)}, st.Laid entries →
      entries.length + args.length < ninodes → (∀ a ∈ args, 47 ∉ dropUser a.bytes ∧ host a.bytes = some []) →
      ∃ st', st.addFiles host rootino args = .ok st' ∧
        st'.Laid (entries ++ args.mapIdx fun j a => fileEntry (j + entries.length) a)
  | [], st, entries, laid, _, _ => ⟨st, rfl, by rw [List.mapIdx_nil, List.append_nil]; exact laid⟩
  | a :: rest, st, entries, laid, few, plain => by
    obtain ⟨slashFree, empty⟩ := plain a List.mem_cons_self
    rw [List.length_cons] at few
    obtain ⟨st1, added, laid1⟩ := laid.addFile (by omega) host a slashFree empty
    obtain ⟨st2, run, laid2⟩ := Laid.addFiles host rest laid1
      (by rw [List.length_append, List.length_singleton]; omega) fun b mem => plain b (List.mem_cons_of_mem a mem)
    have entries2 : entries ++ (a :: rest).mapIdx (fun j b => fileEntry (j + entries.length) b) =
        entries ++ [fileEntry entries.length a] ++
          rest.mapIdx fun j b => fileEntry (j + (entries ++ [fileEntry entries.length a]).length) b := by
      simp only [List.mapIdx_cons, List.length_append, List.length_singleton, List.append_assoc,
        List.singleton_append, Nat.zero_add]
      congr 3
      funext j b
      rw [Nat.add_assoc, Nat.add_comm 1]
    refine ⟨st2, ?_, by rw [entries2]; exact laid2⟩
    simp only [State.addFiles, added, bind, Except.bind, run]

theorem Laid.finish (laid : st.Laid entries) (few : entries.length < ninodes) :
    ∃ img, (do
      let din ← st.rinode rootino
      let st ← st.winode rootino { din with size := (din.size / bsize + 1) * bsize % 2 ^ 32 }
      st.balloc st.freeblock) = .ok img ∧ img.Made entries := by
  obtain ⟨⟨length, super, header, freeblock, root, dirents⟩, dots, freeinode, files⟩ := laid
  have roomy : entries.length ≤ rootCapacity := by
    simp only [ninodes, rootCapacity, ndirect, bsize, direntSize] at few ⊢
    omega
  have rounded : (entries.length * direntSize / bsize + 1) * bsize % 2 ^ 32 =
      (entries.length * direntSize / bsize + 1) * bsize :=
    Nat.mod_eq_of_lt (by simp only [rootCapacity, ndirect, bsize, direntSize] at roomy ⊢; omega)
  have used := (rootBlocks_used roomy).2
  have fits : ({ rootDin entries.length with size := (entries.length * direntSize / bsize + 1) * bsize }).Fits :=
    { rootDin_fits roomy with
      size := by simp only [rootCapacity, ndirect, bsize, direntSize] at roomy ⊢; omega }
  have read : st.rinode rootino = .ok (rootDin entries.length) := by
    rw [rinode_of_lt (by rw [length]; decide), ← root]
    rfl
  have write : st.winode rootino { rootDin entries.length with size := (entries.length * direntSize / bsize + 1) * bsize } =
      .ok (st.putInode rootino { rootDin entries.length with
        size := (entries.length * direntSize / bsize + 1) * bsize }) :=
    winode_of_lt (by rw [length]; decide)
  have bitmapBlock : sb.bmapstart + 1 = nmeta := rfl
  refine ⟨(st.putInode rootino { rootDin entries.length with
    size := (entries.length * direntSize / bsize + 1) * bsize }).wsect sb.bmapstart
      (usedBitmap (nmeta + rootBlocks entries.length)), ?_, ?_⟩
  · simp only [read, bind, Except.bind, rootDin_size, rounded, write, balloc, putInode_freeblock, freeblock,
      if_pos used]
  refine ⟨?length, ?super, ?header, ?root, ?files, ?dirents, wsect_sector_self⟩
  case length =>
    simp only [wsect_length, putInode_length, length]
    decide
  case super =>
    rw [wsect_sector_of_ne (by decide), putInode_sector (by decide)]
    exact super
  case header =>
    rw [show sb.logstart = 2 from rfl, wsect_sector_of_ne (by decide), putInode_sector (by decide)]
    exact header
  case root =>
    rw [inode_wsect (by decide), inode_putInode_self fits]
  case files =>
    intro j low high
    obtain ⟨_, jHigh⟩ := iblock_bounds (show j < ninodes by omega)
    rw [inode_wsect (by omega), inode_putInode_other (by simp only [rootino]; omega), files j low high]
  case dirents =>
    intro e within
    obtain ⟨rootLow, rootHigh⟩ := iblock_bounds (show rootino < ninodes by decide)
    have dataBlock : nmeta ≤ nmeta + e * direntSize / bsize := Nat.le_add_right _ _
    rw [wsect_sector_of_ne (by omega), putInode_sector (by omega)]
    exact dirents e within

end State

theorem main_empty (host : List UInt8 → Option (List UInt8)) (args : List CString) (few : args.length + 2 < ninodes)
    (plain : ∀ a ∈ args, 47 ∉ dropUser a.bytes ∧ host a.bytes = some []) :
    ∃ img, main host args = .ok img ∧ img.Made (rootEntries args) := by
  obtain ⟨st, laid, unfolded⟩ := main_dotted
  obtain ⟨st', run, laid'⟩ := laid.addFiles host args (by rw [show dotEntries.length = 2 from rfl]; omega) plain
  have entries : dotEntries ++ args.mapIdx (fun j a => fileEntry (j + dotEntries.length) a) = rootEntries args := rfl
  rw [entries] at laid'
  obtain ⟨img, finish, made⟩ := laid'.finish (by
    rw [rootEntries, List.length_append, List.length_mapIdx, show [(rootino, strncpy dot dirsiz),
      (rootino, strncpy dotdot dirsiz)].length = 2 from rfl]
    omega)
  refine ⟨img, ?_, made⟩
  rw [unfolded]
  simp only [run, bind, Except.bind]
  exact finish

end Xv6.Mkfs
