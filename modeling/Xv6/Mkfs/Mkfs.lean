import Xv6.Fs.Layout

/-! `mkfs/mkfs.c`, the host program that writes the first image of the file
system. It zeroes `FSSIZE` sectors, writes the superblock, makes the root
directory with `.` and `..`, and for each input file allocates an inode, adds a
root entry under its short name and appends the file's bytes with `iappend`,
its own block map beside the kernel's `bmap`. Last it rounds the root's size up
and writes the bitmap of the blocks used.

The image file starts empty (`O_TRUNC`): a write past its end extends it, and
a read past its end is short, on which `mkfs` exits. The counters `freeinode`
and `freeblock` are `uint`s that never come near `2^32`: every new block is read
before it is written, which fails past the image's `FSSIZE` sectors. -/

namespace Xv6.Mkfs

open Xv6.Lib Xv6.Fs

/-- `NINODES`: the inodes `mkfs` declares in the superblock. -/
def ninodes : Nat := 200

def nbitmap : Nat := fssize / (bsize * 8) + 1

def ninodeblocks : Nat := ninodes / ipb + 1

def nlog : Nat := logSize

/-- `nmeta`: the boot block, the superblock, the log, the inode blocks and the
bitmap. -/
def nmeta : Nat := 2 + nlog + ninodeblocks + nbitmap

def nblocks : Nat := fssize - nmeta

/-- The superblock `main` writes to block 1. -/
def sb : Superblock where
  magic := fsmagic
  size := fssize
  nblocks := nblocks
  ninodes := ninodes
  nlog := nlog
  logstart := 2
  inodestart := 2 + nlog
  bmapstart := 2 + nlog + ninodeblocks

/-- Why `mkfs` stops early: `perror` and `exit(1)`, or a failed `assert`. -/
inductive Stop
  /-- `rsect` read past the image's end: `perror("read")`. -/
  | read
  /-- An input file does not open: `perror(argv[i])`. -/
  | noFile (path : List UInt8)
  /-- `assert(rootino == ROOTINO)`. -/
  | rootino
  /-- `assert(index(shortname, '/') == 0)`. -/
  | slash
  /-- `assert(fbn < MAXFILE)`. -/
  | maxfile
  /-- `assert(used < BSIZE*8)`. -/
  | bitmap
  deriving DecidableEq, Repr

/-- The image file `fsfd`, `length` sectors long, with the globals `freeinode`
and `freeblock`. -/
structure State where
  sector : Nat → Block
  length : Nat
  freeinode : Nat
  freeblock : Nat

/-- `zeroes`. -/
def zeroes : Block := fun _ => 0

/-- `"user/"`. -/
def userDir : List UInt8 := [117, 115, 101, 114, 47]

/-- The names `strcpy` gives `.` and `..`. -/
def dot : List UInt8 := [46]

def dotdot : List UInt8 := [46, 46]

/-- The 16 bytes of a `struct dirent` with `de.inum = xshort(inum)` and the
`DIRSIZ` bytes `name`. -/
def direntBytes (inum : Nat) (name : List UInt8) : List UInt8 :=
  UInt8.ofNat inum :: UInt8.ofNat (inum / 256) :: name

/-- `din.addrs[k] = addr`. -/
def setAddr (din : Dinode) (k addr : Nat) : Dinode :=
  { din with addrs := Function.update din.addrs k addr }

/-- The bitmap `balloc(used)` builds: bits `0 .. used - 1` set, in order. -/
def usedBitmap : Nat → Block
  | 0 => zeroes
  | i + 1 => markBit (usedBitmap i) i

/-- The pieces `read(fd, buf, sizeof(buf))` returns, in turn, for a file of
bytes `bytes`. -/
def chunks (bytes : List UInt8) : List (List UInt8) :=
  if _ : bytes = [] then [] else bytes.take bsize :: chunks (bytes.drop bsize)
termination_by bytes.length
decreasing_by
  have positive : 0 < bsize := by decide
  have nonempty : 0 < bytes.length := List.length_pos_iff.mpr (by assumption)
  simp only [List.length_drop]
  omega

@[simp] theorem chunks_nil : chunks [] = [] := by
  rw [chunks, dif_pos rfl]

/-- `shortname` without a leading `user/`, as `main` tests it with `strncmp`. -/
def dropUser (path : List UInt8) : List UInt8 :=
  if strncmp path userDir 5 = 0 then path.drop 5 else path

/-- `shortname` without a leading `_` (byte 95). -/
def dropUnderscore (name : List UInt8) : List UInt8 :=
  if name.headD 0 = 95 then name.drop 1 else name

namespace State

variable {st : State} {sec b : Nat} {buf : Block}

/-- `wsect(sec, buf)`. -/
def wsect (st : State) (sec : Nat) (buf : Block) : State :=
  { st with sector := Function.update st.sector sec buf, length := max st.length (sec + 1) }

@[simp] theorem wsect_sector_self : (st.wsect sec buf).sector sec = buf :=
  Function.update_self _ _ _

@[simp] theorem wsect_sector_of_ne (other : b ≠ sec) : (st.wsect sec buf).sector b = st.sector b :=
  Function.update_of_ne other _ _

@[simp] theorem wsect_length : (st.wsect sec buf).length = max st.length (sec + 1) := rfl

@[simp] theorem wsect_freeinode : (st.wsect sec buf).freeinode = st.freeinode := rfl

@[simp] theorem wsect_freeblock : (st.wsect sec buf).freeblock = st.freeblock := rfl

/-- `rsect(sec, buf)`. -/
def rsect (st : State) (sec : Nat) : Except Stop Block :=
  if sec < st.length then .ok (st.sector sec) else .error .read

theorem rsect_of_lt (within : sec < st.length) : st.rsect sec = .ok (st.sector sec) :=
  if_pos within

/-- `winode(inum, ip)`: the inode's block, read, with `*dip = *ip`, written. -/
def winode (st : State) (inum : Nat) (din : Dinode) : Except Stop State := do
  let bn := iblock inum sb
  let buf ← st.rsect bn
  return st.wsect bn (din.write buf (dinodeOff inum))

/-- `rinode(inum, ip)`. -/
def rinode (st : State) (inum : Nat) : Except Stop Dinode := do
  let buf ← st.rsect (iblock inum sb)
  return Dinode.read buf (dinodeOff inum)

/-- The image once `winode(inum, ip)` has written `din`. -/
def putInode (st : State) (inum : Nat) (din : Dinode) : State :=
  st.wsect (iblock inum sb) (din.write (st.sector (iblock inum sb)) (dinodeOff inum))

theorem winode_of_lt {inum : Nat} {din : Dinode} (within : iblock inum sb < st.length) :
    st.winode inum din = .ok (st.putInode inum din) := by
  simp only [winode, rsect_of_lt within]
  rfl

theorem rinode_of_lt {inum : Nat} (within : iblock inum sb < st.length) :
    st.rinode inum = .ok (Dinode.read (st.sector (iblock inum sb)) (dinodeOff inum)) := by
  simp only [rinode, rsect_of_lt within]
  rfl

/-- `ialloc(type)`: the next inode number, written as an empty inode of that
type with one link. -/
def ialloc (st : State) (type : Nat) : Except Stop (Nat × State) := do
  let inum := st.freeinode
  let st ← { st with freeinode := inum + 1 }.winode inum { Dinode.zero with type, nlink := 1, size := 0 }
  return (inum, st)

theorem ialloc_of_lt {type : Nat} (within : iblock st.freeinode sb < st.length) :
    st.ialloc type = .ok (st.freeinode,
      { st with freeinode := st.freeinode + 1 }.putInode st.freeinode { Dinode.zero with type, nlink := 1, size := 0 }) := by
  simp only [ialloc, winode_of_lt (show iblock st.freeinode sb < { st with freeinode := st.freeinode + 1 }.length
    from within)]
  rfl

/-- `balloc(used)`: the bitmap block marking the first `used` blocks. -/
def balloc (st : State) (used : Nat) : Except Stop State :=
  if used < bsize * 8 then .ok (st.wsect sb.bmapstart (usedBitmap used))
  else .error .bitmap

/-- The block `x` of `iappend`'s loop for file block `fbn`, taken from
`freeblock` where the inode, or for `fbn ≥ NDIRECT` its indirect block, has
none yet; a new indirect entry is written back at once. -/
def blockFor (st : State) (din : Dinode) (fbn : Nat) : Except Stop (Nat × State × Dinode) :=
  if fbn < ndirect then
    if din.addrs fbn = 0 then
      .ok (st.freeblock, { st with freeblock := st.freeblock + 1 }, setAddr din fbn st.freeblock)
    else .ok (din.addrs fbn, st, din)
  else do
    let (st, din) := if din.addrs ndirect = 0 then
        ({ st with freeblock := st.freeblock + 1 }, setAddr din ndirect st.freeblock)
      else (st, din)
    let ind := din.addrs ndirect
    let indirect ← st.rsect ind
    let k := fbn - ndirect
    if getLE indirect (4 * k) 4 = 0 then
      let x := st.freeblock
      .ok (x, { st with freeblock := x + 1 }.wsect ind (setLE indirect (4 * k) 4 x), din)
    else .ok (getLE indirect (4 * k) 4, st, din)

/-- The loop of `iappend(inum, p, n)`, from the inode's offset `off`: each
pass fills the rest of one block. -/
def appendLoop (st : State) (din : Dinode) (off : Nat) (p : List UInt8) :
    Except Stop (State × Dinode × Nat) :=
  if _ : p = [] then .ok (st, din, off)
  else
    let fbn := off / bsize
    if fbn < maxfile then do
      let (x, st, din) ← st.blockFor din fbn
      let n1 := min p.length ((fbn + 1) * bsize - off)
      let buf ← st.rsect x
      let buf := copyBytes buf (off - fbn * bsize) (fun i => p.getD i 0) 0 n1
      appendLoop (st.wsect x buf) din (off + n1) (p.drop n1)
    else .error .maxfile
termination_by p.length
decreasing_by
  have nonempty : 0 < p.length := List.length_pos_iff.mpr (by assumption)
  simp only [List.length_drop, bsize]
  omega

/-- `iappend(inum, p, n)`. -/
def iappend (st : State) (inum : Nat) (p : List UInt8) : Except Stop State := do
  let din ← st.rinode inum
  let (st, din, off) ← st.appendLoop din din.size p
  st.winode inum { din with size := off }

/-- `while((cc = read(fd, buf, sizeof(buf))) > 0) iappend(inum, buf, cc)`. -/
def appendChunks (st : State) (inum : Nat) : List (List UInt8) → Except Stop State
  | [] => .ok st
  | piece :: rest => do
    let st ← st.iappend inum piece
    appendChunks st inum rest

/-- One pass of `main`'s loop over `argv[2..]`: `host` gives the bytes of the
file at a path, or `none` where `open` fails. -/
def addFile (host : List UInt8 → Option (List UInt8)) (rootino : Nat) (st : State) (path : CString) :
    Except Stop State :=
  let shortname := dropUser path.bytes
  if 47 ∈ shortname then .error .slash
  else
    match host path.bytes with
    | none => .error (.noFile path.bytes)
    | some bytes => do
      let (inum, st) ← st.ialloc tFile
      let st ← st.iappend rootino (direntBytes inum (strncpy (dropUnderscore shortname) dirsiz))
      st.appendChunks inum (chunks bytes)

def addFiles (host : List UInt8 → Option (List UInt8)) (rootino : Nat) :
    State → List CString → Except Stop State
  | st, [] => .ok st
  | st, path :: rest => do
    let st ← st.addFile host rootino path
    addFiles host rootino st rest

/-- `for(i = 0; i < FSSIZE; i++) wsect(i, zeroes)`, for the first `n`. -/
def zeroSectors (st : State) : Nat → State
  | 0 => st
  | i + 1 => (st.zeroSectors i).wsect i zeroes

end State

/-- The state `main` starts from: the empty image file, `freeinode = 1` and
`freeblock = nmeta`. -/
def start : State :=
  { sector := fun _ => zeroes, length := 0, freeinode := 1, freeblock := nmeta }

/-- `main(argc, argv)` with `argv[2..] = args`: the image, or why it stops.
`strcpy` of `.` and `..` into the zeroed `de.name` is `strncpy` of them. -/
def main (host : List UInt8 → Option (List UInt8)) (args : List CString) : Except Stop State := do
  let st := (start.zeroSectors fssize).wsect 1 (sb.write zeroes)
  let (rootino, st) ← st.ialloc tDir
  if rootino ≠ Fs.rootino then throw Stop.rootino
  let st ← st.iappend rootino (direntBytes rootino (strncpy dot dirsiz))
  let st ← st.iappend rootino (direntBytes rootino (strncpy dotdot dirsiz))
  let st ← st.addFiles host rootino args
  let din ← st.rinode rootino
  let off := (din.size / bsize + 1) * bsize % 2 ^ 32
  let st ← st.winode rootino { din with size := off }
  st.balloc st.freeblock

end Xv6.Mkfs
