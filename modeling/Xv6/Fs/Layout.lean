import Xv6.Lib.Bytes
import Xv6.String
import Xv6.Param

/-! The on-disk format of `fs.h`, as the kernel and `mkfs` both read and write
it: blocks of `BSIZE` bytes; the superblock in block 1; the inodes, `IPB` to a
block from `inodestart`, each a 64-byte `struct dinode`; the bitmap from
`bmapstart`, one bit per block; and directories, files of 16-byte `struct
dirent`s. Numbers are little-endian, as RISC-V stores them and as `mkfs`'s
`xint` and `xshort` write them on any host. -/

namespace Xv6.Fs

open Xv6.Lib

/-- `BSIZE`. -/
def bsize : Nat := 1024

/-- `NDIRECT`, `NINDIRECT` and `MAXFILE`. -/
def ndirect : Nat := 12

def nindirect : Nat := bsize / 4

def maxfile : Nat := ndirect + nindirect

/-- `sizeof(struct dinode)`. -/
def dinodeSize : Nat := 64

/-- `IPB`: inodes per block. -/
def ipb : Nat := bsize / dinodeSize

/-- `BPB`: bitmap bits per block. -/
def bpb : Nat := bsize * 8

/-- `DIRSIZ` and `sizeof(struct dirent)`. -/
def dirsiz : Nat := 14

def direntSize : Nat := 16

/-- `ROOTINO` and `FSMAGIC`. -/
def rootino : Nat := 1

def fsmagic : Nat := 0x10203040

/-- `T_DIR`, `T_FILE` and `T_DEVICE` of `stat.h`. -/
def tDir : Nat := 1

def tFile : Nat := 2

def tDevice : Nat := 3

/-- The `BSIZE` bytes of a block, at offsets below `bsize`. -/
abbrev Block := Mem

/-- `struct superblock`. -/
structure Superblock where
  magic : Nat
  size : Nat
  nblocks : Nat
  ninodes : Nat
  nlog : Nat
  logstart : Nat
  inodestart : Nat
  bmapstart : Nat
  deriving DecidableEq, Repr

namespace Superblock

/-- The superblock at the start of a block, as `readsb` copies it out. -/
def read (b : Block) : Superblock where
  magic := getLE b 0 4
  size := getLE b 4 4
  nblocks := getLE b 8 4
  ninodes := getLE b 12 4
  nlog := getLE b 16 4
  logstart := getLE b 20 4
  inodestart := getLE b 24 4
  bmapstart := getLE b 28 4

/-- `memmove(buf, &sb, sizeof(sb))`. -/
def write (sb : Superblock) (b : Block) : Block :=
  setArray b 0 4 (fun k => [sb.magic, sb.size, sb.nblocks, sb.ninodes, sb.nlog, sb.logstart,
    sb.inodestart, sb.bmapstart].getD k 0) 8

end Superblock

/-- `IBLOCK(i, sb)`: the block holding inode `inum`. -/
def iblock (inum : Nat) (sb : Superblock) : Nat :=
  inum / ipb + sb.inodestart

/-- `BBLOCK(b, sb)`: the bitmap block holding block `b`'s bit. -/
def bblock (b : Nat) (sb : Superblock) : Nat :=
  b / bpb + sb.bmapstart

/-- Where inode `inum`'s `struct dinode` starts in its block. -/
def dinodeOff (inum : Nat) : Nat :=
  inum % ipb * dinodeSize

/-- `struct dinode`: the shorts `type`, `major`, `minor`, `nlink`, the `uint`
`size` and `addrs[NDIRECT+1]`. -/
@[ext] structure Dinode where
  type : Nat
  major : Nat
  minor : Nat
  nlink : Nat
  size : Nat
  addrs : Nat → Nat

namespace Dinode

/-- A `bzero`ed `struct dinode`. -/
def zero : Dinode :=
  { type := 0, major := 0, minor := 0, nlink := 0, size := 0, addrs := fun _ => 0 }

/-- The `struct dinode` at `off`; `addrs` past `NDIRECT` reads as `0`. -/
def read (b : Block) (off : Nat) : Dinode where
  type := getLE b off 2
  major := getLE b (off + 2) 2
  minor := getLE b (off + 4) 2
  nlink := getLE b (off + 6) 2
  size := getLE b (off + 8) 4
  addrs := fun k => if k < ndirect + 1 then getLE b (off + 12 + 4 * k) 4 else 0

/-- Stores `d` at `off`, as `*dip = *ip` does. -/
def write (d : Dinode) (b : Block) (off : Nat) : Block :=
  let b := setLE b off 2 d.type
  let b := setLE b (off + 2) 2 d.major
  let b := setLE b (off + 4) 2 d.minor
  let b := setLE b (off + 6) 2 d.nlink
  let b := setLE b (off + 8) 4 d.size
  setArray b (off + 12) 4 d.addrs (ndirect + 1)

end Dinode

/-- Bit `bi % 8` of byte `bi / 8`: whether the bitmap marks block `b + bi`
in use. -/
def bitSet (b : Block) (bi : Nat) : Bool :=
  (b (bi / 8) &&& ((1 : UInt8) <<< UInt8.ofNat (bi % 8))) != 0

/-- `bp->data[bi/8] |= m`: marks the bit in use. -/
def markBit (b : Block) (bi : Nat) : Block :=
  Function.update b (bi / 8) (b (bi / 8) ||| ((1 : UInt8) <<< UInt8.ofNat (bi % 8)))

/-- `struct dirent`: `inum` and the `DIRSIZ` bytes of `name`. -/
structure Dirent where
  inum : Nat
  name : List UInt8
  deriving DecidableEq, Repr

/-- The `struct dirent` at `off`. -/
def Dirent.read (m : Mem) (off : Nat) : Dirent where
  inum := getLE m off 2
  name := bytesAt m (off + 2) dirsiz

/-- `namecmp(s, t)`. -/
def namecmp (s t : List UInt8) : Int :=
  strncmp s t dirsiz

end Xv6.Fs
