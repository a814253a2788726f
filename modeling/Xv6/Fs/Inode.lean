import Xv6.Fs.Layout
import Xv6.Fs.Log

/-! The block and inode layers of `fs.c`: `bzero`, `balloc`, `ialloc`, `iget`,
`ilock`, `idup`, `iput`, `bmap`, `readi`, `iupdate`, `writei` and `dirlookup`, on one device. A block is what
`bread` returns: the buffer cache's copy, which every later `bread` sees, so the
cache is the blocks here (its replacement is `Xv6.Fs.Bio`'s concern).
`log_write` is `Xv6.Fs.Log`'s, with its two panics. A `panic` is an error with
its message; the loops run on fuel, and running out of it is the error
`"fuel"`, which enough fuel never gives. -/

namespace Xv6.Fs

open Xv6.Lib

/-- An inode cache entry, `struct inode`: the fields `ilock` copies from the
disk are kept as a `Dinode`. -/
structure Inode where
  dev : Nat
  inum : Nat
  ref : Nat
  valid : Bool
  din : Dinode

/-- The file system of the kernel: the blocks as `bread` returns them, the log,
the inode cache and the superblock `fsinit` read. -/
structure FsState where
  blocks : Nat → Block
  log : Log
  icache : Fin ninode → Inode
  sb : Superblock

namespace FsState

variable {s s' : FsState}

def setBlock (s : FsState) (b : Nat) (blk : Block) : FsState :=
  { s with blocks := Function.update s.blocks b blk }

def setInode (s : FsState) (i : Fin ninode) (ip : Inode) : FsState :=
  { s with icache := Function.update s.icache i ip }

/-- `log_write(bp)` for block `b`, whose buffer the caller has changed. -/
def logWrite (s : FsState) (b : Nat) : Except String FsState := do
  let log ← s.log.logWrite b
  return { s with log }

/-- `bzero(dev, bno)`. -/
def bzero (s : FsState) (bno : Nat) : Except String FsState :=
  (s.setBlock bno fun _ => 0).logWrite bno

/-- The inner loop of `balloc` over bitmap block `blk`, for blocks `b + bi`
below `size`: the first whose bit is clear. -/
@[irreducible] def freeBit (blk : Block) (b size : Nat) : Option Nat :=
  (List.range bpb).find? fun bi => decide (b + bi < size) && !bitSet blk bi

/-- The outer loop of `balloc`, from block `b`, one bitmap block a pass. -/
def ballocLoop (s : FsState) : Nat → Nat → Except String (Nat × FsState)
  | 0, _ => .error "balloc: out of blocks"
  | fuel + 1, b =>
    if b < s.sb.size then
      let bb := bblock b s.sb
      match freeBit (s.blocks bb) b s.sb.size with
      | some bi => do
        let s ← (s.setBlock bb (markBit (s.blocks bb) bi)).logWrite bb
        let s ← s.bzero (b + bi)
        return (b + bi, s)
      | none => ballocLoop s fuel (b + bpb)
    else .error "balloc: out of blocks"

/-- `balloc(dev)`: a zeroed block marked in use. -/
def balloc (s : FsState) : Except String (Nat × FsState) :=
  s.ballocLoop (s.sb.size / bpb + 1) 0

/-- `iget(dev, inum)`: the entry holding the inode, or else the first free
one. -/
def iget (s : FsState) (dev inum : Nat) : Except String (Fin ninode × FsState) :=
  match (List.finRange ninode).find? fun i =>
      decide (0 < (s.icache i).ref) && (s.icache i).dev == dev && (s.icache i).inum == inum with
  | some i => .ok (i, s.setInode i { s.icache i with ref := (s.icache i).ref + 1 })
  | none =>
    match (List.finRange ninode).find? fun i => (s.icache i).ref == 0 with
    | some i => .ok (i, s.setInode i { s.icache i with dev, inum, ref := 1, valid := false })
    | none => .error "iget: no inodes"

/-- The loop of `ialloc` from `inum`: the first inode whose type is `0` is
zeroed, given `type` and cached. -/
def iallocLoop (s : FsState) (dev type : Nat) : Nat → Nat → Except String (Fin ninode × FsState)
  | 0, _ => .error "ialloc: no inodes"
  | fuel + 1, inum =>
    if inum < s.sb.ninodes then
      let bn := iblock inum s.sb
      let blk := s.blocks bn
      if (Dinode.read blk (dinodeOff inum)).type = 0 then do
        let blk := setLE (fillBytes blk (dinodeOff inum) dinodeSize 0) (dinodeOff inum) 2 type
        let s ← (s.setBlock bn blk).logWrite bn
        s.iget dev inum
      else iallocLoop s dev type fuel (inum + 1)
    else .error "ialloc: no inodes"

/-- `ialloc(dev, type)`, from inode 1. -/
def ialloc (s : FsState) (dev type : Nat) : Except String (Fin ninode × FsState) :=
  s.iallocLoop dev type s.sb.ninodes 1

/-- `ilock(ip)`, for the lock's owner: reads the inode from the disk unless
its copy is valid. -/
def ilock (s : FsState) (i : Fin ninode) : Except String FsState :=
  let ip := s.icache i
  if ip.ref < 1 then .error "ilock"
  else if ip.valid then .ok s
  else
    let din := Dinode.read (s.blocks (iblock ip.inum s.sb)) (dinodeOff ip.inum)
    if din.type = 0 then .error "ilock: no type"
    else .ok (s.setInode i { ip with din, valid := true })

/-- `idup(ip)`. -/
def idup (s : FsState) (i : Fin ninode) : FsState :=
  s.setInode i { s.icache i with ref := (s.icache i).ref + 1 }

/-- `iput(ip)`: drops a reference. The last reference to a valid inode with no
links frees it: `itrunc` and `iupdate` clear it on disk, and the cached copy
keeps the cleared fields and is no longer valid. Their block writes through
`log_write` are not modelled. -/
def iput (s : FsState) (i : Fin ninode) : FsState :=
  let ip := s.icache i
  let ip := if ip.ref = 1 ∧ ip.valid = true ∧ ip.din.nlink = 0 then
      { ip with din := { ip.din with type := 0, size := 0, addrs := fun _ => 0 }, valid := false }
    else ip
  s.setInode i { ip with ref := ip.ref - 1 }

/-- `ip->addrs[k] = addr`. -/
def setAddr (s : FsState) (i : Fin ninode) (k addr : Nat) : FsState :=
  s.setInode i { s.icache i with din := { (s.icache i).din with
    addrs := Function.update (s.icache i).din.addrs k addr } }

/-- `bmap(ip, bn)`: the block holding block `bn` of the file, allocated when
there is none yet. -/
def bmap (s : FsState) (i : Fin ninode) (bn : Nat) : Except String (Nat × FsState) :=
  if bn < ndirect then
    let addr := (s.icache i).din.addrs bn
    if addr = 0 then do
      let (addr, s) ← s.balloc
      return (addr, s.setAddr i bn addr)
    else .ok (addr, s)
  else
    let bn := bn - ndirect
    if bn < nindirect then do
      let (ind, s) ← if (s.icache i).din.addrs ndirect = 0 then do
          let (ind, s) ← s.balloc
          pure (ind, s.setAddr i ndirect ind)
        else pure ((s.icache i).din.addrs ndirect, s)
      let addr := getLE (s.blocks ind) (4 * bn) 4
      if addr = 0 then do
        let (addr, s) ← s.balloc
        let s ← (s.setBlock ind (setLE (s.blocks ind) (4 * bn) 4 addr)).logWrite ind
        return (addr, s)
      else .ok (addr, s)
    else .error "bmap: out of range"

/-- The loop of `readi`: `left` bytes from `off`, a block at a time. -/
def readLoop : Nat → FsState → Fin ninode → Nat → Nat → List UInt8 →
    Except String (List UInt8 × FsState)
  | 0, _, _, _, _, _ => .error "fuel"
  | fuel + 1, s, i, off, left, got =>
    if left = 0 then .ok (got, s)
    else do
      let (addr, s) ← s.bmap i (off / bsize)
      let m := min left (bsize - off % bsize)
      readLoop fuel s i (off + m) (left - m) (got ++ bytesAt (s.blocks addr) (off % bsize) m)

/-- `readi(ip, user_dst, dst, off, n)`: the bytes copied, or `none` for `-1`;
its offsets are `uint`s, so `off + n` past `2^32` is the overflow it tests.
Every copy succeeds here. -/
def readi (s : FsState) (i : Fin ninode) (off n : Nat) : Except String (Option (List UInt8) × FsState) :=
  let size := (s.icache i).din.size
  if off > size ∨ off + n ≥ 2 ^ 32 then .ok (none, s)
  else
    let n := if off + n > size then size - off else n
    (s.readLoop (n + 1) i off n []).map fun (got, s) => (some got, s)

/-- `iupdate(ip)`: the cached inode is stored into its block, which is
logged. -/
def iupdate (s : FsState) (i : Fin ninode) : Except String FsState :=
  let ip := s.icache i
  let bn := iblock ip.inum s.sb
  (s.setBlock bn (ip.din.write (s.blocks bn) (dinodeOff ip.inum))).logWrite bn

/-- `ip->size = size`. -/
def setSize (s : FsState) (i : Fin ninode) (size : Nat) : FsState :=
  s.setInode i { s.icache i with din := { (s.icache i).din with size } }

/-- What `either_copyin` moves of the `m` bytes from byte `p` of the source
`src` (`none` where a byte cannot be read): page by page, so the bytes before
the first that cannot be read. -/
def copyinPrefix (src : Nat → Option UInt8) (p : Nat) : Nat → List UInt8
  | 0 => []
  | m + 1 =>
    match src p with
    | some b => b :: copyinPrefix src (p + 1) m
    | none => []

/-- The loop of `writei` from byte `tot` of `n`, at file offset `off`: the
offset it stops at. A copy that fails leaves the bytes it moved in the buffer,
not logged, and breaks out of the loop. -/
def writeLoop (src : Nat → Option UInt8) : Nat → FsState → Fin ninode → Nat → Nat → Nat →
    Except String (Nat × FsState)
  | 0, _, _, _, _, _ => .error "fuel"
  | fuel + 1, s, i, tot, off, n =>
    if tot < n then do
      let (addr, s) ← s.bmap i (off / bsize)
      let m := min (n - tot) (bsize - off % bsize)
      let bytes := copyinPrefix src tot m
      let s := s.setBlock addr (copyBytes (s.blocks addr) (off % bsize) (fun k => bytes.getD k 0) 0 bytes.length)
      if bytes.length < m then .ok (off, s)
      else do
        let s ← s.logWrite addr
        writeLoop src fuel s i (tot + m) (off + m) n
    else .ok (off, s)

/-- `writei(ip, user_src, src, off, n)`: `n`, or `-1` for an offset past the
size, a `uint` sum that wraps, or an end past `MAXFILE` blocks. -/
def writei (s : FsState) (i : Fin ninode) (src : Nat → Option UInt8) (off n : Nat) :
    Except String (Int × FsState) :=
  if off > (s.icache i).din.size ∨ off + n ≥ 2 ^ 32 then .ok (-1, s)
  else if off + n > maxfile * bsize then .ok (-1, s)
  else do
    let (off, s) ← s.writeLoop src (n + 1) i 0 off n
    if n > 0 then
      let s := if off > (s.icache i).din.size then s.setSize i off else s
      let s ← s.iupdate i
      return (n, s)
    else return (n, s)

/-- The loop of `dirlookup` over the entries from `off`. -/
def dirLoop : Nat → FsState → Fin ninode → List UInt8 → Nat →
    Except String (Option (Fin ninode × Nat) × FsState)
  | 0, _, _, _, _ => .error "fuel"
  | fuel + 1, s, dp, name, off =>
    if off < (s.icache dp).din.size then do
      let (bytes, s) ← s.readi dp off direntSize
      match bytes with
      | some bytes =>
        if bytes.length ≠ direntSize then .error "dirlookup read"
        else
          let de := Dirent.read (fun j => bytes.getD j 0) 0
          if de.inum = 0 then dirLoop fuel s dp name (off + direntSize)
          else if namecmp name de.name = 0 then do
            let (ip, s) ← s.iget (s.icache dp).dev de.inum
            return (some (ip, off), s)
          else dirLoop fuel s dp name (off + direntSize)
      | none => .error "dirlookup read"
    else .ok (none, s)

/-- `dirlookup(dp, name, &poff)`: the cached inode of the entry named `name`
and the entry's offset, or none. -/
def dirlookup (s : FsState) (dp : Fin ninode) (name : List UInt8) :
    Except String (Option (Fin ninode × Nat) × FsState) :=
  if (s.icache dp).din.type ≠ tDir then .error "dirlookup not DIR"
  else s.dirLoop ((s.icache dp).din.size / direntSize + 2) dp name 0

end FsState

end Xv6.Fs
