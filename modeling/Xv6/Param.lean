import Mathlib

/-! The kernel parameters of `param.h` that the modelled code reads. -/

namespace Xv6

/-- `NPROC`: maximum number of processes. -/
def nproc : Nat := 10

/-- `MAXOPBLOCKS`: the most blocks any FS operation writes. -/
def maxOpBlocks : Nat := 10

/-- `LOGSIZE`: the most data blocks in the on-disk log. -/
def logSize : Nat := maxOpBlocks * 3

/-- `NBUF`: the number of buffers of the disk block cache. -/
def nbuf : Nat := maxOpBlocks * 3

/-- `NFILE`: open files per system. -/
def nfile : Nat := 100

/-- `NOFILE`: open files per process. -/
def nofile : Nat := 16

/-- `NINODE`: maximum number of active i-nodes. -/
def ninode : Nat := 50

/-- `ROOTDEV`: device number of the file system root disk. -/
def rootdev : Nat := 0

/-- `FSSIZE`: size of the file system in blocks. -/
def fssize : Nat := 2000

/-- `MAXARG`: most `exec` arguments. -/
def maxarg : Nat := 32

theorem nproc_pos : 0 < nproc := by decide

theorem one_lt_nproc : 1 < nproc := by decide

theorem ninode_pos : 0 < ninode := by decide

end Xv6
