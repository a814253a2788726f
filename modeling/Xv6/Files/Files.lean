import Xv6.Fs.Mount
import Xv6.Vm.Proc
import Xv6.Lib.Run

/-! The open files of `file.c` and the system calls that make, share and drop
them: `open`, `close`, `dup` and `pipe` of `sysfile.c`, the file and `cwd`
parts of `fork`, `exit` and `wait` in `proc.c`, `chdir`, and the inode `exec`
looks up. A file is shared by the descriptor slots that point to it; an inode
cache entry by the files of type `FD_INODE` or `FD_DEVICE` and the processes
whose `cwd` it is; a pipe by its two files.

The directory contents are not modelled. What `namex` meets on its walk, what
`create` finds in the parent directory and what `ilock` reads of an inode's
type are given with each call; every `iget`, `idup` and `iput` the calls make
on the inode cache is the source's. A pipe's page comes from `kalloc`, which
only returns a page that holds no live pipe. A null pointer that a call uses
stops it as the kernel trap would, with `"kerneltrap"`. -/

namespace Xv6.Files

open Xv6.Lib Xv6.Fs
open Xv6.Vm (ProcState)

/-- `O_RDONLY`, `O_WRONLY`, `O_RDWR` and `O_CREATE` of `fcntl.h`. -/
def oRdonly : Nat := 0x000

def oWronly : Nat := 0x001

def oRdwr : Nat := 0x002

def oCreate : Nat := 0x200

/-- `NDEV`: the number of major device numbers. -/
def ndev : Int := 10

/-- `initproc`, the first process. -/
def initproc : Fin nproc := ⟨0, nproc_pos⟩

/-- The kinds of `struct file`. -/
inductive FdType where
  | none
  | pipe
  | inode
  | device
  deriving DecidableEq, Repr

/-- `struct file`: its `off`, `major` and `minor` are read by none of the
calls here and are left out. -/
structure File where
  type : FdType
  ref : Nat
  readable : Bool
  writable : Bool
  /-- The page of the `struct pipe`, for `FD_PIPE`. -/
  pipe : Nat
  /-- The inode cache entry, for `FD_INODE` and `FD_DEVICE`. -/
  ip : Fin ninode
  deriving DecidableEq

/-- A file table entry as the boot leaves it. -/
def File.zero : File :=
  { type := .none, ref := 0, readable := false, writable := false, pipe := 0, ip := ⟨0, ninode_pos⟩ }

/-- The fields of `struct pipe` that `pipeclose` tests; the ring is
`Xv6.Pipe`'s concern. -/
structure Pipe where
  readopen : Bool
  writeopen : Bool
  deriving DecidableEq

/-- The fields of `struct proc` that the calls here read and write. -/
structure Proc where
  state : ProcState
  ofile : Fin nofile → Option (Fin nfile)
  cwd : Option (Fin ninode)

/-- A slot no process holds. -/
def Proc.unused : Proc := { state := .unused, ofile := fun _ => none, cwd := none }

/-- What `ilock` reads of an inode's type, with the major number of a device. -/
inductive Kind where
  | dir
  | file
  | device (major : Int)
  deriving DecidableEq

/-- A device whose major number has no `devsw` entry. -/
def Kind.badDevice : Kind → Bool
  | .device major => major < 0 || major ≥ ndev
  | _ => false

/-- What `namex` meets: whether the path starts at `/`, the inode number that
`dirlookup` returns for each element it looks up, and whether the walk then
ends with an inode or fails (no entry, an element that is not a directory, or
for `nameiparent` a path with no element). -/
structure Walk where
  fromRoot : Bool
  found : List Nat
  reaches : Bool

/-- What `create` finds in the parent directory: the inode `dirlookup` returns
with its kind, or none, and then the inode number `ialloc` finds free, none
when every inode is in use. -/
inductive Lookup where
  | existing (inum : Nat) (kind : Kind)
  | fresh (inum : Option Nat)

/-- The inode cache (in the file system state), the file table, the pipes
`kalloc` gave pages to, and the process table. -/
structure Sys where
  fs : FsState
  file : Fin nfile → File
  pipes : Nat → Option Pipe
  proc : Fin nproc → Proc

namespace Sys

variable {s : Sys}

def setFile (s : Sys) (f : Fin nfile) (file : File) : Sys :=
  { s with file := Function.update s.file f file }

def setPipe (s : Sys) (pi : Nat) (pipe : Option Pipe) : Sys :=
  { s with pipes := Function.update s.pipes pi pipe }

def setProc (s : Sys) (p : Fin nproc) (proc : Proc) : Sys :=
  { s with proc := Function.update s.proc p proc }

/-- `p->ofile[fd] = f`. -/
def setOfile (s : Sys) (p : Fin nproc) (fd : Fin nofile) (f : Option (Fin nfile)) : Sys :=
  s.setProc p { s.proc p with ofile := Function.update (s.proc p).ofile fd f }

/-- `p->cwd = ip`. -/
def setCwd (s : Sys) (p : Fin nproc) (ip : Option (Fin ninode)) : Sys :=
  s.setProc p { s.proc p with cwd := ip }

def setState (s : Sys) (p : Fin nproc) (state : ProcState) : Sys :=
  s.setProc p { s.proc p with state }

/-- `iput(ip)` on the inode cache. -/
def iput (s : Sys) (ip : Fin ninode) : Sys :=
  { s with fs := s.fs.iput ip }

/-- `iget(dev, inum)` on the inode cache. -/
def iget (s : Sys) (dev inum : Nat) : Except String (Fin ninode × Sys) := do
  let (ip, fs) ← s.fs.iget dev inum
  return (ip, { s with fs })

/-- `filealloc()`: the first file with no reference, now with one. -/
def filealloc (s : Sys) : Option (Fin nfile) × Sys :=
  match (List.finRange nfile).find? fun f => (s.file f).ref == 0 with
  | some f => (some f, s.setFile f { s.file f with ref := 1 })
  | none => (none, s)

/-- `filedup(f)`. -/
def filedup (s : Sys) (f : Fin nfile) : Except String Sys :=
  if (s.file f).ref < 1 then .error "filedup"
  else .ok (s.setFile f { s.file f with ref := (s.file f).ref + 1 })

/-- `pipeclose(pi, writable)`: closes one end and frees the page when both are
closed. A pipe whose page was freed is memory `kfree` gave back; using it is
the use after free the model stops at. -/
def pipeclose (s : Sys) (pi : Nat) (writable : Bool) : Except String Sys :=
  match s.pipes pi with
  | none => .error "pipeclose: freed pipe"
  | some pipe =>
    let pipe := if writable then { pipe with writeopen := false } else { pipe with readopen := false }
    if !pipe.readopen && !pipe.writeopen then .ok (s.setPipe pi none)
    else .ok (s.setPipe pi (some pipe))

/-- `fileclose(f)`: drops a reference; the last one clears the entry and closes
what the copy `ff` of it names. -/
def fileclose (s : Sys) (f : Fin nfile) : Except String Sys :=
  let ff := s.file f
  if ff.ref < 1 then .error "fileclose"
  else if ff.ref - 1 > 0 then .ok (s.setFile f { ff with ref := ff.ref - 1 })
  else
    let s := s.setFile f { ff with ref := 0, type := .none }
    match ff.type with
    | .pipe => s.pipeclose ff.pipe ff.writable
    | .inode | .device => .ok (s.iput ff.ip)
    | .none => .ok s

/-- `fdalloc(f)`: the first free descriptor slot of `p`, now pointing to `f`. -/
def fdalloc (s : Sys) (p : Fin nproc) (f : Fin nfile) : Option (Fin nofile) × Sys :=
  match (List.finRange nofile).find? fun fd => (s.proc p).ofile fd == none with
  | some fd => (some fd, s.setOfile p fd (some f))
  | none => (none, s)

/-- `argfd(n, &fd, &f)`: a descriptor of `p` in range with an open file. -/
def argfd (s : Sys) (p : Fin nproc) (fd : Int) : Option (Fin nofile × Fin nfile) :=
  if inRange : 0 ≤ fd ∧ fd < nofile then
    let fd : Fin nofile := ⟨fd.toNat, by omega⟩
    ((s.proc p).ofile fd).map fun f => (fd, f)
  else none

/-! ### Path names -/

/-- The loop of `namex` over the elements `dirlookup` finds: `iget` of the
next inode, on the device of the current one, then `iunlockput` of the
current one. -/
def walkLoop : Sys → Fin ninode → List Nat → Except String (Fin ninode × Sys)
  | s, ip, [] => .ok (ip, s)
  | s, ip, inum :: rest => do
    let (next, s') ← s.iget (s.fs.icache ip).dev inum
    walkLoop (s'.iput ip) next rest

/-- `namex(path, nameiparent, name)` of process `p`: the inode it ends with,
holding one more reference, or none. -/
def namex (s : Sys) (p : Fin nproc) (w : Walk) : Except String (Option (Fin ninode) × Sys) := do
  let (ip, s) ← if w.fromRoot then s.iget rootdev rootino
    else match (s.proc p).cwd with
      | some cwd => pure (cwd, { s with fs := s.fs.idup cwd })
      | none => throw "kerneltrap"
  let (ip, s) ← walkLoop s ip w.found
  if w.reaches then return (some ip, s) else return (none, s.iput ip)

/-- `create(path, T_FILE, 0, 0)`: the inode, with its kind, holding one more
reference, or none. The entry `dirlink` writes is not modelled. -/
def create (s : Sys) (p : Fin nproc) (w : Walk) (lookup : Lookup) :
    Except String (Option (Fin ninode × Kind) × Sys) := do
  let (dp, s) ← s.namex p w
  let some dp := dp | return (none, s)
  match lookup with
  | .existing inum kind =>
    let (ip, s) ← s.iget (s.fs.icache dp).dev inum
    let s := s.iput dp
    match kind with
    | .file | .device _ => return (some (ip, kind), s)
    | .dir => return (none, s.iput ip)
  | .fresh none => throw "ialloc: no inodes"
  | .fresh (some inum) =>
    let (ip, s) ← s.iget (s.fs.icache dp).dev inum
    return (some (ip, .file), s.iput dp)

/-! ### System calls -/

/-- The inode `sys_open` opens, with its kind: by `create`, or by `namei`
and `ilock`, refusing a directory opened for writing. -/
def openInode (s : Sys) (p : Fin nproc) (omode : Nat) (w : Walk) (lookup : Lookup) (kind : Kind) :
    Except String (Option (Fin ninode × Kind) × Sys) :=
  if omode &&& oCreate ≠ 0 then s.create p w lookup
  else do
    let (ip, s) ← s.namex p w
    match ip with
    | none => return (none, s)
    | some ip =>
      if kind = .dir ∧ omode ≠ oRdonly then return (none, s.iput ip)
      else return (some (ip, kind), s)

/-- `sys_open(path, omode)`: the descriptor, or `-1`. -/
def sysOpen (s : Sys) (p : Fin nproc) (omode : Nat) (w : Walk) (lookup : Lookup) (kind : Kind) :
    Except String (Int × Sys) := do
  let (ip, s) ← s.openInode p omode w lookup kind
  let some (ip, kind) := ip | return (-1, s)
  if kind.badDevice then return (-1, s.iput ip)
  let (f, s) := s.filealloc
  let some f := f | return (-1, s.iput ip)
  let (fd, s') := s.fdalloc p f
  let some fd := fd | do
    let s ← s.fileclose f
    return (-1, s.iput ip)
  let type : FdType := match kind with
    | .device _ => .device
    | _ => .inode
  return (fd, s'.setFile f { s'.file f with
    type, ip, readable := omode &&& oWronly = 0, writable := omode &&& oWronly ≠ 0 ∨ omode &&& oRdwr ≠ 0 })

/-- `sys_close(fd)`. -/
def sysClose (s : Sys) (p : Fin nproc) (fd : Int) : Except String (Int × Sys) :=
  match s.argfd p fd with
  | none => .ok (-1, s)
  | some (fd, f) => do
    let s ← (s.setOfile p fd none).fileclose f
    return (0, s)

/-- `sys_dup(fd)`. -/
def sysDup (s : Sys) (p : Fin nproc) (fd : Int) : Except String (Int × Sys) :=
  match s.argfd p fd with
  | none => .ok (-1, s)
  | some (_, f) =>
    match s.fdalloc p f with
    | (none, s) => .ok (-1, s)
    | (some fd, s) => do
      let s ← s.filedup f
      return (fd, s)

/-- `pipealloc(&f0, &f1)` with the page `kalloc` returns: the read and the
write file, or none after `bad:` closed what it had allocated. -/
def pipealloc (s : Sys) (page : Option Nat) : Except String (Option (Fin nfile × Fin nfile) × Sys) :=
  match s.filealloc with
  | (none, s) => .ok (none, s)
  | (some f0, s) =>
    match s.filealloc with
    | (none, s) => do
      let s ← s.fileclose f0
      return (none, s)
    | (some f1, s) =>
      match page with
      | none => do
        let s ← s.fileclose f0
        let s ← s.fileclose f1
        return (none, s)
      | some pi =>
        let s := s.setPipe pi (some { readopen := true, writeopen := true })
        let s := s.setFile f0 { s.file f0 with type := .pipe, readable := true, writable := false, pipe := pi }
        let s := s.setFile f1 { s.file f1 with type := .pipe, readable := false, writable := true, pipe := pi }
        .ok (some (f0, f1), s)

/-- `sys_pipe(fdarray)`, where `copied` says whether both `copyout`s of the
descriptors succeed. -/
def sysPipe (s : Sys) (p : Fin nproc) (page : Option Nat) (copied : Bool) : Except String (Int × Sys) := do
  let (files, s) ← s.pipealloc page
  let some (rf, wf) := files | return (-1, s)
  match s.fdalloc p rf with
  | (none, s) => do
    let s ← s.fileclose rf
    let s ← s.fileclose wf
    return (-1, s)
  | (some fd0, s) =>
    match s.fdalloc p wf with
    | (none, s) => do
      let s ← (s.setOfile p fd0 none).fileclose rf
      let s ← s.fileclose wf
      return (-1, s)
    | (some fd1, s) =>
      if copied then return (0, s)
      else do
        let s ← ((s.setOfile p fd0 none).setOfile p fd1 none).fileclose rf
        let s ← s.fileclose wf
        return (-1, s)

/-- `sys_chdir(path)`. -/
def sysChdir (s : Sys) (p : Fin nproc) (w : Walk) (kind : Kind) : Except String (Int × Sys) := do
  let (ip, s) ← s.namex p w
  let some ip := ip | return (-1, s)
  if kind ≠ .dir then return (-1, s.iput ip)
  match (s.proc p).cwd with
  | some cwd => return (0, (s.iput cwd).setCwd p (some ip))
  | none => throw "kerneltrap"

/-- The inode side of `exec(path, argv)`: `namei`, and the `iunlockput` that
every path out of `exec` makes once the image is read. Whether `exec`
succeeds is `Xv6.Vm.Kernel.exec`'s concern. -/
def execInode (s : Sys) (p : Fin nproc) (w : Walk) : Except String Sys := do
  let (ip, s) ← s.namex p w
  match ip with
  | some ip => return s.iput ip
  | none => return s

/-- The loop of `fork` over the parent's descriptors, from `fd` on: the child
gets `filedup` of each open file. -/
def dupLoop (p np : Fin nproc) : List (Fin nofile) → Sys → Except String Sys
  | [], s => .ok s
  | fd :: rest, s =>
    match (s.proc p).ofile fd with
    | some f => do
      let s ← s.filedup f
      dupLoop p np rest (s.setOfile np fd (some f))
    | none => dupLoop p np rest s

/-- `fork()` by `p`, where `made` says whether `allocproc` got its pages and
`uvmcopy` copied the memory (`freeproc` of a child that failed touches no
file): the child's slot, or none. -/
def fork (s : Sys) (p : Fin nproc) (made : Bool) : Except String (Option (Fin nproc) × Sys) :=
  match (List.finRange nproc).find? fun i => (s.proc i).state == .unused with
  | none => .ok (none, s)
  | some np =>
    if !made then .ok (none, s)
    else do
      let s ← dupLoop p np (List.finRange nofile) s
      match (s.proc p).cwd with
      | some cwd => return (some np, ({ s with fs := s.fs.idup cwd }.setCwd np (some cwd)).setState np .runnable)
      | none => throw "kerneltrap"

/-- The loop of `exit` over the descriptors, from `fd` on: `fileclose` of each
open file, then the slot cleared. -/
def closeLoop (p : Fin nproc) : List (Fin nofile) → Sys → Except String Sys
  | [], s => .ok s
  | fd :: rest, s =>
    match (s.proc p).ofile fd with
    | some f => do
      let s ← s.fileclose f
      closeLoop p rest (s.setOfile p fd none)
    | none => closeLoop p rest s

/-- `exit(status)` by `p`: its files closed, its `cwd` put, and a zombie. -/
def exit (s : Sys) (p : Fin nproc) : Except String Sys := do
  if p = initproc then throw "init exiting"
  let s ← closeLoop p (List.finRange nofile) s
  match (s.proc p).cwd with
  | some cwd => return ((s.iput cwd).setCwd p none).setState p .zombie
  | none => throw "kerneltrap"

/-- On a CPU, so able to make a system call. -/
def runs (s : Sys) (p : Fin nproc) : Bool :=
  (s.proc p).state == .runnable || (s.proc p).state == .running

end Sys

/-- The system calls here, each by a process, and `wait`'s `freeproc` of a
zombie. -/
inductive Event where
  | open (p : Fin nproc) (omode : Nat) (w : Walk) (lookup : Lookup) (kind : Kind)
  | close (p : Fin nproc) (fd : Int)
  | dup (p : Fin nproc) (fd : Int)
  | pipe (p : Fin nproc) (page : Option Nat) (copied : Bool)
  | fork (p : Fin nproc) (made : Bool)
  | exit (p : Fin nproc)
  | reap (child : Fin nproc)
  | chdir (p : Fin nproc) (w : Walk) (kind : Kind)
  | exec (p : Fin nproc) (w : Walk)

/-- A call's end: the state it leaves, or the panic it stops with. -/
def ended {α : Type} : Except String (α × Sys) → Outcome Sys
  | .ok (_, s) => .running s
  | .error message => .panicked message

namespace Sys

/-- One event, enabled when the calling process is on a CPU; `kalloc` never
returns the page of a live pipe, and `wait` frees only a zombie. -/
def step (s : Sys) : Event → Option (Outcome Sys)
  | .open p omode w lookup kind =>
    if s.runs p then some (ended (s.sysOpen p omode w lookup kind)) else none
  | .close p fd => if s.runs p then some (ended (s.sysClose p fd)) else none
  | .dup p fd => if s.runs p then some (ended (s.sysDup p fd)) else none
  | .pipe p page copied =>
    if s.runs p && page.all fun pi => (s.pipes pi).isNone then
      some (ended (s.sysPipe p page copied))
    else none
  | .fork p made => if s.runs p then some (ended (s.fork p made)) else none
  | .exit p => if s.runs p then some (ended ((s.exit p).map fun s => ((), s))) else none
  | .reap child =>
    if (s.proc child).state = .zombie then some (.running (s.setState child .unused)) else none
  | .chdir p w kind => if s.runs p then some (ended (s.sysChdir p w kind)) else none
  | .exec p w => if s.runs p then some (ended ((s.execInode p w).map fun s => ((), s))) else none

/-- The state `userinit` leaves on the blocks, log and superblock of `fs`: the
inode cache `iinit` left unreferenced, where `namei("/")` took the first entry
for the root (`iget_unreferenced`), which is the first process's `cwd`. -/
def booted (fs : FsState) : Sys :=
  { fs := { fs with
      icache := Function.update (fun _ => Inode.unused) ⟨0, ninode_pos⟩
        ({ Inode.unused with dev := rootdev, inum := rootino, ref := 1 }) }
    file := fun _ => File.zero
    pipes := fun _ => none
    proc := Function.update (fun _ => Proc.unused) initproc
      { state := .runnable, ofile := fun _ => none, cwd := some ⟨0, ninode_pos⟩ } }

end Sys

/-- The system from the boot on the file system `fs`. -/
def system (fs : FsState) : System Sys Event where
  init := Sys.booted fs
  step := Sys.step

end Xv6.Files
