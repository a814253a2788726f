import Mathlib
import Xv6.Lib.Run

/-! `pipe.c`: the ring of `PIPESIZE` bytes indexed by the free-running `uint`
counters `nread` and `nwrite`, and the calls `pipewrite`, `piperead` and
`pipeclose` of any number of processes. Each call holds the pipe lock except
while asleep, so an event is one critical section: one pass of a loop body. A
process asleep has no event until the test it sleeps on changes. -/

namespace Xv6

open Xv6.Lib

/-- `PIPESIZE`. -/
def pipeSize : Nat := 512

/-- The element `n % PIPESIZE` of `data`. -/
def slot (n : UInt32) : Fin pipeSize :=
  ⟨n.toNat % pipeSize, Nat.mod_lt _ (by decide)⟩

/-- `struct pipe` (its lock is the atomicity of the events). -/
structure Pipe where
  data : Fin pipeSize → UInt8
  nread : UInt32
  nwrite : UInt32
  readopen : Bool
  writeopen : Bool

namespace Pipe

/-- The pipe `pipealloc` makes, in a page `kalloc` filled with junk. -/
def alloc : Pipe :=
  { data := fun _ => 5, nread := 0, nwrite := 0, readopen := true, writeopen := true }

/-- `pipewrite`'s test `pi->nwrite == pi->nread + PIPESIZE`, in `uint`. -/
def full (pi : Pipe) : Bool :=
  pi.nwrite == pi.nread + UInt32.ofNat pipeSize

/-- `piperead`'s test `pi->nread == pi->nwrite`. -/
def empty (pi : Pipe) : Bool :=
  pi.nread == pi.nwrite

/-- `pi->data[pi->nwrite++ % PIPESIZE] = ch`. -/
def put (pi : Pipe) (ch : UInt8) : Pipe :=
  { pi with data := Function.update pi.data (slot pi.nwrite) ch, nwrite := pi.nwrite + 1 }

/-- `ch = pi->data[pi->nread++ % PIPESIZE]`. -/
def get (pi : Pipe) : UInt8 × Pipe :=
  (pi.data (slot pi.nread), { pi with nread := pi.nread + 1 })

/-- `pipeclose`: one end is closed. -/
def close (pi : Pipe) (writable : Bool) : Pipe :=
  if writable then { pi with writeopen := false } else { pi with readopen := false }

variable {pi : Pipe} {ch : UInt8} {writable : Bool}

@[simp] theorem put_data : (pi.put ch).data = Function.update pi.data (slot pi.nwrite) ch := rfl

@[simp] theorem put_nread : (pi.put ch).nread = pi.nread := rfl

@[simp] theorem put_nwrite : (pi.put ch).nwrite = pi.nwrite + 1 := rfl

@[simp] theorem get_fst : pi.get.1 = pi.data (slot pi.nread) := rfl

@[simp] theorem get_data : pi.get.2.data = pi.data := rfl

@[simp] theorem get_nread : pi.get.2.nread = pi.nread + 1 := rfl

@[simp] theorem get_nwrite : pi.get.2.nwrite = pi.nwrite := rfl

@[simp] theorem close_data : (pi.close writable).data = pi.data := by
  unfold close; split <;> rfl

@[simp] theorem close_nread : (pi.close writable).nread = pi.nread := by
  unfold close; split <;> rfl

@[simp] theorem close_nwrite : (pi.close writable).nwrite = pi.nwrite := by
  unfold close; split <;> rfl

end Pipe

/-- Where a process is in the pipe calls. -/
inductive PipePc where
  | idle
  /-- In `pipewrite(pi, addr, n)` at the test of byte `i`; `src i` is what
  `copyin` of `addr + i` yields, `none` when it fails. -/
  | writing (src : Nat → Option UInt8) (n : Int) (i : Nat)
  /-- In `piperead(pi, addr, n)`'s wait loop; `dst i` says whether `copyout`
  to `addr + i` succeeds. -/
  | waiting (dst : Nat → Bool) (n : Int)
  /-- In `piperead`'s copy loop at byte `i`. -/
  | reading (dst : Nat → Bool) (n : Int) (i : Nat)
  /-- Returned `result` from the call. -/
  | returned (result : Int)

namespace PipePc

/-- Not inside a pipe call. -/
def isIdle : PipePc → Bool
  | .idle | .returned _ => true
  | _ => false

end PipePc

/-- One pipe, the processes using it and their `killed` flags, with two ghost
histories: every byte inserted by `pipewrite` and every byte removed by
`piperead`, in order. -/
structure PipeSys (P : Type) where
  pipe : Pipe
  pc : P → PipePc
  killed : P → Bool
  inserted : List UInt8
  removed : List UInt8

inductive PipeEvent (P : Type) where
  | pipewrite (p : P) (src : Nat → Option UInt8) (n : Int)
  | piperead (p : P) (dst : Nat → Bool) (n : Int)
  /-- The next critical section of `p`'s call. -/
  | run (p : P)
  | pipeclose (p : P) (writable : Bool)
  | kill (p : P)

namespace PipeSys

variable {P : Type} [DecidableEq P]

/-- The process `p` moves to `next`. -/
def moveTo (s : PipeSys P) (p : P) (next : PipePc) : PipeSys P :=
  { s with pc := Function.update s.pc p next }

/-- One pass of `pipewrite`'s loop for byte `i`: return when the loop ends, stop
with `-1` or sleep on a full pipe, break when `copyin` fails, else insert. -/
def writeStep (s : PipeSys P) (p : P) (src : Nat → Option UInt8) (n : Int) (i : Nat) :
    Option (PipeSys P) :=
  if (i : Int) < n then
    if s.pipe.full then
      if !s.pipe.readopen || s.killed p then some (s.moveTo p (.returned (-1)))
      else none
    else
      match src i with
      | none => some (s.moveTo p (.returned n))
      | some ch =>
        some { s.moveTo p (.writing src n (i + 1)) with
          pipe := s.pipe.put ch
          inserted := s.inserted ++ [ch] }
  else some (s.moveTo p (.returned n))

/-- One pass of `piperead`'s wait loop: sleep on an empty pipe whose write end
is open, stop with `-1` when killed, else start copying. -/
def waitStep (s : PipeSys P) (p : P) (dst : Nat → Bool) (n : Int) : Option (PipeSys P) :=
  if s.pipe.empty && s.pipe.writeopen then
    if s.killed p then some (s.moveTo p (.returned (-1))) else none
  else some (s.moveTo p (.reading dst n 0))

/-- One pass of `piperead`'s copy loop for byte `i`: the byte leaves the pipe
before `copyout`, so a failed copy still consumes it. -/
def readStep (s : PipeSys P) (p : P) (dst : Nat → Bool) (n : Int) (i : Nat) :
    Option (PipeSys P) :=
  if (i : Int) < n then
    if s.pipe.empty then some (s.moveTo p (.returned i))
    else
      let (ch, pipe) := s.pipe.get
      let next := if dst i then PipePc.reading dst n (i + 1) else .returned i
      some { s.moveTo p next with pipe := pipe, removed := s.removed ++ [ch] }
  else some (s.moveTo p (.returned i))

def step (s : PipeSys P) : PipeEvent P → Option (Outcome (PipeSys P))
  | .pipewrite p src n =>
    if (s.pc p).isIdle then some (.running (s.moveTo p (.writing src n 0))) else none
  | .piperead p dst n =>
    if (s.pc p).isIdle then some (.running (s.moveTo p (.waiting dst n))) else none
  | .run p =>
    match s.pc p with
    | .writing src n i => (s.writeStep p src n i).map .running
    | .waiting dst n => (s.waitStep p dst n).map .running
    | .reading dst n i => (s.readStep p dst n i).map .running
    | _ => none
  | .pipeclose _ writable => some (.running { s with pipe := s.pipe.close writable })
  | .kill p => some (.running { s with killed := Function.update s.killed p true })

variable {s : PipeSys P} {p : P} {next : PipePc}

@[simp] theorem moveTo_pipe : (s.moveTo p next).pipe = s.pipe := rfl

@[simp] theorem moveTo_inserted : (s.moveTo p next).inserted = s.inserted := rfl

@[simp] theorem moveTo_removed : (s.moveTo p next).removed = s.removed := rfl

/-- The pipe `pipealloc` returns, no process inside a call. -/
def system (P : Type) [DecidableEq P] : System (PipeSys P) (PipeEvent P) where
  init := { pipe := Pipe.alloc, pc := fun _ => .idle, killed := fun _ => false,
            inserted := [], removed := [] }
  step := step

end PipeSys

end Xv6
