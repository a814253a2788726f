import Xv6.Vm.Vm
import Xv6.Param

/-! The memory side of `proc.c`: the process table, `allocproc`, `freeproc`,
`proc_pagetable` and `proc_freepagetable`, and the system calls that grow
memory, `fork` and `sbrk` (`growproc`). -/

namespace Xv6.Vm

inductive ProcState where
  | unused
  | sleeping
  | runnable
  | running
  | zombie
  deriving DecidableEq, Repr

/-- The fields of `struct proc` that the memory system calls read and write. -/
structure Proc where
  state : ProcState
  pid : Int
  /-- `p->sz`: the size of the process memory in bytes. -/
  sz : UInt64
  /-- `p->pagetable`, `0` when the process has none. -/
  pagetable : UInt64
  /-- `p->tf`, the trapframe page, `0` when the process has none. -/
  tf : UInt64
  parent : Option (Fin nproc)
  deriving DecidableEq

/-- Physical memory, the process table and `nextpid`. -/
structure Kernel where
  kmem : Kmem
  proc : Fin nproc → Proc
  nextpid : Int
  /-- `trampoline`: the physical address of the trampoline page in kernel text. -/
  trampolinePa : UInt64

/-- `proc_pagetable`: an empty user page table with the trampoline and the
trapframe mapped at the top; the results of the two `mappages` calls are not
checked. -/
def procPagetable (k : Kmem) (trampolinePa tf : UInt64) : Except String (UInt64 × Kmem) := do
  let (pagetable, k) ← uvmcreate k
  let (_, k) ← mappages k pagetable trampoline pgSize trampolinePa (pteR ||| pteX)
  let (_, k) ← mappages k pagetable trapframe pgSize tf (pteR ||| pteW)
  return (pagetable, k)

/-- `proc_freepagetable`: unmaps the trampoline and the trapframe and, when
`sz > 0`, frees the user memory and the page-table pages. -/
def procFreepagetable (k : Kmem) (pagetable sz : UInt64) : Except String Kmem := do
  let k ← uvmunmap k pagetable trampoline pgSize false
  let k ← uvmunmap k pagetable trapframe pgSize false
  if sz > 0 then uvmfree k pagetable sz else return k

namespace Kernel

def setProc (s : Kernel) (i : Fin nproc) (p : Proc) : Kernel :=
  { s with proc := Function.update s.proc i p }

@[simp] theorem setProc_kmem (s : Kernel) (i : Fin nproc) (p : Proc) : (s.setProc i p).kmem = s.kmem := rfl

@[simp] theorem setProc_trampolinePa (s : Kernel) (i : Fin nproc) (p : Proc) :
    (s.setProc i p).trampolinePa = s.trampolinePa := rfl

@[simp] theorem setProc_self (s : Kernel) (i : Fin nproc) (p : Proc) : (s.setProc i p).proc i = p :=
  Function.update_self ..

theorem setProc_of_ne (s : Kernel) {i j : Fin nproc} (p : Proc) (other : j ≠ i) :
    (s.setProc i p).proc j = s.proc j :=
  Function.update_of_ne other ..

/-- `allocproc`: the first `UNUSED` slot, given a pid, a trapframe page and a
page table; none when no slot is `UNUSED` or no trapframe page is free. -/
def allocproc (s : Kernel) : Except String (Option (Fin nproc) × Kernel) :=
  match (List.finRange nproc).find? (fun i => (s.proc i).state == .unused) with
  | none => .ok (none, s)
  | some i =>
    let pid := s.nextpid
    let s := { s.setProc i { s.proc i with pid := pid } with nextpid := pid + 1 }
    match kalloc s.kmem with
    | (none, k) => .ok (none, { s.setProc i { s.proc i with tf := 0 } with kmem := k })
    | (some tf, k) => do
      let (pagetable, k) ← procPagetable k s.trampolinePa tf
      return (some i, { s.setProc i { s.proc i with tf := tf, pagetable := pagetable } with
        kmem := k })

/-- `freeproc`: gives back the trapframe and the page table and marks the slot
`UNUSED`. -/
def freeproc (s : Kernel) (i : Fin nproc) : Except String Kernel := do
  let p := s.proc i
  let k ← if p.tf != 0 then kfree s.kmem p.tf else pure s.kmem
  let k ← if p.pagetable != 0 then procFreepagetable k p.pagetable p.sz else pure k
  return { s.setProc i { p with
      tf := 0, pagetable := 0, sz := 0, pid := 0, parent := none, state := .unused } with
    kmem := k }

/-- The pages process `i` owns: its page-table pages, the pages its user
entries map and its trapframe; none when it is `UNUSED`. -/
def owned (s : Kernel) (i : Fin nproc) : List UInt64 :=
  let p := s.proc i
  if p.state = .unused then []
  else
    (if p.pagetable != 0 then tablePages s.kmem 3 p.pagetable ++ userPages s.kmem 3 p.pagetable
      else []) ++ (if p.tf != 0 then [p.tf] else [])

/-- A page nobody has: neither free nor owned by a process. Pipes and kernel
stacks are not modelled, so this holds of a page a system call took from the
free list for a process and lost. -/
def Leaked (s : Kernel) (pa : UInt64) : Prop :=
  pa ∉ s.kmem.freelist ∧ ∀ i, pa ∉ s.owned i

instance (s : Kernel) (pa : UInt64) : Decidable (s.Leaked pa) :=
  inferInstanceAs (Decidable (_ ∧ _))

/-- The pages free in `s` that `s'` has lost. -/
def lost (s s' : Kernel) : List UInt64 :=
  s.kmem.freelist.filter fun pa => decide (s'.Leaked pa)

/-- `growproc(n)` by process `p`; its local `sz` is a 32-bit `uint`. -/
def growproc (s : Kernel) (p : Fin nproc) (n : Int32) : Except String (Int × Kernel) := do
  let sz : UInt32 := (s.proc p).sz.toUInt32
  if n > 0 then
    let (r, k) ← uvmalloc s.kmem (s.proc p).pagetable sz.toUInt64 (sz + n.toUInt32).toUInt64
    let sz := r.toUInt32
    if sz == 0 then return (-1, { s with kmem := k })
    return (0, { s.setProc p { s.proc p with sz := sz.toUInt64 } with kmem := k })
  else if n < 0 then
    let (r, k) ← uvmdealloc s.kmem (s.proc p).pagetable sz.toUInt64 (sz + n.toUInt32).toUInt64
    return (0, { s.setProc p { s.proc p with sz := r.toUInt32.toUInt64 } with kmem := k })
  else return (0, s.setProc p { s.proc p with sz := sz.toUInt64 })

/-- `sys_sbrk(n)`: the old size as an `int`, or `-1`. -/
def sysSbrk (s : Kernel) (p : Fin nproc) (n : Int32) : Except String (Int × Kernel) := do
  let addr : Int32 := (s.proc p).sz.toUInt32.toInt32
  let (r, s) ← s.growproc p n
  if r < 0 then return (-1, s)
  return (addr.toInt, s)

/-- A machine whose allocator was given the `n` pages from `0x87f00000` and
whose process `0`, made by `allocproc`, grew to two pages with `sbrk(8192)`
(the pages `userinit` and `sbrk(4096)` give the first process) and runs. -/
def runningParent (n : Nat) : Kernel :=
  let boot : Kernel :=
    { kmem :=
        { kernelEnd := 0x80020000
          freelist := (List.range n).map fun j => 0x87f00000 + j.toUInt64 * pgSize
          mem := fun _ _ => 0 }
      proc := fun _ => { state := .unused, pid := 0, sz := 0, pagetable := 0, tf := 0, parent := none }
      nextpid := 1
      trampolinePa := 0x80001000 }
  match boot.allocproc with
  | .ok (some p, s) =>
    match s.sysSbrk p 8192 with
    | .ok (_, s) => s.setProc p { s.proc p with state := .running }
    | .error _ => boot
  | _ => boot

/-- `fork` by process `p`: the child's pid, or `-1` when no child could be
made. -/
def fork (s : Kernel) (p : Fin nproc) : Except String (Int × Kernel) := do
  let (np, s) ← s.allocproc
  let some np := np | return (-1, s)
  let (r, k) ← uvmcopy s.kmem (s.proc p).pagetable (s.proc np).pagetable (s.proc p).sz
  let s := { s with kmem := k }
  if r < 0 then
    let s ← s.freeproc np
    return (-1, s)
  let child := { s.proc np with sz := (s.proc p).sz, parent := some p, state := .runnable }
  return ((s.proc np).pid, s.setProc np child)

/-- With seven free pages, `uvmcopy` runs out at the parent's second page and
`fork` returns `-1`; `freeproc` calls `proc_freepagetable` with the child's
`sz` still `0`, which skips `uvmfree`, so the child's root page table and its
four interior pages are neither free nor anyone's. -/
theorem fork_leaks_child_pagetable :
    ((runningParent 15).fork ⟨0, by decide⟩).toOption.map (fun (r, s) => (r, (runningParent 15).lost s)) =
      some (-1, [0x87f09000, 0x87f0a000, 0x87f0b000, 0x87f0d000, 0x87f0e000]) := by
  decide +kernel

end Kernel

end Xv6.Vm
