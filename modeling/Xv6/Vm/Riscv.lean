import Mathlib

/-! The Sv39 constants and page-table-entry arithmetic of `riscv.h` and
`memlayout.h`, on `uint64` words, and physical memory as the allocator of
`kalloc.c` sees it: pages of 512 words and the free list threaded through
the free pages. -/

namespace Xv6.Vm

/-! The kernel functions below return `Except String`, the error being the text
of the `panic` they reach; these lemmas run their `do` blocks. -/

@[simp] theorem ok_bind {α β : Type} (a : α) (f : α → Except String β) :
    (Except.ok a >>= f) = f a := rfl

@[simp] theorem pure_ok {α : Type} (a : α) : (pure a : Except String α) = Except.ok a := rfl

@[simp] theorem error_bind {α β : Type} (message : String) (f : α → Except String β) :
    (Except.error message >>= f) = Except.error message := rfl

/-- `PGSIZE`: bytes per page. -/
def pgSize : UInt64 := 4096

/-- `PGROUNDUP(sz)`. -/
def pgRoundUp (sz : UInt64) : UInt64 := (sz + pgSize - 1) &&& ~~~(pgSize - 1)

/-- `PGROUNDDOWN(a)`. -/
def pgRoundDown (a : UInt64) : UInt64 := a &&& ~~~(pgSize - 1)

def pteV : UInt64 := (1 : UInt64) <<< 0
def pteR : UInt64 := (1 : UInt64) <<< 1
def pteW : UInt64 := (1 : UInt64) <<< 2
def pteX : UInt64 := (1 : UInt64) <<< 3
def pteU : UInt64 := (1 : UInt64) <<< 4

/-- `PA2PTE(pa)`. -/
def pa2pte (pa : UInt64) : UInt64 := (pa >>> 12) <<< 10

/-- `PTE2PA(pte)`. -/
def pte2pa (pte : UInt64) : UInt64 := (pte >>> 10) <<< 12

/-- `PTE_FLAGS(pte)`. -/
def pteFlags (pte : UInt64) : UInt64 := pte &&& 0x3FF

/-- `PX(level, va)`: the index of `va`'s entry in a page-table page of `level`. -/
def px (level : Nat) (va : UInt64) : Fin 512 :=
  ⟨((va >>> (12 + 9 * level).toUInt64) &&& 0x1FF).toNat, by
    rw [UInt64.toNat_and]
    exact Nat.lt_of_le_of_lt Nat.and_le_right (by decide)⟩

/-- `MAXVA`: one bit less than Sv39 allows, to avoid sign extension. -/
def maxVa : UInt64 := (1 : UInt64) <<< (9 + 9 + 9 + 12 - 1)

def trampoline : UInt64 := maxVa - pgSize

def trapframe : UInt64 := trampoline - pgSize

def kernBase : UInt64 := 0x80000000

def phystop : UInt64 := kernBase + 128 * 1024 * 1024

/-- A `uint64` word of a page `memset` to the byte `c`. -/
def fillWord (c : UInt8) : UInt64 := c.toUInt64 * 0x0101010101010101

/-- Physical memory, each page as 512 `uint64` words, and `kmem.freelist`,
most recently freed page first. -/
structure Kmem where
  /-- `end`: the first address after the kernel, which `kernel.ld` sets. -/
  kernelEnd : UInt64
  freelist : List UInt64
  mem : UInt64 → Fin 512 → UInt64

namespace Kmem

/-- `memset(pa, c, PGSIZE)`. -/
def memset (k : Kmem) (pa : UInt64) (c : UInt8) : Kmem :=
  { k with mem := Function.update k.mem pa fun _ => fillWord c }

/-- `((uint64 *)page)[i] = v`. -/
def write (k : Kmem) (page : UInt64) (i : Fin 512) (v : UInt64) : Kmem :=
  { k with mem := Function.update k.mem page (Function.update (k.mem page) i v) }

/-- `memmove(dst, src, PGSIZE)`. -/
def copyPage (k : Kmem) (dst src : UInt64) : Kmem :=
  { k with mem := Function.update k.mem dst (k.mem src) }

end Kmem

/-- `kalloc`: the first free page, filled with junk, or none (`0`) when the
free list is empty. -/
def kalloc (k : Kmem) : Option UInt64 × Kmem :=
  match k.freelist with
  | [] => (none, k)
  | r :: rest => (some r, ({ k with freelist := rest } : Kmem).memset r 5)

/-- `kfree`: panics on an address that is not a page of the allocator's range,
else fills the page with junk and puts it at the head of the free list. -/
def kfree (k : Kmem) (pa : UInt64) : Except String Kmem :=
  if pa % pgSize != 0 || pa < k.kernelEnd || pa ≥ phystop then .error "kfree"
  else .ok { k.memset pa 1 with freelist := pa :: k.freelist }

namespace Kmem

variable {k : Kmem} {pa page dst src x : UInt64} {c : UInt8} {i : Fin 512} {v : UInt64}

@[simp] theorem memset_freelist : (k.memset pa c).freelist = k.freelist := rfl

@[simp] theorem write_freelist : (k.write page i v).freelist = k.freelist := rfl

@[simp] theorem copyPage_freelist : (k.copyPage dst src).freelist = k.freelist := rfl

@[simp] theorem memset_kernelEnd : (k.memset pa c).kernelEnd = k.kernelEnd := rfl

@[simp] theorem write_kernelEnd : (k.write page i v).kernelEnd = k.kernelEnd := rfl

@[simp] theorem copyPage_kernelEnd : (k.copyPage dst src).kernelEnd = k.kernelEnd := rfl

@[simp] theorem memset_mem_self : (k.memset pa c).mem pa = fun _ => fillWord c := by
  simp [memset]

theorem memset_mem_of_ne (other : x ≠ pa) : (k.memset pa c).mem x = k.mem x := by
  simp [memset, Function.update_of_ne other]

@[simp] theorem write_mem_self : (k.write page i v).mem page = Function.update (k.mem page) i v := by
  simp [write]

theorem write_mem_of_ne (other : x ≠ page) : (k.write page i v).mem x = k.mem x := by
  simp [write, Function.update_of_ne other]

@[simp] theorem copyPage_mem_self : (k.copyPage dst src).mem dst = k.mem src := by
  simp [copyPage]

theorem copyPage_mem_of_ne (other : x ≠ dst) : (k.copyPage dst src).mem x = k.mem x := by
  simp [copyPage, Function.update_of_ne other]

@[simp] theorem memset_memset {d : UInt8} : (k.memset pa c).memset pa d = k.memset pa d := by
  simp [memset]

end Kmem

end Xv6.Vm
