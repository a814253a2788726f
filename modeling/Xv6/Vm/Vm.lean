import Xv6.Vm.Riscv

/-! The user page tables of `vm.c`: `walk`, `mappages`, `uvmunmap` and the
functions built on them. Every function threads physical memory and returns
`.error` with the text of the `panic` it reaches. A `for(;;)` loop over pages
runs on fuel equal to its number of iterations in `uint64` arithmetic. -/

namespace Xv6.Vm

/-- Where a page-table entry is: its page-table page and its index there. -/
abbrev PteAddr := UInt64 × Fin 512

/-- One pass of `walk`'s loop at `level`: the page-table page the entry for
`va` points to, or, when the entry is invalid and `alloc` is set, a new zeroed
page that the entry is made to point to. -/
def walkLevel (k : Kmem) (pagetable : UInt64) (level : Nat) (va : UInt64) (alloc : Bool) :
    Option UInt64 × Kmem :=
  let pte := k.mem pagetable (px level va)
  if pte &&& pteV != 0 then (some (pte2pa pte), k)
  else if !alloc then (none, k)
  else
    match kalloc k with
    | (none, k) => (none, k)
    | (some page, k) =>
      let k := k.memset page 0
      (some page, k.write pagetable (px level va) (pa2pte page ||| pteV))

/-- `walk`: the place of the level-0 entry for `va`, or none (`0`). -/
def walk (k : Kmem) (pagetable va : UInt64) (alloc : Bool) :
    Except String (Option PteAddr × Kmem) :=
  if va ≥ maxVa then .error "walk"
  else
    match walkLevel k pagetable 2 va alloc with
    | (none, k) => .ok (none, k)
    | (some l1, k) =>
      match walkLevel k l1 1 va alloc with
      | (none, k) => .ok (none, k)
      | (some l0, k) => .ok (some (l0, px 0 va), k)

/-- The number of passes of a loop from page `a` to page `last` by `PGSIZE`. -/
def pageCount (a last : UInt64) : Nat := ((last - a) / pgSize).toNat + 1

def mappagesLoop (pagetable perm last : UInt64) : Nat → Kmem → UInt64 → UInt64 →
    Except String (Int × Kmem)
  | 0, k, _, _ => .ok (0, k)
  | fuel + 1, k, a, pa => do
    let (pte, k) ← walk k pagetable a true
    match pte with
    | none => return (-1, k)
    | some (page, i) =>
      if k.mem page i &&& pteV != 0 then throw "remap"
      let k := k.write page i (pa2pte pa ||| perm ||| pteV)
      if a == last then return (0, k)
      else mappagesLoop pagetable perm last fuel k (a + pgSize) (pa + pgSize)

/-- `mappages`: `0`, or `-1` when `walk` cannot allocate a page-table page. -/
def mappages (k : Kmem) (pagetable va size pa perm : UInt64) : Except String (Int × Kmem) :=
  let a := pgRoundDown va
  let last := pgRoundDown (va + size - 1)
  mappagesLoop pagetable perm last (pageCount a last) k a pa

def uvmunmapLoop (pagetable : UInt64) (doFree : Bool) (last : UInt64) :
    Nat → Kmem → UInt64 → Except String Kmem
  | 0, k, _ => .ok k
  | fuel + 1, k, a => do
    let (pte, k) ← walk k pagetable a false
    let some (page, i) := pte | throw "uvmunmap: walk"
    let entry := k.mem page i
    if entry &&& pteV == 0 then throw "uvmunmap: not mapped"
    if pteFlags entry == pteV then throw "uvmunmap: not a leaf"
    let k ← if doFree then kfree k (pte2pa entry) else pure k
    let k := k.write page i 0
    if a == last then return k else uvmunmapLoop pagetable doFree last fuel k (a + pgSize)

/-- `uvmunmap`: removes the mappings of `[va, va + size)`, which must exist,
freeing the pages when `doFree`. -/
def uvmunmap (k : Kmem) (pagetable va size : UInt64) (doFree : Bool) : Except String Kmem :=
  let a := pgRoundDown va
  let last := pgRoundDown (va + size - 1)
  uvmunmapLoop pagetable doFree last (pageCount a last) k a

/-- `uvmcreate`: an empty page table; panics when no page is free. -/
def uvmcreate (k : Kmem) : Except String (UInt64 × Kmem) :=
  match kalloc k with
  | (none, _) => .error "uvmcreate: out of memory"
  | (some pagetable, k) => .ok (pagetable, k.memset pagetable 0)

/-- `uvmdealloc`: shrinks the user memory from `oldsz` to `newsz`. -/
def uvmdealloc (k : Kmem) (pagetable oldsz newsz : UInt64) : Except String (UInt64 × Kmem) :=
  if newsz ≥ oldsz then .ok (oldsz, k)
  else
    let newup := pgRoundUp newsz
    if newup < pgRoundUp oldsz then do
      let k ← uvmunmap k pagetable newup (oldsz - newup) true
      return (newsz, k)
    else .ok (newsz, k)

/-- The passes of `uvmalloc`'s loop from `a`: each maps a new zeroed page; on a
failed `kalloc` or `mappages` it gives back what the loop mapped and returns
`0`. -/
def uvmallocLoop (pagetable oldsz newsz : UInt64) : Nat → Kmem → UInt64 →
    Except String (UInt64 × Kmem)
  | 0, k, _ => .ok (newsz, k)
  | fuel + 1, k, a =>
    if a < newsz then
      match kalloc k with
      | (none, k) => do
        let (_, k) ← uvmdealloc k pagetable a oldsz
        return (0, k)
      | (some mem, k) => do
        let k := k.memset mem 0
        let (r, k) ← mappages k pagetable a pgSize mem (pteW ||| pteX ||| pteR ||| pteU)
        if r != 0 then
          let k ← kfree k mem
          let (_, k) ← uvmdealloc k pagetable a oldsz
          return (0, k)
        uvmallocLoop pagetable oldsz newsz fuel k (a + pgSize)
    else .ok (newsz, k)

/-- `uvmalloc`: grows the user memory from `oldsz` to `newsz`; the new size,
or `0` on failure. -/
def uvmalloc (k : Kmem) (pagetable oldsz newsz : UInt64) : Except String (UInt64 × Kmem) :=
  if newsz < oldsz then .ok (oldsz, k)
  else
    let oldsz := pgRoundUp oldsz
    uvmallocLoop pagetable oldsz newsz ((newsz.toNat - oldsz.toNat + 4095) / 4096 + 1) k oldsz

/-- The test of `freewalk` that an entry points to a lower-level page table:
valid, with none of `PTE_R`, `PTE_W`, `PTE_X`. -/
def isTableEntry (pte : UInt64) : Bool :=
  pte &&& pteV != 0 && pte &&& (pteR ||| pteW ||| pteX) == 0

/-- `freewalk` on a page-table page with at most `depth` levels below it: an
Sv39 table has three levels, so `depth = 3` covers every table `walk` builds. -/
def freewalk : Nat → Kmem → UInt64 → Except String Kmem
  | 0, k, pagetable => kfree k pagetable
  | depth + 1, k, pagetable => do
    let k ← (List.finRange 512).foldlM (fun k i => do
        let pte := k.mem pagetable i
        if isTableEntry pte then
          let k ← freewalk depth k (pte2pa pte)
          return k.write pagetable i 0
        else if pte &&& pteV != 0 then throw "freewalk: leaf"
        else return k) k
    kfree k pagetable

/-- `uvmfree`: the user pages, then the page-table pages. -/
def uvmfree (k : Kmem) (pagetable sz : UInt64) : Except String Kmem := do
  let k ← uvmunmap k pagetable 0 sz true
  freewalk 3 k pagetable

/-- The page-table pages `freewalk depth` gives back: the page and, `depth`
levels down, those its table entries point to. -/
def tablePages (k : Kmem) : Nat → UInt64 → List UInt64
  | 0, pagetable => [pagetable]
  | depth + 1, pagetable =>
    pagetable :: (List.finRange 512).flatMap fun i =>
      let pte := k.mem pagetable i
      if isTableEntry pte then tablePages k depth (pte2pa pte) else []

/-- The pages the valid `PTE_U` leaf entries of a page table point to, `depth`
levels down. -/
def userPages (k : Kmem) : Nat → UInt64 → List UInt64
  | 0, _ => []
  | depth + 1, pagetable => (List.finRange 512).flatMap fun i =>
      let pte := k.mem pagetable i
      if isTableEntry pte then userPages k depth (pte2pa pte)
      else if pte &&& pteV != 0 && pte &&& pteU != 0 then [pte2pa pte] else []

/-- `uvmcopy`'s `err:` label: unmaps and frees the pages copied so far. -/
def uvmcopyErr (k : Kmem) (new i : UInt64) : Except String (Int × Kmem) := do
  let k ← uvmunmap k new 0 i true
  return (-1, k)

def uvmcopyLoop (old new sz : UInt64) : Nat → Kmem → UInt64 → Except String (Int × Kmem)
  | 0, k, _ => .ok (0, k)
  | fuel + 1, k, i =>
    if i < sz then do
      let (pte, k) ← walk k old i false
      let some (page, idx) := pte | throw "uvmcopy: pte should exist"
      let entry := k.mem page idx
      if entry &&& pteV == 0 then throw "uvmcopy: page not present"
      let pa := pte2pa entry
      let flags := pteFlags entry
      match kalloc k with
      | (none, k) => uvmcopyErr k new i
      | (some mem, k) =>
        let k := k.copyPage mem pa
        let (r, k) ← mappages k new i pgSize mem flags
        if r != 0 then
          let k ← kfree k mem
          uvmcopyErr k new i
        else uvmcopyLoop old new sz fuel k (i + pgSize)
    else .ok (0, k)

/-- `uvmcopy`: copies the parent's memory `[0, sz)` into `new`; `0`, or `-1`
after freeing the pages copied so far. -/
def uvmcopy (k : Kmem) (old new sz : UInt64) : Except String (Int × Kmem) :=
  uvmcopyLoop old new sz ((sz.toNat + 4095) / 4096 + 1) k 0

end Xv6.Vm
