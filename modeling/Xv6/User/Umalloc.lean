import Mathlib

/-! The user-space allocator of `umalloc.c`, Kernighan and Ritchie's: a
circular list of free blocks, each headed by a `Header` with the next free
block and its own size in header units, kept in address order from the
static `base`. `malloc` takes the first block large enough, splitting off its
tail; when the list has none it calls `morecore`, which asks `sbrk` for at
least 4096 units and frees them into the list. Addresses are byte addresses,
`Header*` arithmetic steps by `sizeof(Header)`.

The unit count is computed in 64 bits, since `sizeof` is a `size_t`, and
truncated to the `uint` `nunits`; `morecore` passes `nu * sizeof(Header)`,
again a 64-bit product, to `sbrk`'s `int`, which keeps its low 32 bits. -/

namespace Xv6.User

/-- `sizeof(Header)`: a pointer and a `uint`, aligned as a `long`. -/
def headerSize : Nat := 16

/-- `union header`'s `s`: the next free block and the size in units. -/
structure Header where
  ptr : Nat
  size : UInt32

/-- The allocator's memory: the header at each address, `freep` (`0` is null),
the program break, and the break past which `sbrk` fails. `base` is the
address of the static `base`, below the heap. -/
structure Heap where
  hdr : Nat → Header
  freep : Nat
  brk : Nat
  top : Nat
  base : Nat

namespace Heap

/-- `*a = v` for the header at `a`. -/
def setHdr (h : Heap) (a : Nat) (v : Header) : Heap :=
  { h with hdr := Function.update h.hdr a v }

/-- `sbrk(n)` as `sys_sbrk` and `growproc` do it: for `n ≥ 0` the break grows
by `n` and the old break returns, or `-1` (`none`) when memory runs out; for
`n < 0` it shrinks, and past zero `growproc`'s `uint` sum wraps and the old
break returns with nothing changed. -/
def sbrk (h : Heap) (n : Int32) : Option Nat × Heap :=
  if 0 ≤ n.toInt then
    if h.brk + n.toInt.toNat ≤ h.top then (some h.brk, { h with brk := h.brk + n.toInt.toNat })
    else (none, h)
  else if (h.brk : Int) + n.toInt < 0 then (some h.brk, h)
  else (some h.brk, { h with brk := ((h.brk : Int) + n.toInt).toNat })

/-- The search loop of `free` from `p` for the block `bp` goes after: between
`p` and the next free block, or at the end of the list. -/
def freeScan (h : Heap) (bp : Nat) : Nat → Nat → Option Nat
  | 0, _ => none
  | fuel + 1, p =>
    let next := (h.hdr p).ptr
    if bp > p ∧ bp < next then some p
    else if p ≥ next ∧ (bp > p ∨ bp < next) then some p
    else freeScan h bp fuel next

/-- `free(ap)`: the block joins the list after `p`, merged with the next free
block and with `p` where they touch. `none` when the search runs on. -/
def free (h : Heap) (ap fuel : Nat) : Option Heap := do
  let bp := ap - headerSize
  let p ← h.freeScan bp fuel h.freep
  let next := (h.hdr p).ptr
  let h := if bp + headerSize * (h.hdr bp).size.toNat = next then
      h.setHdr bp { size := (h.hdr bp).size + (h.hdr next).size, ptr := (h.hdr next).ptr }
    else h.setHdr bp { h.hdr bp with ptr := next }
  let h := if p + headerSize * (h.hdr p).size.toNat = bp then
      h.setHdr p { size := (h.hdr p).size + (h.hdr bp).size, ptr := (h.hdr bp).ptr }
    else h.setHdr p { h.hdr p with ptr := bp }
  return { h with freep := p }

/-- `morecore(nu)`: `freep` after the new block is freed, or `0` when `sbrk`
fails. The byte count is `nu * sizeof(Header)` in 64 bits, passed as an
`int`. -/
def morecore (h : Heap) (nu : UInt32) (fuel : Nat) : Option (Nat × Heap) :=
  let nu := if nu < 4096 then 4096 else nu
  match h.sbrk (nu.toUInt64 * 16).toUInt32.toInt32 with
  | (none, h) => some (0, h)
  | (some p, h) =>
    let h := h.setHdr p { h.hdr p with size := nu }
    (h.free (p + headerSize) fuel).map fun h => (h.freep, h)

/-- `nunits = (nbytes + sizeof(Header) - 1)/sizeof(Header) + 1`, computed in
64 bits and stored in a `uint`. -/
def nunits (nbytes : UInt32) : UInt32 :=
  ((nbytes.toUInt64 + 16 - 1) / 16 + 1).toUInt32

/-- `malloc`'s loop from `prevp` and `p`: the block handed out, or `0` when
`morecore` fails; `none` when the loop runs on. -/
def mallocLoop (nunits : UInt32) : Nat → Heap → Nat → Nat → Option (Nat × Heap)
  | 0, _, _, _ => none
  | fuel + 1, h, prevp, p =>
    if (h.hdr p).size ≥ nunits then
      if (h.hdr p).size = nunits then
        some (p + headerSize, { h.setHdr prevp { h.hdr prevp with ptr := (h.hdr p).ptr } with freep := prevp })
      else
        let h := h.setHdr p { h.hdr p with size := (h.hdr p).size - nunits }
        let q := p + headerSize * (h.hdr p).size.toNat
        some (q + headerSize, { h.setHdr q { h.hdr q with size := nunits } with freep := prevp })
    else if p = h.freep then
      match h.morecore nunits fuel with
      | none => none
      | some (0, h) => some (0, h)
      | some (p, h) => mallocLoop nunits fuel h p (h.hdr p).ptr
    else mallocLoop nunits fuel h p (h.hdr p).ptr

/-- `malloc(nbytes)`, with `fuel` passes of each loop. -/
def malloc (h : Heap) (nbytes : UInt32) (fuel : Nat) : Option (Nat × Heap) :=
  let h := if h.freep = 0 then { h.setHdr h.base { ptr := h.base, size := 0 } with freep := h.base } else h
  mallocLoop (nunits nbytes) fuel h h.freep (h.hdr h.freep).ptr

variable {h : Heap} {nbytes : UInt32} {nu : UInt32} {fuel : Nat}

@[simp] theorem setHdr_hdr {a : Nat} {v : Header} : (h.setHdr a v).hdr = Function.update h.hdr a v := rfl

@[simp] theorem setHdr_brk {a : Nat} {v : Header} : (h.setHdr a v).brk = h.brk := rfl

@[simp] theorem setHdr_base {a : Nat} {v : Header} : (h.setHdr a v).base = h.base := rfl

@[simp] theorem setHdr_top {a : Nat} {v : Header} : (h.setHdr a v).top = h.top := rfl

@[simp] theorem setHdr_freep {a : Nat} {v : Header} : (h.setHdr a v).freep = h.freep := rfl

/-! ### The unit count of a huge request -/

theorem nunits_toNat : (nunits nbytes).toNat = (nbytes.toNat + 15) / 16 + 1 := by
  have lt := nbytes.toNat_lt
  have sum : (nbytes.toUInt64 + 16 - 1).toNat = nbytes.toNat + 15 := by
    rw [UInt64.toNat_sub_of_le _ _ (by rw [UInt64.le_iff_toNat_le, UInt64.toNat_add]; simp; omega),
      UInt64.toNat_add]
    simp
    omega
  simp only [nunits, UInt64.toNat_toUInt32, UInt64.toNat_add, UInt64.toNat_div, sum]
  simp
  omega

theorem nunits_huge (huge : 2 ^ 32 - 31 ≤ nbytes.toNat) :
    4096 ≤ (nunits nbytes).toNat ∧
      ((nunits nbytes).toUInt64 * 16).toUInt32.toInt32.toInt = 16 * ((nunits nbytes).toNat - 2 ^ 28) := by
  have lt := nbytes.toNat_lt
  have units : (nunits nbytes).toNat = _ := nunits_toNat
  refine ⟨by omega, ?_⟩
  rw [← Int32.toInt_toBitVec, UInt32.toBitVec_toInt32, BitVec.toInt_eq_toNat_cond]
  simp
  omega

/-! ### A huge request from a fresh heap -/

theorem sbrk_grow {n : Int32} (nonneg : 0 ≤ n.toInt) (room : h.brk + n.toInt.toNat ≤ h.top) :
    h.sbrk n = (some h.brk, { h with brk := h.brk + n.toInt.toNat }) := by
  simp only [sbrk, if_pos nonneg, if_pos room]

theorem free_into_empty {bp : Nat} (only : h.hdr h.base = ⟨h.base, 0⟩) (start : h.freep = h.base)
    (above : h.base < bp) (enough : 1 ≤ fuel) :
    h.free (bp + headerSize) fuel =
      some { (h.setHdr bp { h.hdr bp with ptr := h.base }).setHdr h.base ⟨bp, 0⟩ with freep := h.base } := by
  obtain ⟨f, rfl⟩ : ∃ f, fuel = f + 1 := ⟨fuel - 1, by omega⟩
  have found : h.freeScan bp (f + 1) h.freep = some h.base := by
    simp [freeScan, start, only, above]
  have keep : Function.update h.hdr bp { h.hdr bp with ptr := h.base } h.base = ⟨h.base, 0⟩ := by
    rw [Function.update_of_ne (by omega), only]
  have apart : h.base ≠ bp := by omega
  simp [free, headerSize, found, only, apart, setHdr]

theorem morecore_first (only : h.hdr h.base = ⟨h.base, 0⟩) (start : h.freep = h.base) (below : h.base < h.brk)
    (large : 4096 ≤ nu.toNat) (granted : 0 ≤ (nu.toUInt64 * 16).toUInt32.toInt32.toInt)
    (room : h.brk + (nu.toUInt64 * 16).toUInt32.toInt32.toInt.toNat ≤ h.top) (enough : 1 ≤ fuel) :
    ∃ h', h.morecore nu fuel = some (h.base, h') ∧ h'.hdr h.base = ⟨h.brk, 0⟩ ∧ h'.hdr h.brk = ⟨h.base, nu⟩ ∧
      h'.brk = h.brk + (nu.toUInt64 * 16).toUInt32.toInt32.toInt.toNat ∧ h'.top = h.top ∧ h'.base = h.base ∧
      ∀ a, a ≠ h.base → a ≠ h.brk → h'.hdr a = h.hdr a := by
  have notSmall : ¬ nu < 4096 := by rw [UInt32.lt_iff_toNat_lt]; simp; omega
  have apart : h.base ≠ h.brk := by omega
  let grown : Heap := { h with brk := h.brk + (nu.toUInt64 * 16).toUInt32.toInt32.toInt.toNat }
  let sized := grown.setHdr h.brk { grown.hdr h.brk with size := nu }
  have freed : sized.free (h.brk + headerSize) fuel = _ := free_into_empty (by simp [sized, grown, apart, only])
    (by simp [sized, grown, start]) (by simp [sized, grown, below]) enough
  have run : h.morecore nu fuel = (sized.free (h.brk + headerSize) fuel).map fun h' => (h'.freep, h') := by
    simp only [morecore, if_neg notSmall, sbrk_grow granted room]
    rfl
  rw [run, freed, Option.map_some]
  refine ⟨_, congrArg some (Prod.ext ?_ rfl), ?_, ?_, ?_, ?_, ?_, fun a other other' => ?_⟩
  all_goals simp [sized, grown, apart.symm, *]

theorem morecore_small (small : nu.toNat < 4096) : h.morecore nu fuel = h.morecore 4096 fuel := by
  have below : nu < 4096 := by rw [UInt32.lt_iff_toNat_lt]; simpa using small
  simp only [morecore, if_pos below, ite_self]

theorem malloc_huge (fresh : h.freep = 0) (nonnull : 0 < h.base) (below : h.base < h.brk)
    (room : h.brk + headerSize ≤ h.top) (huge : 2 ^ 32 - 31 ≤ nbytes.toNat) (enough : 2 ≤ fuel) :
    ∃ h', h.malloc nbytes fuel = some (h.brk + headerSize, h') ∧ h'.freep = h.base ∧
      h'.hdr h.base = ⟨h.base, 0⟩ ∧ h'.hdr h.brk = ⟨h.base, nunits nbytes⟩ ∧
      h'.brk = h.brk + (16 * ((nunits nbytes).toNat - 2 ^ 28 : Int)).toNat ∧ h'.top = h.top ∧
      h'.base = h.base := by
  obtain ⟨f, rfl⟩ : ∃ f, fuel = f + 2 := ⟨fuel - 2, by omega⟩
  obtain ⟨large, count⟩ := nunits_huge huge
  have units : (nunits nbytes).toNat = _ := nunits_toNat
  have lt := nbytes.toNat_lt
  let h₀ : Heap := { h.setHdr h.base ⟨h.base, 0⟩ with freep := h.base }
  have granted : 0 ≤ ((nunits nbytes).toUInt64 * 16).toUInt32.toInt32.toInt := by rw [count]; omega
  have fits : h₀.brk + ((nunits nbytes).toUInt64 * 16).toUInt32.toInt32.toInt.toNat ≤ h₀.top := by
    show h.brk + _ ≤ h.top
    rw [count]
    simp only [headerSize] at room
    omega
  obtain ⟨h₁, more, first, second, grown, top, based, -⟩ := @morecore_first h₀ (nunits nbytes) (f + 1)
    (by simp [h₀]) rfl below large granted fits (by omega)
  have first' : h₁.hdr h.base = ⟨h.brk, 0⟩ := first
  have second' : h₁.hdr h.brk = ⟨h.base, nunits nbytes⟩ := second
  have notLarge : ¬ nunits nbytes ≤ 0 := by rw [UInt32.le_iff_toNat_le]; simp; omega
  have notNull : h.base ≠ 0 := by omega
  have passes : h.malloc nbytes (f + 2) = mallocLoop (nunits nbytes) (f + 1) h₁ h.base h.brk := by
    simp [malloc, fresh, mallocLoop, h₀, notLarge] at more ⊢
    simp [more, first']
  have taken : mallocLoop (nunits nbytes) (f + 1) h₁ h.base h.brk =
      some (h.brk + headerSize, { h₁.setHdr h.base { h₁.hdr h.base with ptr := h.base } with freep := h.base }) := by
    simp [mallocLoop, second']
  have newBreak : h₁.brk = h.brk + (16 * ((nunits nbytes).toNat - 2 ^ 28 : Int)).toNat := by
    rw [grown, count]
    rfl
  have apart : h.brk ≠ h.base := by omega
  refine ⟨_, passes.trans taken, rfl, ?_, ?_, newBreak, top, based⟩
  · simp [first']
  · simp [Function.update_of_ne apart, second']

/-- `freep` null, `malloc` of `2^32 - 31` bytes or more: the first pass finds
no block and `morecore` asks `sbrk` for `0` or `16` bytes but frees a block of
`2^28` units at the old break, which the second pass hands out whole. The
`nbytes` from the returned address run past the new break. -/
theorem malloc_past_break (fresh : h.freep = 0) (nonnull : 0 < h.base) (below : h.base < h.brk)
    (room : h.brk + headerSize ≤ h.top) (huge : 2 ^ 32 - 31 ≤ nbytes.toNat) (enough : 2 ≤ fuel) :
    ∃ h', h.malloc nbytes fuel = some (h.brk + headerSize, h') ∧ h'.brk ≤ h.brk + headerSize ∧
      h'.brk < h.brk + headerSize + nbytes.toNat := by
  obtain ⟨h', run, -, -, -, newBreak, -, -⟩ := malloc_huge fresh nonnull below room huge enough
  have units : (nunits nbytes).toNat = _ := nunits_toNat
  have lt := nbytes.toNat_lt
  refine ⟨h', run, ?_, ?_⟩ <;> simp only [newBreak, headerSize] <;> omega

theorem malloc_small (only : h.hdr h.base = ⟨h.base, 0⟩) (start : h.freep = h.base) (nonnull : 0 < h.base)
    (below : h.base < h.brk) (room : h.brk + 65536 ≤ h.top) (small : (nunits nbytes).toNat < 4096)
    (enough : 2 ≤ fuel) :
    ∃ q h', h.malloc nbytes fuel = some (q, h') ∧ h'.freep = h.base ∧ h'.base = h.base ∧
      h'.hdr h.base = ⟨h.brk, 0⟩ ∧ (h'.hdr h.brk).ptr = h.base ∧
      ∀ a, a < h.brk → a ≠ h.base → h'.hdr a = h.hdr a := by
  obtain ⟨f, rfl⟩ : ∃ f, fuel = f + 2 := ⟨fuel - 2, by omega⟩
  have units : (nunits nbytes).toNat = _ := nunits_toNat
  have fits : h.brk + ((4096 : UInt32).toUInt64 * 16).toUInt32.toInt32.toInt.toNat ≤ h.top := by
    rw [show ((4096 : UInt32).toUInt64 * 16).toUInt32.toInt32.toInt.toNat = 65536 by decide]
    exact room
  obtain ⟨h₁, more, first, second, -, -, based, frame⟩ :=
    @morecore_first h 4096 (f + 1) only start below (by decide) (by decide) fits (by omega)
  have notFit : ¬ nunits nbytes ≤ 0 := by rw [UInt32.le_iff_toNat_le]; simp; omega
  have notNull : h.base ≠ 0 := by omega
  have passes : h.malloc nbytes (f + 2) = mallocLoop (nunits nbytes) (f + 1) h₁ h.base h.brk := by
    simp [malloc, start, notNull, mallocLoop, only, notFit, morecore_small small, more, first]
  have fitsBlock : nunits nbytes ≤ (h₁.hdr h.brk).size := by
    rw [second, UInt32.le_iff_toNat_le]
    simp
    omega
  have notExact : (h₁.hdr h.brk).size ≠ nunits nbytes := by
    rw [second, ne_eq, UInt32.toNat_inj.symm]
    simp
    omega
  set rest : UInt32 := (h₁.hdr h.brk).size - nunits nbytes with restDef
  have restN : rest.toNat = 4096 - (nunits nbytes).toNat := by
    rw [restDef, UInt32.toNat_sub_of_le _ _ fitsBlock, second]
    rfl
  set q := h.brk + headerSize * rest.toNat
  have tail : h.brk < q := by simp only [q, headerSize, restN]; omega
  have cut : mallocLoop (nunits nbytes) (f + 1) h₁ h.base h.brk =
      some (q + headerSize, { (h₁.setHdr h.brk { h₁.hdr h.brk with size := rest }).setHdr q
        { (h₁.setHdr h.brk { h₁.hdr h.brk with size := rest }).hdr q with size := nunits nbytes } with
          freep := h.base }) := by
    simp [mallocLoop, fitsBlock, notExact, ← restDef, q]
  refine ⟨_, _, passes.trans cut, rfl, based, ?_, ?_, fun a low other => ?_⟩
  · simp [Function.update_of_ne (show h.base ≠ q by omega), Function.update_of_ne (show h.base ≠ h.brk by omega),
      first]
  · simp [Function.update_of_ne (show h.brk ≠ q by omega), second]
  · simp [Function.update_of_ne (show a ≠ q by omega), Function.update_of_ne (show a ≠ h.brk by omega),
      frame a other (by omega)]

theorem free_after_base {bp : Nat} (start : h.freep = h.base) (empty : (h.hdr h.base).size = 0)
    (above : h.base < bp) (before : bp < (h.hdr h.base).ptr)
    (apart : bp + headerSize * (h.hdr bp).size.toNat ≠ (h.hdr h.base).ptr) (enough : 1 ≤ fuel) :
    h.free (bp + headerSize) fuel =
      some { (h.setHdr bp { h.hdr bp with ptr := (h.hdr h.base).ptr }).setHdr h.base ⟨bp, 0⟩ with freep := h.base } := by
  obtain ⟨f, rfl⟩ : ∃ f, fuel = f + 1 := ⟨fuel - 1, by omega⟩
  have found : h.freeScan bp (f + 1) h.freep = some h.base := by
    simp [freeScan, start, above, before]
  have other : h.base ≠ bp := by omega
  have apart' : bp + 16 * (h.hdr bp).size.toNat ≠ (h.hdr h.base).ptr := apart
  simp [free, headerSize, found, apart', other, setHdr, empty]

/-- A heap before its first `malloc`: the break at `0x3000`, `base` in the
data below it. -/
def freshHeap : Heap :=
  { hdr := fun _ => ⟨0, 0⟩, freep := 0, brk := 0x3000, top := 0x80000000, base := 0x1010 }

theorem malloc_past_break_max :
    2 ^ 32 - 31 ≤ (0xFFFFFFFF : UInt32).toNat ∧
      ∃ h', freshHeap.malloc 0xFFFFFFFF 2 = some (0x3000 + headerSize, h') ∧ h'.brk ≤ 0x3000 + headerSize ∧
        h'.brk < 0x3000 + headerSize + (0xFFFFFFFF : UInt32).toNat :=
  ⟨by decide, malloc_past_break rfl (by decide) (by decide) (by decide) (by decide) (by decide)⟩

/-- On a fresh heap, `malloc` of `2^32 - 15` bytes or more, then of fewer than
`4096` units, then `free` of the first block: the first block `B`, of
`2^28 + 1` units at the old break, got only `16` bytes from `sbrk`, so the
second `morecore` puts its block `C` at `B + 16`, inside `B`. After the `free`
the list from `freep` is `base`, `B`, `C`, `base`, with `C` lying inside `B`. -/
theorem freeList_overlaps_after_huge_malloc {big little : UInt32} (fresh : h.freep = 0) (nonnull : 0 < h.base)
    (below : h.base < h.brk) (room : h.brk + headerSize + 65536 ≤ h.top) (huge : 2 ^ 32 - 15 ≤ big.toNat)
    (small : (nunits little).toNat < 4096) (enough : 2 ≤ fuel) :
    ∃ h₁ h₂ h₃ q, h.malloc big fuel = some (h.brk + headerSize, h₁) ∧ h₁.malloc little fuel = some (q, h₂) ∧
      h₂.free (h.brk + headerSize) fuel = some h₃ ∧ h₃.freep = h.base ∧
      (h₃.hdr h.base).ptr = h.brk ∧ (h₃.hdr h.brk).ptr = h.brk + headerSize ∧
      (h₃.hdr (h.brk + headerSize)).ptr = h.base ∧
      h.brk + headerSize < h.brk + headerSize * (h₃.hdr h.brk).size.toNat := by
  obtain ⟨h₁, first, freep₁, base₁, block₁, brk₁, top₁, based₁⟩ :=
    @malloc_huge h big fuel fresh nonnull below (by omega) (by omega) enough
  have units : (nunits big).toNat = 2 ^ 28 + 1 := by
    have count : (nunits big).toNat = _ := nunits_toNat
    have lt := big.toNat_lt
    omega
  have grown : h₁.brk = h.brk + headerSize := by
    rw [brk₁, units]
    rfl
  obtain ⟨q, h₂, second, freep₂, based₂, link₂, next₂, frame₂⟩ :=
    malloc_small (h := h₁) (by rw [based₁]; exact base₁) (by rw [freep₁, based₁]) (by rw [based₁]; exact nonnull)
      (by rw [based₁, grown]; omega) (by rw [grown, top₁]; omega) small enough
  rw [based₁, grown] at link₂ next₂
  rw [based₁] at freep₂ based₂ frame₂
  have blockB : h₂.hdr h.brk = ⟨h.base, nunits big⟩ := by
    rw [frame₂ h.brk (by rw [grown]; simp [headerSize]) (by omega), block₁]
  have freed := @free_after_base h₂ fuel h.brk (by rw [freep₂, based₂]) (by rw [based₂, link₂])
    (by rw [based₂]; exact below) (by rw [based₂, link₂]; simp [headerSize])
    (by rw [based₂, link₂, blockB, units]; simp [headerSize]) (by omega)
  rw [based₂, link₂] at freed
  have apart : h.brk ≠ h.base := by omega
  refine ⟨h₁, h₂, _, q, first, second, freed, rfl, ?_, ?_, ?_, ?_⟩
  · simp
  · simp [Function.update_of_ne apart]
  · simp [Function.update_of_ne (show h.brk + headerSize ≠ h.base by omega),
      Function.update_of_ne (show h.brk + headerSize ≠ h.brk by simp [headerSize]), next₂]
  · simp [Function.update_of_ne apart, blockB, units, headerSize]

theorem freeList_overlaps_after_huge_malloc_fresh :
    freshHeap.freep = 0 ∧ 0 < freshHeap.base ∧ freshHeap.base < freshHeap.brk ∧
      freshHeap.brk + headerSize + 65536 ≤ freshHeap.top ∧ 2 ^ 32 - 15 ≤ (0xFFFFFFFF : UInt32).toNat ∧
      (nunits 1).toNat < 4096 ∧
      ∃ h₁ h₂ h₃ q, freshHeap.malloc 0xFFFFFFFF 2 = some (0x3010, h₁) ∧ h₁.malloc 1 2 = some (q, h₂) ∧
        h₂.free 0x3010 2 = some h₃ ∧ h₃.freep = 0x1010 ∧
        (h₃.hdr 0x1010).ptr = 0x3000 ∧ (h₃.hdr 0x3000).ptr = 0x3010 ∧ (h₃.hdr 0x3010).ptr = 0x1010 ∧
        0x3010 < 0x3000 + headerSize * (h₃.hdr 0x3000).size.toNat :=
  ⟨rfl, by decide, by decide, by decide, by decide, by decide,
    freeList_overlaps_after_huge_malloc rfl (by decide) (by decide) (by decide) (by decide) (by decide)
      (by decide)⟩

end Heap

end Xv6.User
