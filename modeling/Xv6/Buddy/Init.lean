import Mathlib
import Xv6.Buddy.Buddy

/-! `bd_init` of `buddy.c`: the number of sizes, the metadata laid out from
`bd_base` (the `Sz_info` array, an `alloc` array per size, a `split` array per
size above `0`), `bd_mark` of the metadata and of the unavailable tail, and
`bd_initfree`, which looks only at the pair of blocks at each end of the free
range. The bit arrays lie side by side in the metadata, `ROUNDUP(NBLK(k), 8)/8`
bytes each, so a `bit_isset` past the bytes of one array reads the next one.
Every `bit_isset` and `bit_set` is also recorded with its array, size and
index. The `printf`s are left out. -/

namespace Xv6.Buddy

/-- `ROUNDUP(n, sz)`, for the positive `n` it is given. -/
def roundup (n sz : Nat) : Nat := ((n - 1) / sz + 1) * sz

/-- `log2(n)`: the halvings that bring `n` down to `1`. -/
def log2 (n : Nat) : Nat := Nat.log2 n

/-- `sizeof(Sz_info)`: a list head of two pointers and the two array pointers. -/
def szInfoSize : Nat := 32

/-- A bit array of `bd_sizes[k]`. -/
inductive Bits where
  | alloc
  | split
  deriving DecidableEq, Repr

namespace Bd

/-- `NBLK(k)`. -/
def nblk (s : Bd) (k : Nat) : Nat := 2 ^ (s.maxsize - k)

/-- `blk_index_next(k, p)`: the first block at size `k` that does not contain `p`. -/
def blkIndexNext (s : Bd) (k p : Nat) : Nat :=
  if (p - s.base) % blkSize k ≠ 0 then (p - s.base) / blkSize k + 1 else (p - s.base) / blkSize k

/-- `ROUNDUP(NBLK(k), 8)/8`: the bytes of a bit array at size `k`. -/
def arrayBytes (s : Bd) (k : Nat) : Nat := roundup (s.nblk k) 8 / 8

/-- The bits of one array of `bd_sizes`. -/
def bits (s : Bd) : Bits → Nat → Nat → Bool
  | .alloc => s.alloc
  | .split => s.split

/-- The bit arrays of `bd_sizes` in the order `bd_init` lays them out: an
`alloc` array for every size, then a `split` array for every size above `0`. -/
def arrays (s : Bd) : List (Bits × Nat) :=
  (List.range s.nsizes).map (fun k => (.alloc, k)) ++ (List.range' 1 (s.nsizes - 1)).map (fun k => (.split, k))

/-- Bit `i` counted from the start of the first of the arrays `l`: past the
bytes of one array the index runs on into the next. -/
def bitFrom (s : Bd) : List (Bits × Nat) → Nat → Bool
  | [], _ => false
  | (b, k) :: rest, i => if i < 8 * s.arrayBytes k then s.bits b k i else s.bitFrom rest (i - 8 * s.arrayBytes k)

/-- `bit_isset(bd_sizes[k].alloc, i)` on the metadata as it lies in memory. -/
def allocIsset (s : Bd) (k i : Nat) : Bool :=
  s.bitFrom (s.arrays.drop k) i

end Bd

/-- The allocator as `bd_init` builds it, and the bits it has touched, the
latest first. -/
structure Init where
  bd : Bd
  touched : List (Bits × Nat × Nat)

namespace Init

/-- `bit_set(bd_sizes[k].bits, i)`. -/
def bitSet (s : Init) (b : Bits) (k i : Nat) : Init where
  bd := match b with
    | .alloc => { s.bd with alloc := setBit s.bd.alloc k i true }
    | .split => { s.bd with split := setBit s.bd.split k i true }
  touched := (b, k, i) :: s.touched

/-- A `bit_isset(bd_sizes[k].alloc, i)`: only the record changes. -/
def touch (s : Init) (k i : Nat) : Init := { s with touched := (.alloc, k, i) :: s.touched }

/-- `bd_sizes` as the `memset`s and `lst_init`s leave it: every list empty and
no bit set. -/
def fresh (nsizes base : Nat) : Init := ⟨⟨nsizes, base, fun _ => [], fun _ _ => false, fun _ _ => false⟩, []⟩

/-- `lst_push(&bd_sizes[k].free, p)`. -/
def push (s : Init) (k p : Nat) : Init := { s with bd := s.bd.push k p }

/-- One pass of `bd_mark`'s inner loop: block `i` of size `k` marked split,
above size `0`, and allocated. -/
def markBlock (k : Nat) (s : Init) (i : Nat) : Init :=
  (if 0 < k then s.bitSet .split k i else s).bitSet .alloc k i

/-- The inner loop of `bd_mark` at size `k`, over the blocks from `bi` below `bj`. -/
def markRange (s : Init) (k bi bj : Nat) : Init :=
  (List.range' bi (bj - bi)).foldl (markBlock k) s

/-- The loop of `bd_mark(start, stop)` over the sizes. -/
def markSizes (s : Init) (start stop : Nat) : Init :=
  (List.range s.bd.nsizes).foldl (fun t k => t.markRange k (s.bd.blkIndex k start) (s.bd.blkIndexNext k stop)) s

/-- `bd_mark(start, stop)`. -/
def bdMark (s : Init) (start stop : Nat) : Except String Init :=
  if start % leafSize ≠ 0 ∨ stop % leafSize ≠ 0 then throw "bd_mark"
  else pure (s.markSizes start stop)

/-- `bd_initfree_pair(k, bi)`: where exactly one of `bi` and its buddy is
allocated, the other goes on the free list, and its size is the result. -/
def initfreePair (s : Init) (k bi : Nat) : Init × Nat :=
  let buddy := if bi % 2 = 0 then bi + 1 else bi - 1
  let t := (s.touch k bi).touch k buddy
  if s.bd.allocIsset k bi ≠ s.bd.allocIsset k buddy then
    let t := t.touch k bi
    if s.bd.allocIsset k bi then (t.push k (s.bd.addr k buddy), blkSize k)
    else (t.push k (s.bd.addr k bi), blkSize k)
  else (t, 0)

/-- One pass of `bd_initfree`'s loop, at size `k`: the pair at the left end,
then the pair at the right end where it lies above the left one. -/
def initfreeStep (s : Init) (bdLeft bdRight : Nat) (acc : Init × Nat) (k : Nat) : Init × Nat :=
  let left := s.bd.blkIndexNext k bdLeft
  let right := s.bd.blkIndex k bdRight
  let first := initfreePair acc.1 k left
  if right ≤ left then (first.1, acc.2 + first.2)
  else
    let second := initfreePair first.1 k right
    (second.1, acc.2 + first.2 + second.2)

/-- `bd_initfree(bd_left, bd_right)`: the loop over every size below `MAXSIZE`,
and the free memory it counts. -/
def bdInitfree (s : Init) (bdLeft bdRight : Nat) : Init × Nat :=
  (List.range s.bd.maxsize).foldl (initfreeStep s bdLeft bdRight) (s, 0)

/-- `bd_mark_data_structures(p)`: `[bd_base, p)` marked, and its size. -/
def bdMarkDataStructures (s : Init) (p : Nat) : Except String (Init × Nat) := do
  let metaBytes := p - s.bd.base
  let s ← s.bdMark s.bd.base p
  return (s, metaBytes)

/-- `bd_mark_unavailable(end, left)`: what lies past `end` in the heap, rounded
up to a leaf, marked, and its size. -/
def bdMarkUnavailable (s : Init) (endp : Nat) : Except String (Init × Nat) := do
  let unavailable := blkSize s.bd.maxsize - (endp - s.bd.base)
  let unavailable := if 0 < unavailable then roundup unavailable leafSize else unavailable
  let bdEnd := s.bd.base + blkSize s.bd.maxsize - unavailable
  let s ← s.bdMark bdEnd (s.bd.base + blkSize s.bd.maxsize)
  return (s, unavailable)

end Init

/-- Where `bd_init`'s metadata ends for `nsizes` sizes from `p`: the `Sz_info`
array, then the `alloc` arrays, then the `split` arrays, each of
`ROUNDUP(NBLK(k), 8)/8` bytes, rounded up to a leaf. -/
def metaEnd (nsizes p : Nat) : Nat :=
  let nblk (k : Nat) := 2 ^ (nsizes - 1 - k)
  let p := p + szInfoSize * nsizes
  let p := (List.range nsizes).foldl (fun p k => p + roundup (nblk k) 8 / 8) p
  let p := (List.range' 1 (nsizes - 1)).foldl (fun p k => p + roundup (nblk k) 8 / 8) p
  roundup p leafSize

/-- `bd_init(base, end)`, which panics where `bd_mark` does or where the free
memory counted is not what the metadata and the tail leave. -/
def bdInit (base endp : Nat) : Except String Init := do
  let p := roundup base leafSize
  let nsizes := log2 ((endp - p) / leafSize) + 1
  let nsizes := if endp - p > blkSize (nsizes - 1) then nsizes + 1 else nsizes
  let s := Init.fresh nsizes p
  let p := metaEnd nsizes p
  let (s, metaBytes) ← s.bdMarkDataStructures p
  let (s, unavailable) ← s.bdMarkUnavailable endp
  let bdEnd := s.bd.base + blkSize s.bd.maxsize - unavailable
  let (s, free) := s.bdInitfree p bdEnd
  if free ≠ blkSize s.bd.maxsize - metaBytes - unavailable then throw "bd_init: free mem"
  return s

section Sizes

theorem blkSize_pos (k : Nat) : 0 < blkSize k := by
  unfold blkSize leafSize
  positivity

theorem blkSize_succ (k : Nat) : blkSize (k + 1) = blkSize k * 2 := by
  unfold blkSize
  ring

theorem blkSize_mul_pow {k n : Nat} (le : k ≤ n) : blkSize k * 2 ^ (n - k) = blkSize n := by
  unfold blkSize
  rw [Nat.mul_right_comm, ← Nat.pow_add, Nat.add_sub_cancel' le]

end Sizes

namespace Init

section Frame

variable {s : Init} {b : Bits} {k k' i j p : Nat}

@[simp] theorem bitSet_nsizes : (s.bitSet b k i).bd.nsizes = s.bd.nsizes := by
  cases b <;> rfl

@[simp] theorem bitSet_base : (s.bitSet b k i).bd.base = s.bd.base := by
  cases b <;> rfl

@[simp] theorem bitSet_split_alloc : (s.bitSet .split k i).bd.alloc = s.bd.alloc := rfl

@[simp] theorem bitSet_alloc_alloc : (s.bitSet .alloc k i).bd.alloc = setBit s.bd.alloc k i true := rfl

theorem setBit_true {bits : Nat → Nat → Bool} :
    setBit bits k i true k' j = true ↔ bits k' j = true ∨ (k' = k ∧ j = i) := by
  unfold setBit
  split <;> simp_all

end Frame

section Mark

variable {s t : Init} {k k' i j : Nat}

theorem markBlock_alloc : (markBlock k s i).bd.alloc k' j = true ↔ s.bd.alloc k' j = true ∨ (k' = k ∧ j = i) := by
  have kept : (if 0 < k then s.bitSet .split k i else s).bd.alloc = s.bd.alloc := by
    split <;> rfl
  rw [markBlock, bitSet_alloc_alloc, kept, setBit_true]

theorem markBlock_frame : (markBlock k s i).bd.nsizes = s.bd.nsizes ∧ (markBlock k s i).bd.base = s.bd.base := by
  unfold markBlock
  split <;> simp

theorem foldl_markBlock (l : List Nat) (s : Init) :
    (∀ k' j, (l.foldl (markBlock k) s).bd.alloc k' j = true ↔ s.bd.alloc k' j = true ∨ (k' = k ∧ j ∈ l)) ∧
      (l.foldl (markBlock k) s).bd.nsizes = s.bd.nsizes ∧ (l.foldl (markBlock k) s).bd.base = s.bd.base := by
  induction l generalizing s with
  | nil => exact ⟨fun k' j => by simp, rfl, rfl⟩
  | cons i l ih =>
    obtain ⟨bits, nsizes, base⟩ := ih (markBlock k s i)
    refine ⟨fun k' j => ?_, by rw [List.foldl_cons, nsizes, markBlock_frame.1],
      by rw [List.foldl_cons, base, markBlock_frame.2]⟩
    rw [List.foldl_cons, bits, markBlock_alloc, List.mem_cons]
    tauto

theorem markRange_spec (bi bj : Nat) :
    (∀ k' j, (s.markRange k bi bj).bd.alloc k' j = true ↔ s.bd.alloc k' j = true ∨ (k' = k ∧ bi ≤ j ∧ j < bj)) ∧
      (s.markRange k bi bj).bd.nsizes = s.bd.nsizes ∧ (s.markRange k bi bj).bd.base = s.bd.base := by
  obtain ⟨bits, frame⟩ := foldl_markBlock (k := k) (List.range' bi (bj - bi)) s
  refine ⟨fun k' j => ?_, frame⟩
  rw [markRange, bits k' j, List.mem_range'_1]
  constructor
  · rintro (old | ⟨rfl, low, high⟩)
    · exact .inl old
    · exact .inr ⟨rfl, low, by omega⟩
  · rintro (old | ⟨rfl, low, high⟩)
    · exact .inl old
    · exact .inr ⟨rfl, low, by omega⟩

theorem foldl_markRange (l : List Nat) (f g : Nat → Nat) (t : Init) :
    (∀ k j, (l.foldl (fun t k => t.markRange k (f k) (g k)) t).bd.alloc k j = true ↔
        t.bd.alloc k j = true ∨ (k ∈ l ∧ f k ≤ j ∧ j < g k)) ∧
      (l.foldl (fun t k => t.markRange k (f k) (g k)) t).bd.nsizes = t.bd.nsizes ∧
      (l.foldl (fun t k => t.markRange k (f k) (g k)) t).bd.base = t.bd.base := by
  induction l generalizing t with
  | nil => exact ⟨fun k j => by simp, rfl, rfl⟩
  | cons k₀ l ih =>
    obtain ⟨bits, nsizes, base⟩ := ih (t.markRange k₀ (f k₀) (g k₀))
    obtain ⟨bits₀, nsizes₀, base₀⟩ := markRange_spec (s := t) (k := k₀) (f k₀) (g k₀)
    refine ⟨fun k j => ?_, by rw [List.foldl_cons, nsizes, nsizes₀], by rw [List.foldl_cons, base, base₀]⟩
    rw [List.foldl_cons, bits, bits₀, List.mem_cons]
    constructor
    · rintro ((old | ⟨rfl, range⟩) | ⟨mem, range⟩)
      · exact .inl old
      · exact .inr ⟨.inl rfl, range⟩
      · exact .inr ⟨.inr mem, range⟩
    · rintro (old | ⟨rfl | mem, range⟩)
      · exact .inl (.inl old)
      · exact .inl (.inr ⟨rfl, range⟩)
      · exact .inr ⟨mem, range⟩

theorem markSizes_spec (start stop : Nat) :
    (∀ k j, (s.markSizes start stop).bd.alloc k j = true ↔ s.bd.alloc k j = true ∨
        (k < s.bd.nsizes ∧ s.bd.blkIndex k start ≤ j ∧ j < s.bd.blkIndexNext k stop)) ∧
      (s.markSizes start stop).bd.nsizes = s.bd.nsizes ∧ (s.markSizes start stop).bd.base = s.bd.base := by
  obtain ⟨bits, frame⟩ := foldl_markRange (List.range s.bd.nsizes)
    (fun k => s.bd.blkIndex k start) (fun k => s.bd.blkIndexNext k stop) s
  refine ⟨fun k j => ?_, frame⟩
  rw [markSizes, bits, List.mem_range]

theorem bdMark_ok {start stop : Nat} (aligned : start % leafSize = 0) (aligned' : stop % leafSize = 0) :
    s.bdMark start stop = .ok (s.markSizes start stop) := by
  rw [bdMark, if_neg (by omega)]
  rfl

/-- `bd_mark(start, stop)` panics exactly when an end is not a multiple of
`LEAF_SIZE`; otherwise it allocates, at every size, exactly the blocks that
overlap `[start, stop)`, and keeps `nsizes` and `bd_base`. -/
theorem bdMark_marks (s : Init) (start stop : Nat) :
    (s.bdMark start stop = .error "bd_mark" ↔ start % leafSize ≠ 0 ∨ stop % leafSize ≠ 0) ∧
      ∀ t, s.bdMark start stop = .ok t →
        (∀ k j, t.bd.alloc k j = true ↔ s.bd.alloc k j = true ∨
          (k < s.bd.nsizes ∧ s.bd.blkIndex k start ≤ j ∧ j < s.bd.blkIndexNext k stop)) ∧
        t.bd.nsizes = s.bd.nsizes ∧ t.bd.base = s.bd.base := by
  by_cases unaligned : start % leafSize ≠ 0 ∨ stop % leafSize ≠ 0
  · have stops : s.bdMark start stop = .error "bd_mark" := by
      rw [bdMark, if_pos unaligned]
      rfl
    refine ⟨iff_of_true stops unaligned, fun t marked => ?_⟩
    rw [stops] at marked
    cases marked
  · have marks : s.bdMark start stop = .ok (s.markSizes start stop) := bdMark_ok (by omega) (by omega)
    refine ⟨iff_of_false (by rw [marks]; exact nofun) unaligned, fun t marked => ?_⟩
    rw [marks] at marked
    cases marked
    exact markSizes_spec start stop

end Mark

end Init

/-- A heap of exactly `BLK_SIZE(12)` bytes from an aligned base. `bd_initfree`
takes the right end of the free range at the end of the heap, block `NBLK(k)`
at every size `k`, and reads bits `NBLK(k)` and `NBLK(k) + 1` of `alloc[k]`:
for `k ≤ 9` these are the first two bits of `alloc[k + 1]`. Where the
metadata covers the first block of size `k + 1` but not the second, the two
differ, and `bd_initfree` counts a free block past the heap at size `k`. The
count then exceeds what the metadata leaves, and `bd_init` panics. -/
theorem bdInit_free_mem_panics : bdInit 4096 (4096 + blkSize 12) = .error "bd_init: free mem" := by
  have panics : (match bdInit 4096 (4096 + blkSize 12) with
      | .error e => e == "bd_init: free mem"
      | .ok _ => false) = true := by decide +kernel
  cases run : bdInit 4096 (4096 + blkSize 12) with
  | error e =>
    rw [run] at panics
    simpa using panics
  | ok s =>
    rw [run] at panics
    cases panics

end Xv6.Buddy
