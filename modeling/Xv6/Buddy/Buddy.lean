import Mathlib

/-! The buddy allocator of `buddy.c`: `firstk`, `bd_malloc` with its split
loop, `size` and `bd_free` with its merge loop. Each size `k` has a free list,
here the addresses on it from `lst->next` on (`lst_push` puts one in front,
`lst_pop` takes the front, `lst_remove` takes one out), and its `alloc` and
`split` bit arrays. Block indices are taken from offsets below `2^31`, where
`blk_index`'s `int` is exact. `firstk`'s `uint64` size is a `UInt64`, since
its overflow is what decides whether the loop ends. -/

namespace Xv6.Buddy

/-- `LEAF_SIZE`. -/
def leafSize : Nat := 16

/-- `BLK_SIZE(k)`. -/
def blkSize (k : Nat) : Nat := 2 ^ k * leafSize

/-- The allocator: `nsizes`, `bd_base`, and for each size its free list and
its `alloc` and `split` bits. -/
structure Bd where
  nsizes : Nat
  base : Nat
  free : Nat → List Nat
  alloc : Nat → Nat → Bool
  split : Nat → Nat → Bool

/-- The passes of `firstk`'s loop from `size` at `k`: none when `fuel` passes do
not end it. -/
def firstkLoop (n : UInt64) : Nat → UInt64 → Nat → Option Nat
  | 0, _, _ => none
  | fuel + 1, size, k => if size < n then firstkLoop n fuel (size * 2) (k + 1) else some k

/-- `firstk(n)`: the first `k` with `BLK_SIZE(k) >= n`. -/
def firstk (n : UInt64) : Option Nat :=
  firstkLoop n 61 16 0

/-- The bit `i` of size `k` set to `b`. -/
def setBit (bits : Nat → Nat → Bool) (k i : Nat) (b : Bool) : Nat → Nat → Bool :=
  fun k' i' => if k' = k ∧ i' = i then b else bits k' i'

namespace Bd

/-- `MAXSIZE`. -/
def maxsize (s : Bd) : Nat := s.nsizes - 1

/-- `blk_index(k, p)`. -/
def blkIndex (s : Bd) (k p : Nat) : Nat := (p - s.base) / blkSize k

/-- `addr(k, bi)`. -/
def addr (s : Bd) (k bi : Nat) : Nat := s.base + bi * blkSize k

/-- `lst_push(&bd_sizes[k].free, p)`. -/
def push (s : Bd) (k p : Nat) : Bd :=
  { s with free := Function.update s.free k (p :: s.free k) }

/-- `lst_remove(q)` of a block on the free list of size `k`. -/
def remove (s : Bd) (k q : Nat) : Bd :=
  { s with free := Function.update s.free k ((s.free k).erase q) }

/-- The split loop of `bd_malloc`, from size `k` down to `fk`: each pass marks
`p`'s block at `k` split and its lower half allocated, and puts the upper half
on the free list of size `k - 1`. -/
def splitDown (fk p : Nat) : Nat → Bd → Bd
  | 0, s => s
  | k + 1, s =>
    if fk < k + 1 then
      let q := p + blkSize k
      let s := { s with
        split := setBit s.split (k + 1) (s.blkIndex (k + 1) p) true
        alloc := setBit s.alloc k (s.blkIndex k p) true }
      splitDown fk p k (s.push k q)
    else s

/-- The first size from `fk` on whose free list is not empty, with the block
`lst_pop` takes from it and the rest of the list. -/
def firstFree (s : Bd) (fk : Nat) : Option (Nat × Nat × List Nat) :=
  (List.range' fk (s.nsizes - fk)).findSome? fun k =>
    match s.free k with
    | p :: rest => some (k, p, rest)
    | [] => none

/-- `bd_malloc(nbytes)`: the block and the allocator after it, `0` when no
free block is large enough; none when the call never returns. -/
def bdMalloc (s : Bd) (nbytes : UInt64) : Option (Nat × Bd) := do
  let fk ← firstk nbytes
  match s.firstFree fk with
  | none => return (0, s)
  | some (k, p, rest) =>
    let s := { s with
      free := Function.update s.free k rest
      alloc := setBit s.alloc k (s.blkIndex k p) true }
    return (p, splitDown fk p k s)

/-- `size(p)`: the first `k` whose block around `p` at `k + 1` is split. -/
def size (s : Bd) (p : Nat) : Nat :=
  ((List.range s.nsizes).find? fun k => s.split (k + 1) (s.blkIndex (k + 1) p)).getD 0

/-- The merge loop of `bd_free` from size `k`: free `p` at `k`; while its buddy
is free too, take the buddy off its free list and go on with the pair at
`k + 1`. -/
def mergeUp : Nat → Bd → Nat → Nat → Bd × Nat × Nat
  | 0, s, k, p => (s, k, p)
  | fuel + 1, s, k, p =>
    if k < s.maxsize then
      let bi := s.blkIndex k p
      let buddy := if bi % 2 = 0 then bi + 1 else bi - 1
      let s := { s with alloc := setBit s.alloc k bi false }
      if s.alloc k buddy then (s, k, p)
      else
        let q := s.addr k buddy
        let s := s.remove k q
        let p := if buddy % 2 = 0 then q else p
        let s := { s with split := setBit s.split (k + 1) (s.blkIndex (k + 1) p) false }
        mergeUp fuel s (k + 1) p
    else (s, k, p)

/-- `bd_free(p)`. -/
def bdFree (s : Bd) (p : Nat) : Bd :=
  let (s, k, p) := mergeUp s.nsizes s (s.size p) p
  s.push k p

end Bd

end Xv6.Buddy

namespace Xv6.Buddy

theorem firstkLoop_zero {n : UInt64} (positive : 0 < n) : ∀ fuel k, firstkLoop n fuel 0 k = none
  | 0, _ => rfl
  | fuel + 1, k => by
    rw [firstkLoop, if_pos positive, show (0 : UInt64) * 2 = 0 from rfl]
    exact firstkLoop_zero positive fuel (k + 1)

theorem toNat_ofNat_two_pow {e : Nat} (small : e < 64) : (UInt64.ofNat (2 ^ e)).toNat = 2 ^ e := by
  rw [UInt64.toNat_ofNat']
  exact Nat.mod_eq_of_lt (Nat.pow_lt_pow_right (by decide) small)

theorem blkSize_eq {e : Nat} (four : 4 ≤ e) : blkSize (e - 4) = 2 ^ e := by
  rw [blkSize, leafSize, show (16 : Nat) = 2 ^ 4 by rfl, ← Nat.pow_add, Nat.sub_add_cancel four]

theorem ofNat_two_pow_mul_two {e : Nat} : UInt64.ofNat (2 ^ e) * 2 = UInt64.ofNat (2 ^ (e + 1)) := by
  apply UInt64.toNat_inj.mp
  simp [UInt64.toNat_mul, UInt64.toNat_ofNat', Nat.pow_succ, Nat.mod_mul_mod]

theorem firstkLoop_pow_none {n : UInt64} (huge : 2 ^ 63 < n.toNat) :
    ∀ m e, e + m = 64 → ∀ fuel k, firstkLoop n fuel (UInt64.ofNat (2 ^ e)) k = none := by
  intro m
  induction m with
  | zero =>
    intro e sum fuel k
    have wrapped : UInt64.ofNat (2 ^ e) = 0 := by
      rw [show e = 64 by omega]
      decide
    rw [wrapped]
    exact firstkLoop_zero (by rw [UInt64.lt_iff_toNat_lt]; simp; omega) fuel k
  | succ m ih =>
    intro e sum fuel k
    cases fuel with
    | zero => rfl
    | succ fuel =>
      have below : UInt64.ofNat (2 ^ e) < n := by
        rw [UInt64.lt_iff_toNat_lt, toNat_ofNat_two_pow (by omega)]
        have : 2 ^ e ≤ 2 ^ 63 := Nat.pow_le_pow_right (by decide) (by omega)
        omega
      rw [firstkLoop, if_pos below, ofNat_two_pow_mul_two]
      exact ih (e + 1) (by omega) fuel (k + 1)

theorem firstkLoop_ends {n : UInt64} (small : n.toNat ≤ 2 ^ 63) :
    ∀ m e, e + m = 63 → 4 ≤ e → (∀ j < e - 4, blkSize j < n.toNat) → ∀ fuel, m < fuel →
      ∃ k, firstkLoop n fuel (UInt64.ofNat (2 ^ e)) (e - 4) = some k ∧ n.toNat ≤ blkSize k ∧
        ∀ j < k, blkSize j < n.toNat := by
  intro m
  induction m with
  | zero =>
    intro e sum four below fuel more
    obtain ⟨fuel, rfl⟩ : ∃ f, fuel = f + 1 := ⟨fuel - 1, by omega⟩
    have top : e = 63 := by omega
    have stop : ¬ UInt64.ofNat (2 ^ e) < n := by
      rw [UInt64.lt_iff_toNat_lt, toNat_ofNat_two_pow (by omega), top]
      omega
    rw [firstkLoop, if_neg stop]
    exact ⟨e - 4, rfl, by rw [blkSize_eq four, top]; omega, below⟩
  | succ m ih =>
    intro e sum four below fuel more
    obtain ⟨fuel, rfl⟩ : ∃ f, fuel = f + 1 := ⟨fuel - 1, by omega⟩
    have size := toNat_ofNat_two_pow (show e < 64 by omega)
    by_cases lt : UInt64.ofNat (2 ^ e) < n
    · rw [firstkLoop, if_pos lt, ofNat_two_pow_mul_two, show e - 4 + 1 = e + 1 - 4 by omega]
      refine ih (e + 1) (by omega) (by omega) (fun j short => ?_) fuel (by omega)
      rcases Nat.lt_or_ge j (e - 4) with low | high
      · exact below j low
      · rw [show j = e - 4 by omega, blkSize_eq four]
        rwa [UInt64.lt_iff_toNat_lt, size] at lt
    · rw [firstkLoop, if_neg lt]
      refine ⟨e - 4, rfl, ?_, below⟩
      rw [blkSize_eq four]
      rw [UInt64.lt_iff_toNat_lt, size] at lt
      omega

theorem firstk_eq_some {n : UInt64} (small : n.toNat ≤ 2 ^ 63) :
    ∃ k, firstk n = some k ∧ n.toNat ≤ blkSize k ∧ ∀ j < k, blkSize j < n.toNat :=
  firstkLoop_ends small 59 4 rfl (Nat.le_refl 4) (fun j short => absurd short (Nat.not_lt_zero j)) 61 (by decide)

/-- `bd_malloc(n)` for `n` above `2^63` never returns, whatever the allocator
holds: `firstk`'s loop runs forever. -/
theorem bdMalloc_diverges {n : UInt64} (huge : 2 ^ 63 < n.toNat) :
    (∀ fuel, firstkLoop n fuel 16 0 = none) ∧ ∀ s : Bd, s.bdMalloc n = none := by
  have loops (fuel : Nat) : firstkLoop n fuel 16 0 = none :=
    firstkLoop_pow_none huge 60 4 rfl fuel 0
  refine ⟨loops, fun s => ?_⟩
  simp [Bd.bdMalloc, firstk, loops]

theorem bdMalloc_diverges_justAbove :
    2 ^ 63 < (9223372036854775809 : UInt64).toNat ∧
      (∀ fuel, firstkLoop 9223372036854775809 fuel 16 0 = none) ∧
        ∀ s : Bd, s.bdMalloc 9223372036854775809 = none :=
  ⟨by decide, bdMalloc_diverges (by decide)⟩

end Xv6.Buddy
