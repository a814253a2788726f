import Mathlib
import Xv6.Buddy.Init
import Xv6.Lib.Dyadic

/-! The tree of blocks that `bd_malloc` and `bd_free` keep. Block `c` of size
`k` is in the tree when every block above it is split; a block of the tree that
is not split is free, on its size's free list, or handed out whole, with its
`alloc` bit set. `Wf` says that the bits and the lists tell the same tree, and
each step of the two calls keeps it: `bd_malloc`'s pop and each pass of its
split loop, each pass of `bd_free`'s merge loop and its final push. `size(p)`
finds the size of a block handed out whole below the top: the first size whose
block around `p` one size up is split. The one thing `Wf` leaves open is the
`alloc` bit of the top block once it is free again: `bd_free`'s loop stops at
`MAXSIZE` without clearing it. -/


namespace Xv6.Buddy

open Lib.Dyadic

theorem setBit_apply {bits : Nat → Nat → Bool} {k i : Nat} {b : Bool} {k' j : Nat} :
    setBit bits k i b k' j = if k' = k ∧ j = i then b else bits k' j := rfl

namespace Bd

variable {s t : Bd} {k j c p : Nat} {rest : List Nat}

/-! ### Addresses of blocks -/

theorem blkIndex_addr_up (s : Bd) (le : k ≤ j) (c : Nat) : s.blkIndex j (s.addr k c) = up c (j - k) := by
  unfold blkIndex addr up
  rw [Nat.add_sub_cancel_left, ← blkSize_mul_pow le, ← Nat.div_div_eq_div_mul,
    Nat.mul_div_cancel _ (blkSize_pos k)]

@[simp] theorem blkIndex_addr (s : Bd) (k c : Nat) : s.blkIndex k (s.addr k c) = c := by
  simpa using s.blkIndex_addr_up (Nat.le_refl k) c

theorem blkIndex_addr_down (s : Bd) (le : j ≤ k) (c : Nat) :
    s.blkIndex j (s.addr k c) = c * 2 ^ (k - j) := by
  unfold blkIndex addr
  rw [Nat.add_sub_cancel_left, ← blkSize_mul_pow le, Nat.mul_left_comm,
    Nat.mul_div_cancel_left _ (blkSize_pos j)]

theorem addr_succ (s : Bd) (k c : Nat) : s.addr (k + 1) c = s.addr k (2 * c) := by
  unfold addr
  rw [blkSize_succ]
  ring

theorem addr_double_add_one (s : Bd) (k c : Nat) : s.addr k (2 * c + 1) = s.addr k (2 * c) + blkSize k := by
  unfold addr
  ring

theorem addr_inj (s : Bd) {c' : Nat} (same : s.addr k c = s.addr k c') : c = c' := by
  simpa using congrArg (s.blkIndex k) same

/-- What the steps of `bd_malloc` and `bd_free` leave alone: the number of
sizes and the heap's base. -/
structure SameHeap (s t : Bd) : Prop where
  nsizes : t.nsizes = s.nsizes
  base : t.base = s.base

theorem SameHeap.refl (s : Bd) : SameHeap s s := ⟨rfl, rfl⟩

theorem SameHeap.trans {u : Bd} (first : SameHeap s t) (second : SameHeap t u) : SameHeap s u :=
  ⟨second.nsizes.trans first.nsizes, second.base.trans first.base⟩

theorem SameHeap.maxsize (heap : SameHeap s t) : t.maxsize = s.maxsize := by
  unfold Bd.maxsize
  rw [heap.nsizes]

theorem SameHeap.addr (heap : SameHeap s t) : t.addr = s.addr := by
  funext k c
  unfold Bd.addr
  rw [heap.base]

/-! ### The tree -/

/-- Block `c` of size `k` is one of the allocator's blocks: it lies in the heap
and every block above it is split. -/
def Present (s : Bd) (k c : Nat) : Prop :=
  InTree s.split s.maxsize k c

theorem present_congr (heap : SameHeap s t) (split : t.split = s.split) :
    t.Present k c ↔ s.Present k c := by
  unfold Present
  rw [split, heap.maxsize]

/-- A block of the tree handed out whole: not split, its `alloc` bit set, and on
no free list. -/
structure AllocLeaf (s : Bd) (k c : Nat) : Prop where
  present : s.Present k c
  unsplit : s.split k c = false
  alloc : s.alloc k c = true
  notFree : s.addr k c ∉ s.free k

/-- The allocator's bits and lists tell one tree: a split block, and one with its
`alloc` bit set, is in the tree, and a split block is marked allocated; the free
lists hold each block once, and hold exactly the blocks of the tree below the
top that are neither split nor marked allocated; and no two buddies are free
together, since `bd_free` would have joined them. -/
structure Wf (s : Bd) : Prop where
  sizes : 0 < s.nsizes
  split_present : ∀ k c, s.split k c = true → 0 < k ∧ s.Present k c
  alloc_present : ∀ k c, s.alloc k c = true → s.Present k c
  split_alloc : ∀ k c, s.split k c = true → s.alloc k c = true
  free_nodup : ∀ k, (s.free k).Nodup
  free_leaf : ∀ k p, p ∈ s.free k → ∃ c, p = s.addr k c ∧ s.Present k c ∧ s.split k c = false ∧
    (k < s.maxsize → s.alloc k c = false)
  leaf_free : ∀ k c, s.Present k c → s.split k c = false → k < s.maxsize → s.alloc k c = false →
    s.addr k c ∈ s.free k
  coalesced : ∀ k c, s.addr k c ∈ s.free k → s.addr k (sibling c) ∉ s.free k

theorem not_present_below {x : Nat} (unsplit : s.split k c = false) (lower : j < k) (le : k ≤ s.maxsize)
    (under : up x (k - j) = c) : ¬ s.Present j x := fun present => by
  have split := present.above lower le
  rw [under, unsplit] at split
  cases split

theorem AllocLeaf.iff_self (leaf : s.AllocLeaf k c) (j x : Nat) :
    s.AllocLeaf j x ↔ (s.AllocLeaf j x ∧ ¬ (j = k ∧ x = c)) ∨ (j = k ∧ x = c) := by
  by_cases same : j = k ∧ x = c
  · obtain ⟨rfl, rfl⟩ := same
    simp [leaf]
  · simp [same]

theorem Wf.mem_free (wf : s.Wf) (mem : s.addr k c ∈ s.free k) :
    s.Present k c ∧ s.split k c = false ∧ (k < s.maxsize → s.alloc k c = false) := by
  obtain ⟨c', same, present, unsplit, clear⟩ := wf.free_leaf k _ mem
  obtain rfl := s.addr_inj same
  exact ⟨present, unsplit, clear⟩

theorem Wf.absent (wf : s.Wf) (out : ¬ s.Present k c) :
    s.split k c = false ∧ s.alloc k c = false ∧ s.addr k c ∉ s.free k :=
  ⟨Bool.eq_false_iff.mpr fun split => out (wf.split_present k c split).2,
    Bool.eq_false_iff.mpr fun alloc => out (wf.alloc_present k c alloc),
    fun mem => out (wf.mem_free mem).1⟩

theorem Wf.unsplit_of_alloc (wf : s.Wf) (clear : s.alloc k c = false) : s.split k c = false :=
  Bool.eq_false_iff.mpr fun split => by simp [wf.split_alloc k c split] at clear

theorem mem_push_iff (heap : SameHeap s t) (free : t.free = Function.update s.free k (s.addr k c :: s.free k))
    (j x : Nat) : t.addr j x ∈ t.free j ↔ s.addr j x ∈ s.free j ∨ (j = k ∧ x = c) := by
  rw [heap.addr, free, Function.update_apply]
  split
  · subst j
    rw [List.mem_cons]
    constructor
    · rintro (same | mem)
      · exact .inr ⟨rfl, s.addr_inj same⟩
      · exact .inl mem
    · rintro (mem | ⟨-, rfl⟩)
      · exact .inr mem
      · exact .inl rfl
  · simp_all

theorem Wf.mem_erase_iff (wf : s.Wf) (heap : SameHeap s t)
    (free : t.free = Function.update s.free k ((s.free k).erase (s.addr k c))) (j x : Nat) :
    t.addr j x ∈ t.free j ↔ s.addr j x ∈ s.free j ∧ ¬ (j = k ∧ x = c) := by
  rw [heap.addr, free, Function.update_apply]
  split
  · subst j
    rw [(wf.free_nodup _).mem_erase_iff]
    constructor
    · rintro ⟨other, mem⟩
      exact ⟨mem, fun taken => other (taken.2 ▸ rfl)⟩
    · rintro ⟨mem, other⟩
      exact ⟨fun same => other ⟨rfl, s.addr_inj same⟩, mem⟩
  · simp_all

/-! ### `bd_malloc` -/

theorem Wf.pop (wf : s.Wf) (head : s.free k = p :: rest) (heap : SameHeap s t)
    (split : t.split = s.split) (free : t.free = Function.update s.free k rest)
    (alloc : t.alloc = setBit s.alloc k (s.blkIndex k p) true) :
    ∃ c, p = s.addr k c ∧ ¬ s.AllocLeaf k c ∧ t.Wf ∧
      ∀ j x, t.AllocLeaf j x ↔ s.AllocLeaf j x ∨ (j = k ∧ x = c) := by
  obtain ⟨c, rfl, present, unsplit, -⟩ := wf.free_leaf k p (by simp [head])
  obtain ⟨notRest, restNodup⟩ := List.nodup_cons.mp (head ▸ wf.free_nodup k)
  have presentT : ∀ j x, t.Present j x ↔ s.Present j x := fun j x => present_congr heap split
  have allocT : ∀ j x, t.alloc j x = true ↔ s.alloc j x = true ∨ (j = k ∧ x = c) := by
    intro j x
    rw [alloc, blkIndex_addr]
    exact Init.setBit_true
  have freeT := wf.mem_erase_iff heap (by rw [free, head, List.erase_cons_head])
  refine ⟨c, rfl, fun leaf => leaf.notFree (by simp [head]), ⟨heap.nsizes ▸ wf.sizes, ?_, ?_, ?_, ?_, ?_, ?_, ?_⟩, ?_⟩
  · intro j x splitJ
    obtain ⟨positive, presentJ⟩ := wf.split_present j x (split ▸ splitJ)
    exact ⟨positive, (presentT j x).mpr presentJ⟩
  · intro j x allocJ
    rcases (allocT j x).mp allocJ with allocJ | ⟨rfl, rfl⟩
    · exact (presentT j x).mpr (wf.alloc_present j x allocJ)
    · exact (presentT j x).mpr present
  · intro j x splitJ
    exact (allocT j x).mpr (.inl (wf.split_alloc j x (split ▸ splitJ)))
  · intro j
    rw [free, Function.update_apply]
    split
    · subst j
      exact restNodup
    · exact wf.free_nodup j
  · intro j q mem
    obtain ⟨x, rfl, presentJ, unsplitJ, clear⟩ := wf.free_leaf j q (by
      rw [free, Function.update_apply] at mem
      split at mem
      · subst j
        simp [head, mem]
      · exact mem)
    have kept := (freeT j x).mp (by rwa [heap.addr])
    refine ⟨x, by rw [heap.addr], (presentT j x).mpr presentJ, split ▸ unsplitJ, fun below => ?_⟩
    exact Bool.eq_false_iff.mpr fun allocJ => by
      rcases (allocT j x).mp allocJ with allocJ | taken
      · simp [clear (heap.maxsize ▸ below)] at allocJ
      · exact kept.2 taken
  · intro j x presentJ unsplitJ below clear
    have taken : ¬ (j = k ∧ x = c) := fun taken => by simp [(allocT j x).mpr (.inr taken)] at clear
    have clearS : s.alloc j x = false := Bool.eq_false_iff.mpr fun allocJ => by
      simp [(allocT j x).mpr (.inl allocJ)] at clear
    exact (freeT j x).mpr ⟨wf.leaf_free j x ((presentT j x).mp presentJ) (split ▸ unsplitJ)
      (heap.maxsize ▸ below) clearS, taken⟩
  · intro j x mem mem'
    exact wf.coalesced j x ((freeT j x).mp mem).1 ((freeT j _).mp mem').1
  · intro j x
    constructor
    · rintro ⟨presentJ, unsplitJ, allocJ, notFree⟩
      by_cases taken : j = k ∧ x = c
      · exact .inr taken
      · refine .inl ⟨(presentT j x).mp presentJ, split ▸ unsplitJ, ?_, fun mem => notFree ((freeT j x).mpr ⟨mem, taken⟩)⟩
        exact ((allocT j x).mp allocJ).resolve_right taken
    · rintro (leaf | ⟨rfl, rfl⟩)
      · exact ⟨(presentT j x).mpr leaf.present, split ▸ leaf.unsplit, (allocT j x).mpr (.inl leaf.alloc),
          fun mem => leaf.notFree ((freeT j x).mp mem).1⟩
      · exact ⟨(presentT j x).mpr present, split ▸ unsplit, (allocT j x).mpr (.inr ⟨rfl, rfl⟩),
          fun mem => ((freeT j x).mp mem).2 ⟨rfl, rfl⟩⟩

theorem Wf.splitPass (wf : s.Wf) (leaf : s.AllocLeaf (k + 1) c) (heap : SameHeap s t)
    (split : t.split = setBit s.split (k + 1) c true)
    (alloc : t.alloc = setBit s.alloc k (2 * c) true)
    (free : t.free = Function.update s.free k (s.addr k (2 * c + 1) :: s.free k)) :
    t.Wf ∧ ∀ j x, t.AllocLeaf j x ↔ (s.AllocLeaf j x ∧ ¬ (j = k + 1 ∧ x = c)) ∨ (j = k ∧ x = 2 * c) := by
  have below : k < s.maxsize := leaf.present.le
  have halfOut : ∀ x, x / 2 = c → ¬ s.Present k x := fun x half =>
    not_present_below leaf.unsplit (Nat.lt_add_one k) leaf.present.le (by rw [Nat.add_sub_cancel_left, up_one, half])
  have presentT : ∀ j x, t.Present j x ↔ s.Present j x ∨ (j = k ∧ x / 2 = c) := fun j x => by
    unfold Present
    rw [heap.maxsize]
    exact inTree_split_iff (fun j x split => (wf.split_present j x split).2) leaf.present leaf.unsplit
      (fun j x => by rw [split]; rfl)
  have splitT : ∀ j x, t.split j x = true ↔ s.split j x = true ∨ (j = k + 1 ∧ x = c) := by
    intro j x
    rw [split]
    exact Init.setBit_true
  have allocT : ∀ j x, t.alloc j x = true ↔ s.alloc j x = true ∨ (j = k ∧ x = 2 * c) := by
    intro j x
    rw [alloc]
    exact Init.setBit_true
  have freeT := mem_push_iff heap free
  obtain ⟨upperUnsplit, upperClear, upperOff⟩ := wf.absent (halfOut (2 * c + 1) (by omega))
  obtain ⟨lowerUnsplit, -, lowerOff⟩ := wf.absent (halfOut (2 * c) (by omega))
  refine ⟨⟨heap.nsizes ▸ wf.sizes, ?_, ?_, ?_, ?_, ?_, ?_, ?_⟩, ?_⟩
  · intro j x splitJ
    rcases (splitT j x).mp splitJ with splitJ | ⟨rfl, rfl⟩
    · obtain ⟨positive, presentJ⟩ := wf.split_present j x splitJ
      exact ⟨positive, (presentT j x).mpr (.inl presentJ)⟩
    · exact ⟨Nat.succ_pos k, (presentT _ _).mpr (.inl leaf.present)⟩
  · intro j x allocJ
    rcases (allocT j x).mp allocJ with allocJ | ⟨rfl, rfl⟩
    · exact (presentT j x).mpr (.inl (wf.alloc_present j x allocJ))
    · exact (presentT _ _).mpr (.inr ⟨rfl, by omega⟩)
  · intro j x splitJ
    rcases (splitT j x).mp splitJ with splitJ | ⟨rfl, rfl⟩
    · exact (allocT j x).mpr (.inl (wf.split_alloc j x splitJ))
    · exact (allocT _ _).mpr (.inl leaf.alloc)
  · intro j
    rw [free, Function.update_apply]
    split
    · subst j
      exact List.nodup_cons.mpr ⟨upperOff, wf.free_nodup _⟩
    · exact wf.free_nodup j
  · intro j q mem
    have memS : q ∈ s.free j ∨ (j = k ∧ q = s.addr k (2 * c + 1)) := by
      rw [free, Function.update_apply] at mem
      split at mem
      · subst j
        exact (List.mem_cons.mp mem).symm.imp_right fun same => ⟨rfl, same⟩
      · exact .inl mem
    rcases memS with memS | ⟨rfl, rfl⟩
    · obtain ⟨x, rfl, presentJ, unsplitJ, clear⟩ := wf.free_leaf j q memS
      have notSplit : ¬ (j = k + 1 ∧ x = c) := fun taken => leaf.notFree (taken.1 ▸ taken.2 ▸ memS)
      have notLower : ¬ (j = k ∧ x = 2 * c) := fun taken =>
        halfOut x (by omega) (taken.1 ▸ presentJ)
      refine ⟨x, by rw [heap.addr], (presentT j x).mpr (.inl presentJ), ?_, fun below => ?_⟩
      · rw [split, setBit_apply, if_neg notSplit, unsplitJ]
      · rw [alloc, setBit_apply, if_neg notLower, clear (heap.maxsize ▸ below)]
    · refine ⟨2 * c + 1, by rw [heap.addr], (presentT _ _).mpr (.inr ⟨rfl, by omega⟩), ?_, fun _ => ?_⟩
      · rw [split, setBit_apply, if_neg (by omega), upperUnsplit]
      · rw [alloc, setBit_apply, if_neg (by omega), upperClear]
  · intro j x presentJ unsplitJ below clear
    rcases (presentT j x).mp presentJ with presentJ | ⟨rfl, half⟩
    · have notSplit : ¬ (j = k + 1 ∧ x = c) := fun taken => by simp [(splitT j x).mpr (.inr taken)] at unsplitJ
      have notLower : ¬ (j = k ∧ x = 2 * c) := fun taken => by simp [(allocT j x).mpr (.inr taken)] at clear
      rw [split, setBit_apply, if_neg notSplit] at unsplitJ
      rw [alloc, setBit_apply, if_neg notLower] at clear
      exact (freeT j x).mpr (.inl (wf.leaf_free j x presentJ unsplitJ (heap.maxsize ▸ below) clear))
    · have upper : x = 2 * c + 1 := by
        by_contra lower
        simp [(allocT j x).mpr (.inr ⟨rfl, by omega⟩)] at clear
      exact (freeT j x).mpr (.inr ⟨rfl, upper⟩)
  · intro j x mem mem'
    rcases (freeT j x).mp mem with memS | ⟨rfl, rfl⟩
    · rcases (freeT j _).mp mem' with memS' | ⟨rfl, upper⟩
      · exact wf.coalesced j x memS memS'
      · have lower : x = 2 * c := by rw [← sibling_sibling x, upper, sibling_double_add_one]
        exact lowerOff (lower ▸ memS)
    · rcases (freeT j _).mp mem' with memS' | ⟨-, upper⟩
      · exact lowerOff (by simpa using memS')
      · simp at upper
  · intro j x
    constructor
    · rintro ⟨presentJ, unsplitJ, allocJ, notFree⟩
      by_cases lower : j = k ∧ x = 2 * c
      · exact .inr lower
      have notSplit : ¬ (j = k + 1 ∧ x = c) := fun taken => by simp [(splitT j x).mpr (.inr taken)] at unsplitJ
      have allocS := ((allocT j x).mp allocJ).resolve_right lower
      rcases (presentT j x).mp presentJ with presentJ | ⟨rfl, half⟩
      · refine .inl ⟨⟨presentJ, ?_, allocS, fun mem => notFree ((freeT j x).mpr (.inl mem))⟩, notSplit⟩
        rwa [split, setBit_apply, if_neg notSplit] at unsplitJ
      · have upper : x = 2 * c + 1 := by omega
        exact absurd ((freeT j x).mpr (.inr ⟨rfl, upper⟩)) notFree
    · rintro (⟨leafJ, notSplit⟩ | ⟨rfl, rfl⟩)
      · have notUpper : ¬ (j = k ∧ x = 2 * c + 1) := fun taken =>
          halfOut x (by omega) (taken.1 ▸ leafJ.present)
        refine ⟨(presentT j x).mpr (.inl leafJ.present), ?_, (allocT j x).mpr (.inl leafJ.alloc), fun mem => ?_⟩
        · rw [split, setBit_apply, if_neg notSplit, leafJ.unsplit]
        · exact ((freeT j x).mp mem).elim leafJ.notFree notUpper
      · refine ⟨(presentT _ _).mpr (.inr ⟨rfl, by omega⟩), ?_, (allocT _ _).mpr (.inr ⟨rfl, rfl⟩), fun mem => ?_⟩
        · rw [split, setBit_apply, if_neg (by omega), lowerUnsplit]
        · exact ((freeT _ _).mp mem).elim lowerOff (by omega)

/-! ### `bd_free` -/

theorem Wf.freeLeaf (wf : s.Wf) (leaf : s.AllocLeaf k c) (buddyHeld : k < s.maxsize → s.alloc k (sibling c) = true)
    (heap : SameHeap s t) (split : t.split = s.split)
    (alloc : ∀ j x, t.alloc j x = if j = k ∧ x = c ∧ k < s.maxsize then false else s.alloc j x)
    (free : t.free = Function.update s.free k (s.addr k c :: s.free k)) :
    t.Wf ∧ ∀ j x, t.AllocLeaf j x ↔ s.AllocLeaf j x ∧ ¬ (j = k ∧ x = c) := by
  have presentT : ∀ j x, t.Present j x ↔ s.Present j x := fun j x => present_congr heap split
  have allocT : ∀ j x, t.alloc j x = true → s.alloc j x = true := by
    intro j x allocJ
    rw [alloc] at allocJ
    split at allocJ
    · cases allocJ
    · exact allocJ
  have freeT := mem_push_iff heap free
  have buddyOff : s.addr k (sibling c) ∉ s.free k := by
    intro mem
    obtain ⟨present, -, clear⟩ := wf.mem_free mem
    rcases Nat.lt_or_ge k s.maxsize with below | top
    · have held := buddyHeld below
      rw [clear below] at held
      cases held
    · have one : sibling c < 2 ^ (s.maxsize - k) := present.2.1
      have one' : c < 2 ^ (s.maxsize - k) := leaf.present.2.1
      rw [show s.maxsize - k = 0 by omega] at one one'
      exact sibling_ne c (by omega)
  refine ⟨⟨heap.nsizes ▸ wf.sizes, ?_, ?_, ?_, ?_, ?_, ?_, ?_⟩, ?_⟩
  · intro j x splitJ
    obtain ⟨positive, presentJ⟩ := wf.split_present j x (split ▸ splitJ)
    exact ⟨positive, (presentT j x).mpr presentJ⟩
  · intro j x allocJ
    exact (presentT j x).mpr (wf.alloc_present j x (allocT j x allocJ))
  · intro j x splitJ
    have freed : ¬ (j = k ∧ x = c) := by
      rintro ⟨level, same⟩
      rw [split, level, same, leaf.unsplit] at splitJ
      cases splitJ
    rw [alloc, if_neg (fun taken => freed ⟨taken.1, taken.2.1⟩)]
    exact wf.split_alloc j x (split ▸ splitJ)
  · intro j
    rw [free, Function.update_apply]
    split
    · subst j
      exact List.nodup_cons.mpr ⟨leaf.notFree, wf.free_nodup _⟩
    · exact wf.free_nodup j
  · intro j q mem
    have memS : q ∈ s.free j ∨ (j = k ∧ q = s.addr k c) := by
      rw [free, Function.update_apply] at mem
      split at mem
      · subst j
        exact (List.mem_cons.mp mem).symm.imp_right fun same => ⟨rfl, same⟩
      · exact .inl mem
    rcases memS with memS | ⟨rfl, rfl⟩
    · obtain ⟨x, rfl, presentJ, unsplitJ, clear⟩ := wf.free_leaf j q memS
      refine ⟨x, by rw [heap.addr], (presentT j x).mpr presentJ, split ▸ unsplitJ, fun below => ?_⟩
      rw [alloc]
      split
      · rfl
      · exact clear (heap.maxsize ▸ below)
    · refine ⟨c, by rw [heap.addr], (presentT _ _).mpr leaf.present, split ▸ leaf.unsplit, fun below => ?_⟩
      rw [alloc, if_pos ⟨rfl, rfl, heap.maxsize ▸ below⟩]
  · intro j x presentJ unsplitJ below clear
    by_cases freed : j = k ∧ x = c
    · exact (freeT j x).mpr (.inr freed)
    · rw [alloc, if_neg (fun taken => freed ⟨taken.1, taken.2.1⟩)] at clear
      exact (freeT j x).mpr (.inl (wf.leaf_free j x ((presentT j x).mp presentJ) (split ▸ unsplitJ)
        (heap.maxsize ▸ below) clear))
  · intro j x mem mem'
    rcases (freeT j x).mp mem with memS | ⟨rfl, rfl⟩
    · rcases (freeT j _).mp mem' with memS' | ⟨rfl, freed⟩
      · exact wf.coalesced j x memS memS'
      · have buddy : x = sibling c := by rw [← freed, sibling_sibling]
        exact buddyOff (buddy ▸ memS)
    · rcases (freeT j _).mp mem' with memS' | ⟨-, same⟩
      · exact buddyOff memS'
      · exact sibling_ne _ same
  · intro j x
    constructor
    · rintro ⟨presentJ, unsplitJ, allocJ, notFree⟩
      have freed : ¬ (j = k ∧ x = c) := fun freed => notFree ((freeT j x).mpr (.inr freed))
      exact ⟨⟨(presentT j x).mp presentJ, split ▸ unsplitJ, allocT j x allocJ,
        fun mem => notFree ((freeT j x).mpr (.inl mem))⟩, freed⟩
    · rintro ⟨leafJ, freed⟩
      refine ⟨(presentT j x).mpr leafJ.present, split ▸ leafJ.unsplit, ?_, fun mem => ?_⟩
      · rw [alloc, if_neg (fun taken => freed ⟨taken.1, taken.2.1⟩)]
        exact leafJ.alloc
      · exact ((freeT j x).mp mem).elim leafJ.notFree freed

theorem Wf.mergePass (wf : s.Wf) (leaf : s.AllocLeaf k c) (below : k < s.maxsize)
    (buddyFree : s.alloc k (sibling c) = false) (heap : SameHeap s t)
    (split : t.split = setBit s.split (k + 1) (c / 2) false)
    (alloc : t.alloc = setBit s.alloc k c false)
    (free : t.free = Function.update s.free k ((s.free k).erase (s.addr k (sibling c)))) :
    t.Wf ∧ ∀ j x, t.AllocLeaf j x ↔ (s.AllocLeaf j x ∧ ¬ (j = k ∧ x = c)) ∨ (j = k + 1 ∧ x = c / 2) := by
  obtain ⟨parent, parentSplit⟩ := leaf.present.parent below
  have buddyPresent : s.Present k (sibling c) := parent.child parentSplit (sibling_div_two c)
  have buddyUnsplit := wf.unsplit_of_alloc buddyFree
  have buddyOn := wf.leaf_free k _ buddyPresent buddyUnsplit below buddyFree
  have parentAlloc := wf.split_alloc _ _ parentSplit
  have halves : ∀ x, x / 2 = c / 2 → x = c ∨ x = sibling c := fun x half => by
    by_cases same : x = c
    · exact .inl same
    · exact .inr (eq_sibling half same)
  have presentT : ∀ j x, t.Present j x ↔ s.Present j x ∧ ¬ (j = k ∧ x / 2 = c / 2) := fun j x => by
    unfold Present
    rw [heap.maxsize]
    refine inTree_join_iff below (fun x half => ?_) (fun j x => by rw [split]; rfl)
    rcases halves x half with rfl | rfl
    exacts [leaf.unsplit, buddyUnsplit]
  have freeT := wf.mem_erase_iff heap free
  have sizes : 0 < t.nsizes := heap.nsizes ▸ wf.sizes
  refine ⟨⟨sizes, ?_, ?_, ?_, ?_, ?_, ?_, ?_⟩, ?_⟩
  · intro j x splitJ
    rw [split, setBit_apply] at splitJ
    split at splitJ
    · cases splitJ
    obtain ⟨positive, presentJ⟩ := wf.split_present j x splitJ
    refine ⟨positive, (presentT j x).mpr ⟨presentJ, ?_⟩⟩
    rintro ⟨level, half⟩
    subst level
    rcases halves x half with rfl | rfl
    · rw [leaf.unsplit] at splitJ
      cases splitJ
    · rw [buddyUnsplit] at splitJ
      cases splitJ
  · intro j x allocJ
    rw [alloc, setBit_apply] at allocJ
    split at allocJ
    · cases allocJ
    rename_i freed
    refine (presentT j x).mpr ⟨wf.alloc_present j x allocJ, ?_⟩
    rintro ⟨level, half⟩
    subst level
    rcases halves x half with rfl | rfl
    · exact freed ⟨rfl, rfl⟩
    · rw [buddyFree] at allocJ
      cases allocJ
  · intro j x splitJ
    rw [split, setBit_apply] at splitJ
    split at splitJ
    · cases splitJ
    have freed : ¬ (j = k ∧ x = c) := by
      rintro ⟨level, same⟩
      rw [level, same, leaf.unsplit] at splitJ
      cases splitJ
    rw [alloc, setBit_apply, if_neg freed]
    exact wf.split_alloc j x splitJ
  · intro j
    rw [free, Function.update_apply]
    split
    · subst j
      exact (wf.free_nodup _).erase _
    · exact wf.free_nodup j
  · intro j q mem
    have memS : q ∈ s.free j := by
      rw [free, Function.update_apply] at mem
      split at mem
      · subst j
        exact List.mem_of_mem_erase mem
      · exact mem
    obtain ⟨x, rfl, presentJ, unsplitJ, clear⟩ := wf.free_leaf j q memS
    have kept := (freeT j x).mp (by rwa [heap.addr])
    have apart : ¬ (j = k ∧ x / 2 = c / 2) := by
      rintro ⟨level, half⟩
      subst level
      rcases halves x half with rfl | rfl
      · have marked := leaf.alloc
        rw [clear below] at marked
        cases marked
      · exact kept.2 ⟨rfl, rfl⟩
    refine ⟨x, by rw [heap.addr], (presentT j x).mpr ⟨presentJ, apart⟩, ?_, fun below' => ?_⟩
    · rw [split, setBit_apply]
      split
      · rfl
      · exact unsplitJ
    · rw [alloc, setBit_apply]
      split
      · rfl
      · exact clear (heap.maxsize ▸ below')
  · intro j x presentJ unsplitJ below' clear
    obtain ⟨presentJ, apart⟩ := (presentT j x).mp presentJ
    have notParent : ¬ (j = k + 1 ∧ x = c / 2) := by
      rintro ⟨level, same⟩
      rw [alloc, setBit_apply, if_neg (by omega), level, same, parentAlloc] at clear
      cases clear
    have notFreed : ¬ (j = k ∧ x = c) := fun taken => apart ⟨taken.1, by rw [taken.2]⟩
    rw [split, setBit_apply, if_neg notParent] at unsplitJ
    rw [alloc, setBit_apply, if_neg notFreed] at clear
    refine (freeT j x).mpr ⟨wf.leaf_free j x presentJ unsplitJ (heap.maxsize ▸ below') clear,
      fun taken => apart ⟨taken.1, by rw [taken.2, sibling_div_two]⟩⟩
  · intro j x mem mem'
    exact wf.coalesced j x ((freeT j x).mp mem).1 ((freeT j _).mp mem').1
  · intro j x
    constructor
    · rintro ⟨presentJ, unsplitJ, allocJ, notFree⟩
      by_cases joined : j = k + 1 ∧ x = c / 2
      · exact .inr joined
      obtain ⟨presentJ, apart⟩ := (presentT j x).mp presentJ
      have notFreed : ¬ (j = k ∧ x = c) := fun taken => apart ⟨taken.1, by rw [taken.2]⟩
      rw [split, setBit_apply, if_neg joined] at unsplitJ
      rw [alloc, setBit_apply, if_neg notFreed] at allocJ
      refine .inl ⟨⟨presentJ, unsplitJ, allocJ, fun mem => notFree ((freeT j x).mpr ⟨mem, ?_⟩)⟩, notFreed⟩
      exact fun taken => apart ⟨taken.1, by rw [taken.2, sibling_div_two]⟩
    · rintro (⟨leafJ, notFreed⟩ | ⟨rfl, rfl⟩)
      · have apart : ¬ (j = k ∧ x / 2 = c / 2) := by
          rintro ⟨level, half⟩
          subst level
          rcases halves x half with rfl | rfl
          · exact notFreed ⟨rfl, rfl⟩
          · have marked := leafJ.alloc
            rw [buddyFree] at marked
            cases marked
        have notParent : ¬ (j = k + 1 ∧ x = c / 2) := by
          rintro ⟨level, same⟩
          have unsplitJ := leafJ.unsplit
          rw [level, same, parentSplit] at unsplitJ
          cases unsplitJ
        refine ⟨(presentT j x).mpr ⟨leafJ.present, apart⟩, ?_, ?_, fun mem => leafJ.notFree ((freeT j x).mp mem).1⟩
        · rw [split, setBit_apply, if_neg notParent, leafJ.unsplit]
        · rw [alloc, setBit_apply, if_neg notFreed, leafJ.alloc]
      · refine ⟨(presentT _ _).mpr ⟨parent, by omega⟩, ?_, ?_, fun mem => ?_⟩
        · rw [split, setBit_apply, if_pos ⟨rfl, rfl⟩]
        · rw [alloc, setBit_apply, if_neg (by omega), parentAlloc]
        · have onS := ((freeT _ _).mp mem).1
          have := (wf.mem_free onS).2.1
          rw [parentSplit] at this
          cases this

/-! ### The heap's bytes -/

theorem addr_add_blkSize (s : Bd) (k c : Nat) : s.addr k c + blkSize k = s.base + (c + 1) * 2 ^ k * leafSize := by
  unfold addr blkSize
  ring

theorem addr_eq (s : Bd) (k c : Nat) : s.addr k c = s.base + c * 2 ^ k * leafSize := by
  unfold addr blkSize
  ring

theorem Present.end_le (present : s.Present k c) : s.addr k c + blkSize k ≤ s.base + blkSize s.maxsize := by
  have bound : (c + 1) * 2 ^ k ≤ 2 ^ s.maxsize :=
    calc (c + 1) * 2 ^ k ≤ 2 ^ (s.maxsize - k) * 2 ^ k := Nat.mul_le_mul_right _ present.2.1
      _ = 2 ^ s.maxsize := by rw [← pow_add, Nat.sub_add_cancel present.le]
  rw [addr_add_blkSize]
  unfold blkSize
  exact Nat.add_le_add_left (Nat.mul_le_mul_right leafSize bound) _

theorem leaves_apart {k' c' : Nat} (present : s.Present k c) (unsplit : s.split k c = false)
    (present' : s.Present k' c') (unsplit' : s.split k' c' = false) (other : k ≠ k' ∨ c ≠ c') :
    s.addr k c + blkSize k ≤ s.addr k' c' ∨ s.addr k' c' + blkSize k' ≤ s.addr k c := by
  rw [addr_add_blkSize, addr_add_blkSize, addr_eq, addr_eq]
  rcases InTree.apart present unsplit present' unsplit' other with apart | apart
  · exact .inl (Nat.add_le_add_left (Nat.mul_le_mul_right leafSize apart) _)
  · exact .inr (Nat.add_le_add_left (Nat.mul_le_mul_right leafSize apart) _)

theorem addr_ne_of_leaves {k' c' : Nat} (present : s.Present k c) (unsplit : s.split k c = false)
    (present' : s.Present k' c') (unsplit' : s.split k' c' = false) (other : k ≠ k' ∨ c ≠ c') :
    s.addr k c ≠ s.addr k' c' := fun same => by
  have := blkSize_pos k
  have := blkSize_pos k'
  rcases leaves_apart present unsplit present' unsplit' other with apart | apart <;> omega

theorem AllocLeaf.eq_of_addr {k' c' : Nat} (leaf : s.AllocLeaf k c) (leaf' : s.AllocLeaf k' c')
    (same : s.addr k c = s.addr k' c') : k = k' ∧ c = c' := by
  by_contra other
  exact addr_ne_of_leaves leaf.present leaf.unsplit leaf'.present leaf'.unsplit
    (by rwa [← not_and_or]) same

theorem Wf.covers (wf : s.Wf) {a : Nat} (low : s.base ≤ a) (high : a < s.base + blkSize s.maxsize) :
    ∃ k c, s.Present k c ∧ s.split k c = false ∧ s.addr k c ≤ a ∧ a < s.addr k c + blkSize k := by
  have below : (a - s.base) / leafSize < 2 ^ s.maxsize := by
    rw [Nat.div_lt_iff_lt_mul (by decide)]
    unfold blkSize at high
    omega
  have bottom : ∀ c, s.split 0 c = false := fun c =>
    Bool.eq_false_iff.mpr fun split => Nat.lt_irrefl 0 (wf.split_present 0 c split).1
  obtain ⟨k, tree, leaf⟩ := exists_leaf bottom below
  obtain ⟨lo, hi⟩ := up_eq_iff.mp (rfl : up ((a - s.base) / leafSize) k = _)
  refine ⟨k, _, tree, leaf, ?_, ?_⟩
  · rw [addr_eq]
    have := (Nat.le_div_iff_mul_le (by decide)).mp lo
    omega
  · rw [addr_add_blkSize]
    have := (Nat.div_lt_iff_lt_mul (by decide)).mp hi
    omega

/-! ### The tree from the blocks handed out

With no two buddies free, each split block holds a block handed out whole; the
bits and the free lists are then fixed by the blocks handed out. -/

theorem Wf.split_holds (wf : s.Wf) {x : Nat} (split : s.split j x = true) :
    ∃ i y, i < j ∧ up y (j - i) = x ∧ s.AllocLeaf i y := by
  induction j generalizing x with
  | zero => exact absurd (wf.split_present 0 x split).1 (Nat.lt_irrefl 0)
  | succ j ih =>
    have tree := (wf.split_present _ _ split).2
    have below : j < s.maxsize := tree.le
    have held : ∀ y, y / 2 = x → s.split j y = true ∨ s.AllocLeaf j y →
        ∃ i z, i < j + 1 ∧ up z (j + 1 - i) = x ∧ s.AllocLeaf i z := by
      rintro y half (splitY | leaf)
      · obtain ⟨i, z, lower, under, leaf⟩ := ih splitY
        refine ⟨i, z, by omega, ?_, leaf⟩
        rw [show j + 1 - i = j - i + 1 by omega, up_add_one, under, half]
      · exact ⟨j, y, Nat.lt_add_one j, by rw [Nat.add_sub_cancel_left, up_one, half], leaf⟩
    have onList : ∀ y, y / 2 = x → ¬ (s.split j y = true ∨ s.AllocLeaf j y) → s.addr j y ∈ s.free j := by
      intro y half neither
      have present := tree.child split half
      have unsplit : s.split j y = false := Bool.eq_false_iff.mpr fun splitY => neither (.inl splitY)
      refine wf.leaf_free j y present unsplit below (Bool.eq_false_iff.mpr fun alloc => neither (.inr ?_))
      refine ⟨present, unsplit, alloc, fun mem => ?_⟩
      have clear := (wf.mem_free mem).2.2 below
      rw [alloc] at clear
      cases clear
    by_cases lower : s.split j (2 * x) = true ∨ s.AllocLeaf j (2 * x)
    · exact held _ (by omega) lower
    by_cases upper : s.split j (2 * x + 1) = true ∨ s.AllocLeaf j (2 * x + 1)
    · exact held _ (by omega) upper
    have apart := wf.coalesced j (2 * x) (onList _ (by omega) lower)
    rw [sibling_double] at apart
    exact absurd (onList _ (by omega) upper) apart

theorem Wf.split_iff (wf : s.Wf) (j x : Nat) :
    s.split j x = true ↔ j ≤ s.maxsize ∧ ∃ i y, i < j ∧ up y (j - i) = x ∧ s.AllocLeaf i y := by
  constructor
  · intro split
    exact ⟨(wf.split_present j x split).2.le, wf.split_holds split⟩
  · rintro ⟨le, i, y, lower, under, leaf⟩
    rw [← under]
    exact leaf.present.above lower le

theorem below_top_of_leaf {i y : Nat} (present : s.Present k c) (unsplit : s.split k c = false)
    (leaf : s.AllocLeaf i y) (other : ¬ s.AllocLeaf k c) : k < s.maxsize := by
  refine InTree.below_top present unsplit leaf.present ?_
  by_contra same
  obtain ⟨rfl, rfl⟩ : k = i ∧ c = y := by omega
  exact other leaf

theorem Wf.alloc_iff (wf : s.Wf) {i y : Nat} (leaf : s.AllocLeaf i y) (j x : Nat) :
    s.alloc j x = true ↔ s.split j x = true ∨ s.AllocLeaf j x := by
  constructor
  · intro alloc
    cases splitJ : s.split j x with
    | true => exact .inl rfl
    | false =>
      have present := wf.alloc_present j x alloc
      by_contra neither
      have notLeaf : ¬ s.AllocLeaf j x := fun leafJ => neither (.inr leafJ)
      have below := below_top_of_leaf present splitJ leaf notLeaf
      refine notLeaf ⟨present, splitJ, alloc, fun mem => ?_⟩
      have clear := (wf.mem_free mem).2.2 below
      rw [alloc] at clear
      cases clear
  · rintro (split | leafJ)
    · exact wf.split_alloc j x split
    · exact leafJ.alloc

theorem Wf.mem_free_iff (wf : s.Wf) {i y : Nat} (leaf : s.AllocLeaf i y) (k c : Nat) :
    s.addr k c ∈ s.free k ↔ s.Present k c ∧ s.split k c = false ∧ ¬ s.AllocLeaf k c := by
  constructor
  · intro mem
    obtain ⟨present, unsplit, -⟩ := wf.mem_free mem
    exact ⟨present, unsplit, fun leafK => leafK.notFree mem⟩
  · rintro ⟨present, unsplit, notLeaf⟩
    by_contra offList
    have below := below_top_of_leaf present unsplit leaf notLeaf
    refine notLeaf ⟨present, unsplit, ?_, offList⟩
    by_contra clear
    exact offList (wf.leaf_free k c present unsplit below (Bool.eq_false_iff.mpr clear))

theorem Wf.determined (wf : s.Wf) (wf' : t.Wf) (heap : SameHeap s t) {i y : Nat} (leaf : s.AllocLeaf i y)
    (same : ∀ k c, t.AllocLeaf k c ↔ s.AllocLeaf k c) :
    t.split = s.split ∧ t.alloc = s.alloc ∧ ∀ k q, q ∈ t.free k ↔ q ∈ s.free k := by
  have leaf' := (same i y).mpr leaf
  have split : t.split = s.split := by
    funext j x
    apply Bool.eq_iff_iff.mpr
    rw [wf'.split_iff, wf.split_iff, heap.maxsize]
    simp only [same]
  have present : ∀ k c, t.Present k c ↔ s.Present k c := fun k c => present_congr heap split
  refine ⟨split, ?_, fun k q => ?_⟩
  · funext j x
    apply Bool.eq_iff_iff.mpr
    rw [wf'.alloc_iff leaf', wf.alloc_iff leaf, split, same]
  · constructor
    · intro mem
      obtain ⟨c, rfl, -⟩ := wf'.free_leaf k q mem
      rw [wf'.mem_free_iff leaf', present, split, same] at mem
      rw [heap.addr]
      exact (wf.mem_free_iff leaf k c).mpr mem
    · intro mem
      obtain ⟨c, rfl, -⟩ := wf.free_leaf k q mem
      rw [wf.mem_free_iff leaf, ← present, ← split, ← same] at mem
      rw [← heap.addr]
      exact (wf'.mem_free_iff leaf' k c).mpr mem

end Bd

end Xv6.Buddy
