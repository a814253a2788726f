import Mathlib
import Xv6.Vm.PageTable

/-! A user page table beside the allocator of `kalloc.c`. `Space k root` says
the table at `root` is a tree, the free list is a list of distinct pages that
`kfree` accepted, and no page of the table is free. `walk` keeps it, hanging
pages from the head of the free list into the table and changing no mapping;
`mappages` of one page sets one mapping. -/

namespace Xv6.Vm

open Xv6.Lib

namespace Kmem

variable {k k' k'' : Kmem} {root pt q pa va l1 : UInt64} {rest used used' : List UInt64}
  {i i2 i1 : Fin 512} {level : Nat}

/-- A page `kfree` takes without panicking. -/
def Freeable (k : Kmem) (pa : UInt64) : Prop :=
  pa.toNat % 4096 = 0 ∧ k.kernelEnd ≤ pa ∧ pa < phystop

/-- The free list: distinct pages `kfree` accepts. -/
structure FreeList (k : Kmem) : Prop where
  nodup : k.freelist.Nodup
  freeable : ∀ pa ∈ k.freelist, k.Freeable pa

/-- The page table at `root` beside the free list: a tree, none of whose pages
is free. -/
structure Space (k : Kmem) (root : UInt64) : Prop where
  tree : k.Tree root
  free : k.FreeList
  apart : ∀ pa ∈ k.freelist, ¬ k.IsTable root pa
  interior : k.Interior root

/-- `k'` took the pages `used` from the head of the free list of `k` into the
table at `root` and wrote no page outside that table. -/
structure Grows (k k' : Kmem) (root : UInt64) (used : List UInt64) : Prop where
  kernelEnd : k'.kernelEnd = k.kernelEnd
  freelist : k.freelist = used ++ k'.freelist
  tables : ∀ x, k'.IsTable root x ↔ k.IsTable root x ∨ x ∈ used
  frame : ∀ x, ¬ k'.IsTable root x → k'.mem x = k.mem x

theorem FreeList.congr (free : k.FreeList) (same : k'.freelist = k.freelist)
    (sameEnd : k'.kernelEnd = k.kernelEnd) : k'.FreeList where
  nodup := same ▸ free.nodup
  freeable pa member := by
    obtain ⟨aligned, low, high⟩ := free.freeable pa (same ▸ member)
    exact ⟨aligned, sameEnd ▸ low, high⟩

theorem FreeList.length_le (free : k.FreeList) : k.freelist.length ≤ 2 ^ 20 := by
  have low (pa) (member : pa ∈ k.freelist) : pa.toNat < 2 ^ 32 := by
    have high := UInt64.lt_iff_toNat_lt.mp (free.freeable pa member).2.2
    have top : phystop.toNat = 0x88000000 := by decide
    omega
  let index (pa : UInt64) : Fin (2 ^ 20) := ⟨pa.toNat / 4096 % 2 ^ 20, Nat.mod_lt _ (by decide)⟩
  have injective : ∀ x ∈ k.freelist, ∀ y ∈ k.freelist, index x = index y → x = y := by
    intro x memberX y memberY same
    have alignedX := (free.freeable x memberX).1
    have alignedY := (free.freeable y memberY).1
    have lowX := low x memberX
    have lowY := low y memberY
    simp only [index, Fin.mk.injEq] at same
    apply UInt64.toNat_inj.mp
    omega
  simpa using (free.nodup.map_on injective).length_le_card

theorem Grows.refl : k.Grows k root [] where
  kernelEnd := rfl
  freelist := rfl
  tables := by simp
  frame _ _ := rfl

theorem Grows.trans (first : k.Grows k' root used) (second : k'.Grows k'' root used') :
    k.Grows k'' root (used ++ used') where
  kernelEnd := second.kernelEnd.trans first.kernelEnd
  freelist := by rw [first.freelist, second.freelist, List.append_assoc]
  tables x := by rw [second.tables, first.tables, List.mem_append, or_assoc]
  frame x outside := by
    have later : ¬ k'.IsTable root x := fun inside => outside ((second.tables x).mpr (.inl inside))
    rw [second.frame x outside, first.frame x later]

theorem kfree_ok (ok : k.Freeable pa) :
    kfree k pa = .ok { k.memset pa 1 with freelist := pa :: k.freelist } := by
  obtain ⟨aligned, low, high⟩ := ok
  have zero : pa % pgSize = 0 := by
    apply UInt64.toNat_inj.mp
    simp [UInt64.toNat_mod, pgSize, aligned]
  simp [kfree, zero, low, high]

theorem kalloc_pop (pop : k.freelist = q :: rest) :
    kalloc k = (some q, ({ k with freelist := rest } : Kmem).memset q 5) := by
  simp [kalloc, pop]

theorem kalloc_empty (empty : k.freelist = []) : kalloc k = (none, k) := by
  simp [kalloc, empty]

/-! ### Taking a page off the free list -/

section Take

variable (space : k.Space root) (pop : k.freelist = q :: rest) (c : UInt8)
include space pop

theorem Space.head_freeable : k.Freeable q :=
  space.free.freeable q (pop ▸ List.mem_cons_self)

theorem Space.head_fresh : ¬ k.IsTable root q :=
  space.apart q (pop ▸ List.mem_cons_self)

theorem Space.head_not_mem_rest : q ∉ rest := by
  have nodup := space.free.nodup
  rw [pop] at nodup
  exact (List.nodup_cons.mp nodup).1

omit space in
theorem Space.mem_of_rest {x : UInt64} (member : x ∈ rest) : x ∈ k.freelist :=
  pop ▸ List.mem_cons_of_mem q member

theorem Space.take_tables :
    ∀ x, k.IsTable root x → (({ k with freelist := rest } : Kmem).memset q c).mem x = k.mem x :=
  fun _ table => memset_mem_of_ne fun same => space.head_fresh pop (same ▸ table)

theorem Space.take : (({ k with freelist := rest } : Kmem).memset q c).Space root where
  tree := (tree_frame (space.take_tables pop c)).mpr space.tree
  free :=
    { nodup := by
        have nodup := space.free.nodup
        rw [pop] at nodup
        exact (List.nodup_cons.mp nodup).2
      freeable := fun x member => space.free.freeable x (Space.mem_of_rest pop member) }
  apart x member := by
    rw [isTable_frame (space.take_tables pop c)]
    exact space.apart x (Space.mem_of_rest pop member)
  interior := space.interior.congr (space.take_tables pop c)

end Take

/-! ### `walk` -/

/-- What `walk` does at one level when the entry is invalid and a page is free:
`kalloc`, `memset(pagetable, 0, PGSIZE)`, and the entry made to point to it. -/
def hang (k : Kmem) (pt : UInt64) (i : Fin 512) (q : UInt64) (rest : List UInt64) : Kmem :=
  (({ k with freelist := rest } : Kmem).memset q 0).write pt i (pa2pte q ||| pteV)

theorem walkLevel_child (found : k.child pt (px level va) = some q) (alloc : Bool) :
    walkLevel k pt level va alloc = (some q, k) := by
  unfold child at found
  split at found
  · rename_i valid
    cases found
    simp [walkLevel, valid]
  · cases found

theorem walkLevel_invalid (invalid : k.child pt (px level va) = none) (alloc : Bool) :
    walkLevel k pt level va alloc =
      if !alloc then (none, k)
      else match k.freelist with
        | [] => (none, k)
        | q :: rest => (some q, k.hang pt (px level va) q rest) := by
  unfold child at invalid
  split at invalid
  · cases invalid
  · rename_i valid
    cases alloc with
    | false => simp [walkLevel, valid]
    | true =>
      cases pop : k.freelist with
      | nil => simp [walkLevel, valid, kalloc_empty pop]
      | cons q rest => simp [walkLevel, valid, kalloc_pop pop, hang]

section Hang

variable (space : k.Space root) (pop : k.freelist = q :: rest)
include space pop

theorem Space.of_hang (table : k.IsTable root pt) (tree : (k.hang pt i q rest).Tree root)
    (grown : ∀ x, (k.hang pt i q rest).IsTable root x ↔ k.IsTable root x ∨ x = q)
    (inner : (k.hang pt i q rest).Interior root) :
    (k.hang pt i q rest).Space root ∧ k.Grows (k.hang pt i q rest) root [q] := by
  refine ⟨⟨tree, (space.take pop 0).free.congr rfl rfl, ?_, inner⟩, ⟨rfl, by rw [pop]; rfl, ?_, ?_⟩⟩
  · intro x member
    rw [grown]
    rintro (old | rfl)
    · exact space.apart x (Space.mem_of_rest pop member) old
    · exact space.head_not_mem_rest pop member
  · intro x
    rw [grown, List.mem_singleton]
  · intro x outside
    have other : x ≠ pt := fun same => outside ((grown x).mpr (.inl (same ▸ table)))
    have notNew : x ≠ q := fun same => outside ((grown x).mpr (.inr same))
    rw [hang, write_mem_of_ne other, memset_mem_of_ne notNew]

theorem Space.hangTop (empty : k.level1 root i2 = none) (low : i2.val < 256) :
    (k.hang root i2 q rest).Space root ∧ k.Grows (k.hang root i2 q rest) root [q] ∧
      (k.hang root i2 q rest).leaf root = k.leaf root ∧
      (k.hang root i2 q rest).level1 root i2 = some q := by
  have taken := space.take pop 0
  have tables := space.take_tables pop 0
  have fresh : ¬ (({ k with freelist := rest } : Kmem).memset q 0).IsTable root q := by
    rw [isTable_frame tables]
    exact space.head_fresh pop
  have aligned := (space.head_freeable pop).1
  have empty' : (({ k with freelist := rest } : Kmem).memset q 0).level1 root i2 = none := by
    rw [level1_frame tables, empty]
  have grown (x) : (k.hang root i2 q rest).IsTable root x ↔ k.IsTable root x ∨ x = q := by
    rw [hang, isTable_hangTop taken.tree fresh aligned memset_mem_self empty', isTable_frame tables]
  have kept := space.of_hang pop isTable_root
    (tree_hangTop taken.tree fresh aligned memset_mem_self empty') grown
    (taken.interior.hangTop taken.tree fresh aligned memset_mem_self low)
  refine ⟨kept.1, kept.2, ?_, ?_⟩
  · rw [hang, leaf_hangTop taken.tree fresh aligned memset_mem_self empty', leaf_frame tables]
  · rw [hang, level1_hangTop aligned, Function.update_self]

theorem Space.hangMid (above : k.level1 root i2 = some l1) (empty : k.level0 root i2 i1 = none) :
    (k.hang l1 i1 q rest).Space root ∧ k.Grows (k.hang l1 i1 q rest) root [q] ∧
      (k.hang l1 i1 q rest).leaf root = k.leaf root ∧
      (k.hang l1 i1 q rest).level0 root i2 i1 = some q := by
  have taken := space.take pop 0
  have tables := space.take_tables pop 0
  have fresh : ¬ (({ k with freelist := rest } : Kmem).memset q 0).IsTable root q := by
    rw [isTable_frame tables]
    exact space.head_fresh pop
  have aligned := (space.head_freeable pop).1
  have above' : (({ k with freelist := rest } : Kmem).memset q 0).level1 root i2 = some l1 := by
    rw [level1_frame tables, above]
  have empty' : (({ k with freelist := rest } : Kmem).memset q 0).level0 root i2 i1 = none := by
    rw [level0_frame tables, empty]
  have grown (x) : (k.hang l1 i1 q rest).IsTable root x ↔ k.IsTable root x ∨ x = q := by
    rw [hang, isTable_hangMid taken.tree aligned above' empty', isTable_frame tables]
  have kept := space.of_hang pop (isTable_level1 above) (tree_hangMid taken.tree fresh aligned above')
    grown (taken.interior.hangMid taken.tree above')
  refine ⟨kept.1, kept.2, ?_, ?_⟩
  · rw [hang, leaf_hangMid taken.tree fresh aligned memset_mem_self above' empty', leaf_frame tables]
  · rw [hang, level0_hangMid taken.tree aligned above', Radix.setMid_apply, if_pos ⟨rfl, rfl⟩]

end Hang

section Walk

variable {r : Option PteAddr}

theorem child_level0 (above : k.level1 root i2 = some l1) :
    k.level0 root i2 i1 = k.child l1 i1 := by
  simp [level0, above]

theorem Space.walkTop (space : k.Space root) (below : va < maxVa) :
    ∃ r k' used, walkLevel k root 2 va true = (r, k') ∧ k'.Space root ∧ k.Grows k' root used ∧
      k'.leaf root = k.leaf root ∧ used.length ≤ 1 ∧
      (r = none ∧ k' = k ∧ k.freelist = [] ∨ ∃ l1, r = some l1 ∧ k'.level1 root (px 2 va) = some l1) := by
  cases found : k.level1 root (px 2 va) with
  | some l1 =>
    exact ⟨some l1, k, [], walkLevel_child found true, space, .refl, rfl, Nat.zero_le _, .inr ⟨l1, rfl, found⟩⟩
  | none =>
    rw [walkLevel_invalid found true]
    cases pop : k.freelist with
    | nil => exact ⟨none, k, [], rfl, space, .refl, rfl, Nat.zero_le _, .inl ⟨rfl, rfl, rfl⟩⟩
    | cons q rest =>
      obtain ⟨space', grows, leaf, top⟩ := space.hangTop pop found (px_two_lt below)
      exact ⟨some q, _, [q], rfl, space', grows, leaf, Nat.le_refl _, .inr ⟨q, rfl, top⟩⟩

theorem Space.walkMid (space : k.Space root) (above : k.level1 root (px 2 va) = some l1) :
    ∃ r k' used, walkLevel k l1 1 va true = (r, k') ∧ k'.Space root ∧ k.Grows k' root used ∧
      k'.leaf root = k.leaf root ∧ used.length ≤ 1 ∧
      (r = none ∧ k' = k ∧ k.freelist = [] ∨
        ∃ l0, r = some l0 ∧ k'.level0 root (px 2 va) (px 1 va) = some l0) := by
  cases found : k.level0 root (px 2 va) (px 1 va) with
  | some l0 =>
    rw [child_level0 above] at found
    exact ⟨some l0, k, [], walkLevel_child found true, space, .refl, rfl, Nat.zero_le _,
      .inr ⟨l0, rfl, by rw [child_level0 above, found]⟩⟩
  | none =>
    have invalid : k.child l1 (px 1 va) = none := by rw [← child_level0 above, found]
    rw [walkLevel_invalid invalid true]
    cases pop : k.freelist with
    | nil => exact ⟨none, k, [], rfl, space, .refl, rfl, Nat.zero_le _, .inl ⟨rfl, rfl, rfl⟩⟩
    | cons q rest =>
      obtain ⟨space', grows, leaf, low⟩ := space.hangMid pop above found
      exact ⟨some q, _, [q], rfl, space', grows, leaf, Nat.le_refl _, .inr ⟨q, rfl, low⟩⟩

theorem Space.walk_alloc (space : k.Space root) (below : va < maxVa) :
    ∃ r k' used, walk k root va true = .ok (r, k') ∧ k'.Space root ∧ k.Grows k' root used ∧
      k'.leaf root = k.leaf root ∧ used.length ≤ 2 ∧
      (r = none ∧ k'.freelist = [] ∧ k.freelist.length ≤ 1 ∨
        ∃ l0, r = some (l0, px 0 va) ∧ k'.level0 root (px 2 va) (px 1 va) = some l0) := by
  have inside : ¬ va ≥ maxVa := UInt64.not_le.mpr below
  obtain ⟨r, k₁, used, top, space₁, grows₁, leaf₁, taken, outcome₁⟩ := space.walkTop below
  rcases outcome₁ with ⟨rfl, rfl, empty⟩ | ⟨l1, rfl, above⟩
  · exact ⟨none, _, used, by simp [walk, inside, top], space₁, grows₁, leaf₁, by omega,
      .inl ⟨rfl, empty, by simp [empty]⟩⟩
  · obtain ⟨r', k₂, used', mid, space₂, grows₂, leaf₂, taken', outcome₂⟩ := space₁.walkMid above
    have both : (used ++ used').length ≤ 2 := by
      rw [List.length_append]
      omega
    rcases outcome₂ with ⟨rfl, rfl, empty⟩ | ⟨l0, rfl, low⟩
    · have before : k.freelist = used := by rw [grows₁.freelist, empty, List.append_nil]
      exact ⟨none, _, used ++ used', by simp [walk, inside, top, mid], space₂, grows₁.trans grows₂,
        leaf₂.trans leaf₁, both, .inl ⟨rfl, empty, before ▸ taken⟩⟩
    · exact ⟨some (l0, px 0 va), k₂, used ++ used', by simp [walk, inside, top, mid], space₂,
        grows₁.trans grows₂, leaf₂.trans leaf₁, both, .inr ⟨l0, rfl, low⟩⟩

theorem walk_found (below : va < maxVa) {l0 : UInt64} (found : k.level0 root (px 2 va) (px 1 va) = some l0) :
    walk k root va true = .ok (some (l0, px 0 va), k) := by
  have inside : ¬ va ≥ maxVa := UInt64.not_le.mpr below
  cases above : k.level1 root (px 2 va) with
  | none => simp [level0, above] at found
  | some l1 =>
    rw [child_level0 above] at found
    simp [walk, inside, walkLevel_child above true, walkLevel_child found true]

theorem walk_lookup (below : va < maxVa) : walk k root va false = .ok (k.lookup root va, k) := by
  have inside : ¬ va ≥ maxVa := UInt64.not_le.mpr below
  cases found : k.level1 root (px 2 va) with
  | none =>
    have top := walkLevel_invalid found false
    simp only [Bool.not_false, if_true] at top
    simp [walk, inside, top, lookup, level0, found]
  | some l1 =>
    have top := walkLevel_child found false
    cases low : k.child l1 (px 1 va) with
    | none =>
      have mid := walkLevel_invalid low false
      simp only [Bool.not_false, if_true] at mid
      simp [walk, inside, top, mid, lookup, child_level0 found, low]
    | some l0 => simp [walk, inside, top, walkLevel_child low false, lookup, child_level0 found, low]

end Walk

end Kmem

end Xv6.Vm
