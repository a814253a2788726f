import Xv6.Vm.Vm
import Xv6.Vm.Pte
import Xv6.Lib.Radix

/-! A user page table as `walk` reads it out of physical memory: the level-1
and level-0 pages under the root, the valid leaf entry that maps each virtual
page, and the pages of the table. The table is a radix tree in the sense of
`Xv6.Lib.Radix`; the writes `walk` and `mappages` make to it hang fresh zeroed
pages from invalid entries or set one leaf entry, and change what one page
maps at most. -/

namespace Xv6.Vm

open Xv6.Lib

namespace Kmem

/-- The page a valid entry points to, `PTE2PA(pagetable[i])`. -/
def child (k : Kmem) (page : UInt64) (i : Fin 512) : Option UInt64 :=
  if k.mem page i &&& pteV != 0 then some (pte2pa (k.mem page i)) else none

/-- The level-1 page under entry `i2` of the root. -/
def level1 (k : Kmem) (root : UInt64) (i2 : Fin 512) : Option UInt64 :=
  k.child root i2

/-- The level-0 page under entries `i2` and `i1`. -/
def level0 (k : Kmem) (root : UInt64) (i2 i1 : Fin 512) : Option UInt64 :=
  (k.level1 root i2).bind fun l1 => k.child l1 i1

/-- The valid entry `i0` of the level-0 page under `i2` and `i1`. -/
def leaf (k : Kmem) (root : UInt64) (i2 i1 i0 : Fin 512) : Option UInt64 :=
  (k.level0 root i2 i1).bind fun l0 =>
    if k.mem l0 i0 &&& pteV != 0 then some (k.mem l0 i0) else none

/-- The valid leaf entry mapping `va`; none at and above `MAXVA`, where `walk`
panics. -/
def translate (k : Kmem) (root va : UInt64) : Option UInt64 :=
  if va < maxVa then k.leaf root (px 2 va) (px 1 va) (px 0 va) else none

/-- The place of the level-0 entry for `va`, as `walk` finds it without
allocating. -/
def lookup (k : Kmem) (root va : UInt64) : Option PteAddr :=
  (k.level0 root (px 2 va) (px 1 va)).map fun l0 => (l0, px 0 va)

/-- The pages of the page table at `root`. -/
def IsTable (k : Kmem) (root : UInt64) : UInt64 → Prop :=
  Reaches root (k.level1 root) (k.level0 root)

/-- The page table at `root` is a tree. -/
def Tree (k : Kmem) (root : UInt64) : Prop :=
  Radix root (k.level1 root) (k.level0 root)

variable {k k' : Kmem} {root page q l1 l0 v : UInt64} {i i2 i1 i0 : Fin 512}

theorem isTable_root : k.IsTable root root := .inl rfl

theorem isTable_level1 (found : k.level1 root i2 = some q) : k.IsTable root q :=
  .inr (.inl ⟨i2, found⟩)

theorem isTable_level0 (found : k.level0 root i2 i1 = some q) : k.IsTable root q :=
  .inr (.inr ⟨i2, i1, found⟩)

/-! ### Reading is local to the table pages -/

theorem child_frame (same : k'.mem page = k.mem page) : k'.child page = k.child page := by
  funext i
  simp only [child, same]

section Frame

variable (tables : ∀ q, k.IsTable root q → k'.mem q = k.mem q)
include tables

theorem level1_frame : k'.level1 root = k.level1 root :=
  child_frame (tables root isTable_root)

theorem level0_frame : k'.level0 root = k.level0 root := by
  funext i2 i1
  unfold level0
  rw [level1_frame tables]
  cases found : k.level1 root i2 with
  | none => rfl
  | some l1 => simp only [Option.bind_some, child_frame (tables l1 (isTable_level1 found))]

theorem leaf_frame : k'.leaf root = k.leaf root := by
  funext i2 i1 i0
  unfold leaf
  rw [level0_frame tables]
  cases found : k.level0 root i2 i1 with
  | none => rfl
  | some l0 => simp only [Option.bind_some, tables l0 (isTable_level0 found)]

theorem translate_frame : k'.translate root = k.translate root := by
  funext va
  simp only [translate, leaf_frame tables]

theorem isTable_frame : k'.IsTable root = k.IsTable root := by
  simp only [IsTable, level1_frame tables, level0_frame tables]

theorem tree_frame : k'.Tree root ↔ k.Tree root := by
  simp only [Tree, level1_frame tables, level0_frame tables]

end Frame

/-! ### One write to one entry -/

theorem child_write_of_ne (other : q ≠ page) : (k.write page i v).child q = k.child q :=
  child_frame (write_mem_of_ne other)

theorem child_write_other {j : Fin 512} (other : j ≠ i) :
    (k.write page i v).child page j = k.child page j := by
  simp [child, Function.update_of_ne other]

theorem child_write_pointer (aligned : q.toNat % 4096 = 0) :
    (k.write page i (pa2pte q ||| pteV)).child page i = some q := by
  have low : pteV.toNat < 1024 := by decide
  have valid : pteV.toNat % 2 = 1 := by decide
  simp [child, entry_valid low valid, pte2pa_entry aligned low]

theorem child_zero (zero : k.mem q = fun _ => fillWord 0) : k.child q i = none := by
  simp [child, zero, zero_invalid]

section Hang

variable {x : UInt64}

theorem ne_root_of_fresh (fresh : ¬ k.IsTable root q) : q ≠ root :=
  fun same => fresh (same ▸ isTable_root)

theorem ne_level1_of_fresh (fresh : ¬ k.IsTable root q) (above : k.level1 root i2 = some l1) :
    q ≠ l1 :=
  fun same => fresh (same ▸ isTable_level1 above)

theorem level1_hangTop (aligned : q.toNat % 4096 = 0) :
    (k.write root i2 (pa2pte q ||| pteV)).level1 root = Function.update (k.level1 root) i2 (some q) := by
  funext j2
  by_cases same : j2 = i2
  · subst j2
    simp only [level1, Function.update_self]
    exact child_write_pointer aligned
  · simp only [level1, Function.update_of_ne same]
    exact child_write_other same

theorem level0_hangTop (tree : k.Tree root) (fresh : ¬ k.IsTable root q)
    (aligned : q.toNat % 4096 = 0) (zero : k.mem q = fun _ => fillWord 0)
    (empty : k.level1 root i2 = none) :
    (k.write root i2 (pa2pte q ||| pteV)).level0 root = k.level0 root := by
  funext j2 j1
  simp only [level0, level1_hangTop aligned]
  by_cases same : j2 = i2
  · subst j2
    simp [empty, child_write_of_ne (ne_root_of_fresh fresh), child_zero zero]
  · rw [Function.update_of_ne same]
    cases found : k.level1 root j2 with
    | none => rfl
    | some l1 => simp [child_write_of_ne (tree.top_ne_root found)]

theorem leaf_hangTop (tree : k.Tree root) (fresh : ¬ k.IsTable root q)
    (aligned : q.toNat % 4096 = 0) (zero : k.mem q = fun _ => fillWord 0)
    (empty : k.level1 root i2 = none) :
    (k.write root i2 (pa2pte q ||| pteV)).leaf root = k.leaf root := by
  funext j2 j1 j0
  simp only [leaf, level0_hangTop tree fresh aligned zero empty]
  cases found : k.level0 root j2 j1 with
  | none => rfl
  | some l0 => simp [write_mem_of_ne (tree.mid_ne_root found)]

theorem tree_hangTop (tree : k.Tree root) (fresh : ¬ k.IsTable root q)
    (aligned : q.toNat % 4096 = 0) (zero : k.mem q = fun _ => fillWord 0)
    (empty : k.level1 root i2 = none) :
    (k.write root i2 (pa2pte q ||| pteV)).Tree root := by
  unfold Tree
  rw [level1_hangTop aligned, level0_hangTop tree fresh aligned zero empty]
  exact Radix.hangTop tree fresh

theorem isTable_hangTop (tree : k.Tree root) (fresh : ¬ k.IsTable root q)
    (aligned : q.toNat % 4096 = 0) (zero : k.mem q = fun _ => fillWord 0)
    (empty : k.level1 root i2 = none) :
    (k.write root i2 (pa2pte q ||| pteV)).IsTable root x ↔ k.IsTable root x ∨ x = q := by
  unfold IsTable
  rw [level1_hangTop aligned, level0_hangTop tree fresh aligned zero empty]
  exact Radix.reaches_hangTop empty

theorem level1_hangMid (tree : k.Tree root) (above : k.level1 root i2 = some l1) :
    (k.write l1 i1 (pa2pte q ||| pteV)).level1 root = k.level1 root :=
  child_write_of_ne (tree.top_ne_root above).symm

theorem level0_hangMid (tree : k.Tree root) (aligned : q.toNat % 4096 = 0)
    (above : k.level1 root i2 = some l1) :
    (k.write l1 i1 (pa2pte q ||| pteV)).level0 root = Radix.setMid (k.level0 root) i2 i1 q := by
  funext j2 j1
  rw [Radix.setMid_apply]
  simp only [level0, level1_hangMid tree above]
  split
  · rename_i same
    obtain ⟨rfl, rfl⟩ := same
    simp only [above, Option.bind_some]
    exact child_write_pointer aligned
  · rename_i other
    cases found : k.level1 root j2 with
    | none => rfl
    | some l1' =>
      simp only [Option.bind_some]
      by_cases shared : l1' = l1
      · subst l1'
        have sameSlot : j2 = i2 := tree.top_inj found above
        subst j2
        exact child_write_other fun same => other ⟨rfl, same⟩
      · rw [child_write_of_ne shared]

theorem leaf_hangMid (tree : k.Tree root) (fresh : ¬ k.IsTable root q)
    (aligned : q.toNat % 4096 = 0) (zero : k.mem q = fun _ => fillWord 0)
    (above : k.level1 root i2 = some l1) (empty : k.level0 root i2 i1 = none) :
    (k.write l1 i1 (pa2pte q ||| pteV)).leaf root = k.leaf root := by
  funext j2 j1 j0
  simp only [leaf, level0_hangMid tree aligned above, Radix.setMid_apply]
  split
  · rename_i same
    obtain ⟨rfl, rfl⟩ := same
    simp [empty, write_mem_of_ne (ne_level1_of_fresh fresh above), zero, zero_invalid]
  · cases found : k.level0 root j2 j1 with
    | none => rfl
    | some l0 =>
      have apart : l0 ≠ l1 := fun same => tree.mid_ne_top found (same ▸ above)
      simp [write_mem_of_ne apart]

theorem tree_hangMid (tree : k.Tree root) (fresh : ¬ k.IsTable root q)
    (aligned : q.toNat % 4096 = 0) (above : k.level1 root i2 = some l1) :
    (k.write l1 i1 (pa2pte q ||| pteV)).Tree root := by
  unfold Tree
  rw [level1_hangMid tree above, level0_hangMid tree aligned above]
  exact Radix.hangMid tree fresh

theorem isTable_hangMid (tree : k.Tree root) (aligned : q.toNat % 4096 = 0)
    (above : k.level1 root i2 = some l1) (empty : k.level0 root i2 i1 = none) :
    (k.write l1 i1 (pa2pte q ||| pteV)).IsTable root x ↔ k.IsTable root x ∨ x = q := by
  unfold IsTable
  rw [level1_hangMid tree above, level0_hangMid tree aligned above]
  exact Radix.reaches_setMid empty

end Hang

/-! ### Setting a leaf entry -/

section Leaf

variable (tree : k.Tree root) (found : k.level0 root i2 i1 = some l0)
include tree found

theorem level1_setLeaf : (k.write l0 i0 v).level1 root = k.level1 root :=
  child_write_of_ne (tree.mid_ne_root found).symm

theorem level0_setLeaf : (k.write l0 i0 v).level0 root = k.level0 root := by
  funext j2 j1
  simp only [level0, level1_setLeaf tree found]
  cases above : k.level1 root j2 with
  | none => rfl
  | some l1 =>
    have apart : l1 ≠ l0 := fun same => tree.mid_ne_top found (same ▸ above)
    simp [child_write_of_ne apart]

theorem isTable_setLeaf : (k.write l0 i0 v).IsTable root = k.IsTable root := by
  simp only [IsTable, level1_setLeaf tree found, level0_setLeaf tree found]

theorem tree_setLeaf : (k.write l0 i0 v).Tree root := by
  unfold Tree
  rw [level1_setLeaf tree found, level0_setLeaf tree found]
  exact tree

theorem leaf_setLeaf {j2 j1 j0 : Fin 512} :
    (k.write l0 i0 v).leaf root j2 j1 j0 =
      if j2 = i2 ∧ j1 = i1 ∧ j0 = i0 then (if v &&& pteV != 0 then some v else none)
      else k.leaf root j2 j1 j0 := by
  simp only [leaf, level0_setLeaf tree found]
  cases other : k.level0 root j2 j1 with
  | none =>
    have apart : ¬ (j2 = i2 ∧ j1 = i1 ∧ j0 = i0) := by
      rintro ⟨rfl, rfl, -⟩
      rw [found] at other
      cases other
    simp [apart]
  | some l0' =>
    simp only [Option.bind_some]
    by_cases shared : l0' = l0
    · subst l0'
      obtain ⟨rfl, rfl⟩ := tree.mid_inj other found
      by_cases slot : j0 = i0
      · subst j0
        simp
      · simp [slot]
    · have apart : ¬ (j2 = i2 ∧ j1 = i1 ∧ j0 = i0) := by
        rintro ⟨rfl, rfl, -⟩
        exact shared (Option.some.inj (other.symm.trans found))
      simp [write_mem_of_ne shared, apart]

end Leaf

theorem translate_setLeaf {va va' : UInt64} (tree : k.Tree root) (below : va < maxVa)
    (found : k.level0 root (px 2 va) (px 1 va) = some l0) :
    (k.write l0 (px 0 va) v).translate root va' =
      if va' < maxVa ∧ va'.toNat / 4096 = va.toNat / 4096 then
        (if v &&& pteV != 0 then some v else none)
      else k.translate root va' := by
  unfold translate
  by_cases inside : va' < maxVa
  · have samePage := px_eq_iff inside below
    rw [if_pos inside, leaf_setLeaf tree found]
    by_cases same : va'.toNat / 4096 = va.toNat / 4096
    · rw [if_pos (samePage.mpr same), if_pos (And.intro inside same)]
    · have differ : ¬ (px 2 va' = px 2 va ∧ px 1 va' = px 1 va ∧ px 0 va' = px 0 va) :=
        fun indices => same (samePage.mp indices)
      rw [if_neg differ, if_neg (fun both => same both.2), if_pos inside]
  · simp [inside]

theorem translate_found {va : UInt64} (below : va < maxVa)
    (found : k.level0 root (px 2 va) (px 1 va) = some l0) :
    k.translate root va =
      if k.mem l0 (px 0 va) &&& pteV != 0 then some (k.mem l0 (px 0 va)) else none := by
  simp [translate, below, leaf, found]

theorem lookup_of_translate {va e : UInt64} (mapped : k.translate root va = some e) :
    va < maxVa ∧ ∃ l0, k.level0 root (px 2 va) (px 1 va) = some l0 ∧ k.mem l0 (px 0 va) = e ∧
      (e &&& pteV != 0) = true := by
  unfold translate at mapped
  split at mapped
  · rename_i below
    refine ⟨below, ?_⟩
    unfold leaf at mapped
    cases found : k.level0 root (px 2 va) (px 1 va) with
    | none => simp [found] at mapped
    | some l0 =>
      simp only [found, Option.bind_some] at mapped
      split at mapped
      · rename_i valid
        cases mapped
        exact ⟨l0, rfl, rfl, valid⟩
      · cases mapped
  · cases mapped

/-! ### Pointers in the upper levels -/

theorem isTableEntry_flags (pte : UInt64) : isTableEntry (pteFlags pte) = isTableEntry pte := by
  have valid : (0x3FF : UInt64) &&& pteV = pteV := by decide
  have rwx : (0x3FF : UInt64) &&& (pteR ||| pteW ||| pteX) = pteR ||| pteW ||| pteX := by decide
  simp only [isTableEntry, pteFlags, UInt64.and_assoc, valid, rwx]

theorem isTableEntry_pointer (q : UInt64) : isTableEntry (pa2pte q ||| pteV) = true := by
  have flags : pteFlags (pa2pte q ||| 0 ||| pteV) = 0 ||| pteV := pteFlags_leaf (by decide)
  rw [UInt64.or_zero] at flags
  rw [← isTableEntry_flags, flags]
  decide

/-- The upper levels of the table at `root` hold pointers only, as `walk`
writes them: each valid entry of the root, all of them below `MAXVA`, and of
a level-1 page passes `freewalk`'s test for a pointer to a lower table. -/
structure Interior (k : Kmem) (root : UInt64) : Prop where
  top : ∀ i q, k.child root i = some q → isTableEntry (k.mem root i) = true ∧ i.val < 256
  mid : ∀ i2 l1, k.level1 root i2 = some l1 → ∀ i q, k.child l1 i = some q →
    isTableEntry (k.mem l1 i) = true

theorem Interior.frame (inner : k.Interior root)
    (upper : ∀ x, (x = root ∨ ∃ i2, k.level1 root i2 = some x) → k'.mem x = k.mem x) :
    k'.Interior root := by
  have rootSame := upper root (.inl rfl)
  have level1Same : k'.level1 root = k.level1 root := child_frame rootSame
  refine ⟨fun i q found => ?_, fun i2 l1 above i q found => ?_⟩
  · rw [child_frame rootSame] at found
    rw [rootSame]
    exact inner.top i q found
  · rw [level1Same] at above
    have same := upper l1 (.inr ⟨i2, above⟩)
    rw [child_frame same] at found
    rw [same]
    exact inner.mid i2 l1 above i q found

theorem Interior.congr (inner : k.Interior root) (tables : ∀ x, k.IsTable root x → k'.mem x = k.mem x) :
    k'.Interior root :=
  inner.frame fun x upper =>
    tables x (upper.elim (fun same => same ▸ isTable_root) fun ⟨_, above⟩ => isTable_level1 above)

theorem Interior.setLeaf (inner : k.Interior root) (tree : k.Tree root)
    (found : k.level0 root i2 i1 = some l0) : (k.write l0 i0 v).Interior root :=
  inner.frame fun x upper => write_mem_of_ne <| by
    rintro rfl
    rcases upper with same | ⟨j2, above⟩
    · exact tree.mid_ne_root found same
    · exact tree.mid_ne_top found above

theorem Interior.hangTop (inner : k.Interior root) (tree : k.Tree root) (fresh : ¬ k.IsTable root q)
    (aligned : q.toNat % 4096 = 0) (zero : k.mem q = fun _ => fillWord 0) (low : i2.val < 256) :
    (k.write root i2 (pa2pte q ||| pteV)).Interior root := by
  refine ⟨fun i p found => ?_, fun j2 l1 above i p found => ?_⟩
  · by_cases same : i = i2
    · subst i
      simp [isTableEntry_pointer, low]
    · rw [child_write_other same] at found
      rw [write_mem_self, Function.update_of_ne same]
      exact inner.top i p found
  · rw [level1_hangTop aligned] at above
    by_cases same : j2 = i2
    · subst j2
      simp only [Function.update_self, Option.some.injEq] at above
      subst l1
      rw [child_write_of_ne (ne_root_of_fresh fresh), child_zero zero] at found
      cases found
    · rw [Function.update_of_ne same] at above
      have other := tree.top_ne_root above
      rw [child_write_of_ne other] at found
      rw [write_mem_of_ne other]
      exact inner.mid j2 l1 above i p found

theorem Interior.hangMid (inner : k.Interior root) (tree : k.Tree root) (above : k.level1 root i2 = some l1) :
    (k.write l1 i1 (pa2pte q ||| pteV)).Interior root := by
  have other := tree.top_ne_root above
  refine ⟨fun i p found => ?_, fun j2 l1' above' i p found => ?_⟩
  · rw [child_write_of_ne other.symm] at found
    rw [write_mem_of_ne other.symm]
    exact inner.top i p found
  · rw [level1_hangMid tree above] at above'
    by_cases shared : l1' = l1
    · subst l1'
      by_cases slot : i = i1
      · subst i
        simp [isTableEntry_pointer]
      · rw [child_write_other slot] at found
        rw [write_mem_self, Function.update_of_ne slot]
        exact inner.mid j2 l1 above' i p found
    · rw [child_write_of_ne shared] at found
      rw [write_mem_of_ne shared]
      exact inner.mid j2 l1' above' i p found

end Kmem

end Xv6.Vm
