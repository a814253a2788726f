import Xv6.Vm.Space

/-! `mappages` of one page and `uvmunmap` of a range, on a page table beside
the allocator. `mappages` returns `0` with one new mapping, or `-1`, having
changed no mapping, once `walk` finds the free list empty; it never reaches
`panic("remap")` on an unmapped page. `uvmunmap` of a range whose pages are all
mapped by leaf entries never panics, unmaps exactly that range and, with
`doFree`, gives its pages back to the free list. -/

namespace Xv6.Vm

namespace Kmem

variable {k k' k₁ : Kmem} {root va pa perm a l0 v : UInt64} {n : Nat} {doFree : Bool}
  {used : List UInt64} {i2 i1 : Fin 512}

/-- `va` lies in the `n` pages from `a`. -/
def InPages (a : UInt64) (n : Nat) (va : UInt64) : Prop :=
  a.toNat ≤ va.toNat ∧ va.toNat < a.toNat + 4096 * n

instance : Decidable (InPages a n va) := inferInstanceAs (Decidable (_ ∧ _))

/-- A page `uvmunmap` may free: `kfree` takes it and it is neither free nor a
page of the table. -/
def Owned (k : Kmem) (root pa : UInt64) : Prop :=
  k.Freeable pa ∧ pa ∉ k.freelist ∧ ¬ k.IsTable root pa

theorem Space.congr (space : k.Space root) (tables : ∀ x, k.IsTable root x → k'.mem x = k.mem x)
    (same : k'.freelist = k.freelist) (sameEnd : k'.kernelEnd = k.kernelEnd) : k'.Space root where
  tree := (tree_frame tables).mpr space.tree
  free := space.free.congr same sameEnd
  apart x member := by
    rw [isTable_frame tables]
    exact space.apart x (same ▸ member)
  interior := space.interior.congr tables

theorem Space.setLeaf (space : k.Space root) (found : k.level0 root i2 i1 = some l0) (i0 : Fin 512)
    (v : UInt64) : (k.write l0 i0 v).Space root ∧ k.Grows (k.write l0 i0 v) root [] := by
  have tables : (k.write l0 i0 v).IsTable root = k.IsTable root := isTable_setLeaf space.tree found
  refine ⟨⟨tree_setLeaf space.tree found, space.free.congr rfl rfl, ?_, space.interior.setLeaf space.tree found⟩,
    ⟨rfl, rfl, ?_, ?_⟩⟩
  · intro x member
    rw [tables]
    exact space.apart x member
  · intro x
    rw [tables, List.mem_nil_iff, or_false]
  · intro x outside
    have other : x ≠ l0 := fun same => outside (tables ▸ same ▸ isTable_level0 found)
    exact write_mem_of_ne other

/-! ### `mappages` -/

theorem mappages_one (aligned : va.toNat % 4096 = 0) (below : va < maxVa) :
    mappages k root va pgSize pa perm = mappagesLoop root perm va 1 k va pa := by
  simp [mappages, pgRoundDown_of_aligned aligned, pgRoundDown_last aligned below, pageCount]

theorem Space.mappages_page (space : k.Space root) (below : va < maxVa)
    (aligned : va.toNat % 4096 = 0) (unmapped : k.translate root va = none) (pa perm : UInt64) :
    ∃ r k' used, mappages k root va pgSize pa perm = .ok (r, k') ∧ k'.Space root ∧
      k.Grows k' root used ∧ used.length ≤ 2 ∧
      (r = 0 ∧ (∀ va', k'.translate root va' =
          if va' < maxVa ∧ va'.toNat / 4096 = va.toNat / 4096 then some (pa2pte pa ||| perm ||| pteV)
          else k.translate root va') ∨
        r = -1 ∧ k'.freelist = [] ∧ k.freelist.length ≤ 1 ∧ k'.translate root = k.translate root) := by
  obtain ⟨r, k₁, used, walked, space₁, grows₁, leaf₁, taken, outcome⟩ := space.walk_alloc below
  have same₁ : k₁.translate root = k.translate root := by
    funext va'
    simp only [translate, leaf₁]
  rw [mappages_one aligned below]
  rcases outcome with ⟨rfl, empty, short⟩ | ⟨l0, rfl, found⟩
  · exact ⟨-1, k₁, used, by simp [mappagesLoop, walked], space₁, grows₁, taken,
      .inr ⟨rfl, empty, short, same₁⟩⟩
  · have invalid : k₁.mem l0 (px 0 va) &&& pteV = 0 := by
      have read := translate_found below found
      rw [same₁, unmapped] at read
      split at read
      · cases read
      · rename_i invalid
        simpa using invalid
    obtain ⟨space₂, grows₂⟩ := space₁.setLeaf found (px 0 va) (pa2pte pa ||| perm ||| pteV)
    refine ⟨0, _, used ++ [], by simp [mappagesLoop, walked, invalid], space₂, grows₁.trans grows₂,
      by simpa using taken, .inl ⟨rfl, fun va' => ?_⟩⟩
    rw [translate_setLeaf space₁.tree below found, same₁, if_pos (valid_or_pteV _)]

theorem mappages_found (aligned : va.toNat % 4096 = 0) (below : va < maxVa)
    (found : k.level0 root (px 2 va) (px 1 va) = some l0) (invalid : k.mem l0 (px 0 va) &&& pteV = 0)
    (pa perm : UInt64) :
    mappages k root va pgSize pa perm = .ok (0, k.write l0 (px 0 va) (pa2pte pa ||| perm ||| pteV)) := by
  rw [mappages_one aligned below]
  simp [mappagesLoop, walk_found below found, invalid]

/-! ### `uvmunmap` -/

/-- One pass of `uvmunmap` on the entry at `l0`, `i`, which maps `pa`. -/
def unmapPage (k : Kmem) (l0 : UInt64) (i : Fin 512) (pa : UInt64) (doFree : Bool) : Kmem :=
  (if doFree then ({ k.memset pa 1 with freelist := pa :: k.freelist } : Kmem) else k).write l0 i 0

theorem uvmunmapLoop_succ {last : UInt64} (below : a < maxVa)
    (found : k.level0 root (px 2 a) (px 1 a) = some l0) (valid : k.mem l0 (px 0 a) &&& pteV ≠ 0)
    (leafy : pteFlags (k.mem l0 (px 0 a)) ≠ pteV)
    (freeable : doFree = true → k.Freeable (pte2pa (k.mem l0 (px 0 a)))) :
    uvmunmapLoop root doFree last (n + 1) k a =
      if a == last then .ok (k.unmapPage l0 (px 0 a) (pte2pa (k.mem l0 (px 0 a))) doFree)
      else uvmunmapLoop root doFree last n
        (k.unmapPage l0 (px 0 a) (pte2pa (k.mem l0 (px 0 a))) doFree) (a + pgSize) := by
  cases doFree with
  | false => simp [uvmunmapLoop, walk_lookup below, lookup, found, valid, leafy, unmapPage]
  | true =>
    simp [uvmunmapLoop, walk_lookup below, lookup, found, valid, leafy, unmapPage,
      kfree_ok (freeable rfl)]

theorem Space.kfree_owned (space : k.Space root) (owned : k.Owned root pa) :
    ({ k.memset pa 1 with freelist := pa :: k.freelist } : Kmem).Space root ∧
      ∀ x, k.IsTable root x → ({ k.memset pa 1 with freelist := pa :: k.freelist } : Kmem).mem x = k.mem x := by
  obtain ⟨freeable, notFree, notTable⟩ := owned
  have tables : ∀ x, k.IsTable root x →
      ({ k.memset pa 1 with freelist := pa :: k.freelist } : Kmem).mem x = k.mem x :=
    fun x table => memset_mem_of_ne fun same => notTable (same ▸ table)
  refine ⟨⟨(tree_frame tables).mpr space.tree, ⟨?_, ?_⟩, ?_, space.interior.congr tables⟩, tables⟩
  · exact List.nodup_cons.mpr ⟨notFree, space.free.nodup⟩
  · intro x member
    rcases List.mem_cons.mp member with rfl | old
    · exact freeable
    · exact space.free.freeable x old
  · intro x member
    rw [isTable_frame tables]
    rcases List.mem_cons.mp member with rfl | old
    · exact notTable
    · exact space.apart x old

section UnmapPage

theorem Space.unmapFree (space : k.Space root) (owned : doFree = true → k.Owned root pa) :
    (if doFree then ({ k.memset pa 1 with freelist := pa :: k.freelist } : Kmem) else k).Space root ∧
      ∀ x, k.IsTable root x →
        (if doFree then ({ k.memset pa 1 with freelist := pa :: k.freelist } : Kmem) else k).mem x = k.mem x := by
  cases doFree with
  | false => exact ⟨space, fun _ _ => rfl⟩
  | true => exact space.kfree_owned (owned rfl)

variable (space : k.Space root) (found : k.level0 root (px 2 a) (px 1 a) = some l0)
  (owned : doFree = true → k.Owned root pa)
include space found owned

theorem Space.unmap_page : (k.unmapPage l0 (px 0 a) pa doFree).Space root ∧
    (k.unmapPage l0 (px 0 a) pa doFree).IsTable root = k.IsTable root := by
  obtain ⟨freed, tables⟩ := space.unmapFree owned
  have found' := level0_frame tables ▸ found
  obtain ⟨kept, -⟩ := freed.setLeaf found' (px 0 a) 0
  refine ⟨kept, ?_⟩
  rw [unmapPage, isTable_setLeaf freed.tree found', isTable_frame tables]

theorem translate_unmapPage (below : a < maxVa) (va : UInt64) :
    (k.unmapPage l0 (px 0 a) pa doFree).translate root va =
      if va < maxVa ∧ va.toNat / 4096 = a.toNat / 4096 then none else k.translate root va := by
  obtain ⟨freed, tables⟩ := space.unmapFree owned
  have found' := level0_frame tables ▸ found
  rw [unmapPage, translate_setLeaf freed.tree below found', translate_frame tables]
  simp

end UnmapPage

theorem freelist_unmapPage {i : Fin 512} :
    (k.unmapPage l0 i pa doFree).freelist = (if doFree then [pa] else []) ++ k.freelist := by
  cases doFree <;> simp [unmapPage]

theorem kernelEnd_unmapPage {i : Fin 512} : (k.unmapPage l0 i pa doFree).kernelEnd = k.kernelEnd := by
  cases doFree <;> simp [unmapPage]

theorem frame_unmapPage {i : Fin 512} {x : UInt64} (other : x ≠ l0) (kept : doFree = true → x ≠ pa) :
    (k.unmapPage l0 i pa doFree).mem x = k.mem x := by
  cases doFree with
  | false => simp [unmapPage, write_mem_of_ne other]
  | true => simp [unmapPage, write_mem_of_ne other, memset_mem_of_ne (kept rfl)]


/-- What `uvmunmap` over the `n` pages from `a` needs: each page mapped by a
leaf entry and, with `doFree`, each to a page of its own that it may free. -/
structure Unmappable (k : Kmem) (root a : UInt64) (n : Nat) (doFree : Bool) : Prop where
  mapped : ∀ va, InPages a n va → ∃ e, k.translate root va = some e ∧ pteFlags e ≠ pteV
  owned : doFree = true → ∀ va e, InPages a n va → k.translate root va = some e →
    k.Owned root (pte2pa e)
  distinct : doFree = true → ∀ va va' e e', InPages a n va → InPages a n va' →
    k.translate root va = some e → k.translate root va' = some e' → pte2pa e = pte2pa e' →
    va.toNat / 4096 = va'.toNat / 4096

/-- `k'` is `k` after `uvmunmap` over the `n` pages from `a`: the range is
unmapped, with `doFree` its pages are free, and no other page was written. -/
structure Unmapped (k k' : Kmem) (root a : UInt64) (n : Nat) (doFree : Bool) : Prop where
  space : k'.Space root
  tables : k'.IsTable root = k.IsTable root
  kernelEnd : k'.kernelEnd = k.kernelEnd
  translate : ∀ va, k'.translate root va = if InPages a n va then none else k.translate root va
  freelist : ∃ freed, k'.freelist = freed ++ k.freelist ∧ (doFree = false → freed = []) ∧
    ∀ x ∈ freed, ∃ va e, InPages a n va ∧ k.translate root va = some e ∧ pte2pa e = x
  frame : ∀ x, ¬ k.IsTable root x → x ∉ k'.freelist → k'.mem x = k.mem x

theorem inPages_one (aligned : a.toNat % 4096 = 0) (fits : a.toNat + 4096 ≤ 2 ^ 38) :
    InPages a 1 va ↔ va < maxVa ∧ va.toNat / 4096 = a.toNat / 4096 := by
  have top : maxVa.toNat = 2 ^ 38 := by decide
  rw [InPages, UInt64.lt_iff_toNat_lt, top]
  omega

theorem inPages_succ (next : (a + pgSize).toNat = a.toNat + 4096) :
    InPages a (n + 1) va ↔ InPages a 1 va ∨ InPages (a + pgSize) n va := by
  simp only [InPages, next]
  omega

theorem Space.unmapped_page (space : k.Space root) (aligned : a.toNat % 4096 = 0)
    (fits : a.toNat + 4096 ≤ 2 ^ 38) (found : k.level0 root (px 2 a) (px 1 a) = some l0)
    {e : UInt64} (mapped : k.translate root a = some e) (owned : doFree = true → k.Owned root (pte2pa e)) :
    k.Unmapped (k.unmapPage l0 (px 0 a) (pte2pa e) doFree) root a 1 doFree := by
  have below := (lookup_of_translate mapped).1
  obtain ⟨kept, tables⟩ := space.unmap_page found owned
  refine ⟨kept, tables, kernelEnd_unmapPage, fun va => ?_, ?_, ?_⟩
  · rw [translate_unmapPage space found owned below]
    exact if_congr (inPages_one aligned fits).symm rfl rfl
  · refine ⟨if doFree then [pte2pa e] else [], freelist_unmapPage, by simp, ?_⟩
    intro x member
    have one : x = pte2pa e := by
      cases doFree <;> simp_all
    exact ⟨a, e, ⟨Nat.le_refl _, by omega⟩, mapped, one.symm⟩
  · intro x outside free
    have other : x ≠ l0 := fun same => outside (same ▸ isTable_level0 found)
    refine frame_unmapPage other fun freeing same => free ?_
    rw [freelist_unmapPage, freeing, same]
    exact List.mem_cons_self

theorem Unmapped.trans (first : k.Unmapped k₁ root a 1 doFree)
    (second : k₁.Unmapped k' root (a + pgSize) n doFree) (next : (a + pgSize).toNat = a.toNat + 4096) :
    k.Unmapped k' root a (n + 1) doFree := by
  obtain ⟨freed₁, list₁, none₁, from₁⟩ := first.freelist
  obtain ⟨freed₂, list₂, none₂, from₂⟩ := second.freelist
  have split {va : UInt64} : InPages a (n + 1) va ↔ InPages a 1 va ∨ InPages (a + pgSize) n va :=
    inPages_succ next
  have apart {va} : InPages (a + pgSize) n va → ¬ InPages a 1 va := by
    simp only [InPages, next]
    omega
  refine ⟨second.space, second.tables.trans first.tables, second.kernelEnd.trans first.kernelEnd,
    fun va => ?_, ⟨freed₂ ++ freed₁, ?_, ?_, ?_⟩, ?_⟩
  · rw [second.translate, first.translate]
    by_cases later : InPages (a + pgSize) n va
    · rw [if_pos later, if_pos (split.mpr (.inr later))]
    · by_cases here : InPages a 1 va
      · rw [if_neg later, if_pos here, if_pos (split.mpr (.inl here))]
      · rw [if_neg later, if_neg here, if_neg fun inside => (split.mp inside).elim here later]
  · rw [list₂, list₁, List.append_assoc]
  · intro kept
    rw [none₁ kept, none₂ kept]
    rfl
  · intro x member
    rcases List.mem_append.mp member with later | here
    · obtain ⟨va, e, inside, mapped, rfl⟩ := from₂ x later
      rw [first.translate, if_neg (apart inside)] at mapped
      exact ⟨va, e, split.mpr (.inr inside), mapped, rfl⟩
    · obtain ⟨va, e, inside, mapped, rfl⟩ := from₁ x here
      exact ⟨va, e, split.mpr (.inl inside), mapped, rfl⟩
  · intro x outside free
    have free₁ : x ∉ k₁.freelist := fun member => free (list₂ ▸ List.mem_append_right _ member)
    rw [second.frame x (first.tables ▸ outside) free, first.frame x outside free₁]

theorem Unmappable.next (pre : k.Unmappable root a (n + 1) doFree)
    (first : k.Unmapped k₁ root a 1 doFree) (aligned : a.toNat % 4096 = 0)
    (next : (a + pgSize).toNat = a.toNat + 4096) :
    k₁.Unmappable root (a + pgSize) n doFree := by
  obtain ⟨freed₁, list₁, -, from₁⟩ := first.freelist
  have split {va : UInt64} : InPages a (n + 1) va ↔ InPages a 1 va ∨ InPages (a + pgSize) n va :=
    inPages_succ next
  have apart {va} : InPages (a + pgSize) n va → ¬ InPages a 1 va := by
    simp only [InPages, next]
    omega
  have same {va} (inside : InPages (a + pgSize) n va) : k₁.translate root va = k.translate root va := by
    rw [first.translate, if_neg (apart inside)]
  refine ⟨fun va inside => same inside ▸ pre.mapped va (split.mpr (.inr inside)), ?_, ?_⟩
  · intro freeing va e inside mapped
    rw [same inside] at mapped
    obtain ⟨⟨aligned, low, high⟩, notFree, notTable⟩ := pre.owned freeing va e (split.mpr (.inr inside)) mapped
    refine ⟨⟨aligned, first.kernelEnd ▸ low, high⟩, ?_, first.tables ▸ notTable⟩
    rw [list₁, List.mem_append]
    rintro (member | old)
    · obtain ⟨va', e', inside', mapped', same'⟩ := from₁ _ member
      have samePage := pre.distinct freeing va va' e e' (split.mpr (.inr inside))
        (split.mpr (.inl inside')) mapped mapped' same'.symm
      simp only [InPages, next] at inside inside'
      omega
    · exact notFree old
  · intro freeing va va' e e' inside inside' mapped mapped'
    rw [same inside] at mapped
    rw [same inside'] at mapped'
    exact pre.distinct freeing va va' e e' (split.mpr (.inr inside)) (split.mpr (.inr inside'))
      mapped mapped'

theorem Space.unmap_first (space : k.Space root) (pre : k.Unmappable root a (n + 1) doFree)
    (aligned : a.toNat % 4096 = 0) (fits : a.toNat + 4096 ≤ 2 ^ 38) :
    ∃ k₁, (∀ (fuel : Nat) (last : UInt64), uvmunmapLoop root doFree last (fuel + 1) k a =
        if a == last then .ok k₁ else uvmunmapLoop root doFree last fuel k₁ (a + pgSize)) ∧
      k.Unmapped k₁ root a 1 doFree := by
  have start : InPages a (n + 1) a := ⟨Nat.le_refl _, by omega⟩
  obtain ⟨e, mapped, leafy⟩ := pre.mapped a start
  obtain ⟨below, l0, found, entry, valid⟩ := lookup_of_translate mapped
  have owned := fun freeing => pre.owned freeing a e start mapped
  refine ⟨k.unmapPage l0 (px 0 a) (pte2pa e) doFree, fun fuel last => ?_,
    space.unmapped_page aligned fits found mapped owned⟩
  have valid' : k.mem l0 (px 0 a) &&& pteV ≠ 0 := by
    rw [entry]
    simpa using valid
  rw [uvmunmapLoop_succ below found valid' (entry ▸ leafy) (fun freeing => entry ▸ (owned freeing).1),
    entry]

theorem Space.uvmunmapLoop_spec {last : UInt64} (n : Nat) :
    ∀ (k : Kmem) (a : UInt64), k.Space root → k.Unmappable root a (n + 1) doFree →
      a.toNat % 4096 = 0 → a.toNat + 4096 * (n + 1) ≤ 2 ^ 38 → last.toNat = a.toNat + 4096 * n →
      ∃ k', uvmunmapLoop root doFree last (n + 1) k a = .ok k' ∧ k.Unmapped k' root a (n + 1) doFree := by
  induction n with
  | zero =>
    intro k a space pre aligned fits ends
    rw [Nat.mul_succ, ← Nat.add_assoc] at fits
    have fitsOne : a.toNat + 4096 ≤ 2 ^ 38 := by omega
    obtain ⟨k₁, run, first⟩ := space.unmap_first pre aligned fitsOne
    have atLast : a = last := UInt64.toNat_inj.mp (by omega)
    refine ⟨k₁, ?_, first⟩
    rw [run, atLast]
    simp
  | succ m ih =>
    intro k a space pre aligned fits ends
    rw [Nat.mul_succ, ← Nat.add_assoc, Nat.mul_succ, ← Nat.add_assoc] at fits
    rw [Nat.mul_succ, ← Nat.add_assoc] at ends
    have fitsOne : a.toNat + 4096 ≤ 2 ^ 38 := by omega
    obtain ⟨k₁, run, first⟩ := space.unmap_first pre aligned fitsOne
    have next : (a + pgSize).toNat = a.toNat + 4096 := add_pgSize_toNat (by omega)
    have notLast : a ≠ last := by
      intro same
      rw [same] at ends
      omega
    have aligned' : (a + pgSize).toNat % 4096 = 0 := by omega
    have fits' : (a + pgSize).toNat + 4096 * (m + 1) ≤ 2 ^ 38 := by
      rw [Nat.mul_succ, ← Nat.add_assoc]
      omega
    have ends' : last.toNat = (a + pgSize).toNat + 4096 * m := by omega
    obtain ⟨k', loop, second⟩ := ih k₁ (a + pgSize) first.space (pre.next first aligned next)
      aligned' fits' ends'
    refine ⟨k', ?_, first.trans second next⟩
    rw [run]
    simp [notLast, loop]

theorem Space.uvmunmap_spec {size : UInt64} (space : k.Space root) (aligned : va.toNat % 4096 = 0)
    (positive : 0 < size.toNat) (fits : va.toNat + size.toNat ≤ 2 ^ 38)
    (pre : k.Unmappable root va ((size.toNat + 4095) / 4096) doFree) :
    ∃ k', uvmunmap k root va size doFree = .ok k' ∧
      k.Unmapped k' root va ((size.toNat + 4095) / 4096) doFree := by
  have count : (size.toNat + 4095) / 4096 = (size.toNat - 1) / 4096 + 1 := by omega
  have last : (pgRoundDown (va + size - 1)).toNat = va.toNat + 4096 * ((size.toNat - 1) / 4096) := by
    rw [pgRoundDown_toNat]
    simp only [UInt64.toNat_sub, UInt64.toNat_add]
    simp
    omega
  have passes : pageCount va (pgRoundDown (va + size - 1)) = (size.toNat - 1) / 4096 + 1 := by
    unfold pageCount
    rw [UInt64.toNat_div, UInt64.toNat_sub_of_le _ _ (UInt64.le_iff_toNat_le.mpr (by omega)), last]
    simp [pgSize]
  rw [count] at pre ⊢
  obtain ⟨k', loop, unmapped⟩ := space.uvmunmapLoop_spec _ k va pre aligned (by omega) last
  refine ⟨k', ?_, unmapped⟩
  rw [uvmunmap, pgRoundDown_of_aligned aligned, passes, loop]

end Kmem

end Xv6.Vm
