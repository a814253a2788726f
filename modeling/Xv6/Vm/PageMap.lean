import Xv6.Vm.Fork

/-! The page table as the finite map it implements: each virtual address
below `MAXVA` to the page and the flags of the valid leaf entry that
`walk(pt, va, 0)` reaches. Over a range of pages, whether or not `va` and
`size` are page-aligned, `mappages` adds the mappings of the pages of the
range one after another, from `pa` up, and `uvmunmap` of mapped pages removes
exactly the pages of the range; `walk` without allocating only reads. The
leaf entry `mappages` writes is `PA2PTE(pa) | perm | PTE_V`: it reads back as
`pa` and `perm | PTE_V` when `pa` is page-aligned and `perm` has no bit above
the ten flag bits. -/

namespace Xv6.Vm

namespace Kmem

variable {k k' k₁ : Kmem} {root va pa perm a last : UInt64} {n j : Nat} {doFree : Bool}

/-- `M(pt)`: the page and the flags of the valid leaf entry mapping `va`. -/
def pageMap (k : Kmem) (root va : UInt64) : Option (UInt64 × UInt64) :=
  (k.translate root va).map fun e => (pte2pa e, pteFlags e)

/-- The entry `mappages` writes for the page of `va` in a range from the page
`a`, whose first page it maps to `pa`: the `i`-th page to `pa + i * PGSIZE`. -/
def rangeEntry (a pa perm va : UInt64) : UInt64 :=
  pa2pte (pa + UInt64.ofNat (va.toNat / 4096 - a.toNat / 4096) * pgSize) ||| perm ||| pteV

/-- `k'` is `k` after `mappages` mapped the first `j` pages from `a`: the table
took pages from the free list, wrote no page outside itself, and maps those
pages to the entries of the range and every other page as before. -/
structure Mapped (k k' : Kmem) (root a pa perm : UInt64) (j : Nat) : Prop where
  space : k'.Space root
  grows : ∃ used, k.Grows k' root used
  translate : ∀ va, k'.translate root va = if InPages a j va then some (rangeEntry a pa perm va) else k.translate root va

theorem Mapped.refl (space : k.Space root) : k.Mapped k root a pa perm 0 where
  space := space
  grows := ⟨[], .refl⟩
  translate va := by
    rw [if_neg]
    simp [InPages]

theorem Space.map_first (space : k.Space root) (pa perm : UInt64) (aligned : a.toNat % 4096 = 0) (fits : a.toNat + 4096 ≤ 2 ^ 38)
    (unmapped : k.translate root a = none) :
    ∃ k₁, ((∀ fuel last, mappagesLoop root perm last (fuel + 1) k a pa = .ok (-1, k₁)) ∧
        k.Mapped k₁ root a pa perm 0) ∨
      ((∀ fuel last, mappagesLoop root perm last (fuel + 1) k a pa =
          if a == last then .ok (0, k₁) else mappagesLoop root perm last fuel k₁ (a + pgSize) (pa + pgSize)) ∧
        k.Mapped k₁ root a pa perm 1) := by
  have below : a < maxVa := by
    have top : maxVa.toNat = 2 ^ 38 := by decide
    rw [UInt64.lt_iff_toNat_lt, top]
    omega
  obtain ⟨r, k₁, used, walked, space₁, grows₁, leaf₁, -, outcome⟩ := space.walk_alloc below
  have same₁ : k₁.translate root = k.translate root := by
    funext va'
    simp only [translate, leaf₁]
  rcases outcome with ⟨rfl, -, -⟩ | ⟨l0, rfl, found⟩
  · refine ⟨k₁, .inl ⟨fun fuel last => by simp [mappagesLoop, walked], ⟨space₁, ⟨used, grows₁⟩, ?_⟩⟩⟩
    intro va'
    rw [same₁, if_neg]
    simp [InPages]
  · have invalid : k₁.mem l0 (px 0 a) &&& pteV = 0 := by
      have read := translate_found below found
      rw [same₁, unmapped] at read
      split at read
      · cases read
      · rename_i invalid
        simpa using invalid
    obtain ⟨space₂, grows₂⟩ := space₁.setLeaf found (px 0 a) (pa2pte pa ||| perm ||| pteV)
    refine ⟨_, .inr ⟨fun fuel last => by simp [mappagesLoop, walked, invalid], ⟨space₂, ⟨used ++ [], grows₁.trans grows₂⟩, ?_⟩⟩⟩
    intro va'
    rw [translate_setLeaf space₁.tree below found, same₁, if_pos (valid_or_pteV _)]
    by_cases inside : InPages a 1 va'
    · have first : va'.toNat / 4096 - a.toNat / 4096 = 0 := by
        simp only [InPages] at inside
        omega
      rw [if_pos ((inPages_one aligned fits).mp inside), if_pos inside, rangeEntry, first]
      simp
    · rw [if_neg fun page => inside ((inPages_one aligned fits).mpr page), if_neg inside]

theorem rangeEntry_next (aligned : a.toNat % 4096 = 0) (next : (a + pgSize).toNat = a.toNat + 4096)
    (later : (a + pgSize).toNat ≤ va.toNat) :
    rangeEntry (a + pgSize) (pa + pgSize) perm va = rangeEntry a pa perm va := by
  have index : va.toNat / 4096 - a.toNat / 4096 = (va.toNat / 4096 - (a + pgSize).toNat / 4096) + 1 := by
    omega
  unfold rangeEntry
  rw [index, UInt64.ofNat_add, UInt64.ofNat_one, UInt64.succ_mul, UInt64.add_assoc, UInt64.add_comm pgSize]

theorem Mapped.trans (first : k.Mapped k₁ root a pa perm 1)
    (second : k₁.Mapped k' root (a + pgSize) (pa + pgSize) perm j) (aligned : a.toNat % 4096 = 0)
    (next : (a + pgSize).toNat = a.toNat + 4096) : k.Mapped k' root a pa perm (j + 1) := by
  obtain ⟨used₁, grows₁⟩ := first.grows
  obtain ⟨used₂, grows₂⟩ := second.grows
  have split {va : UInt64} : InPages a (j + 1) va ↔ InPages a 1 va ∨ InPages (a + pgSize) j va :=
    inPages_succ next
  refine ⟨second.space, ⟨used₁ ++ used₂, grows₁.trans grows₂⟩, fun va => ?_⟩
  rw [second.translate, first.translate]
  by_cases later : InPages (a + pgSize) j va
  · rw [if_pos later, if_pos (split.mpr (.inr later)), rangeEntry_next aligned next later.1]
  · by_cases here : InPages a 1 va
    · rw [if_neg later, if_pos here, if_pos (split.mpr (.inl here))]
    · rw [if_neg later, if_neg here, if_neg fun inside => (split.mp inside).elim here later]

theorem Space.mappagesLoop_spec (perm : UInt64) (m : Nat) :
    ∀ (k : Kmem) (a pa : UInt64), k.Space root → a.toNat % 4096 = 0 → a.toNat + 4096 * (m + 1) ≤ 2 ^ 38 →
      last.toNat = a.toNat + 4096 * m → (∀ va, InPages a (m + 1) va → k.translate root va = none) →
      ∃ r k' j, mappagesLoop root perm last (m + 1) k a pa = .ok (r, k') ∧ k.Mapped k' root a pa perm j ∧
        (r = 0 ∧ j = m + 1 ∨ r = -1 ∧ j ≤ m) := by
  induction m with
  | zero =>
    intro k a pa space aligned fits ends unmapped
    have start : InPages a 1 a := ⟨Nat.le_refl _, by omega⟩
    obtain ⟨k₁, ⟨run, mapped⟩ | ⟨run, mapped⟩⟩ :=
      space.map_first pa perm aligned (by omega) (unmapped a start)
    · exact ⟨-1, k₁, 0, run 0 last, mapped, .inr ⟨rfl, Nat.le_refl _⟩⟩
    · have atLast : a = last := UInt64.toNat_inj.mp (by omega)
      refine ⟨0, k₁, 1, ?_, mapped, .inl ⟨rfl, rfl⟩⟩
      rw [run, atLast]
      simp
  | succ m ih =>
    intro k a pa space aligned fits ends unmapped
    rw [Nat.mul_succ, ← Nat.add_assoc, Nat.mul_succ, ← Nat.add_assoc] at fits
    rw [Nat.mul_succ, ← Nat.add_assoc] at ends
    have start : InPages a (m + 1 + 1) a := ⟨Nat.le_refl _, by omega⟩
    obtain ⟨k₁, ⟨run, mapped⟩ | ⟨run, mapped⟩⟩ :=
      space.map_first pa perm aligned (by omega) (unmapped a start)
    · exact ⟨-1, k₁, 0, run (m + 1) last, mapped, .inr ⟨rfl, Nat.zero_le _⟩⟩
    · have next : (a + pgSize).toNat = a.toNat + 4096 := add_pgSize_toNat (by omega)
      have notLast : a ≠ last := by
        intro same
        rw [same] at ends
        omega
      have rest : ∀ va, InPages (a + pgSize) (m + 1) va → k₁.translate root va = none := by
        intro va inside
        have apart : ¬ InPages a 1 va := by
          simp only [InPages, next] at inside ⊢
          omega
        rw [mapped.translate, if_neg apart]
        exact unmapped va ((inPages_succ next).mpr (.inr inside))
      have fits' : (a + pgSize).toNat + 4096 * (m + 1) ≤ 2 ^ 38 := by
        rw [Nat.mul_succ, ← Nat.add_assoc]
        omega
      obtain ⟨r, k', j, loop, mapped', outcome⟩ :=
        ih k₁ (a + pgSize) (pa + pgSize) mapped.space (by omega) fits' (by omega) rest
      refine ⟨r, k', j + 1, ?_, mapped.trans mapped' aligned next, ?_⟩
      · rw [run]
        simp [notLast, loop]
      · rcases outcome with ⟨rfl, rfl⟩ | ⟨rfl, few⟩
        · exact .inl ⟨rfl, rfl⟩
        · exact .inr ⟨rfl, by omega⟩

/-! ### Ranges that need not be page-aligned -/

/-- The number of pages that overlap `[va, va + size)`, from `PGROUNDDOWN(va)`
to `PGROUNDDOWN(va + size - 1)`. -/
def pagesOver (va size : UInt64) : Nat :=
  (va.toNat + size.toNat - 1) / 4096 - va.toNat / 4096 + 1

theorem range_pages {size : UInt64} (positive : 0 < size.toNat) (fits : va.toNat + size.toNat ≤ 2 ^ 38) :
    (pgRoundDown va).toNat % 4096 = 0 ∧ (pgRoundDown va).toNat + 4096 * pagesOver va size ≤ 2 ^ 38 ∧
      (pgRoundDown (va + size - 1)).toNat = (pgRoundDown va).toNat + 4096 * (pagesOver va size - 1) ∧
      pageCount (pgRoundDown va) (pgRoundDown (va + size - 1)) = pagesOver va size := by
  have first := pgRoundDown_toNat va
  have last : (pgRoundDown (va + size - 1)).toNat = (va.toNat + size.toNat - 1) / 4096 * 4096 := by
    rw [pgRoundDown_toNat]
    simp only [UInt64.toNat_sub, UInt64.toNat_add]
    simp
    omega
  have span : (pgRoundDown (va + size - 1)).toNat = (pgRoundDown va).toNat + 4096 * (pagesOver va size - 1) := by
    unfold pagesOver
    omega
  refine ⟨by omega, by unfold pagesOver; omega, span, ?_⟩
  unfold pageCount
  rw [UInt64.toNat_div, UInt64.toNat_sub_of_le _ _ (UInt64.le_iff_toNat_le.mpr (by omega)), span]
  simp [pgSize]
  unfold pagesOver
  omega

theorem Space.mappages_spec {size : UInt64} (space : k.Space root) (pa perm : UInt64) (positive : 0 < size.toNat)
    (fits : va.toNat + size.toNat ≤ 2 ^ 38)
    (unmapped : ∀ va', InPages (pgRoundDown va) (pagesOver va size) va' → k.translate root va' = none) :
    ∃ r k' j, mappages k root va size pa perm = .ok (r, k') ∧ k.Mapped k' root (pgRoundDown va) pa perm j ∧
      (r = 0 ∧ j = pagesOver va size ∨ r = -1 ∧ j < pagesOver va size) := by
  obtain ⟨aligned, fitsA, last, count⟩ := range_pages positive fits
  obtain ⟨m, pages⟩ : ∃ m, pagesOver va size = m + 1 := ⟨_, rfl⟩
  rw [pages] at fitsA count unmapped ⊢
  rw [pages, Nat.add_sub_cancel] at last
  obtain ⟨r, k', j, loop, mapped, outcome⟩ :=
    space.mappagesLoop_spec perm m k (pgRoundDown va) pa aligned fitsA last unmapped
  refine ⟨r, k', j, ?_, mapped, ?_⟩
  · rw [mappages, count]
    exact loop
  · rcases outcome with ⟨rfl, rfl⟩ | ⟨rfl, few⟩
    · exact .inl ⟨rfl, rfl⟩
    · exact .inr ⟨rfl, Nat.lt_succ_of_le few⟩

theorem Space.uvmunmap_range {size : UInt64} (space : k.Space root) (positive : 0 < size.toNat)
    (fits : va.toNat + size.toNat ≤ 2 ^ 38) (pre : k.Unmappable root (pgRoundDown va) (pagesOver va size) doFree) :
    ∃ k', uvmunmap k root va size doFree = .ok k' ∧ k.Unmapped k' root (pgRoundDown va) (pagesOver va size) doFree := by
  obtain ⟨aligned, fitsA, last, count⟩ := range_pages positive fits
  obtain ⟨m, pages⟩ : ∃ m, pagesOver va size = m + 1 := ⟨_, rfl⟩
  rw [pages] at fitsA count pre ⊢
  rw [pages, Nat.add_sub_cancel] at last
  obtain ⟨k', loop, unmapped⟩ := space.uvmunmapLoop_spec m k (pgRoundDown va) pre aligned fitsA last
  refine ⟨k', ?_, unmapped⟩
  rw [uvmunmap, count]
  exact loop

/-! ### The map -/

theorem walk_reads (va : UInt64) :
    walk k root va false = if va < maxVa then .ok (k.lookup root va, k) else .error "walk" := by
  by_cases below : va < maxVa
  · rw [if_pos below, walk_lookup below]
  · rw [if_neg below]
    simp [walk, UInt64.not_lt.mp below]

theorem Mapped.pageMap (mapped : k.Mapped k' root a pa perm j) (aligned : pa.toNat % 4096 = 0)
    (low : perm.toNat < 1024) (va : UInt64) :
    k'.pageMap root va = if InPages a j va then
      some (pa + UInt64.ofNat (va.toNat / 4096 - a.toNat / 4096) * pgSize, perm ||| pteV) else k.pageMap root va := by
  unfold Kmem.pageMap
  rw [mapped.translate]
  split
  · have shifted : (pa + UInt64.ofNat (va.toNat / 4096 - a.toNat / 4096) * pgSize).toNat % 4096 = 0 := by
      simp only [UInt64.toNat_add, UInt64.toNat_mul, UInt64.toNat_ofNat, pgSize]
      omega
    simp [rangeEntry, pte2pa_leaf shifted low, pteFlags_leaf low]
  · rfl

theorem Unmapped.pageMap (unmapped : k.Unmapped k' root a n doFree) (va : UInt64) :
    k'.pageMap root va = if InPages a n va then none else k.pageMap root va := by
  unfold Kmem.pageMap
  rw [unmapped.translate]
  split <;> rfl

theorem pageTable_implements_map (space : k.Space root) :
    (∀ va, walk k root va false = if va < maxVa then .ok (k.lookup root va, k) else .error "walk") ∧
    (∀ va size pa perm, 0 < size.toNat → va.toNat + size.toNat ≤ 2 ^ 38 → pa.toNat % 4096 = 0 →
      perm.toNat < 1024 → (∀ va', InPages (pgRoundDown va) (pagesOver va size) va' → k.pageMap root va' = none) →
      ∃ r k' j, mappages k root va size pa perm = .ok (r, k') ∧ k'.Space root ∧
        (r = 0 ∧ j = pagesOver va size ∨ r = -1 ∧ j < pagesOver va size) ∧
        ∀ va', k'.pageMap root va' = if InPages (pgRoundDown va) j va' then
          some (pa + UInt64.ofNat (va'.toNat / 4096 - va.toNat / 4096) * pgSize, perm ||| pteV)
          else k.pageMap root va') ∧
    (∀ va size doFree, 0 < size.toNat → va.toNat + size.toNat ≤ 2 ^ 38 →
      k.Unmappable root (pgRoundDown va) (pagesOver va size) doFree →
      ∃ k', uvmunmap k root va size doFree = .ok k' ∧
        k.Unmapped k' root (pgRoundDown va) (pagesOver va size) doFree ∧
        ∀ va', k'.pageMap root va' = if InPages (pgRoundDown va) (pagesOver va size) va' then none
          else k.pageMap root va') := by
  refine ⟨walk_reads, ?_, ?_⟩
  · intro va size pa perm positive fits aligned low unmapped
    have none : ∀ va', InPages (pgRoundDown va) (pagesOver va size) va' → k.translate root va' = none := by
      intro va' inside
      simpa [Kmem.pageMap] using unmapped va' inside
    obtain ⟨r, k', j, run, mapped, outcome⟩ := space.mappages_spec pa perm positive fits none
    have first : (pgRoundDown va).toNat / 4096 = va.toNat / 4096 := by
      rw [pgRoundDown_toNat]
      omega
    refine ⟨r, k', j, run, mapped.space, outcome, fun va' => ?_⟩
    rw [mapped.pageMap aligned low, first]
  · intro va size doFree positive fits pre
    obtain ⟨k', run, unmapped⟩ := space.uvmunmap_range positive fits pre
    exact ⟨k', run, unmapped, unmapped.pageMap⟩

/-- Three free pages past the kernel. -/
def threeFree : Kmem :=
  { kernelEnd := 0x80020000, freelist := [0x87f00000, 0x87f01000, 0x87f02000], mem := fun _ _ => 0 }

/-- The empty user page table `uvmcreate` makes of the first of them. -/
def emptyTable : Kmem :=
  ({ threeFree with freelist := [0x87f01000, 0x87f02000] } : Kmem).memset 0x87f00000 0

theorem emptyTable_space : emptyTable.Space 0x87f00000 := by
  refine FreeList.uvmcreate_space (k := threeFree) ⟨by decide, ?_⟩ rfl
  intro pa member
  simp only [threeFree, List.mem_cons, List.not_mem_nil, or_false] at member
  rcases member with rfl | rfl | rfl <;> exact ⟨by decide, by decide, by decide⟩

/-- The map of the empty table, `M` read off `uvmcreate`'s page. -/
theorem pageTable_implements_map_emptyTable :
    emptyTable.Space 0x87f00000 ∧
    (∀ va, walk emptyTable 0x87f00000 va false =
      if va < maxVa then .ok (emptyTable.lookup 0x87f00000 va, emptyTable) else .error "walk") ∧
    (∀ va size pa perm, 0 < size.toNat → va.toNat + size.toNat ≤ 2 ^ 38 → pa.toNat % 4096 = 0 →
      perm.toNat < 1024 →
      (∀ va', InPages (pgRoundDown va) (pagesOver va size) va' → emptyTable.pageMap 0x87f00000 va' = none) →
      ∃ r k' j, mappages emptyTable 0x87f00000 va size pa perm = .ok (r, k') ∧ k'.Space 0x87f00000 ∧
        (r = 0 ∧ j = pagesOver va size ∨ r = -1 ∧ j < pagesOver va size) ∧
        ∀ va', k'.pageMap 0x87f00000 va' = if InPages (pgRoundDown va) j va' then
          some (pa + UInt64.ofNat (va'.toNat / 4096 - va.toNat / 4096) * pgSize, perm ||| pteV)
          else emptyTable.pageMap 0x87f00000 va') ∧
    (∀ va size doFree, 0 < size.toNat → va.toNat + size.toNat ≤ 2 ^ 38 →
      emptyTable.Unmappable 0x87f00000 (pgRoundDown va) (pagesOver va size) doFree →
      ∃ k', uvmunmap emptyTable 0x87f00000 va size doFree = .ok k' ∧
        emptyTable.Unmapped k' 0x87f00000 (pgRoundDown va) (pagesOver va size) doFree ∧
        ∀ va', k'.pageMap 0x87f00000 va' = if InPages (pgRoundDown va) (pagesOver va size) va' then none
          else emptyTable.pageMap 0x87f00000 va') :=
  ⟨emptyTable_space, pageTable_implements_map emptyTable_space⟩

/-- `mappages` of the page at `0x1000` to `pa = 0x80100001`, one byte into a
page, in the empty table: it returns `0`, and `M` maps the page to
`0x80100000`, not to `pa`, for `PA2PTE` drops the low twelve bits. -/
theorem mappages_unaligned_pa :
    emptyTable.Space 0x87f00000 ∧ emptyTable.pageMap 0x87f00000 0x1000 = none ∧
      (mappages emptyTable 0x87f00000 0x1000 4096 0x80100001 (pteR ||| pteU)).map
        (fun (r, k') => (r, k'.pageMap 0x87f00000 0x1000)) = .ok (0, some (0x80100000, pteR ||| pteU ||| pteV)) :=
  ⟨emptyTable_space, rfl, rfl⟩

end Kmem

end Xv6.Vm
