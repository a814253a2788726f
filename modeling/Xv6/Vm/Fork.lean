import Xv6.Vm.Sbrk

/-! `fork` by a process whose user memory is well formed. `allocproc` takes the
child's trapframe and, in `proc_pagetable`, a fresh page table; `uvmcopy`
copies the parent's pages into pages taken from the free list, and on a failed
`kalloc` or `mappages` unmaps and frees what it copied. All of it writes pages
that were free when `fork` began, so whatever `fork` returns the parent sees
the memory it saw. -/

namespace Xv6.Vm

open Xv6.Lib

namespace Kmem

variable {k0 k k' k₁ k₂ : Kmem} {root pt q pa va l0 a0 : UInt64} {rest : List UInt64} {i n : Nat}

/-- `k` differs from `k0` only in pages that were free in `k0`, and has no
free page that `k0` did not have. -/
structure Uses (k0 k : Kmem) : Prop where
  kernelEnd : k.kernelEnd = k0.kernelEnd
  freelist : ∀ x ∈ k.freelist, x ∈ k0.freelist
  frame : ∀ x, x ∉ k0.freelist → k.mem x = k0.mem x

theorem Uses.refl : k.Uses k := ⟨rfl, fun _ member => member, fun _ _ => rfl⟩

theorem Uses.trans (first : k0.Uses k) (second : k.Uses k') : k0.Uses k' where
  kernelEnd := second.kernelEnd.trans first.kernelEnd
  freelist x member := first.freelist x (second.freelist x member)
  frame x notFree := by
    rw [second.frame x fun member => notFree (first.freelist x member), first.frame x notFree]

theorem Uses.draws (uses : k0.Uses k) (draws : k.Draws k' pt) (tables : ∀ x, k.IsTable pt x → x ∈ k0.freelist) :
    k0.Uses k' where
  kernelEnd := draws.kernelEnd.trans uses.kernelEnd
  freelist x member := uses.freelist x (draws.freelist x member)
  frame x notFree := by
    have notTable : ¬ k.IsTable pt x := fun table => notFree (tables x table)
    rw [draws.frame x notTable fun member => notFree (uses.freelist x member), uses.frame x notFree]

theorem Draws.tables_free (uses : k0.Uses k) (draws : k.Draws k' pt)
    (tables : ∀ x, k.IsTable pt x → x ∈ k0.freelist) : ∀ x, k'.IsTable pt x → x ∈ k0.freelist :=
  fun x table => (draws.tables x table).elim (tables x) (uses.freelist x)

theorem Uses.sees (uses : k0.Uses k) (space : k0.Space root)
    (apart : ∀ va e, k0.translate root va = some e → pte2pa e ∉ k0.freelist) : k0.Sees k root where
  translate := translate_frame fun q table => uses.frame q fun member => space.apart q member table
  contents va e found := uses.frame _ (apart va e found)

theorem Unmapped.draws {a : UInt64} (unmapped : k.Unmapped k' pt a n false) : k.Draws k' pt := by
  obtain ⟨freed, list, none, -⟩ := unmapped.freelist
  rw [none rfl, List.nil_append] at list
  refine ⟨unmapped.kernelEnd, fun x member => list ▸ member, fun x table => .inl (unmapped.tables ▸ table),
    fun x outside notFree => unmapped.frame x outside (list ▸ notFree)⟩

/-! ### A page taken off the free list and written -/

theorem Freeable.congr (ok : k.Freeable pa) (sameEnd : k'.kernelEnd = k.kernelEnd) : k'.Freeable pa :=
  ⟨ok.1, sameEnd ▸ ok.2.1, ok.2.2⟩

section Taken

variable (space : k.Space pt) (pop : k.freelist = q :: rest)
  (sameEnd : k'.kernelEnd = k.kernelEnd) (list : k'.freelist = rest) (only : ∀ x, x ≠ q → k'.mem x = k.mem x)
include space pop sameEnd list only

omit sameEnd list in
theorem Space.taken_tables : ∀ x, k.IsTable pt x → k'.mem x = k.mem x :=
  fun x table => only x fun same => space.head_fresh pop (same ▸ table)

theorem Space.taken : k'.Space pt ∧ k.Draws k' pt ∧ k'.Owned pt q ∧ k'.translate pt = k.translate pt := by
  have tables := space.taken_tables pop only
  have free : k'.FreeList :=
    ⟨list ▸ (List.nodup_cons.mp (pop ▸ space.free.nodup)).2, fun x member =>
      (space.free.freeable x (Space.mem_of_rest pop (list ▸ member))).congr sameEnd⟩
  refine ⟨⟨(tree_frame tables).mpr space.tree, free, fun x member => ?_, space.interior.congr tables⟩, ⟨sameEnd,
    fun x member => Space.mem_of_rest pop (list ▸ member), fun x table => .inl ((isTable_frame tables) ▸ table),
    fun x _ notFree => only x fun same => notFree (same ▸ pop ▸ List.mem_cons_self)⟩,
    ⟨(space.head_freeable pop).congr sameEnd, list ▸ space.head_not_mem_rest pop, (isTable_frame tables) ▸ space.head_fresh pop⟩,
    translate_frame tables⟩
  rw [isTable_frame tables]
  exact space.apart x (Space.mem_of_rest pop (list ▸ member))

end Taken

/-! ### `uvmcreate` and `proc_pagetable` -/

section Zeroed

variable (zero : k.mem root = fun _ => fillWord 0)
include zero

theorem level1_zeroed : k.level1 root = fun _ => none :=
  funext fun _ => child_zero zero

theorem level0_zeroed : k.level0 root = fun _ _ => none := by
  funext i2 i1
  simp [level0, level1_zeroed zero]

theorem isTable_zeroed {x : UInt64} : k.IsTable root x ↔ x = root := by
  simp [IsTable, Reaches, level1_zeroed zero, level0_zeroed zero]

theorem translate_zeroed (va : UInt64) : k.translate root va = none := by
  simp [translate, leaf, level0_zeroed zero]

theorem tree_zeroed : k.Tree root := by
  unfold Tree
  rw [level1_zeroed zero, level0_zeroed zero]
  exact ⟨by simp, by simp, by simp, by simp, by simp⟩

theorem interior_zeroed : k.Interior root where
  top i q found := by
    rw [child_zero zero] at found
    cases found
  mid i2 l1 above := by
    rw [level1_zeroed zero] at above
    cases above

end Zeroed

theorem uvmcreate_pop (pop : k.freelist = root :: rest) :
    uvmcreate k = .ok (root, ({ k with freelist := rest } : Kmem).memset root 0) := by
  simp [uvmcreate, kalloc_pop pop]

theorem uvmcreate_empty (empty : k.freelist = []) : uvmcreate k = .error "uvmcreate: out of memory" := by
  simp [uvmcreate, kalloc_empty empty]

theorem FreeList.uvmcreate_space (free : k.FreeList) (pop : k.freelist = root :: rest) :
    (({ k with freelist := rest } : Kmem).memset root 0).Space root where
  tree := tree_zeroed memset_mem_self
  free := ⟨(List.nodup_cons.mp (pop ▸ free.nodup)).2,
    fun x member => free.freeable x (pop ▸ List.mem_cons_of_mem root member)⟩
  apart x member := by
    rw [isTable_zeroed memset_mem_self]
    rintro rfl
    exact (List.nodup_cons.mp (pop ▸ free.nodup)).1 member
  interior := interior_zeroed memset_mem_self

theorem Uses.take (pop : k.freelist = q :: rest) (c : UInt8) :
    k.Uses (({ k with freelist := rest } : Kmem).memset q c) where
  kernelEnd := rfl
  freelist _ member := Space.mem_of_rest pop member
  frame _ notFree := memset_mem_of_ne fun same => notFree (same ▸ pop ▸ List.mem_cons_self)

theorem trampoline_toNat : trampoline.toNat = 2 ^ 38 - 4096 := by decide

theorem trapframe_toNat : trapframe.toNat = 2 ^ 38 - 8192 := by decide

/-- What a table `proc_pagetable` built maps: the trapframe page to `tf`, the
trampoline page to `trampolinePa`, nothing else. -/
def procMap (trampolinePa tf va : UInt64) : Option UInt64 :=
  if InPages trapframe 1 va then some (pa2pte tf ||| (pteR ||| pteW) ||| pteV)
  else if InPages trampoline 1 va then some (pa2pte trampolinePa ||| (pteR ||| pteX) ||| pteV)
  else none

/-- What `proc_pagetable` leaves when it gets the pages it needs: a table at
`root` whose pages were free in `k0` and that maps what `procMap` says. -/
structure ProcTable (k0 k : Kmem) (root trampolinePa tf : UInt64) : Prop where
  space : k.Space root
  uses : k0.Uses k
  tables : ∀ x, k.IsTable root x → x ∈ k0.freelist
  translate : k.translate root = procMap trampolinePa tf

theorem FreeList.procPagetable_spec (free : k.FreeList) (enough : 3 ≤ k.freelist.length) (trampolinePa tf : UInt64) :
    ∃ root k', procPagetable k trampolinePa tf = .ok (root, k') ∧ ProcTable k k' root trampolinePa tf ∧
      k.freelist.length ≤ k'.freelist.length + 3 := by
  obtain ⟨root, rest, pop⟩ : ∃ root rest, k.freelist = root :: rest := by
    cases list : k.freelist with
    | nil => rw [list] at enough; cases enough
    | cons root rest => exact ⟨root, rest, rfl⟩
  have space₁ := free.uvmcreate_space pop
  have zero : (({ k with freelist := rest } : Kmem).memset root 0).mem root = fun _ => fillWord 0 :=
    memset_mem_self
  obtain ⟨r, k₂, used, map₂, space₂, grows₂, taken₂, outcome₂⟩ := space₁.mappages_page
    (show trampoline < maxVa by decide) (show trampoline.toNat % 4096 = 0 by decide)
    (translate_zeroed zero trampoline) trampolinePa (pteR ||| pteX)
  rcases outcome₂ with ⟨rfl, update₂⟩ | ⟨-, -, short, -⟩
  case inr =>
    rw [pop, List.length_cons] at enough
    simp only [memset_freelist] at short
    omega
  have mapped : k₂.translate root trampoline ≠ none := by
    rw [update₂, if_pos ⟨by decide, rfl⟩]
    exact Option.some_ne_none _
  obtain ⟨l0, found⟩ : ∃ l0, k₂.level0 root (px 2 trapframe) (px 1 trapframe) = some l0 := by
    cases entry : k₂.translate root trampoline with
    | none => exact absurd entry mapped
    | some e =>
      obtain ⟨-, l0, found, -⟩ := lookup_of_translate entry
      exact ⟨l0, by rw [show px 2 trapframe = px 2 trampoline by decide,
        show px 1 trapframe = px 1 trampoline by decide]; exact found⟩
  have unmapped : k₂.translate root trapframe = none := by
    rw [update₂, if_neg (by decide), translate_zeroed zero]
  have invalid : k₂.mem l0 (px 0 trapframe) &&& pteV = 0 := by
    have read := translate_found (show trapframe < maxVa by decide) found
    rw [unmapped] at read
    split at read
    · cases read
    · rename_i invalid
      simpa using invalid
  have map₃ := mappages_found (show trapframe.toNat % 4096 = 0 by decide)
    (show trapframe < maxVa by decide) found invalid tf (pteR ||| pteW)
  obtain ⟨space₃, grows₃⟩ := space₂.setLeaf found (px 0 trapframe) (pa2pte tf ||| (pteR ||| pteW) ||| pteV)
  have draws := (grows₂.trans grows₃).draws
  have uses₁ := Uses.take pop 0
  have tables₁ (x) (table : (({ k with freelist := rest } : Kmem).memset root 0).IsTable root x) :
      x ∈ k.freelist := by
    rw [isTable_zeroed zero] at table
    rw [table, pop]
    exact List.mem_cons_self
  refine ⟨root, _, by simp [procPagetable, uvmcreate_pop pop, map₂, map₃],
    ⟨space₃, uses₁.draws draws tables₁, draws.tables_free uses₁ tables₁, funext fun va => ?_⟩, ?_⟩
  · rw [translate_setLeaf space₂.tree (show trapframe < maxVa by decide) found, if_pos (valid_or_pteV _),
      update₂, translate_zeroed zero, procMap]
    exact if_congr (inPages_one (by decide) (by decide)).symm rfl
      (if_congr (inPages_one (by decide) (by decide)).symm rfl rfl)
  · have list₂ := grows₂.freelist
    have list₃ := grows₃.freelist
    simp only [memset_freelist, List.nil_append] at list₂ list₃
    rw [pop, List.length_cons, list₂, List.length_append, list₃]
    simp only [write_freelist]
    omega

/-! ### `uvmcopy` -/

theorem copiedLeaf_flags {e mem : UInt64} (valid : (e &&& pteV != 0) = true) (leafy : pteFlags e ≠ pteV) :
    pteFlags (pa2pte mem ||| pteFlags e ||| pteV) ≠ pteV := by
  have low : (pteFlags e).toNat < 1024 := by
    rw [pteFlags_toNat]
    omega
  have odd : (pteFlags e).toNat % 2 = 1 := by
    rw [pteFlags_toNat]
    have := valid_iff.mp valid
    omega
  rw [pteFlags_leaf low, or_pteV_of_valid odd]
  exact leafy

theorem Allocating.copyErr {a : UInt64} {shape : UInt64 → UInt64 → Prop} (inv : Allocating k0 k root 0 n shape)
    (positive : 0 < n) (sized : a.toNat = 4096 * n) (fits : a.toNat ≤ 2 ^ 38)
    (empty : ∀ va, InPages 0 n va → k0.translate root va = none) :
    ∃ k', uvmcopyErr k root a = .ok (-1, k') ∧ k'.Space root ∧ k0.Draws k' root ∧
      k'.translate root = k0.translate root := by
  obtain ⟨k', unmap, space', draws', same'⟩ :=
    inv.unmap (show (0 : UInt64).toNat % 4096 = 0 by decide) positive sized (by simp; omega) empty
  exact ⟨k', by simp [uvmcopyErr, unmap], space', draws', same'⟩

theorem Allocating.copyLoop {old sz : UInt64} {count : Nat} (ends : count = (sz.toNat + 4095) / 4096)
    (fits : 4096 * count ≤ 2 ^ 38) (empty : ∀ va, InPages 0 count va → k0.translate root va = none)
    (parent : ∀ va, InPages 0 count va → ∃ e, k0.translate old va = some e ∧ pteFlags e ≠ pteV)
    (apart : ∀ x, k0.IsTable old x → ¬ k0.IsTable root x ∧ x ∉ k0.freelist) (f : Nat) :
    ∀ (j : Nat) (k : Kmem) (a : UInt64), Allocating k0 k root 0 j (fun _ _ => True) → a.toNat = 4096 * j →
      j + f = count + 1 → j ≤ count → (j = 0 → count = 0 ∨ 3 ≤ k.freelist.length) →
      ∃ r k', uvmcopyLoop old root sz f k a = .ok (r, k') ∧ k'.Space root ∧ k0.Draws k' root ∧
        (r = -1 ∧ k'.translate root = k0.translate root ∨
          r = 0 ∧ Allocating k0 k' root 0 count fun _ _ => True) := by
  induction f with
  | zero =>
    intro j k a _ _ fuel le _
    omega
  | succ f ih =>
    intro j k a inv at_ fuel le first
    by_cases below : a < sz
    · have more : j < count := by
        rw [UInt64.lt_iff_toNat_lt] at below
        omega
      have fitsA : a.toNat + 4096 ≤ 2 ^ 38 := by omega
      have alignedA : a.toNat % 4096 = 0 := by omega
      have belowA : a < maxVa := by
        rw [UInt64.lt_iff_toNat_lt, show maxVa.toNat = 2 ^ 38 by decide]
        omega
      have start : InPages 0 count a := ⟨by simp, by simp; omega⟩
      have back : ∀ va, InPages 0 j va → k0.translate root va = none :=
        fun va inside => empty va (inside.mono le)
      obtain ⟨e, found, leafy⟩ := parent a start
      obtain ⟨-, l0, found0, entry, valid⟩ := lookup_of_translate found
      have oldTables : ∀ x, k0.IsTable old x → k.mem x = k0.mem x :=
        fun x table => inv.draws.frame x (apart x table).1 (apart x table).2
      have lookupA : k.lookup old a = some (l0, px 0 a) := by
        simp [lookup, level0_frame oldTables, found0]
      have entryA : k.mem l0 (px 0 a) = e := by
        rw [oldTables l0 (isTable_level0 found0), entry]
      have validA : ¬ (e &&& pteV = 0) := by simpa using valid
      have unmapped : k.translate root a = none := by
        rw [inv.outside a fun inside => by have := inside.2; simp at this; omega]
        exact empty a start
      cases pop : k.freelist with
      | nil =>
        have positive : 0 < j := by
          rcases Nat.eq_zero_or_pos j with zero | positive
          · rcases first zero with none | enough
            · omega
            · rw [pop] at enough; cases enough
          · exact positive
        obtain ⟨k', err, space', draws', same'⟩ := inv.copyErr positive at_ (by omega) back
        exact ⟨-1, k', by simp [uvmcopyLoop, below, walk_lookup belowA, lookupA, entryA, validA,
          kalloc_empty pop, err], space', draws', .inl ⟨rfl, same'⟩⟩
      | cons mem rest =>
        have free : mem ∈ k.freelist := pop ▸ List.mem_cons_self
        obtain ⟨space₁, taken, owned₁, same₁⟩ := inv.space.taken pop
          (show ((({ k with freelist := rest } : Kmem).memset mem 5).copyPage mem (pte2pa e)).kernelEnd =
            k.kernelEnd from rfl) rfl
          fun x other => by rw [copyPage_mem_of_ne other, memset_mem_of_ne other]
        obtain ⟨r, k₂, used, map, space₂, grows, -, outcome⟩ :=
          space₁.mappages_page belowA alignedA (by rw [same₁]; exact unmapped) mem (pteFlags e)
        have owned₂ : k₂.Owned root mem := owned₁.draws grows.draws
        have shorter : k₂.freelist.length < k.freelist.length := by
          have lengths := congrArg List.length grows.freelist
          simp only [copyPage_freelist, memset_freelist, List.length_append] at lengths
          rw [pop, List.length_cons]
          omega
        rcases outcome with ⟨rfl, update⟩ | ⟨rfl, -, short, same₂⟩
        · have inv₂ := inv.extend space₂ (taken.trans grows.draws) owned₂ free alignedA (by simpa using at_)
            (fun va => by
              rw [update va, same₁]
              exact if_congr (inPages_one alignedA fitsA).symm rfl rfl)
            (pte2pa_leaf owned₂.1.1 (by rw [pteFlags_toNat]; omega)) (copiedLeaf_flags valid leafy)
            (fun _ _ => trivial) shorter
          have next : (a + pgSize).toNat = 4096 * (j + 1) := by
            rw [add_pgSize_toNat (by omega)]
            omega
          obtain ⟨r', k', run, rest'⟩ := ih (j + 1) k₂ (a + pgSize) inv₂ next (by omega) more
            (fun zero => absurd zero (Nat.succ_ne_zero j))
          exact ⟨r', k', by simp [uvmcopyLoop, below, walk_lookup belowA, lookupA, entryA, validA,
            kalloc_pop pop, map, run], rest'⟩
        · have positive : 0 < j := by
            rcases Nat.eq_zero_or_pos j with zero | positive
            · rcases first zero with none | enough
              · omega
              · rw [pop, List.length_cons] at enough
                simp only [copyPage_freelist, memset_freelist] at short
                omega
            · exact positive
          obtain ⟨space₃, tables₃⟩ := space₂.kfree_owned owned₂
          have inv₃ := inv.keep space₃ ((taken.trans grows.draws).kfree free owned₂.2.2)
            ((translate_frame tables₃).trans (same₂.trans same₁)) (by simp only [List.length_cons]; omega)
          obtain ⟨k', err, space', draws', same'⟩ := inv₃.copyErr positive at_ (by omega) back
          simp only [memset_kernelEnd] at err
          exact ⟨-1, k', by simp [uvmcopyLoop, below, walk_lookup belowA, lookupA, entryA, validA,
            kalloc_pop pop, map, kfree_ok owned₂.1, err], space', draws', .inl ⟨rfl, same'⟩⟩
    · have done : j = count := by
        rw [UInt64.lt_iff_toNat_lt] at below
        omega
      subst done
      exact ⟨0, k, by simp [uvmcopyLoop, below], inv.space, inv.draws, .inr ⟨rfl, inv⟩⟩

theorem Space.uvmcopy_spec {sz : UInt64} (space : k.Space root) (old : UInt64) (small : sz.toNat < 2 ^ 32)
    (empty : ∀ va, InPages 0 ((sz.toNat + 4095) / 4096) va → k.translate root va = none)
    (parent : ∀ va, InPages 0 ((sz.toNat + 4095) / 4096) va →
      ∃ e, k.translate old va = some e ∧ pteFlags e ≠ pteV)
    (apart : ∀ x, k.IsTable old x → ¬ k.IsTable root x ∧ x ∉ k.freelist)
    (first : sz = 0 ∨ 3 ≤ k.freelist.length) :
    ∃ r k', uvmcopy k old root sz = .ok (r, k') ∧ k'.Space root ∧ k.Draws k' root ∧
      (r = -1 ∧ k'.translate root = k.translate root ∨
        r = 0 ∧ Allocating k k' root 0 ((sz.toNat + 4095) / 4096) fun _ _ => True) :=
  Allocating.copyLoop rfl (by omega) empty parent apart _ 0 k 0 (.start space) (by simp) (by omega)
    (Nat.zero_le _) fun _ => first.imp (fun zero => by simp [zero]) id

theorem Uses.kfree (uses : k0.Uses k) (free : pa ∈ k0.freelist) :
    k0.Uses { k.memset pa 1 with freelist := pa :: k.freelist } where
  kernelEnd := uses.kernelEnd
  freelist x member := (List.mem_cons.mp member).elim (· ▸ free) (uses.freelist x)
  frame x notFree := by
    rw [← uses.frame x notFree]
    exact memset_mem_of_ne fun same => notFree (same ▸ free)

theorem inPages_trapframe_trampoline {va : UInt64} (trap : InPages trapframe 1 va) :
    ¬ InPages trampoline 1 va := by
  simp only [InPages, trapframe_toNat, trampoline_toNat] at trap ⊢
  omega

theorem trapframe_le_of_trampoline {va : UInt64} (tramp : InPages trampoline 1 va) : trapframe ≤ va := by
  rw [UInt64.le_iff_toNat_le, trapframe_toNat]
  simp only [InPages, trampoline_toNat] at tramp
  omega

theorem trapframe_le_of_trapframe {va : UInt64} (trap : InPages trapframe 1 va) : trapframe ≤ va :=
  UInt64.le_iff_toNat_le.mpr trap.1

theorem translate_of_ge {va : UInt64} (above : maxVa ≤ va) : k.translate root va = none := by
  simp [translate, UInt64.not_lt.mpr above]

theorem Space.unmapTop {trampolinePa tf : UInt64} (space : k.Space root)
    (top : ∀ va, trapframe ≤ va → k.translate root va = procMap trampolinePa tf va) :
    ∃ k₁ k', uvmunmap k root trampoline pgSize false = .ok k₁ ∧
      uvmunmap k₁ root trapframe pgSize false = .ok k' ∧ k'.Space root ∧ k.Draws k' root ∧
      k'.IsTable root = k.IsTable root ∧ k'.freelist = k.freelist ∧
      ∀ va, k'.translate root va = if trapframe ≤ va then none else k.translate root va := by
  have one : (pgSize.toNat + 4095) / 4096 = 1 := by decide
  have tramp : k.Unmappable root trampoline 1 false := by
    refine ⟨fun va inside => ?_, fun free => absurd free Bool.false_ne_true,
      fun free => absurd free Bool.false_ne_true⟩
    rw [top va (trapframe_le_of_trampoline inside), procMap,
      if_neg fun trap => inPages_trapframe_trampoline trap inside, if_pos inside]
    exact ⟨_, rfl, by rw [pteFlags_leaf (by decide)]; decide⟩
  obtain ⟨k₁, first, unmapped₁⟩ := space.uvmunmap_spec (show trampoline.toNat % 4096 = 0 by decide)
    (show 0 < pgSize.toNat by decide) (by decide) (one ▸ tramp)
  rw [one] at unmapped₁
  have trap : k₁.Unmappable root trapframe 1 false := by
    refine ⟨fun va inside => ?_, fun free => absurd free Bool.false_ne_true,
      fun free => absurd free Bool.false_ne_true⟩
    rw [unmapped₁.translate, if_neg (inPages_trapframe_trampoline inside), top va (trapframe_le_of_trapframe inside),
      procMap, if_pos inside]
    exact ⟨_, rfl, by rw [pteFlags_leaf (by decide)]; decide⟩
  obtain ⟨k₂, second, unmapped₂⟩ := unmapped₁.space.uvmunmap_spec
    (show trapframe.toNat % 4096 = 0 by decide) (show 0 < pgSize.toNat by decide) (by decide) (one ▸ trap)
  rw [one] at unmapped₂
  have draws₁ := unmapped₁.draws
  have draws₂ := unmapped₂.draws
  obtain ⟨freed₁, list₁, none₁, -⟩ := unmapped₁.freelist
  obtain ⟨freed₂, list₂, none₂, -⟩ := unmapped₂.freelist
  refine ⟨k₁, k₂, first, second, unmapped₂.space, draws₁.trans draws₂, unmapped₂.tables.trans unmapped₁.tables,
    by rw [list₂, none₂ rfl, list₁, none₁ rfl, List.nil_append, List.nil_append], fun va => ?_⟩
  rw [unmapped₂.translate, unmapped₁.translate]
  by_cases trapPage : InPages trapframe 1 va
  · rw [if_pos trapPage, if_pos (trapframe_le_of_trapframe trapPage)]
  · by_cases trampPage : InPages trampoline 1 va
    · rw [if_neg trapPage, if_pos trampPage, if_pos (trapframe_le_of_trampoline trampPage)]
    · rw [if_neg trapPage, if_neg trampPage]
      by_cases above : trapframe ≤ va
      · have beyond : maxVa ≤ va := by
          rw [UInt64.le_iff_toNat_le, show maxVa.toNat = 2 ^ 38 by decide]
          rw [UInt64.le_iff_toNat_le, trapframe_toNat] at above
          simp only [InPages, trapframe_toNat, trampoline_toNat] at trapPage trampPage
          omega
        rw [if_pos above, translate_of_ge beyond]
      · rw [if_neg above]

theorem Space.procFreepagetable_zero {trampolinePa tf : UInt64} (space : k.Space root)
    (table : k.translate root = procMap trampolinePa tf) :
    ∃ k', procFreepagetable k root 0 = .ok k' ∧ k.Draws k' root := by
  obtain ⟨k₁, k₂, first, second, -, draws, -⟩ := space.unmapTop fun va _ => by rw [table]
  exact ⟨k₂, by simp [procFreepagetable, first, second], draws⟩

theorem Freeable.ne_zero (ok : k.Freeable pa) (nonzero : k.kernelEnd ≠ 0) : pa ≠ 0 := by
  rintro rfl
  apply nonzero
  apply UInt64.toNat_inj.mp
  have low := UInt64.le_iff_toNat_le.mp ok.2.1
  simp only [UInt64.toNat_zero] at low ⊢
  omega

end Kmem

namespace Kernel

open Kmem

variable {s : Kernel} {p i : Fin nproc} {root tf : UInt64} {rest : List UInt64} {k' : Kmem}

theorem unused_of_find (found : (List.finRange nproc).find? (fun i => (s.proc i).state == .unused) = some i) :
    (s.proc i).state = .unused := by
  simpa using List.find?_some found

theorem allocproc_full (absent : (List.finRange nproc).find? (fun i => (s.proc i).state == .unused) = none) :
    s.allocproc = .ok (none, s) := by
  simp [allocproc, absent]

theorem allocproc_empty (found : (List.finRange nproc).find? (fun i => (s.proc i).state == .unused) = some i)
    (empty : s.kmem.freelist = []) :
    ∃ s', s.allocproc = .ok (none, s') ∧ s'.kmem = s.kmem ∧ ∀ j, j ≠ i → s'.proc j = s.proc j := by
  refine ⟨_, by simp [allocproc, found, kalloc_empty empty]; rfl, ?_, fun j other => ?_⟩
  · rfl
  · simp [setProc_of_ne _ _ other]

theorem allocproc_pagetable
    (found : (List.finRange nproc).find? (fun i => (s.proc i).state == .unused) = some i)
    (pop : s.kmem.freelist = tf :: rest)
    (table : procPagetable (({ s.kmem with freelist := rest } : Kmem).memset tf 5) s.trampolinePa tf =
      .ok (root, k')) :
    ∃ s', s.allocproc = .ok (some i, s') ∧ s'.kmem = k' ∧ s'.trampolinePa = s.trampolinePa ∧
      (∀ j, j ≠ i → s'.proc j = s.proc j) ∧ (s'.proc i).tf = tf ∧ (s'.proc i).pagetable = root ∧
      (s'.proc i).sz = (s.proc i).sz := by
  refine ⟨_, by simp [allocproc, found, kalloc_pop pop, table]; rfl, ?_, ?_, fun j other => ?_, ?_, ?_, ?_⟩
  · rfl
  · rfl
  · simp [setProc_of_ne _ _ other]
  all_goals simp

theorem freeproc_child {k0 : Kmem} (uses : k0.Uses s.kmem) (space : s.kmem.Space root)
    (pagetable : (s.proc i).pagetable = root) (trap : (s.proc i).tf = tf) (zero : (s.proc i).sz = 0)
    (owned : s.kmem.Owned root tf) (free : tf ∈ k0.freelist)
    (tables : ∀ x, s.kmem.IsTable root x → x ∈ k0.freelist) (nonzero : tf ≠ 0) (rootNonzero : root ≠ 0)
    (table : s.kmem.translate root = procMap s.trampolinePa tf) :
    ∃ s', s.freeproc i = .ok s' ∧ (∀ j, j ≠ i → s'.proc j = s.proc j) ∧ k0.Uses s'.kmem := by
  obtain ⟨space₄, tables₄⟩ := space.kfree_owned owned
  obtain ⟨k₅, run, draws⟩ := space₄.procFreepagetable_zero ((translate_frame tables₄).trans table)
  simp only [memset_kernelEnd] at run
  refine ⟨_, by simp [freeproc, trap, pagetable, zero, nonzero, rootNonzero, kfree_ok owned.1, run]; rfl,
    fun j other => ?_, ?_⟩
  · simp [setProc_of_ne _ _ other]
  exact (uses.kfree free).draws draws fun x table => tables x ((isTable_frame tables₄) ▸ table)

/-- `fork` when a slot is unused and exactly one page is free: `allocproc`
takes the page for the child's trapframe, and `proc_pagetable` calls
`uvmcreate`, which panics for want of a root page table. -/
theorem fork_out_of_memory (found : (List.finRange nproc).find? (fun i => (s.proc i).state == .unused) = some i)
    (one : s.kmem.freelist = [tf]) : s.fork p = .error "uvmcreate: out of memory" := by
  have trapframe : kalloc s.kmem = (some tf, ({ s.kmem with freelist := [] } : Kmem).memset tf 5) := kalloc_pop one
  have noRoot : uvmcreate (({ s.kmem with freelist := [] } : Kmem).memset tf 5) = .error "uvmcreate: out of memory" :=
    uvmcreate_empty rfl
  simp [fork, allocproc, found, trapframe, procPagetable, noRoot]

/-- The machine of `runningParent 9`: slot `1` is unused and one page is free. -/
theorem runningParent_fork_out_of_memory :
    (List.finRange nproc).find? (fun i => ((runningParent 9).proc i).state == .unused) = some ⟨1, by decide⟩ ∧
    (runningParent 9).kmem.freelist = [0x87f08000] ∧
    (runningParent 9).fork ⟨0, by decide⟩ = .error "uvmcreate: out of memory" :=
  have found : (List.finRange nproc).find? (fun i => ((runningParent 9).proc i).state == .unused) =
      some ⟨1, by decide⟩ := by decide
  have one : (runningParent 9).kmem.freelist = [0x87f08000] := by decide
  ⟨found, one, fork_out_of_memory found one⟩

end Kernel

end Xv6.Vm
