import Xv6.Vm.Map

/-! `uvmalloc` and the `uvmdealloc` it rolls back with. Each pass of
`uvmalloc`'s loop maps one fresh page; when `kalloc` or `mappages` finds the
free list empty it unmaps the pages it mapped and returns `0`, so the table
maps what it mapped before. The loop writes only pages of the table and pages
that were free, so the pages a process maps keep their contents. -/

namespace Xv6.Vm

namespace Kmem

variable {k0 k k' k₁ k₂ : Kmem} {root a0 a q x e pa : UInt64} {i n : Nat} {rest used : List UInt64}
  {doFree : Bool} {shape : UInt64 → UInt64 → Prop}

/-- `k'` came from `k` by work on the table at `root` with free pages: its
free pages and its new table pages were free in `k`, and it wrote no page that
was neither free nor of the table. -/
structure Draws (k k' : Kmem) (root : UInt64) : Prop where
  kernelEnd : k'.kernelEnd = k.kernelEnd
  freelist : ∀ x ∈ k'.freelist, x ∈ k.freelist
  tables : ∀ x, k'.IsTable root x → k.IsTable root x ∨ x ∈ k.freelist
  frame : ∀ x, ¬ k.IsTable root x → x ∉ k.freelist → k'.mem x = k.mem x

theorem Draws.refl : k.Draws k root :=
  ⟨rfl, fun _ member => member, fun _ table => .inl table, fun _ _ _ => rfl⟩

theorem Draws.trans (first : k.Draws k₁ root) (second : k₁.Draws k' root) : k.Draws k' root where
  kernelEnd := second.kernelEnd.trans first.kernelEnd
  freelist x member := first.freelist x (second.freelist x member)
  tables x table :=
    (second.tables x table).elim (first.tables x) fun free => .inr (first.freelist x free)
  frame x outside notFree := by
    have outside₁ : ¬ k₁.IsTable root x := fun table => (first.tables x table).elim outside notFree
    have notFree₁ : x ∉ k₁.freelist := fun member => notFree (first.freelist x member)
    rw [second.frame x outside₁ notFree₁, first.frame x outside notFree]

theorem Grows.draws (grows : k.Grows k' root used) : k.Draws k' root := by
  have taken {x} (member : x ∈ used) : x ∈ k.freelist := by
    rw [grows.freelist]
    exact List.mem_append_left _ member
  refine ⟨grows.kernelEnd, fun x member => ?_, fun x table => ?_, fun x outside notFree => ?_⟩
  · rw [grows.freelist]
    exact List.mem_append_right _ member
  · exact ((grows.tables x).mp table).imp id taken
  · apply grows.frame x
    rw [grows.tables]
    rintro (old | new)
    · exact outside old
    · exact notFree (taken new)

theorem Draws.kfree (draws : k.Draws k' root) (free : pa ∈ k.freelist) (notTable : ¬ k'.IsTable root pa) :
    k.Draws { k'.memset pa 1 with freelist := pa :: k'.freelist } root := by
  have same : ({ k'.memset pa 1 with freelist := pa :: k'.freelist } : Kmem).IsTable root =
      k'.IsTable root :=
    isTable_frame fun _ table => memset_mem_of_ne fun other => notTable (other ▸ table)
  refine ⟨draws.kernelEnd, fun x member => ?_, fun x table => draws.tables x (same ▸ table), ?_⟩
  · rcases List.mem_cons.mp member with rfl | old
    · exact free
    · exact draws.freelist x old
  · intro x outside notFree
    have other : x ≠ pa := fun same => notFree (same ▸ free)
    rw [← draws.frame x outside notFree]
    exact memset_mem_of_ne other

theorem Draws.unmapped (draws : k0.Draws k root) (unmapped : k.Unmapped k' root a n doFree)
    (fresh : ∀ va e, InPages a n va → k.translate root va = some e → pte2pa e ∈ k0.freelist) :
    k0.Draws k' root := by
  obtain ⟨freed, list, -, origin⟩ := unmapped.freelist
  have free (x) (member : x ∈ k'.freelist) : x ∈ k0.freelist := by
    rw [list, List.mem_append] at member
    rcases member with new | old
    · obtain ⟨va, e, inside, mapped, rfl⟩ := origin x new
      exact fresh va e inside mapped
    · exact draws.freelist x old
  refine ⟨unmapped.kernelEnd.trans draws.kernelEnd, free,
    fun x table => draws.tables x (unmapped.tables ▸ table), fun x outside notFree => ?_⟩
  have outside' : ¬ k.IsTable root x := fun table => (draws.tables x table).elim outside notFree
  rw [unmapped.frame x outside' fun member => notFree (free x member), draws.frame x outside notFree]

theorem Owned.draws (owned : k.Owned root x) (draws : k.Draws k' root) : k'.Owned root x := by
  obtain ⟨⟨aligned, low, high⟩, notFree, notTable⟩ := owned
  exact ⟨⟨aligned, draws.kernelEnd ▸ low, high⟩, fun member => notFree (draws.freelist x member),
    fun table => (draws.tables x table).elim notTable notFree⟩

section Take

variable (space : k.Space root) (pop : k.freelist = q :: rest) (c : UInt8)
include space pop

theorem Space.take_draws : k.Draws (({ k with freelist := rest } : Kmem).memset q c) root where
  kernelEnd := rfl
  freelist _ member := Space.mem_of_rest pop member
  tables _ table := .inl ((isTable_frame (space.take_tables pop c)) ▸ table)
  frame _ _ notFree := memset_mem_of_ne fun same => notFree (same ▸ pop ▸ List.mem_cons_self)

theorem Space.take_owned : (({ k with freelist := rest } : Kmem).memset q c).Owned root q := by
  obtain ⟨aligned, low, high⟩ := space.head_freeable pop
  refine ⟨⟨aligned, low, high⟩, space.head_not_mem_rest pop, ?_⟩
  rw [isTable_frame (space.take_tables pop c)]
  exact space.head_fresh pop

theorem Space.take_translate :
    (({ k with freelist := rest } : Kmem).memset q c).translate root = k.translate root :=
  translate_frame (space.take_tables pop c)

end Take

/-! ### The loop of `uvmalloc` -/

/-- Where `uvmalloc`'s loop stands after `i` passes from `a0`, started on
`k0`: the `i` pages from `a0` are mapped by leaf entries, each to a page of
its own that was free in `k0`, and every other address maps what it mapped in
`k0`, by an entry of the `shape` the loop writes. -/
structure Allocating (k0 k : Kmem) (root a0 : UInt64) (i : Nat) (shape : UInt64 → UInt64 → Prop) : Prop where
  space : k.Space root
  draws : k0.Draws k root
  outside : ∀ va, ¬ InPages a0 i va → k.translate root va = k0.translate root va
  mapped : k.Unmappable root a0 i true
  fresh : ∀ va e, InPages a0 i va → k.translate root va = some e → pte2pa e ∈ k0.freelist
  shaped : ∀ va e, InPages a0 i va → k.translate root va = some e → shape va e
  budget : k.freelist.length + i ≤ k0.freelist.length

theorem inPages_zero {va : UInt64} : ¬ InPages a 0 va := by
  simp [InPages]

theorem Allocating.start (space : k.Space root) : Allocating k k root a0 0 shape where
  space := space
  draws := .refl
  outside _ _ := rfl
  mapped := ⟨fun _ inside => absurd inside inPages_zero, fun _ _ _ inside => absurd inside inPages_zero,
    fun _ _ _ _ _ inside => absurd inside inPages_zero⟩
  fresh _ _ inside := absurd inside inPages_zero
  shaped _ _ inside := absurd inside inPages_zero
  budget := Nat.le_refl _

theorem Allocating.keep (inv : Allocating k0 k root a0 i shape) (space : k'.Space root)
    (draws : k.Draws k' root) (same : k'.translate root = k.translate root)
    (shrinks : k'.freelist.length ≤ k.freelist.length) :
    Allocating k0 k' root a0 i shape where
  space := space
  draws := inv.draws.trans draws
  outside va outside := by rw [same]; exact inv.outside va outside
  mapped := by
    refine ⟨fun va inside => ?_, fun freeing va e inside found => ?_,
      fun freeing va va' e e' inside inside' found found' => ?_⟩
    · rw [same]
      exact inv.mapped.mapped va inside
    · rw [same] at found
      exact (inv.mapped.owned freeing va e inside found).draws draws
    · rw [same] at found found'
      exact inv.mapped.distinct freeing va va' e e' inside inside' found found'
  fresh va e inside found := by
    rw [same] at found
    exact inv.fresh va e inside found
  shaped va e inside found := by
    rw [same] at found
    exact inv.shaped va e inside found
  budget := by
    have := inv.budget
    omega

theorem Allocating.extend (inv : Allocating k0 k root a0 i shape) (space : k'.Space root)
    (draws : k.Draws k' root) (owned : k'.Owned root pa) (free : pa ∈ k.freelist)
    (aligned : a.toNat % 4096 = 0) (at_ : a.toNat = a0.toNat + 4096 * i)
    (map : ∀ va, k'.translate root va = if InPages a 1 va then some e else k.translate root va)
    (points : pte2pa e = pa) (leafy : pteFlags e ≠ pteV) (shapeNew : ∀ va, InPages a 1 va → shape va e)
    (shrinks : k'.freelist.length < k.freelist.length) :
    Allocating k0 k' root a0 (i + 1) shape := by
  have split {va} : InPages a0 (i + 1) va ↔ InPages a0 i va ∨ InPages a 1 va := by
    simp only [InPages, at_]
    omega
  have apart {va} : InPages a0 i va → ¬ InPages a 1 va := by
    simp only [InPages, at_]
    omega
  have old {va} (inside : InPages a0 i va) : k'.translate root va = k.translate root va := by
    rw [map, if_neg (apart inside)]
  have new {va} (inside : InPages a 1 va) : k'.translate root va = some e := by
    rw [map, if_pos inside]
  have notPa {va e'} (inside : InPages a0 i va) (found : k.translate root va = some e') :
      pte2pa e' ≠ pa := fun same =>
    (inv.mapped.owned rfl va e' inside found).2.1 (same ▸ free)
  refine ⟨space, inv.draws.trans draws, fun va outside => ?_, ⟨?_, ?_, ?_⟩, ?_, ?_, ?_⟩
  · have before : ¬ InPages a0 i va := fun inside => outside (split.mpr (.inl inside))
    have here : ¬ InPages a 1 va := fun inside => outside (split.mpr (.inr inside))
    rw [map, if_neg here]
    exact inv.outside va before
  · intro va inside
    rcases split.mp inside with before | here
    · rw [old before]
      exact inv.mapped.mapped va before
    · exact ⟨e, new here, leafy⟩
  · intro _ va e' inside found
    rcases split.mp inside with before | here
    · rw [old before] at found
      exact (inv.mapped.owned rfl va e' before found).draws draws
    · rw [new here, Option.some.injEq] at found
      rw [← found, points]
      exact owned
  · intro _ va va' e₁ e₂ inside inside' found found' same
    rcases split.mp inside with before | here <;> rcases split.mp inside' with before' | here'
    · rw [old before] at found
      rw [old before'] at found'
      exact inv.mapped.distinct rfl va va' e₁ e₂ before before' found found' same
    · rw [old before] at found
      rw [new here', Option.some.injEq] at found'
      exact absurd (same.trans (found' ▸ points)) (notPa before found)
    · rw [new here, Option.some.injEq] at found
      rw [old before'] at found'
      exact absurd (same.symm.trans (found ▸ points)) (notPa before' found')
    · simp only [InPages, at_] at here here'
      omega
  · intro va e' inside found
    rcases split.mp inside with before | here
    · rw [old before] at found
      exact inv.fresh va e' before found
    · rw [new here, Option.some.injEq] at found
      rw [← found, points]
      exact inv.draws.freelist pa free
  · intro va e' inside found
    rcases split.mp inside with before | here
    · rw [old before] at found
      exact inv.shaped va e' before found
    · rw [new here, Option.some.injEq] at found
      rw [← found]
      exact shapeNew va here
  · have := inv.budget
    omega

theorem pgRoundUp_of_aligned {a : UInt64} (aligned : a.toNat % 4096 = 0) (small : a.toNat < 2 ^ 63) :
    pgRoundUp a = a := by
  apply UInt64.toNat_inj.mp
  rw [pgRoundUp_toNat small]
  omega

theorem Allocating.unmap {size : UInt64} (inv : Allocating k0 k root a0 i shape) (aligned : a0.toNat % 4096 = 0)
    (positive : 0 < i) (sized : size.toNat = 4096 * i) (fits : a0.toNat + size.toNat ≤ 2 ^ 38)
    (empty : ∀ va, InPages a0 i va → k0.translate root va = none) :
    ∃ k', uvmunmap k root a0 size true = .ok k' ∧ k'.Space root ∧ k0.Draws k' root ∧
      k'.translate root = k0.translate root := by
  have count : (size.toNat + 4095) / 4096 = i := by omega
  obtain ⟨k', unmap, unmapped⟩ := inv.space.uvmunmap_spec aligned (show 0 < size.toNat by omega) fits
    (count ▸ inv.mapped)
  rw [count] at unmapped
  refine ⟨k', unmap, unmapped.space, inv.draws.unmapped unmapped inv.fresh, funext fun va => ?_⟩
  rw [unmapped.translate]
  split
  · rename_i inside
    rw [empty va inside]
  · rename_i outside
    exact inv.outside va outside

theorem Allocating.rollback (inv : Allocating k0 k root a0 i shape) (aligned : a0.toNat % 4096 = 0)
    (at_ : a.toNat = a0.toNat + 4096 * i) (fits : a.toNat ≤ 2 ^ 38)
    (empty : ∀ va, InPages a0 i va → k0.translate root va = none) :
    ∃ r k', uvmdealloc k root a a0 = .ok (r, k') ∧ k'.Space root ∧ k0.Draws k' root ∧
      k'.translate root = k0.translate root := by
  cases i with
  | zero =>
    have same : a = a0 := UInt64.toNat_inj.mp (by omega)
    subst same
    refine ⟨a, k, by simp [uvmdealloc], inv.space, inv.draws, funext fun va => inv.outside va inPages_zero⟩
  | succ j =>
    have roundA0 := pgRoundUp_of_aligned aligned (by omega)
    have roundA := pgRoundUp_of_aligned (a := a) (by omega) (by omega)
    have less : a0 < a := by
      rw [UInt64.lt_iff_toNat_lt]
      omega
    have more : ¬ a0 ≥ a := UInt64.not_le.mpr less
    have size : (a - a0).toNat = 4096 * (j + 1) := by
      rw [UInt64.toNat_sub_of_le _ _ (UInt64.le_iff_toNat_le.mpr (by omega))]
      omega
    obtain ⟨k', unmap, space', draws', same'⟩ := inv.unmap aligned (Nat.succ_pos j) size (by omega) empty
    exact ⟨a0, k', by simp [uvmdealloc, more, roundA0, roundA, less, unmap], space', draws', same'⟩

theorem InPages.mono {va : UInt64} (le : i ≤ n) (inside : InPages a i va) : InPages a n va :=
  ⟨inside.1, by have := inside.2; omega⟩

/-- The flags `uvmalloc` maps a fresh page with: a leaf for user code and data. -/
def userShape (_va e : UInt64) : Prop := pteFlags e = pteW ||| pteX ||| pteR ||| pteU ||| pteV

theorem userLeaf_flags : pteFlags (pa2pte pa ||| (pteW ||| pteX ||| pteR ||| pteU) ||| pteV) ≠ pteV := by
  rw [pteFlags_leaf (by decide)]
  decide

theorem Allocating.loop {newsz : UInt64} {count : Nat} (aligned : a0.toNat % 4096 = 0)
    (ends : count = (newsz.toNat - a0.toNat + 4095) / 4096)
    (fits : a0.toNat + 4096 * min count k0.freelist.length ≤ 2 ^ 38)
    (empty : ∀ va, InPages a0 (min count k0.freelist.length) va → k0.translate root va = none) (f : Nat) :
    ∀ (i : Nat) (k : Kmem) (a : UInt64), Allocating k0 k root a0 i userShape → a.toNat = a0.toNat + 4096 * i →
      i + f = count + 1 → i ≤ count →
      ∃ r k', uvmallocLoop root a0 newsz f k a = .ok (r, k') ∧ k'.Space root ∧ k0.Draws k' root ∧
        (r = 0 ∧ k'.translate root = k0.translate root ∨ r = newsz ∧ Allocating k0 k' root a0 count userShape) := by
  induction f with
  | zero =>
    intro i k a _ _ fuel le
    omega
  | succ f ih =>
    intro i k a inv at_ fuel le
    by_cases below : a < newsz
    · have more : i < count := by
        rw [UInt64.lt_iff_toNat_lt] at below
        omega
      have budget := inv.budget
      have back : ∀ va, InPages a0 i va → k0.translate root va = none :=
        fun va inside => empty va (inside.mono (by omega))
      cases pop : k.freelist with
      | nil =>
        obtain ⟨r, k', dealloc, space', draws', same'⟩ := inv.rollback aligned at_ (by omega) back
        exact ⟨0, k', by simp [uvmallocLoop, below, kalloc_empty pop, dealloc], space', draws',
          .inl ⟨rfl, same'⟩⟩
      | cons pa rest =>
        have room : i + 1 ≤ k0.freelist.length := by
          rw [pop, List.length_cons] at budget
          omega
        have fitsA : a.toNat + 4096 ≤ 2 ^ 38 := by omega
        have alignedA : a.toNat % 4096 = 0 := by omega
        have belowA : a < maxVa := by
          rw [UInt64.lt_iff_toNat_lt, show maxVa.toNat = 2 ^ 38 by decide]
          omega
        have unmapped : k.translate root a = none := by
          rw [inv.outside a fun inside => by have := inside.2; omega]
          exact empty a ⟨by omega, by omega⟩
        have free : pa ∈ k.freelist := pop ▸ List.mem_cons_self
        have taken := inv.space.take_draws pop 0
        obtain ⟨r, k₂, used, map, space₂, grows, -, outcome⟩ :=
          (inv.space.take pop 0).mappages_page belowA alignedA
            (by rw [inv.space.take_translate pop 0]; exact unmapped) pa (pteW ||| pteX ||| pteR ||| pteU)
        have owned₂ : k₂.Owned root pa := (inv.space.take_owned pop 0).draws grows.draws
        have shorter : k₂.freelist.length < k.freelist.length := by
          have lengths := congrArg List.length grows.freelist
          simp only [memset_freelist, List.length_append] at lengths
          rw [pop, List.length_cons]
          omega
        rcases outcome with ⟨rfl, update⟩ | ⟨rfl, -, -, same₂⟩
        · have inv₂ := inv.extend space₂ (taken.trans grows.draws) owned₂ free alignedA at_
            (fun va => by
              rw [update va, inv.space.take_translate pop 0]
              exact if_congr (inPages_one alignedA fitsA).symm rfl rfl)
            (pte2pa_leaf owned₂.1.1 (by decide)) userLeaf_flags (fun _ _ => pteFlags_leaf (by decide)) shorter
          have next : (a + pgSize).toNat = a0.toNat + 4096 * (i + 1) := by
            rw [add_pgSize_toNat (by omega)]
            omega
          obtain ⟨r', k', run, rest'⟩ := ih (i + 1) k₂ (a + pgSize) inv₂ next (by omega) more
          exact ⟨r', k', by simp [uvmallocLoop, below, kalloc_pop pop, map, run], rest'⟩
        · obtain ⟨space₃, tables₃⟩ := space₂.kfree_owned owned₂
          have inv₃ := inv.keep space₃ ((taken.trans grows.draws).kfree free owned₂.2.2)
            ((translate_frame tables₃).trans (same₂.trans (inv.space.take_translate pop 0)))
            (by simp only [List.length_cons]; omega)
          obtain ⟨r', k', dealloc, space', draws', same'⟩ := inv₃.rollback aligned at_ (by omega) back
          simp only [memset_kernelEnd] at dealloc
          exact ⟨0, k', by simp [uvmallocLoop, below, kalloc_pop pop, map, kfree_ok owned₂.1, dealloc],
            space', draws', .inl ⟨rfl, same'⟩⟩
    · have done : i = count := by
        rw [UInt64.lt_iff_toNat_lt] at below
        omega
      subst done
      exact ⟨newsz, k, by simp [uvmallocLoop, below], inv.space, inv.draws, .inr ⟨rfl, inv⟩⟩

theorem Space.uvmalloc_spec {oldsz newsz : UInt64} (space : k.Space root) (small : oldsz.toNat < 2 ^ 63)
    (fits : (pgRoundUp oldsz).toNat + 4096 * k.freelist.length ≤ 2 ^ 38)
    (empty : ∀ va, InPages (pgRoundUp oldsz)
      (min ((newsz.toNat - (pgRoundUp oldsz).toNat + 4095) / 4096) k.freelist.length) va →
      k.translate root va = none) :
    ∃ r k', uvmalloc k root oldsz newsz = .ok (r, k') ∧ k'.Space root ∧ k.Draws k' root ∧
      (newsz < oldsz ∧ r = oldsz ∧ k' = k ∨
        r = 0 ∧ k'.translate root = k.translate root ∨
        r = newsz ∧ oldsz ≤ newsz ∧
          Allocating k k' root (pgRoundUp oldsz) ((newsz.toNat - (pgRoundUp oldsz).toNat + 4095) / 4096)
            userShape) := by
  by_cases shrink : newsz < oldsz
  · exact ⟨oldsz, k, by simp [uvmalloc, shrink], space, .refl, .inl ⟨shrink, rfl, rfl⟩⟩
  · have grow := UInt64.not_lt.mp shrink
    have round := pgRoundUp_toNat small
    obtain ⟨r, k', run, space', draws', outcome⟩ :=
      Allocating.loop (by rw [round]; omega) rfl (by omega) empty
        ((newsz.toNat - (pgRoundUp oldsz).toNat + 4095) / 4096 + 1) 0 k (pgRoundUp oldsz)
        (.start space) (by omega) (by omega) (Nat.zero_le _)
    refine ⟨r, k', ?_, space', draws', .inr (outcome.imp id fun ⟨done, inv⟩ => ⟨done, grow, inv⟩)⟩
    rw [uvmalloc, if_neg shrink]
    exact run

end Kmem

end Xv6.Vm
