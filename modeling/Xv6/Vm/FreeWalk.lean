import Xv6.Vm.Fork
import Xv6.Lib.Run

/-! `freewalk`, and `uvmfree` and `proc_freepagetable` built on it, on a table
whose leaf entries `uvmunmap` has cleared. `freewalk` frees a page after the
subtrees its pointers lead to. The subtrees of distinct entries share no page,
so each is freed from memory that the passes before it did not touch; what a
pass needs of memory is stated once, as `Frees`, for any memory that agrees on
the pages of the subtree. -/

namespace Xv6.Vm

open Xv6.Lib

namespace Kmem

variable {k k0 t : Kmem} {root pt : UInt64} {depth : Nat}

/-- `freewalk depth` on `pt` frees the pages `S`, from any memory that agrees
with `k` on them: it never panics, the pages it frees are pages of `S`, and it
writes no page outside `S`. -/
def Frees (k : Kmem) (depth : Nat) (pt : UInt64) (S : UInt64 → Prop) : Prop :=
  ∀ t : Kmem, (∀ x, S x → t.mem x = k.mem x) → t.kernelEnd = k.kernelEnd →
    ∃ t', freewalk depth t pt = .ok t' ∧ t'.kernelEnd = t.kernelEnd ∧
      (∃ freed, t'.freelist = freed ++ t.freelist ∧ ∀ x ∈ freed, S x) ∧
      ∀ x, ¬ S x → t'.mem x = t.mem x

theorem Frees.mono {S S' : UInt64 → Prop} (frees : k.Frees depth pt S) (larger : ∀ x, S x → S' x) :
    k.Frees depth pt S' := by
  intro t agree sameEnd
  obtain ⟨t', run, end', ⟨freed, list, inside⟩, frame⟩ :=
    frees t (fun x member => agree x (larger x member)) sameEnd
  exact ⟨t', run, end', ⟨freed, list, fun x member => larger x (inside x member)⟩,
    fun x outside => frame x fun member => outside (larger x member)⟩

theorem valid_of_isTableEntry {pte : UInt64} (pointer : isTableEntry pte = true) :
    (pte &&& pteV != 0) = true := by
  simp only [isTableEntry, Bool.and_eq_true] at pointer
  exact pointer.1

/-- The pages of `pt` and of the subtrees `sub i` under its valid entries. -/
def Below (k : Kmem) (pt : UInt64) (sub : Fin 512 → UInt64 → Prop) (x : UInt64) : Prop :=
  x = pt ∨ ∃ i c, k.child pt i = some c ∧ sub i x

/-- The loop of `freewalk (depth + 1)` over the entries of `pt`, after the
entries `done`: it freed pages of the subtrees under them, wrote no other
page but `pt`, and left the entries after them as they were. -/
structure Walked (t u : Kmem) (k : Kmem) (pt : UInt64) (sub : Fin 512 → UInt64 → Prop)
    (done : List (Fin 512)) : Prop where
  kernelEnd : u.kernelEnd = t.kernelEnd
  freelist : ∃ freed, u.freelist = freed ++ t.freelist ∧
    ∀ x ∈ freed, ∃ i ∈ done, ∃ c, k.child pt i = some c ∧ sub i x
  frame : ∀ x, x ≠ pt → (∀ i ∈ done, ∀ c, k.child pt i = some c → ¬ sub i x) → u.mem x = t.mem x
  later : ∀ i, i ∉ done → u.mem pt i = t.mem pt i

section Succ

variable {sub : Fin 512 → UInt64 → Prop}
  (freeable : k.Freeable pt)
  (pointers : ∀ i c, k.child pt i = some c →
    isTableEntry (k.mem pt i) = true ∧ k.Frees depth c (sub i) ∧ ¬ sub i pt)
  (apart : ∀ i j c d x, i ≠ j → k.child pt i = some c → k.child pt j = some d → sub i x → sub j x → False)
include pointers apart

theorem Walked.pass {u : Kmem} {done : List (Fin 512)} {i : Fin 512} (fresh : i ∉ done)
    (agree : ∀ x, k.Below pt sub x → t.mem x = k.mem x) (sameEnd : t.kernelEnd = k.kernelEnd)
    (walked : Walked t u k pt sub done) :
    ∃ u', (do
        let pte := u.mem pt i
        if isTableEntry pte then
          let u ← freewalk depth u (pte2pa pte)
          return u.write pt i 0
        else if pte &&& pteV != 0 then throw "freewalk: leaf"
        else return u : Except String Kmem) = .ok u' ∧ Walked t u' k pt sub (done ++ [i]) := by
  have entry : u.mem pt i = k.mem pt i := by
    rw [walked.later i fresh]
    exact congrFun (agree pt (.inl rfl)) i
  by_cases pointer : isTableEntry (k.mem pt i) = true
  · have found : k.child pt i = some (pte2pa (k.mem pt i)) := by
      simp [child, valid_of_isTableEntry pointer]
    obtain ⟨-, frees, notPt⟩ := pointers i _ found
    have others {x} (inside : sub i x) : ∀ j ∈ done, ∀ c, k.child pt j = some c → ¬ sub j x :=
      fun j member c found' below =>
        apart i j _ c x (fun same => fresh (same ▸ member)) found found' inside below
    have agreeU : ∀ x, sub i x → u.mem x = k.mem x := fun x inside => by
      rw [walked.frame x (fun same => notPt (same ▸ inside)) (others inside)]
      exact agree x (.inr ⟨i, _, found, inside⟩)
    obtain ⟨u₁, run, end₁, ⟨freed₁, list₁, inside₁⟩, frame₁⟩ :=
      frees u agreeU (walked.kernelEnd.trans sameEnd)
    obtain ⟨freed, list, origin⟩ := walked.freelist
    refine ⟨u₁.write pt i 0, by simp [entry, pointer, run], ⟨end₁.trans walked.kernelEnd, ?_, ?_, ?_⟩⟩
    · refine ⟨freed₁ ++ freed, by simp [list₁, list], fun x member => ?_⟩
      rcases List.mem_append.mp member with new | old
      · exact ⟨i, List.mem_append_right _ (List.mem_singleton_self i), _, found, inside₁ x new⟩
      · obtain ⟨j, member, c, found', below⟩ := origin x old
        exact ⟨j, List.mem_append_left _ member, c, found', below⟩
    · intro x notPt' outside
      rw [write_mem_of_ne notPt', frame₁ x (outside i (List.mem_append_right _ (List.mem_singleton_self i)) _ found)]
      exact walked.frame x notPt' fun j member => outside j (List.mem_append_left _ member)
    · intro j notDone
      have other : j ≠ i := by
        rintro rfl
        exact notDone (List.mem_append_right _ (List.mem_singleton_self j))
      rw [write_mem_self, Function.update_of_ne other, frame₁ pt notPt]
      exact walked.later j fun member => notDone (List.mem_append_left _ member)
  · have invalid : (k.mem pt i &&& pteV != 0) = false := by
      cases valid : (k.mem pt i &&& pteV != 0) with
      | false => rfl
      | true =>
        have found : k.child pt i = some (pte2pa (k.mem pt i)) := by simp [child, valid]
        exact absurd (pointers i _ found).1 pointer
    have none : k.child pt i = none := by simp [child, invalid]
    refine ⟨u, by simp [entry, pointer, invalid], ⟨walked.kernelEnd, ?_, ?_, ?_⟩⟩
    · obtain ⟨freed, list, origin⟩ := walked.freelist
      refine ⟨freed, list, fun x member => ?_⟩
      obtain ⟨j, member, c, found', below⟩ := origin x member
      exact ⟨j, List.mem_append_left _ member, c, found', below⟩
    · intro x notPt outside
      exact walked.frame x notPt fun j member => outside j (List.mem_append_left _ member)
    · intro j notDone
      exact walked.later j fun member => notDone (List.mem_append_left _ member)

include freeable in
theorem frees_succ : k.Frees (depth + 1) pt (k.Below pt sub) := by
  intro t agree sameEnd
  have start : Walked t t k pt sub [] :=
    ⟨rfl, ⟨[], rfl, fun _ member => absurd member List.not_mem_nil⟩, fun _ _ _ => rfl, fun _ _ => rfl⟩
  obtain ⟨u, loop, walked⟩ := foldlM_invariant (fun done u => Walked t u k pt sub done) (List.finRange 512) start
    fun ys i zs u whole holds => by
      have fresh : i ∉ ys := by
        have nodup := List.nodup_finRange 512
        rw [whole] at nodup
        exact fun member => (List.nodup_append.mp nodup).2.2 i member i List.mem_cons_self rfl
      exact Walked.pass pointers apart fresh agree sameEnd holds
  have ok : u.Freeable pt := freeable.congr (walked.kernelEnd.trans sameEnd)
  obtain ⟨freed, list, origin⟩ := walked.freelist
  refine ⟨{ u.memset pt 1 with freelist := pt :: u.freelist }, ?_, walked.kernelEnd, ?_, ?_⟩
  · rw [freewalk, loop, ok_bind]
    exact kfree_ok ok
  · refine ⟨pt :: freed, by simp [list], fun x member => ?_⟩
    rcases List.mem_cons.mp member with rfl | old
    · exact .inl rfl
    · obtain ⟨i, -, c, found, below⟩ := origin x old
      exact .inr ⟨i, c, found, below⟩
  · intro x outside
    have notPt : x ≠ pt := fun same => outside (.inl same)
    rw [show ({ u.memset pt 1 with freelist := pt :: u.freelist } : Kmem).mem x = (u.memset pt 1).mem x from rfl,
      memset_mem_of_ne notPt]
    exact walked.frame x notPt fun i _ c found below => outside (.inr ⟨i, c, found, below⟩)

end Succ

/-! ### The three levels of a table -/

theorem frees_bare {l0 : UInt64} (freeable : k.Freeable l0) (bare : ∀ i, k.child l0 i = none) :
    k.Frees 1 l0 (· = l0) := by
  have frees : k.Frees 1 l0 (k.Below l0 fun _ _ => False) :=
    frees_succ freeable (fun i c found => by rw [bare i] at found; cases found)
      (fun i _ c _ _ _ found => by rw [bare i] at found; cases found)
  refine frees.mono fun x below => ?_
  rcases below with same | ⟨_, _, _, never⟩
  · exact same
  · exact never.elim

section Levels

variable (space : k.Space root) (freeable : ∀ x, k.IsTable root x → k.Freeable x)
  (bare : ∀ i2 i1 l0, k.level0 root i2 i1 = some l0 → ∀ i, k.child l0 i = none)
include space freeable bare

/-- The pages of the subtree under entry `i2` of the root: its level-1 page and
the level-0 pages under that. -/
def subtree (k : Kmem) (root : UInt64) (i2 : Fin 512) (x : UInt64) : Prop :=
  ∃ l1, k.level1 root i2 = some l1 ∧ k.Below l1 (fun i1 y => k.child l1 i1 = some y) x

theorem Space.frees_level1 {i2 : Fin 512} {l1 : UInt64} (above : k.level1 root i2 = some l1) :
    k.Frees 2 l1 (k.Below l1 fun i1 y => k.child l1 i1 = some y) := by
  have tree := space.tree
  refine frees_succ (freeable l1 (isTable_level1 above)) (fun i1 c found => ?_) ?_
  · have low : k.level0 root i2 i1 = some c := by rw [child_level0 above]; exact found
    refine ⟨space.interior.mid i2 l1 above i1 c found, ?_, fun same => ?_⟩
    · refine (frees_bare (freeable c (isTable_level0 low)) (bare i2 i1 c low)).mono fun x same => ?_
      rw [same]
      exact found
    · rw [← child_level0 above] at same
      exact tree.mid_ne_top same above
  · intro i1 j1 c d x other _ _ first second
    rw [← child_level0 above] at first second
    exact other (tree.mid_inj first second).2

theorem Space.freewalk_spec : k.Frees 3 root (k.IsTable root) := by
  have tree := space.tree
  have frees : k.Frees 3 root (k.Below root (k.subtree root)) := by
    refine frees_succ (freeable root isTable_root) (fun i2 l1 found => ?_) ?_
    · refine ⟨(space.interior.top i2 l1 found).1, (space.frees_level1 freeable bare found).mono
        fun x below => ⟨l1, found, below⟩, ?_⟩
      rintro ⟨l1', above, same | ⟨i1, c, _, low⟩⟩
      · exact tree.top_ne_root above same.symm
      · rw [← child_level0 above] at low
        exact tree.mid_ne_root low rfl
    · rintro i2 j2 - - x other - - ⟨l1, above, first⟩ ⟨l1', above', second⟩
      rcases first with rfl | ⟨i1, c, _, low⟩ <;> rcases second with same | ⟨j1, d, _, low'⟩
      · exact other (tree.top_inj above (same ▸ above'))
      · rw [← child_level0 above'] at low'
        exact tree.mid_ne_top low' above
      · rw [← child_level0 above] at low
        exact tree.mid_ne_top low (same ▸ above')
      · rw [← child_level0 above] at low
        rw [← child_level0 above'] at low'
        exact other (tree.mid_inj low low').1
  refine frees.mono fun x below => ?_
  rcases below with rfl | ⟨i2, _, _, l1, above, rfl | ⟨i1, c, _, low⟩⟩
  · exact isTable_root
  · exact isTable_level1 above
  · rw [← child_level0 above] at low
    exact isTable_level0 low

end Levels

theorem translate_indices (i2 i1 i0 : Fin 512) (low : i2.val < 256) :
    k.translate root (UInt64.ofNat (((i2.val * 512 + i1.val) * 512 + i0.val) * 4096)) = k.leaf root i2 i1 i0 := by
  have value : (UInt64.ofNat (((i2.val * 512 + i1.val) * 512 + i0.val) * 4096)).toNat =
      ((i2.val * 512 + i1.val) * 512 + i0.val) * 4096 :=
    UInt64.toNat_ofNat_of_lt' (by unfold UInt64.size; omega)
  have below : UInt64.ofNat (((i2.val * 512 + i1.val) * 512 + i0.val) * 4096) < maxVa := by
    rw [UInt64.lt_iff_toNat_lt, value, show maxVa.toNat = 2 ^ 38 by decide]
    omega
  have index (level : Nat) (small : level < 3) (j : Fin 512)
      (digit : ((i2.val * 512 + i1.val) * 512 + i0.val) * 4096 / 2 ^ (12 + 9 * level) % 512 = j.val) :
      px level (UInt64.ofNat (((i2.val * 512 + i1.val) * 512 + i0.val) * 4096)) = j :=
    Fin.ext (by rw [px_val _ small, value, digit])
  rw [translate, if_pos below, index 2 (by decide) i2 (by omega), index 1 (by decide) i1 (by omega),
    index 0 (by decide) i0 (by omega)]

theorem Space.bare (space : k.Space root) (nothing : ∀ va, k.translate root va = none) :
    ∀ i2 i1 l0, k.level0 root i2 i1 = some l0 → ∀ i, k.child l0 i = none := by
  intro i2 i1 l0 low i
  obtain ⟨l1, above, -⟩ : ∃ l1, k.level1 root i2 = some l1 ∧ k.child l1 i1 = some l0 := by
    cases above : k.level1 root i2 with
    | none => simp [level0, above] at low
    | some l1 => exact ⟨l1, rfl, by rw [← child_level0 above]; exact low⟩
  have unmapped := nothing (UInt64.ofNat (((i2.val * 512 + i1.val) * 512 + i.val) * 4096))
  rw [translate_indices i2 i1 i (space.interior.top i2 l1 above).2] at unmapped
  unfold leaf at unmapped
  rw [low, Option.bind_some] at unmapped
  unfold child
  split
  · rename_i valid
    rw [if_pos valid] at unmapped
    cases unmapped
  · rfl

/-! ### `uvmfree` and `proc_freepagetable` -/

/-- `x` is the page some address of the `n` pages from `0` is mapped to. -/
def Maps (k : Kmem) (root : UInt64) (n : Nat) (x : UInt64) : Prop :=
  ∃ va e, InPages 0 n va ∧ k.translate root va = some e ∧ pte2pa e = x

/-- `k'` came from `k` by taking apart the table at `root` and the `n` user
pages from `0` it maps: its new free pages are pages of the table or user
pages, and it wrote no other page that was not free. -/
structure Releases (k k' : Kmem) (root : UInt64) (n : Nat) : Prop where
  kernelEnd : k'.kernelEnd = k.kernelEnd
  freelist : ∀ x ∈ k'.freelist, x ∈ k.freelist ∨ k.IsTable root x ∨ k.Maps root n x
  frame : ∀ x, ¬ k.IsTable root x → x ∉ k.freelist → ¬ k.Maps root n x → k'.mem x = k.mem x

theorem Unmappable.draws {a : UInt64} {n : Nat} {doFree : Bool} {k' : Kmem} (pre : k.Unmappable root a n doFree)
    (draws : k.Draws k' root) (same : ∀ va, InPages a n va → k'.translate root va = k.translate root va) :
    k'.Unmappable root a n doFree := by
  refine ⟨fun va inside => ?_, fun freeing va e inside found => ?_,
    fun freeing va va' e e' inside inside' found found' => ?_⟩
  · rw [same va inside]
    exact pre.mapped va inside
  · rw [same va inside] at found
    exact (pre.owned freeing va e inside found).draws draws
  · rw [same va inside] at found
    rw [same va' inside'] at found'
    exact pre.distinct freeing va va' e e' inside inside' found found'

theorem Space.uvmfree_spec {sz : UInt64} (space : k.Space root) (positive : 0 < sz.toNat)
    (fits : sz.toNat ≤ 2 ^ 38) (user : k.Unmappable root 0 ((sz.toNat + 4095) / 4096) true)
    (only : ∀ va, ¬ InPages 0 ((sz.toNat + 4095) / 4096) va → k.translate root va = none)
    (freeable : ∀ x, k.IsTable root x → k.Freeable x) :
    ∃ k', uvmfree k root sz = .ok k' ∧ k.Releases k' root ((sz.toNat + 4095) / 4096) := by
  obtain ⟨k₁, unmap, unmapped⟩ :=
    space.uvmunmap_spec (show (0 : UInt64).toNat % 4096 = 0 by decide) positive (by simpa using fits) user
  have nothing : ∀ va, k₁.translate root va = none := fun va => by
    rw [unmapped.translate]
    split
    · rfl
    · rename_i outside
      exact only va outside
  have tables₁ := unmapped.tables
  have freeable₁ : ∀ x, k₁.IsTable root x → k₁.Freeable x := fun x table =>
    (freeable x (tables₁ ▸ table)).congr unmapped.kernelEnd
  obtain ⟨k₂, walk, end₂, ⟨freed, list, inside⟩, frame⟩ :=
    unmapped.space.freewalk_spec freeable₁ (unmapped.space.bare nothing) k₁ (fun _ _ => rfl) rfl
  obtain ⟨freed₁, list₁, -, origin⟩ := unmapped.freelist
  refine ⟨k₂, by simp [uvmfree, unmap, walk], end₂.trans unmapped.kernelEnd, fun x member => ?_,
    fun x notTable notFree notUser => ?_⟩
  · rw [list, List.mem_append, list₁, List.mem_append] at member
    rcases member with table | user | old
    · exact .inr (.inl (tables₁ ▸ inside x table))
    · exact .inr (.inr (origin x user))
    · exact .inl old
  · have notFree₁ : x ∉ k₁.freelist := by
      rw [list₁, List.mem_append]
      rintro (user | old)
      · exact notUser (origin x user)
      · exact notFree old
    rw [frame x (tables₁ ▸ notTable), unmapped.frame x notTable notFree₁]

/-- A page table that `proc_freepagetable(pagetable, sz)` takes apart: it maps
the trapframe and the trampoline as `proc_pagetable` does, the pages below
`sz`, which end below the trapframe, by leaf entries to pages of their own
that it may free, and nothing else; and each page of the table may be freed. -/
structure Discardable (k : Kmem) (root sz trampolinePa tf : UInt64) : Prop where
  space : k.Space root
  top : ∀ va, trapframe ≤ va → k.translate root va = procMap trampolinePa tf va
  below : (sz.toNat + 4095) / 4096 * 4096 ≤ trapframe.toNat
  user : k.Unmappable root 0 ((sz.toNat + 4095) / 4096) true
  only : ∀ va, (sz.toNat + 4095) / 4096 * 4096 ≤ va.toNat → va < trapframe → k.translate root va = none
  freeable : ∀ x, k.IsTable root x → k.Freeable x

theorem Discardable.release {sz trampolinePa tf : UInt64}
    (disc : k.Discardable root sz trampolinePa tf) :
    ∃ k', procFreepagetable k root sz = .ok k' ∧ k.Releases k' root ((sz.toNat + 4095) / 4096) := by
  obtain ⟨k₁, k₂, first, second, space₂, draws₂, tables₂, list₂, translate₂⟩ := disc.space.unmapTop disc.top
  have low {va} (inside : InPages 0 ((sz.toNat + 4095) / 4096) va) : ¬ trapframe ≤ va := by
    have := disc.below
    rw [UInt64.le_iff_toNat_le]
    simp only [InPages, UInt64.toNat_zero] at inside
    omega
  have same {va} (inside : InPages 0 ((sz.toNat + 4095) / 4096) va) : k₂.translate root va = k.translate root va := by
    rw [translate₂, if_neg (low inside)]
  have maps {x} : k₂.Maps root ((sz.toNat + 4095) / 4096) x ↔ k.Maps root ((sz.toNat + 4095) / 4096) x := by
    constructor
    · rintro ⟨va, e, inside, found, rfl⟩
      exact ⟨va, e, inside, (same inside) ▸ found, rfl⟩
    · rintro ⟨va, e, inside, found, rfl⟩
      exact ⟨va, e, inside, (same inside).symm ▸ found, rfl⟩
  by_cases positive : sz > 0
  · have fits : sz.toNat ≤ 2 ^ 38 := by
      have := disc.below
      rw [trapframe_toNat] at this
      omega
    have only₂ : ∀ va, ¬ InPages 0 ((sz.toNat + 4095) / 4096) va → k₂.translate root va = none := by
      intro va outside
      rw [translate₂]
      split
      · rfl
      · rename_i under
        refine disc.only va ?_ (UInt64.not_le.mp under)
        simp only [InPages, UInt64.toNat_zero] at outside
        omega
    obtain ⟨k', free, releases⟩ := space₂.uvmfree_spec (UInt64.lt_iff_toNat_lt.mp positive) fits
      (disc.user.draws draws₂ fun va inside => same inside) only₂
      fun x table => (disc.freeable x (tables₂ ▸ table)).congr draws₂.kernelEnd
    refine ⟨k', by simp [procFreepagetable, first, second, positive, free],
      ⟨releases.kernelEnd.trans draws₂.kernelEnd, fun x member => ?_, fun x notTable notFree notUser => ?_⟩⟩
    · rcases releases.freelist x member with old | table | user
      · exact .inl (list₂ ▸ old)
      · exact .inr (.inl (tables₂ ▸ table))
      · exact .inr (.inr (maps.mp user))
    · rw [releases.frame x (tables₂ ▸ notTable) (list₂ ▸ notFree) fun user => notUser (maps.mp user),
        draws₂.frame x notTable notFree]
  · refine ⟨k₂, by simp [procFreepagetable, first, second, positive],
      ⟨draws₂.kernelEnd, fun x member => .inl (list₂ ▸ member), fun x notTable notFree _ => draws₂.frame x notTable notFree⟩⟩

theorem Uses.releases {k' : Kmem} {n : Nat} (uses : k0.Uses k) (releases : k.Releases k' root n)
    (tables : ∀ x, k.IsTable root x → x ∈ k0.freelist) (fresh : ∀ x, k.Maps root n x → x ∈ k0.freelist) :
    k0.Uses k' where
  kernelEnd := releases.kernelEnd.trans uses.kernelEnd
  freelist x member := by
    rcases releases.freelist x member with old | table | user
    · exact uses.freelist x old
    · exact tables x table
    · exact fresh x user
  frame x notFree := by
    rw [releases.frame x (fun table => notFree (tables x table)) (fun old => notFree (uses.freelist x old))
      fun user => notFree (fresh x user)]
    exact uses.frame x notFree

end Kmem

end Xv6.Vm
