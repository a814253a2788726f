import Mathlib

/-! The blocks of a complete binary tree numbered level by level, the way a
buddy allocator or a segment tree numbers them: at level `k`, block `c` covers
the leaves `[c * 2^k, (c + 1) * 2^k)`; its parent is `c / 2`, its children are
`2c` and `2c + 1`, and the block `d` levels above it is `c / 2^d`. Two blocks
are nested or share no leaf. -/

namespace Xv6.Lib.Dyadic

/-- The block `d` levels above block `c`. -/
def up (c d : Nat) : Nat := c / 2 ^ d

@[simp] theorem up_zero (c : Nat) : up c 0 = c := by
  simp [up]

theorem up_up (c a b : Nat) : up (up c a) b = up c (a + b) := by
  simp only [up, Nat.div_div_eq_div_mul, ← pow_add]

theorem up_succ (c d : Nat) : up c (d + 1) = up (c / 2) d := by
  rw [Nat.add_comm, ← up_up]
  simp [up]

@[simp] theorem up_one (c : Nat) : up c 1 = c / 2 := by
  simp [up]

theorem up_add_one (c d : Nat) : up c (d + 1) = up c d / 2 := by
  rw [← up_up, up_one]

@[simp] theorem up_double (c d : Nat) : up (2 * c) (d + 1) = up c d := by
  rw [up_succ, Nat.mul_div_cancel_left c (by norm_num)]

@[simp] theorem up_double_add_one (c d : Nat) : up (2 * c + 1) (d + 1) = up c d := by
  rw [up_succ]
  congr 1
  omega

@[simp] theorem up_mul_pow (c d : Nat) : up (c * 2 ^ d) d = c := by
  simp [up]

theorem up_lt {c n d : Nat} (below : c < 2 ^ (n + d)) : up c d < 2 ^ n := by
  unfold up
  rw [Nat.div_lt_iff_lt_mul (by positivity), ← pow_add]
  exact below

/-- The other block under the same parent. -/
def sibling (c : Nat) : Nat := if c % 2 = 0 then c + 1 else c - 1

@[simp] theorem sibling_div_two (c : Nat) : sibling c / 2 = c / 2 := by
  unfold sibling
  split <;> omega

@[simp] theorem sibling_sibling (c : Nat) : sibling (sibling c) = c := by
  unfold sibling
  split <;> split <;> omega

@[simp] theorem sibling_double (c : Nat) : sibling (2 * c) = 2 * c + 1 := by
  unfold sibling
  split <;> omega

@[simp] theorem sibling_double_add_one (c : Nat) : sibling (2 * c + 1) = 2 * c := by
  unfold sibling
  split <;> omega

theorem sibling_ne (c : Nat) : sibling c ≠ c := by
  unfold sibling
  split <;> omega

theorem eq_sibling {c c' : Nat} (same : c' / 2 = c / 2) (other : c' ≠ c) : c' = sibling c := by
  unfold sibling
  split <;> omega

theorem lower_of_sibling (c : Nat) : (if sibling c % 2 = 0 then sibling c else c) = 2 * (c / 2) := by
  unfold sibling
  split <;> split <;> omega

theorem up_eq_iff {x c d : Nat} : up x d = c ↔ c * 2 ^ d ≤ x ∧ x < (c + 1) * 2 ^ d := by
  have positive : 0 < 2 ^ d := by positivity
  unfold up
  constructor
  · rintro rfl
    exact ⟨Nat.div_mul_le_self x _, Nat.mul_comm (2 ^ d) _ ▸ Nat.lt_mul_div_succ x positive⟩
  · rintro ⟨low, high⟩
    apply le_antisymm
    · exact Nat.lt_succ_iff.mp ((Nat.div_lt_iff_lt_mul positive).mpr high)
    · exact (Nat.le_div_iff_mul_le positive).mpr low

theorem nested_or_apart {a b c c' : Nat} (le : a ≤ b) :
    up c (b - a) = c' ∨ (c + 1) * 2 ^ a ≤ c' * 2 ^ b ∨ (c' + 1) * 2 ^ b ≤ c * 2 ^ a := by
  have split : 2 ^ b = 2 ^ (b - a) * 2 ^ a := by rw [← pow_add, Nat.sub_add_cancel le]
  have positive : 0 < 2 ^ (b - a) := by positivity
  rcases lt_trichotomy (up c (b - a)) c' with below | same | above
  · have : c < c' * 2 ^ (b - a) := (Nat.div_lt_iff_lt_mul positive).mp below
    refine .inr (.inl ?_)
    rw [split, ← Nat.mul_assoc]
    exact Nat.mul_le_mul_right _ this
  · exact .inl same
  · have : (c' + 1) * 2 ^ (b - a) ≤ c := (Nat.le_div_iff_mul_le positive).mp above
    refine .inr (.inr ?_)
    rw [split, ← Nat.mul_assoc]
    exact Nat.mul_le_mul_right _ this

/-! ### Trees of blocks

A predicate `split` on blocks, read from level `top` down, gives a tree: the
block of level `top`, and under each block of the tree that `split` marks, its
two halves. The tree's leaves, its blocks that are not split, cover every leaf
of level `0` once. -/

section Tree

variable {split split' : Nat → Nat → Bool} {top k k' j c c' x : Nat}

/-- Block `c` of level `k` is in the tree: it lies under the top, and every block
above it is split. -/
def InTree (split : Nat → Nat → Bool) (top k c : Nat) : Prop :=
  k ≤ top ∧ c < 2 ^ (top - k) ∧ ∀ j, k < j → j ≤ top → split j (up c (j - k)) = true

theorem inTree_top : InTree split top top 0 :=
  ⟨Nat.le_refl top, by simp, fun _ higher top' => absurd top' (by omega)⟩

theorem InTree.le (tree : InTree split top k c) : k ≤ top := tree.1

theorem InTree.above (tree : InTree split top k c) (higher : k < j) (le : j ≤ top) :
    split j (up c (j - k)) = true :=
  tree.2.2 j higher le

theorem InTree.mono (tree : InTree split top k c) (more : ∀ j x, split j x = true → split' j x = true) :
    InTree split' top k c :=
  ⟨tree.1, tree.2.1, fun _ higher le => more _ _ (tree.above higher le)⟩

theorem InTree.parent (tree : InTree split top k c) (below : k < top) :
    InTree split top (k + 1) (c / 2) ∧ split (k + 1) (c / 2) = true := by
  obtain ⟨-, bound, above⟩ := tree
  have double : 2 ^ (top - k) = 2 * 2 ^ (top - (k + 1)) := by
    rw [← pow_succ', show top - (k + 1) + 1 = top - k by omega]
  refine ⟨⟨below, by omega, fun j higher le => ?_⟩, ?_⟩
  · have same : up (c / 2) (j - (k + 1)) = up c (j - k) := by
      rw [show j - k = j - (k + 1) + 1 by omega, up_succ]
    rw [same]
    exact above j (by omega) le
  · simpa using above (k + 1) (by omega) below

theorem InTree.child (tree : InTree split top (k + 1) c) (halved : split (k + 1) c = true)
    (half : c' / 2 = c) : InTree split top k c' := by
  obtain ⟨le, bound, above⟩ := tree
  have double : 2 ^ (top - k) = 2 * 2 ^ (top - (k + 1)) := by
    rw [← pow_succ', show top - (k + 1) + 1 = top - k by omega]
  refine ⟨by omega, by omega, fun j higher le' => ?_⟩
  rcases Nat.lt_or_ge (k + 1) j with further | here
  · rw [show j - k = j - (k + 1) + 1 by omega, up_succ, half]
    exact above j further le'
  · rw [show j = k + 1 by omega, Nat.add_sub_cancel_left, up_one, half]
    exact halved

theorem InTree.apart (tree : InTree split top k c) (leaf : split k c = false)
    (tree' : InTree split top k' c') (leaf' : split k' c' = false) (other : k ≠ k' ∨ c ≠ c') :
    (c + 1) * 2 ^ k ≤ c' * 2 ^ k' ∨ (c' + 1) * 2 ^ k' ≤ c * 2 ^ k := by
  wlog le : k ≤ k' generalizing k k' c c'
  · exact (this tree' leaf' tree leaf (other.imp Ne.symm Ne.symm) (by omega)).symm
  rcases @nested_or_apart k k' c c' le with nested | apart
  · rcases Nat.lt_or_ge k k' with lower | same
    · have split := tree.above lower tree'.le
      rw [nested, leaf'] at split
      cases split
    · have : k = k' := by omega
      subst this
      simp at nested other
      exact absurd nested other
  · exact apart

theorem InTree.below_top (tree : InTree split top k c) (leaf : split k c = false)
    (tree' : InTree split top k' c') (other : k ≠ k' ∨ c ≠ c') : k < top := by
  by_contra high
  have level : k = top := by have := tree.le; omega
  subst level
  have first : c = 0 := by simpa using tree.2.1
  subst first
  rcases Nat.lt_or_ge k' k with lower | same
  · have split := tree'.above lower (Nat.le_refl k)
    have root : up c' (k - k') = 0 := by
      have : up c' (k - k') < 2 ^ 0 := up_lt (by rw [Nat.zero_add]; exact tree'.2.1)
      simpa using this
    rw [root, leaf] at split
    cases split
  · have : k' = k := by have := tree'.le; omega
    subst this
    have : c' = 0 := by simpa using tree'.2.1
    simp_all

theorem exists_leaf (bottom : ∀ c, split 0 c = false) (below : x < 2 ^ top) :
    ∃ k, InTree split top k (up x k) ∧ split k (up x k) = false := by
  have walk : ∀ k, InTree split top k (up x k) → ∃ k, InTree split top k (up x k) ∧ split k (up x k) = false := by
    intro k
    induction k with
    | zero => exact fun tree => ⟨0, tree, bottom _⟩
    | succ k ih =>
      intro tree
      cases leaf : split (k + 1) (up x (k + 1)) with
      | false => exact ⟨k + 1, tree, leaf⟩
      | true => exact ih (tree.child leaf (up_add_one x k).symm)
  apply walk top
  have first : up x top = 0 := by
    have : up x top < 2 ^ 0 := up_lt (by simpa using below)
    simpa using this
  rw [first]
  exact inTree_top

theorem inTree_split_iff (closed : ∀ j x, split j x = true → InTree split top j x)
    (tree : InTree split top (k + 1) c) (leaf : split (k + 1) c = false)
    (set : ∀ j x, split' j x = if j = k + 1 ∧ x = c then true else split j x) :
    InTree split' top k' c' ↔ InTree split top k' c' ∨ (k' = k ∧ c' / 2 = c) := by
  have more : ∀ j x, split j x = true → split' j x = true := by
    intro j x split
    rw [set]
    split <;> simp_all
  constructor
  · intro tree'
    by_cases under : k' ≤ k ∧ up c' (k + 1 - k') = c
    · rcases Nat.lt_or_ge k' k with lower | same
      · have splitK := tree'.above lower (by have := tree.le; omega)
        rw [set, if_neg (by omega)] at splitK
        have parent := ((closed _ _ splitK).parent (by have := tree.le; omega)).2
        rw [← up_add_one, show k - k' + 1 = k + 1 - k' by omega, under.2, leaf] at parent
        cases parent
      · right
        have : k' = k := by omega
        subst this
        simpa using under.2
    · left
      refine ⟨tree'.1, tree'.2.1, fun j higher le => ?_⟩
      have kept := tree'.above higher le
      have other : ¬ (j = k + 1 ∧ up c' (j - k') = c) := fun taken => under ⟨by omega, taken.1 ▸ taken.2⟩
      rw [set, if_neg other] at kept
      exact kept
  · rintro (tree' | ⟨rfl, half⟩)
    · exact tree'.mono more
    · exact (tree.mono more).child (by simp [set]) half

theorem inTree_join_iff (below : k < top) (halves : ∀ x, x / 2 = c → split k x = false)
    (set : ∀ j x, split' j x = if j = k + 1 ∧ x = c then false else split j x) :
    InTree split' top k' c' ↔ InTree split top k' c' ∧ ¬ (k' = k ∧ c' / 2 = c) := by
  constructor
  · intro tree'
    have half : ¬ (k' = k ∧ c' / 2 = c) := by
      rintro ⟨rfl, half⟩
      have split := tree'.above (Nat.lt_add_one k') below
      rw [set, Nat.add_sub_cancel_left, up_one, if_pos ⟨rfl, half⟩] at split
      cases split
    refine ⟨⟨tree'.1, tree'.2.1, fun j higher le => ?_⟩, half⟩
    have kept := tree'.above higher le
    rw [set] at kept
    split at kept
    · cases kept
    · exact kept
  · rintro ⟨tree, half⟩
    refine ⟨tree.1, tree.2.1, fun j higher le => ?_⟩
    rw [set, if_neg]
    · exact tree.above higher le
    · rintro ⟨rfl, parent⟩
      rcases Nat.lt_or_ge k' k with lower | same
      · have splitK := tree.above lower below.le
        rw [halves _ (by rw [← up_add_one, show k - k' + 1 = k + 1 - k' by omega, parent])] at splitK
        cases splitK
      · exact half ⟨by omega, by rwa [show k + 1 - k' = 1 by omega, up_one] at parent⟩

end Tree

end Xv6.Lib.Dyadic
