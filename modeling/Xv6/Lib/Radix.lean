import Mathlib

/-! The shape of a three-level radix tree of pages, as hardware page tables
have it: a root page, the pages the slots of the root point to, and the pages
the slots of those point to. In a well-formed tree every page hangs from one
slot only and the levels share no page, so a write to one slot of one page is
seen along one path only. Hanging a fresh page from an empty slot keeps that
shape. -/

namespace Xv6.Lib

variable {α ι : Type}

/-- The tree under `root`: `top i` is the page under slot `i` of the root and
`mid i j` the page under slot `j` of that one. -/
structure Radix (root : α) (top : ι → Option α) (mid : ι → ι → Option α) : Prop where
  top_ne_root : ∀ {i q}, top i = some q → q ≠ root
  mid_ne_root : ∀ {i j q}, mid i j = some q → q ≠ root
  mid_ne_top : ∀ {i j i' q}, mid i j = some q → top i' ≠ some q
  top_inj : ∀ {i i' q}, top i = some q → top i' = some q → i = i'
  mid_inj : ∀ {i j i' j' q}, mid i j = some q → mid i' j' = some q → i = i' ∧ j = j'

/-- A page of the tree: the root or a page some slot points to. -/
def Reaches (root : α) (top : ι → Option α) (mid : ι → ι → Option α) (q : α) : Prop :=
  q = root ∨ (∃ i, top i = some q) ∨ ∃ i j, mid i j = some q

namespace Radix

variable [DecidableEq ι] {root q : α} {top : ι → Option α} {mid : ι → ι → Option α} {i j : ι}

theorem hangTop (shape : Radix root top mid) (fresh : ¬ Reaches root top mid q) :
    Radix root (Function.update top i (some q)) mid where
  top_ne_root {i' q'} found := by
    by_cases same : i' = i
    · subst i'
      simp only [Function.update_self, Option.some.injEq] at found
      subst q'
      exact fun root_eq => fresh (.inl root_eq)
    · rw [Function.update_of_ne same] at found
      exact shape.top_ne_root found
  mid_ne_root := shape.mid_ne_root
  mid_ne_top {i₀ j₀ i' q'} found := by
    by_cases same : i' = i
    · subst i'
      simp only [Function.update_self, ne_eq, Option.some.injEq]
      rintro rfl
      exact fresh (.inr (.inr ⟨i₀, j₀, found⟩))
    · rw [Function.update_of_ne same]
      exact shape.mid_ne_top found
  top_inj {i₁ i₂ q'} first second := by
    by_cases one : i₁ = i <;> by_cases two : i₂ = i
    · rw [one, two]
    · subst i₁
      rw [Function.update_of_ne two] at second
      simp only [Function.update_self, Option.some.injEq] at first
      subst q'
      exact absurd (.inr (.inl ⟨i₂, second⟩)) fresh
    · subst i₂
      rw [Function.update_of_ne one] at first
      simp only [Function.update_self, Option.some.injEq] at second
      subst q'
      exact absurd (.inr (.inl ⟨i₁, first⟩)) fresh
    · rw [Function.update_of_ne one] at first
      rw [Function.update_of_ne two] at second
      exact shape.top_inj first second
  mid_inj := shape.mid_inj

/-- The page under slot `j` of the page under slot `i`, the other slots as
`mid` has them. -/
def setMid (mid : ι → ι → Option α) (i j : ι) (q : α) : ι → ι → Option α :=
  Function.update mid i (Function.update (mid i) j (some q))

theorem setMid_apply {i' j' : ι} :
    setMid mid i j q i' j' = if i' = i ∧ j' = j then some q else mid i' j' := by
  unfold setMid
  by_cases first : i' = i
  · subst i'
    by_cases second : j' = j
    · subst j'
      simp
    · simp [second]
  · simp [first]

theorem hangMid (shape : Radix root top mid) (fresh : ¬ Reaches root top mid q) :
    Radix root top (setMid mid i j q) where
  top_ne_root := shape.top_ne_root
  mid_ne_root {i' j' q'} found := by
    rw [setMid_apply] at found
    split at found
    · cases found
      exact fun root_eq => fresh (.inl root_eq)
    · exact shape.mid_ne_root found
  mid_ne_top {i' j' i₀ q'} found := by
    rw [setMid_apply] at found
    split at found
    · cases found
      exact fun top_eq => fresh (.inr (.inl ⟨i₀, top_eq⟩))
    · exact shape.mid_ne_top found
  top_inj := shape.top_inj
  mid_inj {i₁ j₁ i₂ j₂ q'} first second := by
    rw [setMid_apply] at first second
    split at first <;> split at second
    · rename_i one two
      exact ⟨one.1.trans two.1.symm, one.2.trans two.2.symm⟩
    · cases first
      exact absurd (.inr (.inr ⟨i₂, j₂, second⟩)) fresh
    · cases second
      exact absurd (.inr (.inr ⟨i₁, j₁, first⟩)) fresh
    · exact shape.mid_inj first second

theorem reaches_hangTop (empty : top i = none) {x : α} :
    Reaches root (Function.update top i (some q)) mid x ↔ Reaches root top mid x ∨ x = q := by
  constructor
  · rintro (isRoot | ⟨i', found⟩ | below)
    · exact .inl (.inl isRoot)
    · by_cases same : i' = i
      · subst i'
        simp only [Function.update_self, Option.some.injEq] at found
        exact .inr found.symm
      · rw [Function.update_of_ne same] at found
        exact .inl (.inr (.inl ⟨i', found⟩))
    · exact .inl (.inr (.inr below))
  · rintro ((isRoot | ⟨i', found⟩ | below) | rfl)
    · exact .inl isRoot
    · have other : i' ≠ i := by
        rintro rfl
        rw [empty] at found
        cases found
      exact .inr (.inl ⟨i', by rw [Function.update_of_ne other]; exact found⟩)
    · exact .inr (.inr below)
    · exact .inr (.inl ⟨i, Function.update_self ..⟩)

theorem reaches_setMid (empty : mid i j = none) {x : α} :
    Reaches root top (setMid mid i j q) x ↔ Reaches root top mid x ∨ x = q := by
  constructor
  · rintro (isRoot | above | ⟨i', j', found⟩)
    · exact .inl (.inl isRoot)
    · exact .inl (.inr (.inl above))
    · rw [setMid_apply] at found
      split at found
      · cases found
        exact .inr rfl
      · exact .inl (.inr (.inr ⟨i', j', found⟩))
  · rintro ((isRoot | above | ⟨i', j', found⟩) | rfl)
    · exact .inl isRoot
    · exact .inr (.inl above)
    · have other : ¬ (i' = i ∧ j' = j) := by
        rintro ⟨rfl, rfl⟩
        rw [empty] at found
        cases found
      exact .inr (.inr ⟨i', j', by rw [setMid_apply, if_neg other]; exact found⟩)
    · exact .inr (.inr ⟨i, j, by rw [setMid_apply, if_pos ⟨rfl, rfl⟩]⟩)

end Radix

end Xv6.Lib
