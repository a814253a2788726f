import Mathlib

/-! Systems of finitely many processes, each in some phase: how many processes
a phase predicate selects, and how one process moving changes that number. -/

namespace Xv6.Lib

variable {P α : Type} [Fintype P] [DecidableEq P]

/-- The number of processes whose phase satisfies `test`. -/
def countWhere (test : α → Bool) (phase : P → α) : Nat :=
  (Finset.univ.filter fun p => test (phase p) = true).card

variable (test : α → Bool) (phase : P → α) {p : P} {v : α}

private theorem filter_update_eq (same : test (phase p) = test v) :
    (Finset.univ.filter fun q => test (Function.update phase p v q) = true) =
      Finset.univ.filter fun q => test (phase q) = true := by
  ext q
  by_cases moved : q = p
  · subst q; simp [same]
  · simp [moved]

theorem countWhere_update_same (same : test (phase p) = test v) :
    countWhere test (Function.update phase p v) = countWhere test phase := by
  unfold countWhere
  rw [filter_update_eq test phase same]

theorem countWhere_update_enter (before : test (phase p) = false) (after : test v = true) :
    countWhere test (Function.update phase p v) = countWhere test phase + 1 := by
  have entered : (Finset.univ.filter fun q => test (Function.update phase p v q) = true) =
      insert p (Finset.univ.filter fun q => test (phase q) = true) := by
    ext q
    by_cases moved : q = p
    · subst q; simp [after]
    · simp [moved]
  have fresh : p ∉ Finset.univ.filter fun q => test (phase q) = true := by simp [before]
  unfold countWhere
  rw [entered, Finset.card_insert_of_notMem fresh]

theorem countWhere_update_leave (before : test (phase p) = true) (after : test v = false) :
    countWhere test (Function.update phase p v) + 1 = countWhere test phase := by
  have left : (Finset.univ.filter fun q => test (Function.update phase p v q) = true) =
      (Finset.univ.filter fun q => test (phase q) = true).erase p := by
    ext q
    by_cases moved : q = p
    · subst q; simp [after]
    · simp [moved]
  have present : p ∈ Finset.univ.filter fun q => test (phase q) = true := by simp [before]
  unfold countWhere
  rw [left, Finset.card_erase_add_one present]

theorem countWhere_update :
    countWhere test (Function.update phase p v) + (if test (phase p) then 1 else 0) =
      countWhere test phase + (if test v then 1 else 0) := by
  cases before : test (phase p) <;> cases after : test v
  case false.false | true.true =>
    rw [countWhere_update_same test phase (before.trans after.symm)]
  case false.true =>
    rw [countWhere_update_enter test phase before after]
    rfl
  case true.false =>
    rw [← countWhere_update_leave test phase before after]
    rfl

omit [DecidableEq P] in
theorem countWhere_eq_one_only (selected : test (phase p) = true)
    (one : countWhere test phase = 1) {q : P} (other : test (phase q) = true) : q = p := by
  unfold countWhere at one
  obtain ⟨r, single⟩ := Finset.card_eq_one.mp one
  have hp : p ∈ ({r} : Finset P) := by rw [← single]; simp [selected]
  have hq : q ∈ ({r} : Finset P) := by rw [← single]; simp [other]
  simp only [Finset.mem_singleton] at hp hq
  rw [hp, hq]

omit [DecidableEq P] in
theorem countWhere_eq_zero (unselected : ∀ p, test (phase p) = false) : countWhere test phase = 0 := by
  unfold countWhere
  simp [unselected]

omit [DecidableEq P] in
theorem countWhere_pos (selected : test (phase p) = true) : 0 < countWhere test phase := by
  unfold countWhere
  apply Finset.card_pos.mpr
  exact ⟨p, by simp [selected]⟩

omit [DecidableEq P] in
theorem countWhere_lt_card (unselected : test (phase p) = false) : countWhere test phase < Fintype.card P := by
  unfold countWhere
  exact Finset.card_lt_univ_of_notMem (x := p) (by simp [unselected])

end Xv6.Lib
