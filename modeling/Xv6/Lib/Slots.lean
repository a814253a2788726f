import Mathlib

/-! Tables of numbered slots, each empty or holding a value, filled the way a
`for` loop from slot `0` fills them: a new value goes to the first empty slot.
Which slot that is, and what emptying a slot and filling it again does, are
what this module proves. Nothing here is specific to one program. -/

namespace Xv6.Lib

variable {α : Type} {n : Nat}

/-- The first empty slot of `slots`, as a loop from slot `0` finds it. -/
def firstFree (slots : Fin n → Option α) : Option (Fin n) :=
  (List.finRange n).find? fun i => (slots i).isNone

/-- `a` in the first empty slot, with the slot it went to; none when every
slot is full. -/
def place (slots : Fin n → Option α) (a : α) : Option (Fin n × (Fin n → Option α)) :=
  (firstFree slots).map fun i => (i, Function.update slots i (some a))

variable {slots : Fin n → Option α} {i j : Fin n} {a b : α}

theorem firstFree_eq_some : firstFree slots = some i ↔ slots i = none ∧ ∀ j, j < i → slots j ≠ none := by
  unfold firstFree
  rw [List.find?_eq_some_iff_getElem]
  constructor
  · rintro ⟨free, k, bound, found, before⟩
    have index : k = i.val := by
      rw [← found]
      simp
    refine ⟨Option.isNone_iff_eq_none.mp free, fun j below => ?_⟩
    have full := before j.val (by rw [index]; exact below)
    simpa [← Option.isSome_iff_ne_none] using full
  · rintro ⟨free, before⟩
    refine ⟨Option.isNone_iff_eq_none.mpr free, i.val, by simp, by simp, fun k below => ?_⟩
    have full := before ⟨k, by omega⟩ below
    simpa [Option.isSome_iff_ne_none] using full

theorem firstFree_eq_none : firstFree slots = none ↔ ∀ i, slots i ≠ none := by
  unfold firstFree
  simp [Option.isNone_iff_eq_none, List.mem_finRange]

theorem place_of_first (free : slots i = none) (full : ∀ j, j < i → slots j ≠ none) :
    place slots a = some (i, Function.update slots i (some a)) := by
  rw [place, firstFree_eq_some.mpr ⟨free, full⟩]
  rfl

theorem place_eq_some {slots' : Fin n → Option α} (placed : place slots a = some (i, slots')) :
    slots i = none ∧ (∀ j, j < i → slots j ≠ none) ∧ slots' = Function.update slots i (some a) := by
  unfold place at placed
  cases found : firstFree slots with
  | none =>
    rw [found] at placed
    cases placed
  | some k =>
    rw [found] at placed
    simp only [Option.map_some, Option.some.injEq, Prod.mk.injEq] at placed
    obtain ⟨rfl, rfl⟩ := placed
    exact ⟨(firstFree_eq_some.mp found).1, (firstFree_eq_some.mp found).2, rfl⟩

theorem place_update_none (full : ∀ j, j < i → slots j ≠ none) :
    place (Function.update slots i none) a = some (i, Function.update slots i (some a)) := by
  rw [place_of_first (Function.update_self i none slots) fun j below => ?_, Function.update_idem]
  rw [Function.update_of_ne (ne_of_lt below)]
  exact full j below

theorem place_eq_none : place slots a = none ↔ ∀ i, slots i ≠ none := by
  rw [place, Option.map_eq_none_iff, firstFree_eq_none]

end Xv6.Lib
