import Mathlib

/-! Tables kept as a list of entries, some free, the others in use under a
key, as a loop from the first entry reads and fills them: a lookup returns
the first entry in use under the key, with its index, and a new entry goes to
the first free one, or after the last. Putting an entry under a key no entry
uses changes what the lookup of that key returns and nothing else. Nothing here
is specific to one program. -/

namespace Xv6.Lib.Entries

variable {β κ : Type} [DecidableEq κ] (free : β → Bool) (key : β → κ)

/-- The first entry in use under `k`, with its index. -/
def lookup : List β → κ → Option (Nat × β)
  | [], _ => none
  | b :: l, k =>
    if free b = false ∧ key b = k then some (0, b)
    else (lookup l k).map fun found => (found.1 + 1, found.2)

/-- The index of the first free entry, or the length when none is free. -/
def slot : List β → Nat
  | [] => 0
  | b :: l => if free b then 0 else slot l + 1

/-- `b` in the first free entry, or after the last. -/
def put : List β → β → List β
  | [], b => [b]
  | b' :: l, b => if free b' then b :: l else b' :: put l b

variable {free key}

theorem slot_le : ∀ l : List β, slot free l ≤ l.length
  | [] => le_refl 0
  | b :: l => by
    unfold slot
    split
    · exact Nat.zero_le _
    · exact Nat.succ_le_succ (slot_le l)

theorem put_eq (l : List β) (b : β) :
    put free l b = if slot free l < l.length then l.set (slot free l) b else l ++ [b] := by
  induction l with
  | nil => rfl
  | cons b' l ih =>
    unfold put slot
    by_cases empty : free b' = true
    · simp [empty]
    · simp only [empty, Bool.false_eq_true, if_false, ih, List.length_cons, Nat.add_lt_add_iff_right]
      split <;> rfl

theorem lookup_put {l : List β} {b : β} (fresh : lookup free key l (key b) = none) (used : free b = false)
    (k : κ) : lookup free key (put free l b) k = if key b = k then some (slot free l, b) else lookup free key l k := by
  induction l with
  | nil => simp [put, lookup, slot, used]
  | cons b' l ih =>
    unfold lookup at fresh
    by_cases empty : free b' = true
    · simp only [put, empty, if_true, lookup, used, true_and, slot, Bool.true_eq_false, false_and, if_false]
    · have other : key b' ≠ key b := fun same => by simp [empty, same] at fresh
      have rest : lookup free key l (key b) = none := by
        simpa [empty, other] using fresh
      simp only [put, empty, Bool.false_eq_true, if_false, lookup, slot, ih rest]
      by_cases here : key b' = k
      · have away : key b ≠ k := fun same => other (here.trans same.symm)
        simp [here, away]
      · simp only [here, and_false, if_false]
        split <;> simp

end Xv6.Lib.Entries
