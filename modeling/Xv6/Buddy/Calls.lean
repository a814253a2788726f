import Mathlib
import Xv6.Buddy.Tree

/-! `bd_malloc` and `bd_free` as whole calls, from the passes of `Tree`: the
split loop hands out the lower half at each size down to the one asked for, the
merge loop joins the block being freed with its buddy while the buddy is free,
and `size` finds the size a block was handed out at. Each call keeps `Wf` and
changes the blocks handed out whole by exactly one. -/


namespace Xv6.Buddy

open Lib.Dyadic

namespace Bd

variable {s : Bd} {n : UInt64} {fk k j c p fuel : Nat} {rest : List Nat}

/-! ### The loops one pass at a time -/

theorem addr_mk (s : Bd) (free : Nat → List Nat) (alloc split : Nat → Nat → Bool) :
    (Bd.mk s.nsizes s.base free alloc split).addr = s.addr := rfl

theorem blkIndex_mk (s : Bd) (free : Nat → List Nat) (alloc split : Nat → Nat → Bool) :
    (Bd.mk s.nsizes s.base free alloc split).blkIndex = s.blkIndex := rfl

theorem remove_blkIndex (s : Bd) (k q : Nat) : (s.remove k q).blkIndex = s.blkIndex := rfl

theorem ite_eq_sibling (c : Nat) : (if c % 2 = 0 then c + 1 else c - 1) = sibling c := rfl

theorem addr_down (s : Bd) (le : j ≤ k) (c : Nat) : s.addr k c = s.addr j (c * 2 ^ (k - j)) := by
  unfold addr
  rw [Nat.mul_assoc, Nat.mul_comm (2 ^ _), blkSize_mul_pow le]

theorem splitDown_zero : splitDown fk p 0 s = s := rfl

theorem splitDown_stop (done : ¬ fk < k + 1) : splitDown fk p (k + 1) s = s := by
  simp only [Bd.splitDown, if_neg done]

theorem splitDown_pass (lt : fk < k + 1) :
    splitDown fk (s.addr (k + 1) c) (k + 1) s =
      splitDown fk (s.addr (k + 1) c) k { s with
        split := setBit s.split (k + 1) c true
        alloc := setBit s.alloc k (2 * c) true
        free := Function.update s.free k (s.addr k (2 * c + 1) :: s.free k) } := by
  have lower : s.blkIndex k (s.addr (k + 1) c) = 2 * c := by
    rw [addr_succ, blkIndex_addr]
  have upper : s.addr (k + 1) c + blkSize k = s.addr k (2 * c + 1) := by
    rw [addr_succ, addr_double_add_one]
  simp only [Bd.splitDown, if_pos lt, blkIndex_addr, lower, upper]
  rfl

theorem mergeUp_top (top : ¬ k < s.maxsize) : Bd.mergeUp (fuel + 1) s k p = (s, k, p) := by
  simp only [Bd.mergeUp, if_neg top]

theorem mergeUp_buddy_alloc (below : k < s.maxsize) (buddy : s.alloc k (sibling c) = true) :
    Bd.mergeUp (fuel + 1) s k (s.addr k c) = ({ s with alloc := setBit s.alloc k c false }, k, s.addr k c) := by
  have kept : setBit s.alloc k c false k (sibling c) = true := by
    rw [setBit_apply, if_neg (fun same => sibling_ne c same.2), buddy]
  simp only [Bd.mergeUp, if_pos below, blkIndex_addr, ite_eq_sibling, kept, if_true]

theorem mergeUp_buddy_free (below : k < s.maxsize) (buddy : s.alloc k (sibling c) = false) :
    Bd.mergeUp (fuel + 1) s k (s.addr k c) =
      Bd.mergeUp fuel { s with
        alloc := setBit s.alloc k c false
        free := Function.update s.free k ((s.free k).erase (s.addr k (sibling c)))
        split := setBit s.split (k + 1) (c / 2) false } (k + 1) (s.addr (k + 1) (c / 2)) := by
  have kept : setBit s.alloc k c false k (sibling c) = false := by
    rw [setBit_apply, if_neg (fun same => sibling_ne c same.2), buddy]
  have lower : (if sibling c % 2 = 0 then s.addr k (sibling c) else s.addr k c) = s.addr (k + 1) (c / 2) := by
    rw [← apply_ite, lower_of_sibling, addr_succ]
  simp only [Bd.mergeUp, if_pos below, blkIndex_addr, ite_eq_sibling, kept, addr_mk, lower,
    Bool.false_eq_true, if_false, remove_blkIndex, blkIndex_mk]
  rfl

/-! ### The split loop and `bd_malloc` -/

theorem Wf.splitDown (wf : s.Wf) (leaf : s.AllocLeaf k c) (le : fk ≤ k) :
    SameHeap s (splitDown fk (s.addr k c) k s) ∧ (splitDown fk (s.addr k c) k s).Wf ∧
      ∀ j x, (splitDown fk (s.addr k c) k s).AllocLeaf j x ↔
        (s.AllocLeaf j x ∧ ¬ (j = k ∧ x = c)) ∨ (j = fk ∧ x = c * 2 ^ (k - fk)) := by
  induction k generalizing s c with
  | zero =>
    obtain rfl : fk = 0 := by omega
    rw [splitDown_zero]
    exact ⟨.refl s, wf, fun j x => by simpa using leaf.iff_self j x⟩
  | succ k ih =>
    by_cases lt : fk < k + 1
    · rw [splitDown_pass lt]
      obtain ⟨wfT, leavesT⟩ := wf.splitPass leaf (t := { s with
        split := setBit s.split (k + 1) c true
        alloc := setBit s.alloc k (2 * c) true
        free := Function.update s.free k (s.addr k (2 * c + 1) :: s.free k) }) ⟨rfl, rfl⟩ rfl rfl rfl
      have leafT := (leavesT k (2 * c)).mpr (.inr ⟨rfl, rfl⟩)
      obtain ⟨heapF, wfF, leavesF⟩ := ih wfT leafT (by omega)
      simp only [addr_mk, ← addr_succ] at heapF wfF leavesF
      have lowerOut : ¬ s.AllocLeaf k (2 * c) := fun lower =>
        not_present_below leaf.unsplit (Nat.lt_add_one k) leaf.present.le (by simp) lower.present
      have pow : 2 * c * 2 ^ (k - fk) = c * 2 ^ (k + 1 - fk) := by
        rw [show k + 1 - fk = k - fk + 1 by omega, pow_succ]
        ring
      refine ⟨⟨heapF.nsizes, heapF.base⟩, wfF, fun j x => ?_⟩
      rw [leavesF, leavesT, pow]
      constructor
      · rintro (⟨kept | lower, other⟩ | new)
        · exact .inl kept
        · exact absurd lower other
        · exact .inr new
      · rintro (kept | new)
        · refine .inl ⟨.inl kept, ?_⟩
          rintro ⟨level, same⟩
          subst level same
          exact lowerOut kept.1
        · exact .inr new
    · obtain rfl : fk = k + 1 := by omega
      rw [splitDown_stop lt]
      exact ⟨.refl s, wf, fun j x => by simpa using leaf.iff_self j x⟩

theorem firstFree_some (found : s.firstFree fk = some (k, p, rest)) :
    fk ≤ k ∧ k < s.nsizes ∧ s.free k = p :: rest := by
  obtain ⟨j, mem, pick⟩ := List.exists_of_findSome?_eq_some found
  rw [List.mem_range'_1] at mem
  cases head : s.free j with
  | nil => simp [head] at pick
  | cons q more =>
    simp only [head, Option.some.injEq, Prod.mk.injEq] at pick
    obtain ⟨rfl, rfl, rfl⟩ := pick
    exact ⟨mem.1, by omega, head⟩

theorem firstFree_none (empty : s.firstFree fk = none) (le : fk ≤ k) (below : k < s.nsizes) :
    s.free k = [] := by
  have none := List.findSome?_eq_none_iff.mp empty k (List.mem_range'_1.mpr ⟨le, by omega⟩)
  cases head : s.free k with
  | nil => rfl
  | cons q more => simp [head] at none

theorem firstk_fits (fits : firstk n = some k) : n.toNat ≤ blkSize k := by
  by_cases small : n.toNat ≤ 2 ^ 63
  · obtain ⟨k', fits', holds, -⟩ := firstk_eq_some small
    rw [fits] at fits'
    cases fits'
    exact holds
  · have loops : firstkLoop n 61 16 0 = none := firstkLoop_pow_none (by omega) 60 4 rfl 61 0
    rw [firstk, loops] at fits
    cases fits

theorem bdMalloc_firstk {r : Nat × Bd} (call : s.bdMalloc n = some r) : ∃ fk, firstk n = some fk := by
  cases fits : firstk n with
  | none => simp [Bd.bdMalloc, fits] at call
  | some fk => exact ⟨fk, rfl⟩

theorem firstFree_of_empty (empty : ∀ k, fk ≤ k → k < s.nsizes → s.free k = []) : s.firstFree fk = none := by
  refine List.findSome?_eq_none_iff.mpr fun k mem => ?_
  obtain ⟨le, below⟩ := List.mem_range'_1.mp mem
  rw [empty k le (by omega)]

theorem Wf.bdMalloc (wf : s.Wf) (fits : firstk n = some fk) :
    (s.bdMalloc n = some (0, s) ∧ ∀ k, fk ≤ k → k < s.nsizes → s.free k = []) ∨
      ∃ c t, s.bdMalloc n = some (s.addr fk c, t) ∧ SameHeap s t ∧ t.Wf ∧ ¬ s.AllocLeaf fk c ∧
        ∀ j x, t.AllocLeaf j x ↔ s.AllocLeaf j x ∨ (j = fk ∧ x = c) := by
  cases found : s.firstFree fk with
  | none =>
    refine .inl ⟨?_, fun k le below => firstFree_none found le below⟩
    simp [Bd.bdMalloc, fits, found]
  | some pick =>
    obtain ⟨k, p, rest⟩ := pick
    obtain ⟨le, -, head⟩ := firstFree_some found
    obtain ⟨c, rfl, fresh, wfT, leavesT⟩ := wf.pop head (t := { s with
      free := Function.update s.free k rest
      alloc := setBit s.alloc k (s.blkIndex k p) true }) ⟨rfl, rfl⟩ rfl rfl rfl
    have leafT := (leavesT k c).mpr (.inr ⟨rfl, rfl⟩)
    obtain ⟨present, unsplit, -⟩ := wf.mem_free (k := k) (c := c) (by simp [head])
    obtain ⟨heapF, wfF, leavesF⟩ := wfT.splitDown leafT le
    simp only [addr_mk] at heapF wfF leavesF
    refine .inr ⟨c * 2 ^ (k - fk), _, ?_, ⟨heapF.nsizes, heapF.base⟩, wfF, ?_, fun j x => ?_⟩
    · simp [Bd.bdMalloc, fits, found, ← addr_down s le]
    · rcases Nat.lt_or_ge fk k with lower | same
      · exact fun leaf => not_present_below unsplit lower present.le (by simp) leaf.present
      · obtain rfl : fk = k := by omega
        simpa using fresh
    · rw [leavesF, leavesT]
      constructor
      · rintro (⟨kept | popped, other⟩ | new)
        · exact .inl kept
        · exact absurd popped other
        · exact .inr new
      · rintro (kept | new)
        · exact .inl ⟨.inl kept, fun taken => fresh (taken.1 ▸ taken.2 ▸ kept)⟩
        · exact .inr new

/-! ### `size` and `bd_free` -/

theorem Wf.size_addr (wf : s.Wf) (present : s.Present k c) (unsplit : s.split k c = false)
    (below : k < s.maxsize) : s.size (s.addr k c) = k := by
  have found : (List.range s.nsizes).find? (fun j => s.split (j + 1) (s.blkIndex (j + 1) (s.addr k c))) = some k := by
    rw [List.find?_range_eq_some]
    refine ⟨?_, List.mem_range.mpr (by unfold maxsize at below; omega), fun j lower => ?_⟩
    · rw [s.blkIndex_addr_up (Nat.le_add_right k 1), Nat.add_sub_cancel_left, up_one]
      exact (present.parent below).2
    · rw [s.blkIndex_addr_down (by omega : j + 1 ≤ k)]
      rcases Nat.lt_or_ge (j + 1) k with inside | same
      · have out := not_present_below unsplit inside present.le (up_mul_pow c (k - (j + 1)))
        simp [(wf.absent out).1]
      · obtain rfl : k = j + 1 := by omega
        simp [unsplit]
  unfold Bd.size
  rw [found]
  rfl

theorem Wf.mergeUp (wf : s.Wf) (leaf : s.AllocLeaf k c) (bound : s.maxsize - k < fuel) :
    let r := Bd.mergeUp fuel s k (s.addr k c)
    SameHeap s (r.1.push r.2.1 r.2.2) ∧ (r.1.push r.2.1 r.2.2).Wf ∧
      ∀ j x, (r.1.push r.2.1 r.2.2).AllocLeaf j x ↔ s.AllocLeaf j x ∧ ¬ (j = k ∧ x = c) := by
  induction fuel generalizing s k c with
  | zero => omega
  | succ fuel ih =>
    by_cases below : k < s.maxsize
    · cases buddy : s.alloc k (sibling c) with
      | true =>
        rw [mergeUp_buddy_alloc below buddy]
        refine ⟨⟨rfl, rfl⟩, wf.freeLeaf leaf (fun _ => buddy) ⟨rfl, rfl⟩ rfl (fun j x => ?_) rfl⟩
        simp only [push, setBit_apply, below, and_true]
      | false =>
        rw [mergeUp_buddy_free below buddy]
        obtain ⟨wfT, leavesT⟩ := wf.mergePass leaf below buddy (t := { s with
          alloc := setBit s.alloc k c false
          free := Function.update s.free k ((s.free k).erase (s.addr k (sibling c)))
          split := setBit s.split (k + 1) (c / 2) false }) ⟨rfl, rfl⟩ rfl rfl rfl
        have leafT := (leavesT (k + 1) (c / 2)).mpr (.inr ⟨rfl, rfl⟩)
        obtain ⟨heapF, wfF, leavesF⟩ := ih wfT leafT (show s.maxsize - (k + 1) < fuel by omega)
        simp only [addr_mk] at heapF wfF leavesF
        have parentOut : ¬ s.AllocLeaf (k + 1) (c / 2) := fun parent => by
          have unsplit := parent.unsplit
          rw [(leaf.present.parent below).2] at unsplit
          cases unsplit
        refine ⟨⟨heapF.nsizes, heapF.base⟩, wfF, fun j x => ?_⟩
        rw [leavesF, leavesT]
        constructor
        · rintro ⟨kept | joined, other⟩
          · exact kept
          · exact absurd joined other
        · rintro ⟨kept, other⟩
          exact ⟨.inl ⟨kept, other⟩, fun taken => parentOut (taken.1 ▸ taken.2 ▸ kept)⟩
    · rw [mergeUp_top below]
      exact ⟨⟨rfl, rfl⟩, wf.freeLeaf leaf (fun below' => absurd below' below) ⟨rfl, rfl⟩ rfl
        (fun j x => by rw [if_neg (fun h => below h.2.2)]; rfl) rfl⟩

theorem Wf.bdFree (wf : s.Wf) (leaf : s.AllocLeaf k c) (below : k < s.maxsize) :
    SameHeap s (s.bdFree (s.addr k c)) ∧ (s.bdFree (s.addr k c)).Wf ∧
      ∀ j x, (s.bdFree (s.addr k c)).AllocLeaf j x ↔ s.AllocLeaf j x ∧ ¬ (j = k ∧ x = c) := by
  have sized := wf.size_addr leaf.present leaf.unsplit below
  have bound : s.maxsize - k < s.nsizes := by
    have := wf.sizes
    unfold maxsize
    omega
  unfold Bd.bdFree
  rw [sized]
  exact wf.mergeUp leaf bound

end Bd

end Xv6.Buddy
