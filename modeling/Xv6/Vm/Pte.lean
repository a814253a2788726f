import Xv6.Vm.Riscv

/-! The arithmetic of `riscv.h` on the values the kernel builds: page-table
entries `PA2PTE(pa) | flags` with flags below bit 10, virtual addresses below
`MAXVA` and their `PX` indices, and the rounding macros, all as natural
numbers. Physical pages lie below `PHYSTOP < 2^32`, so nothing here wraps. -/

namespace Xv6.Vm

theorem pa2pte_toNat (pa : UInt64) : (pa2pte pa).toNat = pa.toNat / 4096 * 1024 := by
  have lt := pa.toNat_lt
  simp only [pa2pte, UInt64.toNat_shiftLeft, UInt64.toNat_shiftRight, Nat.shiftLeft_eq,
    Nat.shiftRight_eq_div_pow]
  simp
  omega

theorem pte2pa_toNat (pte : UInt64) : (pte2pa pte).toNat = pte.toNat / 1024 * 4096 % 2 ^ 64 := by
  simp only [pte2pa, UInt64.toNat_shiftLeft, UInt64.toNat_shiftRight, Nat.shiftLeft_eq,
    Nat.shiftRight_eq_div_pow]
  simp

theorem pte2pa_aligned (pte : UInt64) : (pte2pa pte).toNat % 4096 = 0 := by
  rw [pte2pa_toNat]
  omega

theorem pteFlags_toNat (pte : UInt64) : (pteFlags pte).toNat = pte.toNat % 1024 := by
  simp only [pteFlags, UInt64.toNat_and]
  exact Nat.and_two_pow_sub_one_eq_mod _ 10

theorem entry_toNat {pa flags : UInt64} (low : flags.toNat < 1024) :
    (pa2pte pa ||| flags).toNat = pa.toNat / 4096 * 1024 + flags.toNat := by
  have split := Nat.two_pow_add_eq_or_of_lt (i := 10) low (pa.toNat / 4096)
  rw [UInt64.toNat_or, pa2pte_toNat, Nat.mul_comm]
  exact split.symm

theorem valid_iff {pte : UInt64} : (pte &&& pteV != 0) = true ↔ pte.toNat % 2 = 1 := by
  have mask : (pte &&& pteV).toNat = pte.toNat % 2 := by
    simp only [UInt64.toNat_and, pteV]
    exact Nat.and_two_pow_sub_one_eq_mod _ 1
  rw [bne_iff_ne, ne_eq, ← UInt64.toNat_inj, mask]
  simp only [UInt64.toNat_zero]
  omega

theorem pte2pa_entry {pa flags : UInt64} (aligned : pa.toNat % 4096 = 0) (low : flags.toNat < 1024) :
    pte2pa (pa2pte pa ||| flags) = pa := by
  apply UInt64.toNat_inj.mp
  have lt := pa.toNat_lt
  rw [pte2pa_toNat, entry_toNat low]
  omega

theorem pteFlags_entry {pa flags : UInt64} (low : flags.toNat < 1024) :
    pteFlags (pa2pte pa ||| flags) = flags := by
  apply UInt64.toNat_inj.mp
  rw [pteFlags_toNat, entry_toNat low]
  omega

theorem entry_valid {pa flags : UInt64} (low : flags.toNat < 1024) (valid : flags.toNat % 2 = 1) :
    ((pa2pte pa ||| flags) &&& pteV != 0) = true := by
  rw [valid_iff, entry_toNat low]
  omega

theorem valid_or_pteV (x : UInt64) : ((x ||| pteV) &&& pteV != 0) = true := by
  rw [valid_iff]
  have low : (x ||| pteV).toNat.testBit 0 = true := by simp [pteV]
  simpa [Nat.testBit_zero] using low

theorem leaf_eq (pa perm : UInt64) : pa2pte pa ||| perm ||| pteV = pa2pte pa ||| (perm ||| pteV) :=
  UInt64.or_assoc _ _ _

theorem or_pteV_toNat {perm : UInt64} (low : perm.toNat < 1024) :
    (perm ||| pteV).toNat < 1024 ∧ (perm ||| pteV).toNat % 2 = 1 := by
  have bit : (perm ||| pteV).toNat = perm.toNat ||| 1 := by simp [pteV]
  refine ⟨?_, valid_iff.mp (valid_or_pteV perm)⟩
  rw [bit]
  exact Nat.or_lt_two_pow (n := 10) low (by decide)

theorem pte2pa_leaf {pa perm : UInt64} (aligned : pa.toNat % 4096 = 0) (low : perm.toNat < 1024) :
    pte2pa (pa2pte pa ||| perm ||| pteV) = pa := by
  rw [leaf_eq, pte2pa_entry aligned (or_pteV_toNat low).1]

theorem pteFlags_leaf {pa perm : UInt64} (low : perm.toNat < 1024) :
    pteFlags (pa2pte pa ||| perm ||| pteV) = perm ||| pteV := by
  rw [leaf_eq, pteFlags_entry (or_pteV_toNat low).1]

theorem or_pteV_of_valid {x : UInt64} (valid : x.toNat % 2 = 1) : x ||| pteV = x := by
  apply UInt64.toNat_inj.mp
  have bit : (x ||| pteV).toNat = x.toNat ||| 1 := by simp [pteV]
  rw [bit]
  apply Nat.eq_of_testBit_eq
  intro i
  rw [Nat.testBit_or]
  cases i with
  | zero => simp [Nat.testBit_zero, valid]
  | succ i => simp [Nat.testBit_succ]

theorem zero_invalid : fillWord 0 &&& pteV = 0 := by decide

theorem px_val (va : UInt64) {level : Nat} (small : level < 3) :
    (px level va).val = va.toNat / 2 ^ (12 + 9 * level) % 512 := by
  obtain rfl | rfl | rfl : level = 0 ∨ level = 1 ∨ level = 2 := by omega
  all_goals simp [px, UInt64.toNat_and, UInt64.toNat_shiftRight, Nat.shiftRight_eq_div_pow]
  all_goals exact Nat.and_two_pow_sub_one_eq_mod _ 9

theorem px_two_lt {va : UInt64} (below : va < maxVa) : (px 2 va).val < 256 := by
  have top : maxVa.toNat = 2 ^ 38 := by decide
  rw [UInt64.lt_iff_toNat_lt, top] at below
  rw [px_val va (by decide : 2 < 3)]
  omega

theorem px_eq_iff {va va' : UInt64} (below : va < maxVa) (below' : va' < maxVa) :
    (px 2 va = px 2 va' ∧ px 1 va = px 1 va' ∧ px 0 va = px 0 va') ↔
      va.toNat / 4096 = va'.toNat / 4096 := by
  have top : maxVa.toNat = 2 ^ 38 := by decide
  rw [UInt64.lt_iff_toNat_lt, top] at below below'
  simp only [Fin.ext_iff, px_val va (by decide : 2 < 3), px_val va (by decide : 1 < 3),
    px_val va (by decide : 0 < 3), px_val va' (by decide : 2 < 3), px_val va' (by decide : 1 < 3),
    px_val va' (by decide : 0 < 3)]
  omega

theorem pgRoundDown_toNat (a : UInt64) : (pgRoundDown a).toNat = a.toNat / 4096 * 4096 := by
  have lt := a.toNat_lt
  simp only [pgRoundDown, UInt64.toNat_and, UInt64.toNat_not, pgSize]
  apply Nat.eq_of_testBit_eq
  intro i
  rw [Nat.testBit_and,
    show UInt64.size - 1 - (4096 - 1 : UInt64).toNat = (2 ^ 52 - 1) * 2 ^ 12 by decide,
    Nat.testBit_mul_two_pow, show 4096 = 2 ^ 12 by rfl, Nat.testBit_mul_two_pow,
    Nat.testBit_two_pow_sub_one, Nat.testBit_div_two_pow]
  by_cases high : 12 ≤ i
  · rw [Nat.sub_add_cancel high]
    by_cases inside : i < 64
    · simp [high]
      omega
    · rw [Nat.testBit_lt_two_pow (Nat.lt_of_lt_of_le lt (Nat.pow_le_pow_right (by decide) (by omega)))]
      simp
  · simp [high]

theorem pgRoundDown_of_aligned {va : UInt64} (aligned : va.toNat % 4096 = 0) : pgRoundDown va = va := by
  apply UInt64.toNat_inj.mp
  rw [pgRoundDown_toNat]
  omega

theorem pgRoundDown_last {va : UInt64} (aligned : va.toNat % 4096 = 0) (below : va < maxVa) :
    pgRoundDown (va + pgSize - 1) = va := by
  apply UInt64.toNat_inj.mp
  have top : maxVa.toNat = 2 ^ 38 := by decide
  rw [UInt64.lt_iff_toNat_lt, top] at below
  rw [pgRoundDown_toNat]
  simp [pgSize, UInt64.toNat_sub, UInt64.toNat_add]
  omega

theorem add_pgSize_toNat {a : UInt64} (fits : a.toNat + 4096 < 2 ^ 64) :
    (a + pgSize).toNat = a.toNat + 4096 := by
  simp only [pgSize, UInt64.toNat_add]
  simp
  omega

theorem pgRoundUp_toNat {sz : UInt64} (small : sz.toNat < 2 ^ 63) :
    (pgRoundUp sz).toNat = (sz.toNat + 4095) / 4096 * 4096 := by
  have sum : (sz + pgSize - 1).toNat = sz.toNat + 4095 := by
    simp only [pgSize, UInt64.toNat_sub, UInt64.toNat_add]
    simp
    omega
  rw [pgRoundUp, ← pgRoundDown, pgRoundDown_toNat, sum]

end Xv6.Vm
