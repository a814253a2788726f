import Xv6.Vm.Grow
import Xv6.Vm.Proc

/-! `growproc` and `sys_sbrk` on a process whose user memory is well formed:
its page table maps the pages below `sz`, and nothing from there up to 2^32,
the most a 32-bit `sz` reaches. Growing never panics; when it fails, the
process table is as it was and the process sees the memory it saw. -/

namespace Xv6.Vm

namespace Kmem

variable {k k' : Kmem} {root sz a0 : UInt64}

/-- The process with the page table at `root` sees in `k'` the memory it saw
in `k`: the same mappings, to pages with the same contents. -/
structure Sees (k k' : Kmem) (root : UInt64) : Prop where
  translate : k'.translate root = k.translate root
  contents : ∀ va e, k.translate root va = some e → k'.mem (pte2pa e) = k.mem (pte2pa e)

/-- The user memory of a process as `exec`, `fork` and `sbrk` leave it: the
page table at `root` maps each page below `sz` by a leaf entry to a page of
its own, maps nothing from `PGROUNDUP(sz)` up to 2^32, and maps no page that
is free or a page of the table. -/
structure UserMem (k : Kmem) (root sz : UInt64) : Prop where
  space : k.Space root
  small : sz.toNat < 2 ^ 32
  user : k.Unmappable root 0 ((sz.toNat + 4095) / 4096) true
  above : ∀ va, (sz.toNat + 4095) / 4096 * 4096 ≤ va.toNat → va.toNat < 2 ^ 32 →
    k.translate root va = none
  apart : ∀ va e, k.translate root va = some e → pte2pa e ∉ k.freelist ∧ ¬ k.IsTable root (pte2pa e)

theorem Sees.refl : k.Sees k root := ⟨rfl, fun _ _ _ => rfl⟩

theorem Draws.sees (draws : k.Draws k' root) (same : k'.translate root = k.translate root)
    (apart : ∀ va e, k.translate root va = some e → pte2pa e ∉ k.freelist ∧ ¬ k.IsTable root (pte2pa e)) :
    k.Sees k' root :=
  ⟨same, fun va e found => draws.frame _ (apart va e found).2 (apart va e found).1⟩

theorem Allocating.translate_zero {k0 : Kmem} {shape : UInt64 → UInt64 → Prop}
    (inv : Allocating k0 k root a0 0 shape) :
    k.translate root = k0.translate root :=
  funext fun va => inv.outside va inPages_zero

theorem UserMem.uvmalloc (mem : k.UserMem root sz) (newsz : UInt64) (small : newsz.toNat < 2 ^ 32) :
    ∃ r k', uvmalloc k root sz newsz = .ok (r, k') ∧ k'.Space root ∧ k.Draws k' root ∧
      (newsz < sz ∧ r = sz ∧ k' = k ∨
        r = 0 ∧ k'.translate root = k.translate root ∨
        r = newsz ∧ sz ≤ newsz ∧
          Allocating k k' root (pgRoundUp sz) ((newsz.toNat - (pgRoundUp sz).toNat + 4095) / 4096) userShape) := by
  have low := mem.small
  have round := pgRoundUp_toNat (show sz.toNat < 2 ^ 63 by omega)
  have few := mem.space.free.length_le
  refine mem.space.uvmalloc_spec (by omega) (by omega) fun va inside => ?_
  obtain ⟨first, last⟩ := inside
  rw [round] at first last
  exact mem.above va first (by omega)

end Kmem

namespace Kernel

open Kmem

variable {s : Kernel} {p : Fin nproc} {n : Int32}

theorem toUInt32_toUInt64 {x : UInt64} (small : x.toNat < 2 ^ 32) : x.toUInt32.toUInt64 = x := by
  apply UInt64.toNat_inj.mp
  simp
  omega

theorem eq_max_of_toInt32 {x : UInt32} (minus : x.toInt32.toInt = -1) : x = 4294967295 := by
  have same : x.toInt32 = -1 := Int32.toInt_inj.mp (minus.trans (by decide))
  have back := congrArg Int32.toUInt32 same
  rw [UInt32.toUInt32_toInt32] at back
  rw [back]
  decide

theorem toInt_toInt32_of_lt {x : UInt32} (low : x.toNat < 2 ^ 31) : x.toInt32.toInt = x.toNat := by
  rw [← Int32.toInt_toBitVec, UInt32.toBitVec_toInt32, BitVec.toInt_eq_toNat_cond]
  simp
  omega

theorem toNat_toUInt32_of_neg {n : Int32} (neg : n.toInt < 0) : (n.toUInt32.toNat : Int) = n.toInt + 2 ^ 32 := by
  rw [← Int32.toNat_toBitVec, ← Int32.toInt_toBitVec, BitVec.toInt_eq_toNat_cond] at *
  split at neg <;> simp_all <;> omega

theorem setProc_same (s : Kernel) (p : Fin nproc) : (s.setProc p (s.proc p)).proc = s.proc :=
  Function.update_eq_self _ _

theorem growproc_grow {r : UInt64} {k' : Kmem} (positive : n > 0) (small : (s.proc p).sz.toNat < 2 ^ 32)
    (run : uvmalloc s.kmem (s.proc p).pagetable (s.proc p).sz
      ((s.proc p).sz.toUInt32 + n.toUInt32).toUInt64 = .ok (r, k')) :
    s.growproc p n = .ok (if r.toUInt32 == 0 then (-1, { s with kmem := k' })
      else (0, { s.setProc p { s.proc p with sz := r.toUInt32.toUInt64 } with kmem := k' })) := by
  unfold growproc
  simp only [if_pos positive, toUInt32_toUInt64 small, run, ok_bind]
  split <;> rfl

theorem growproc_wrap (negative : n < 0) (small : (s.proc p).sz.toNat < 2 ^ 32)
    (above : (s.proc p).sz ≤ ((s.proc p).sz.toUInt32 + n.toUInt32).toUInt64) :
    s.growproc p n = .ok (0, s) := by
  have notPositive : ¬ n > 0 := Int32.not_lt.mpr (Int32.le_of_lt negative)
  unfold growproc uvmdealloc
  simp only [if_neg notPositive, if_pos negative, toUInt32_toUInt64 small, ge_iff_le, if_pos above, ok_bind]
  simp only [setProc, Function.update_eq_self]
  rfl

theorem sysSbrk_past_zero (low : (s.proc p).sz.toNat < 2 ^ 31) (below : (s.proc p).sz.toNat + n.toInt < 0) :
    s.sysSbrk p n = .ok ((s.proc p).sz.toNat, s) := by
  have small : (s.proc p).sz.toNat < 2 ^ 32 := by omega
  have negative : n < 0 := Int32.lt_iff_toInt_lt.mpr (by simp; omega)
  have wrapped := toNat_toUInt32_of_neg (show n.toInt < 0 by omega)
  have above : (s.proc p).sz ≤ ((s.proc p).sz.toUInt32 + n.toUInt32).toUInt64 := by
    rw [UInt64.le_iff_toNat_le]
    simp
    omega
  unfold sysSbrk
  rw [growproc_wrap negative small above]
  simp only [ok_bind, Int.lt_irrefl, if_false,
    toInt_toInt32_of_lt (show (s.proc p).sz.toUInt32.toNat < 2 ^ 31 by simp; omega)]
  simp
  omega

/-- The parent of `runningParent 9` has 8192 bytes; `sbrk(-12288)` returns
8192 and changes nothing. -/
theorem sysSbrk_past_zero_parent :
    ((runningParent 9).proc ⟨0, by decide⟩).sz.toNat < 2 ^ 31 ∧
      ((runningParent 9).proc ⟨0, by decide⟩).sz.toNat + (-12288 : Int32).toInt < 0 ∧
      (runningParent 9).sysSbrk ⟨0, by decide⟩ (-12288) =
        .ok (((runningParent 9).proc ⟨0, by decide⟩).sz.toNat, runningParent 9) :=
  have sz : ((runningParent 9).proc ⟨0, by decide⟩).sz = 8192 := by rfl
  have low : ((runningParent 9).proc ⟨0, by decide⟩).sz.toNat < 2 ^ 31 := by rw [sz]; decide
  have below : ((runningParent 9).proc ⟨0, by decide⟩).sz.toNat + (-12288 : Int32).toInt < 0 := by
    rw [sz]; decide
  ⟨low, below, sysSbrk_past_zero low below⟩

end Kernel

end Xv6.Vm
