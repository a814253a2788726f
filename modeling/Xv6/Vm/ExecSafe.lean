import Xv6.Vm.Exec

/-! `exec` never panics once `proc_pagetable` has the three pages it needs, and
when it fails the caller is as it was. While `exec` builds the new image, the
new table and the pages it maps were all free when `exec` began (`Image`), so
`bad:` can take it apart and the pages of the caller are never written. The
commit takes the caller's old image apart, which its table allows
(`Discardable`). -/

namespace Xv6.Vm

namespace Kmem

variable {k0 k k' k₁ : Kmem} {root sz trampolinePa tf : UInt64}

/-- The new page table of `exec` as `bad:` needs it when `sz` is `0`: its pages
were free in `k0`, the rest of memory is as it was, and it maps the trampoline
and the trapframe as `proc_pagetable` does. -/
structure Shell (k0 k : Kmem) (root trampolinePa tf : UInt64) : Prop where
  space : k.Space root
  uses : k0.Uses k
  tables : ∀ x, k.IsTable root x → x ∈ k0.freelist
  top : ∀ va, trapframe ≤ va → k.translate root va = procMap trampolinePa tf va

/-- The new image of `exec` with `sz` bytes of user memory: the pages below
`sz` are mapped by entries of their own to pages that were free in `k0`,
nothing else is mapped below the trapframe, and there are no more of them than
pages `k0` had free. -/
structure Image (k0 k : Kmem) (root sz trampolinePa tf : UInt64) : Prop
    extends Shell k0 k root trampolinePa tf where
  user : k.Unmappable root 0 ((sz.toNat + 4095) / 4096) true
  fresh : ∀ va e, InPages 0 ((sz.toNat + 4095) / 4096) va → k.translate root va = some e →
    pte2pa e ∈ k0.freelist
  only : ∀ va, (sz.toNat + 4095) / 4096 * 4096 ≤ va.toNat → va < trapframe → k.translate root va = none
  budget : (sz.toNat + 4095) / 4096 + k.freelist.length ≤ k0.freelist.length

theorem Shell.release (shell : Shell k0 k root trampolinePa tf) :
    ∃ k', procFreepagetable k root 0 = .ok k' ∧ k0.Uses k' := by
  obtain ⟨k₁, k₂, first, second, -, draws, -⟩ := shell.space.unmapTop shell.top
  exact ⟨k₂, by simp [procFreepagetable, first, second], shell.uses.draws draws shell.tables⟩

theorem Image.discardable (free : k0.FreeList) (image : Image k0 k root sz trampolinePa tf) :
    k.Discardable root sz trampolinePa tf where
  space := image.space
  top := image.top
  below := by
    have few := free.length_le
    have budget := image.budget
    rw [trapframe_toNat]
    omega
  user := image.user
  only := image.only
  freeable x table := (free.freeable x (image.tables x table)).congr image.uses.kernelEnd

theorem Image.release (free : k0.FreeList) (image : Image k0 k root sz trampolinePa tf) :
    ∃ k', procFreepagetable k root sz = .ok k' ∧ k0.Uses k' := by
  obtain ⟨k', run, releases⟩ := (image.discardable free).release
  refine ⟨k', run, image.uses.releases releases image.tables fun x user => ?_⟩
  obtain ⟨va, e, inside, found, rfl⟩ := user
  exact image.fresh va e inside found

/-- `exec` before the stack: every page of the image is mapped as `uvmalloc`
maps it, so `loadseg` finds each one with `walkaddr`. -/
structure Loading (k0 k : Kmem) (root sz trampolinePa tf : UInt64) : Prop
    extends Image k0 k root sz trampolinePa tf where
  shaped : ∀ va e, InPages 0 ((sz.toNat + 4095) / 4096) va → k.translate root va = some e → userShape va e

theorem Image.pages_le (free : k0.FreeList) (image : Image k0 k root sz trampolinePa tf) :
    (sz.toNat + 4095) / 4096 ≤ 2 ^ 20 := by
  have few := free.length_le
  have budget := image.budget
  omega

theorem Shell.draws (shell : Shell k0 k root trampolinePa tf) (draws : k.Draws k' root) (space : k'.Space root)
    (same : k'.translate root = k.translate root) : Shell k0 k' root trampolinePa tf where
  space := space
  uses := shell.uses.draws draws shell.tables
  tables := draws.tables_free shell.uses shell.tables
  top va above := by rw [same]; exact shell.top va above

theorem Unmappable.congr {a : UInt64} {n : Nat} {doFree : Bool} (pre : k.Unmappable root a n doFree)
    (same : k'.translate root = k.translate root) (tables : k'.IsTable root = k.IsTable root)
    (list : k'.freelist = k.freelist) (sameEnd : k'.kernelEnd = k.kernelEnd) :
    k'.Unmappable root a n doFree where
  mapped va inside := same ▸ pre.mapped va inside
  owned freeing va e inside found := by
    rw [same] at found
    obtain ⟨freeable, notFree, notTable⟩ := pre.owned freeing va e inside found
    exact ⟨freeable.congr sameEnd, list ▸ notFree, tables ▸ notTable⟩
  distinct freeing va va' e e' inside inside' found found' := by
    rw [same] at found found'
    exact pre.distinct freeing va va' e e' inside inside' found found'

theorem Unmappable.grow {a0 : UInt64} {n i : Nat} {shape : UInt64 → UInt64 → Prop}
    (pre : k0.Unmappable root 0 n true) (inv : Allocating k0 k root a0 i shape) (start : a0.toNat = n * 4096) :
    k.Unmappable root 0 (n + i) true := by
  have split (va) (inside : InPages 0 (n + i) va) : InPages 0 n va ∨ InPages a0 i va := by
    simp only [InPages, UInt64.toNat_zero] at inside ⊢
    omega
  have old (va) (low : InPages 0 n va) : k.translate root va = k0.translate root va :=
    inv.outside va (by simp only [InPages, UInt64.toNat_zero] at low ⊢; omega)
  refine ⟨fun va inside => ?_, fun _ va e inside found => ?_,
    fun _ va va' e e' inside inside' found found' same => ?_⟩
  · rcases split va inside with low | high
    · rw [old va low]
      exact pre.mapped va low
    · exact inv.mapped.mapped va high
  · rcases split va inside with low | high
    · rw [old va low] at found
      exact (pre.owned rfl va e low found).draws inv.draws
    · exact inv.mapped.owned rfl va e high found
  · rcases split va inside with low | high <;> rcases split va' inside' with low' | high'
    · rw [old va low] at found
      rw [old va' low'] at found'
      exact pre.distinct rfl va va' e e' low low' found found' same
    · rw [old va low] at found
      have fresh := inv.fresh va' e' high' found'
      rw [← same] at fresh
      exact absurd fresh (pre.owned rfl va e low found).2.1
    · rw [old va' low'] at found'
      have fresh := inv.fresh va e high found
      rw [same] at fresh
      exact absurd fresh (pre.owned rfl va' e' low' found').2.1
    · exact inv.mapped.distinct rfl va va' e e' high high' found found' same

section Grow

variable {newsz : UInt64} {shape : UInt64 → UInt64 → Prop} (free : k0.FreeList)
  (image : Image k0 k root sz trampolinePa tf) (larger : sz ≤ newsz)
  (inv : Allocating k k' root (pgRoundUp sz) ((newsz.toNat - (pgRoundUp sz).toNat + 4095) / 4096) shape)
include free image larger inv

theorem Image.grow_pages :
    (newsz.toNat + 4095) / 4096 = (sz.toNat + 4095) / 4096 + (newsz.toNat - (pgRoundUp sz).toNat + 4095) / 4096 ∧
      ((sz.toNat + 4095) / 4096 + (newsz.toNat - (pgRoundUp sz).toNat + 4095) / 4096) * 4096 ≤ 2 ^ 32 ∧
      (pgRoundUp sz).toNat = (sz.toNat + 4095) / 4096 * 4096 := by
  have pages := image.pages_le free
  have few := free.length_le
  have round := pgRoundUp_toNat (show sz.toNat < 2 ^ 63 by omega)
  have budget := image.budget
  have added := inv.budget
  have le := UInt64.le_iff_toNat_le.mp larger
  rw [round] at added ⊢
  exact ⟨by omega, by omega, rfl⟩

theorem Image.grow : Image k0 k' root newsz trampolinePa tf := by
  obtain ⟨-, below, round⟩ := image.grow_pages free larger inv
  have budget := image.budget
  have added := inv.budget
  have old (va) (away : ((sz.toNat + 4095) / 4096 + (newsz.toNat - (pgRoundUp sz).toNat + 4095) / 4096) * 4096 ≤
      va.toNat) : k'.translate root va = k.translate root va :=
    inv.outside va fun ⟨_, last⟩ => by rw [round] at last; omega
  refine ⟨⟨inv.space, image.uses.draws inv.draws image.tables, inv.draws.tables_free image.uses image.tables,
    fun va above => ?_⟩, ?_, fun va e inside found => ?_, fun va above below' => ?_, ?_⟩
  · have high := UInt64.le_iff_toNat_le.mp above
    rw [trapframe_toNat] at high
    rw [old va (Nat.le_trans below (Nat.le_trans (by decide) high))]
    exact image.top va above
  · rw [(image.grow_pages free larger inv).1]
    exact image.user.grow inv round
  · rw [(image.grow_pages free larger inv).1] at inside
    by_cases high : InPages (pgRoundUp sz) ((newsz.toNat - (pgRoundUp sz).toNat + 4095) / 4096) va
    · exact image.uses.freelist _ (inv.fresh va e high found)
    · have low : InPages 0 ((sz.toNat + 4095) / 4096) va := by
        simp only [InPages, UInt64.toNat_zero, round] at inside high ⊢
        omega
      rw [inv.outside va high] at found
      exact image.fresh va e low found
  · rw [(image.grow_pages free larger inv).1] at above
    rw [old va above]
    exact image.only va (Nat.le_trans (Nat.mul_le_mul_right 4096 (Nat.le_add_right _ _)) above) below'
  · rw [(image.grow_pages free larger inv).1]
    omega

end Grow

theorem Loading.grow {newsz : UInt64} (free : k0.FreeList) (loading : Loading k0 k root sz trampolinePa tf)
    (larger : sz ≤ newsz)
    (inv : Allocating k k' root (pgRoundUp sz) ((newsz.toNat - (pgRoundUp sz).toNat + 4095) / 4096) userShape) :
    Loading k0 k' root newsz trampolinePa tf := by
  refine ⟨loading.toImage.grow free larger inv, fun va e inside found => ?_⟩
  obtain ⟨-, -, round⟩ := loading.grow_pages free larger inv
  rw [(loading.grow_pages free larger inv).1] at inside
  by_cases high : InPages (pgRoundUp sz) ((newsz.toNat - (pgRoundUp sz).toNat + 4095) / 4096) va
  · exact inv.shaped va e high found
  · have low : InPages 0 ((sz.toNat + 4095) / 4096) va := by
      simp only [InPages, UInt64.toNat_zero, round] at inside high ⊢
      omega
    rw [inv.outside va high] at found
    exact loading.shaped va e low found

end Kmem

namespace Kernel

open Kmem

variable {s : Kernel} {k0 k : Kmem} {root sz : UInt64} {p : Fin nproc}

end Kernel

end Xv6.Vm
