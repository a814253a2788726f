import Xv6.Vm.Map

/-! Bytes of physical memory, and the copies between kernel and user memory of
`vm.c`: `walkaddr`, `copyout`, `copyin` and `copyinstr`. A word holds its eight
bytes least significant first, as on RISC-V. Each copy goes a page at a time:
the part of the range that lies in the page of the current address, through
the leaf entry `walkaddr` finds for that page. A copy loop runs on fuel one
more than its length, since every pass moves at least one byte. -/

namespace Xv6.Vm

namespace Kmem

variable {k k' : Kmem} {root va pa dst : UInt64}

/-- The word of its page that holds the byte at `pa`. -/
def wordOf (pa : UInt64) : Fin 512 := ⟨pa.toNat % 4096 / 8, by omega⟩

/-- The byte at physical address `pa`. -/
def readByte (k : Kmem) (pa : UInt64) : UInt8 :=
  (k.mem (pgRoundDown pa) (wordOf pa) >>> (8 * (pa % 8))).toUInt8

/-- `*(char *)pa = b`. -/
def writeByte (k : Kmem) (pa : UInt64) (b : UInt8) : Kmem :=
  let shift := 8 * (pa % 8)
  k.write (pgRoundDown pa) (wordOf pa)
    (k.mem (pgRoundDown pa) (wordOf pa) &&& ~~~((0xFF : UInt64) <<< shift) ||| b.toUInt64 <<< shift)

/-- `memmove(dst, src, n)` of the `n` kernel bytes `src` to physical address
`dst`. -/
def writeBytes (k : Kmem) (dst : UInt64) : List UInt8 → Kmem
  | [] => k
  | b :: bs => (k.writeByte dst b).writeBytes (dst + 1) bs

/-- `memmove(dst, src, n)` of the `n` bytes at physical address `src` into the
kernel. -/
def readBytes (k : Kmem) (src : UInt64) : Nat → List UInt8
  | 0 => []
  | n + 1 => k.readByte src :: k.readBytes (src + 1) n

@[simp] theorem writeByte_freelist {b : UInt8} : (k.writeByte pa b).freelist = k.freelist := rfl

@[simp] theorem writeByte_kernelEnd {b : UInt8} : (k.writeByte pa b).kernelEnd = k.kernelEnd := rfl

@[simp] theorem writeBytes_freelist (bytes : List UInt8) : (k.writeBytes dst bytes).freelist = k.freelist := by
  induction bytes generalizing k dst with
  | nil => rfl
  | cons b bytes ih => simp [writeBytes, ih]

@[simp] theorem writeBytes_kernelEnd (bytes : List UInt8) :
    (k.writeBytes dst bytes).kernelEnd = k.kernelEnd := by
  induction bytes generalizing k dst with
  | nil => rfl
  | cons b bytes ih => simp [writeBytes, ih]

theorem pgRoundDown_offset {page off : UInt64} (aligned : page.toNat % 4096 = 0) (inside : off.toNat < 4096) :
    pgRoundDown (page + off) = page := by
  have sum : (page + off).toNat = page.toNat + off.toNat := by
    have := page.toNat_lt
    rw [UInt64.toNat_add]
    omega
  apply UInt64.toNat_inj.mp
  rw [pgRoundDown_toNat, sum]
  omega

theorem writeBytes_mem_of_ne {page x : UInt64} (aligned : page.toNat % 4096 = 0) (other : x ≠ page) :
    ∀ (bytes : List UInt8) (k : Kmem) (off : UInt64), off.toNat + bytes.length ≤ 4096 →
      (k.writeBytes (page + off) bytes).mem x = k.mem x := by
  intro bytes
  induction bytes with
  | nil => intro k off _; rfl
  | cons b bytes ih =>
    intro k off fits
    have next : (off + 1).toNat = off.toNat + 1 := by
      rw [UInt64.toNat_add]
      simp only [UInt64.toNat_one]
      simp only [List.length_cons] at fits
      omega
    simp only [List.length_cons] at fits
    rw [writeBytes, UInt64.add_assoc, ih _ (off + 1) (by omega), writeByte,
      pgRoundDown_offset aligned (by omega), write_mem_of_ne other]

end Kmem

/-- `walkaddr`: the page a user address is mapped to, `0` when it is not
mapped with `PTE_V` and `PTE_U`. -/
def walkaddr (k : Kmem) (pagetable va : UInt64) : Except String UInt64 := do
  if va ≥ maxVa then return 0
  let (pte, _) ← walk k pagetable va false
  let some (page, i) := pte | return 0
  let pte := k.mem page i
  if pte &&& pteV == 0 then return 0
  if pte &&& pteU == 0 then return 0
  return pte2pa pte

/-- The passes of `copyout`'s loop: each copies the part of `src` that falls in
the page of `dstva`. -/
def copyoutLoop (pagetable : UInt64) : Nat → Kmem → UInt64 → List UInt8 → Except String (Int × Kmem)
  | 0, k, _, _ => .ok (0, k)
  | fuel + 1, k, dstva, src => do
    let len := src.length.toUInt64
    if len == 0 then return (0, k)
    let va0 := pgRoundDown dstva
    let pa0 ← walkaddr k pagetable va0
    if pa0 == 0 then return (-1, k)
    let n := pgSize - (dstva - va0)
    let n := if n > len then len else n
    let k := k.writeBytes (pa0 + (dstva - va0)) (src.take n.toNat)
    copyoutLoop pagetable fuel k (va0 + pgSize) (src.drop n.toNat)

/-- `copyout(pagetable, dstva, src, len)` of the `len` kernel bytes `src`: `0`,
or `-1` when a page of the range is not mapped for the user. -/
def copyout (k : Kmem) (pagetable dstva : UInt64) (src : List UInt8) : Except String (Int × Kmem) :=
  copyoutLoop pagetable (src.length + 1) k dstva src

/-- The passes of `copyin`'s loop: each reads the part of the range that falls
in the page of `srcva`. -/
def copyinLoop (k : Kmem) (pagetable : UInt64) : Nat → UInt64 → UInt64 → Except String (Option (List UInt8))
  | 0, _, _ => .ok (some [])
  | fuel + 1, srcva, len => do
    if len == 0 then return some []
    let va0 := pgRoundDown srcva
    let pa0 ← walkaddr k pagetable va0
    if pa0 == 0 then return none
    let n := pgSize - (srcva - va0)
    let n := if n > len then len else n
    let bytes := k.readBytes (pa0 + (srcva - va0)) n.toNat
    let rest ← copyinLoop k pagetable fuel (va0 + pgSize) (len - n)
    return rest.map (bytes ++ ·)

/-- `copyin(pagetable, dst, srcva, len)`: the `len` bytes at `srcva`, or none
(`-1`) when a page of the range is not mapped for the user. -/
def copyin (k : Kmem) (pagetable srcva len : UInt64) : Except String (Option (List UInt8)) :=
  copyinLoop k pagetable (len.toNat + 1) srcva len

/-- The inner loop of `copyinstr` over the `n` bytes from physical address `p`:
the bytes before the first NUL, and whether it found one. -/
def scanString (k : Kmem) : Nat → UInt64 → List UInt8 × Bool
  | 0, _ => ([], false)
  | n + 1, p =>
    if k.readByte p == 0 then ([], true)
    else
      let (bytes, found) := scanString k n (p + 1)
      (k.readByte p :: bytes, found)

/-- The passes of `copyinstr`'s loop: each scans the part of the string that
falls in the page of `srcva`, at most `max` bytes in all. -/
def copyinstrLoop (k : Kmem) (pagetable : UInt64) : Nat → UInt64 → UInt64 → Except String (Option (List UInt8))
  | 0, _, _ => .ok none
  | fuel + 1, srcva, max => do
    if max == 0 then return none
    let va0 := pgRoundDown srcva
    let pa0 ← walkaddr k pagetable va0
    if pa0 == 0 then return none
    let n := pgSize - (srcva - va0)
    let n := if n > max then max else n
    match scanString k n.toNat (pa0 + (srcva - va0)) with
    | (bytes, true) => return some bytes
    | (bytes, false) =>
      let rest ← copyinstrLoop k pagetable fuel (va0 + pgSize) (max - n)
      return rest.map (bytes ++ ·)

/-- `copyinstr(pagetable, dst, srcva, max)`: the string at `srcva` without its
NUL, or none (`-1`) when a page is not mapped for the user or no NUL comes
within `max` bytes. -/
def copyinstr (k : Kmem) (pagetable srcva max : UInt64) : Except String (Option (List UInt8)) :=
  copyinstrLoop k pagetable (max.toNat + 1) srcva max

namespace Kmem

variable {k k' : Kmem} {root va : UInt64}

/-- What `walkaddr` finds: the page a user address is mapped to, `0` when it is
not mapped for the user. -/
def userPa (k : Kmem) (root va : UInt64) : UInt64 :=
  match k.translate root va with
  | some e => if e &&& pteU == 0 then 0 else pte2pa e
  | none => 0

theorem walkaddr_eq : walkaddr k root va = .ok (k.userPa root va) := by
  by_cases above : va ≥ maxVa
  · have none : k.translate root va = none := by simp [translate, UInt64.not_lt.mpr above]
    simp [walkaddr, above, userPa, none]
  · have below : va < maxVa := UInt64.not_le.mp above
    cases found : k.level0 root (px 2 va) (px 1 va) with
    | none =>
      have none : k.translate root va = none := by simp [translate, below, leaf, found]
      simp [walkaddr, above, walk_lookup below, lookup, found, userPa, none]
    | some l0 =>
      rw [walkaddr, if_neg above]
      simp only [walk_lookup below, lookup, found, Option.map_some, ok_bind, userPa,
        translate_found below found]
      by_cases valid : k.mem l0 (px 0 va) &&& pteV = 0
      · simp [valid]
      · simp only [valid, beq_iff_eq, bne_iff_ne, ne_eq, not_false_eq_true, if_true, if_false]
        split <;> rfl

theorem translate_pgRoundDown : k.translate root (pgRoundDown va) = k.translate root va := by
  have round := pgRoundDown_toNat va
  have top : maxVa.toNat = 2 ^ 38 := by decide
  have index (level : Nat) (small : level < 3) : px level (pgRoundDown va) = px level va := by
    apply Fin.ext
    rw [px_val _ small, px_val _ small, round]
    obtain rfl | rfl | rfl : level = 0 ∨ level = 1 ∨ level = 2 := by omega
    all_goals omega
  have below : pgRoundDown va < maxVa ↔ va < maxVa := by
    rw [UInt64.lt_iff_toNat_lt, UInt64.lt_iff_toNat_lt, round, top]
    omega
  unfold translate
  rw [index 2 (by decide), index 1 (by decide), index 0 (by decide)]
  exact if_congr below rfl rfl

theorem userPa_of_ne_zero (found : k.userPa root va ≠ 0) :
    ∃ e, k.translate root va = some e ∧ e &&& pteU ≠ 0 ∧ pte2pa e = k.userPa root va := by
  unfold userPa at found ⊢
  split
  · rename_i e mapped
    rw [mapped] at found
    simp only at found
    split at found
    · exact absurd rfl found
    · rename_i user
      exact ⟨e, mapped, by simpa using user, by rw [if_neg user]⟩
  · rename_i unmapped
    rw [unmapped] at found
    exact absurd rfl found

theorem copyoutLoop_spec (fuel : Nat) :
    ∀ (k : Kmem) (dstva : UInt64) (src : List UInt8), src.length < 2 ^ 64 →
      (∀ va e, k.translate root va = some e → e &&& pteU ≠ 0 → ¬ k.IsTable root (pte2pa e)) →
      ∃ r k', copyoutLoop root fuel k dstva src = .ok (r, k') ∧ k'.freelist = k.freelist ∧
        k'.kernelEnd = k.kernelEnd ∧ k'.IsTable root = k.IsTable root ∧ k'.translate root = k.translate root ∧
        ∀ x, (∀ va e, dstva.toNat ≤ va.toNat → va.toNat < dstva.toNat + src.length →
          k.translate root va = some e → e &&& pteU ≠ 0 → pte2pa e ≠ x) → k'.mem x = k.mem x := by
  induction fuel with
  | zero =>
    intro k dstva src _ _
    exact ⟨0, k, rfl, rfl, rfl, rfl, rfl, fun _ _ => rfl⟩
  | succ fuel ih =>
    intro k dstva src short apart
    have lenN : src.length.toUInt64.toNat = src.length := UInt64.toNat_ofNat_of_lt' short
    by_cases empty : (src.length.toUInt64 == 0) = true
    · exact ⟨0, k, by simp [copyoutLoop, empty], rfl, rfl, rfl, rfl, fun _ _ => rfl⟩
    have positive : 0 < src.length := by
      simp only [beq_iff_eq] at empty
      rw [← lenN]
      exact Nat.pos_of_ne_zero fun zero => empty (UInt64.toNat_inj.mp (by simpa using zero))
    by_cases unmapped : k.userPa root (pgRoundDown dstva) = 0
    · exact ⟨-1, k, by simp [copyoutLoop, empty, walkaddr_eq, unmapped], rfl, rfl, rfl, rfl, fun _ _ => rfl⟩
    obtain ⟨e, found, user, target⟩ := userPa_of_ne_zero unmapped
    rw [translate_pgRoundDown] at found
    have notTable := apart dstva e found user
    have belowVa : dstva < maxVa := (lookup_of_translate found).1
    have round := pgRoundDown_toNat dstva
    have offN : (dstva - pgRoundDown dstva).toNat = dstva.toNat % 4096 := by
      rw [UInt64.toNat_sub_of_le _ _ (UInt64.le_iff_toNat_le.mpr (by omega)), round]
      omega
    have roomN : (pgSize - (dstva - pgRoundDown dstva)).toNat = 4096 - dstva.toNat % 4096 := by
      rw [UInt64.toNat_sub_of_le _ _ (UInt64.le_iff_toNat_le.mpr (by rw [offN]; simp [pgSize]; omega)), offN]
      simp [pgSize]
    set n : UInt64 := if pgSize - (dstva - pgRoundDown dstva) > src.length.toUInt64 then src.length.toUInt64
      else pgSize - (dstva - pgRoundDown dstva) with nDef
    have nN : n.toNat = min (4096 - dstva.toNat % 4096) src.length := by
      rw [nDef]
      split
      · rename_i more
        rw [gt_iff_lt, UInt64.lt_iff_toNat_lt, lenN, roomN] at more
        rw [lenN]
        omega
      · rename_i less
        rw [gt_iff_lt, UInt64.lt_iff_toNat_lt, lenN, roomN] at less
        rw [roomN]
        omega
    set k₁ := k.writeBytes (k.userPa root (pgRoundDown dstva) + (dstva - pgRoundDown dstva)) (src.take n.toNat)
      with k₁Def
    have frame₁ : ∀ x, x ≠ pte2pa e → k₁.mem x = k.mem x := fun x other => by
      rw [k₁Def, ← target]
      refine writeBytes_mem_of_ne (pte2pa_aligned e) other _ _ _ ?_
      rw [List.length_take, offN, nN]
      omega
    have tables₁ : ∀ x, k.IsTable root x → k₁.mem x = k.mem x :=
      fun x table => frame₁ x fun same => notTable (same ▸ table)
    have apart₁ : ∀ va e, k₁.translate root va = some e → e &&& pteU ≠ 0 → ¬ k₁.IsTable root (pte2pa e) := by
      rw [translate_frame tables₁, isTable_frame tables₁]
      exact apart
    obtain ⟨r, k', run, list', end', isTable', translate', frame'⟩ :=
      ih k₁ (pgRoundDown dstva + pgSize) (src.drop n.toNat) (by simp; omega) apart₁
    refine ⟨r, k', by simp [copyoutLoop, empty, walkaddr_eq, unmapped, ← nDef, ← k₁Def, run], ?_, ?_, ?_, ?_, ?_⟩
    · rw [list', k₁Def, writeBytes_freelist]
    · rw [end', k₁Def, writeBytes_kernelEnd]
    · rw [isTable', isTable_frame tables₁]
    · rw [translate', translate_frame tables₁]
    · intro x outside
      have nextN : (pgRoundDown dstva + pgSize).toNat = dstva.toNat / 4096 * 4096 + 4096 := by
        have top : maxVa.toNat = 2 ^ 38 := by decide
        rw [UInt64.lt_iff_toNat_lt, top] at belowVa
        rw [UInt64.toNat_add, round]
        simp [pgSize]
        omega
      have notPa : x ≠ pte2pa e := fun same =>
        outside dstva e (Nat.le_refl _) (by omega) found user same.symm
      rw [frame' x fun va e' low high mapped => ?_, frame₁ x notPa]
      rw [translate_frame tables₁] at mapped
      refine outside va e' (by omega) ?_ mapped
      simp only [List.length_drop] at high
      omega

theorem copyout_spec {dstva : UInt64} {src : List UInt8} (short : src.length < 2 ^ 64)
    (apart : ∀ va e, k.translate root va = some e → e &&& pteU ≠ 0 → ¬ k.IsTable root (pte2pa e)) :
    ∃ r k', copyout k root dstva src = .ok (r, k') ∧ k'.freelist = k.freelist ∧
      k'.kernelEnd = k.kernelEnd ∧ k'.IsTable root = k.IsTable root ∧ k'.translate root = k.translate root ∧
      ∀ x, (∀ va e, dstva.toNat ≤ va.toNat → va.toNat < dstva.toNat + src.length →
        k.translate root va = some e → e &&& pteU ≠ 0 → pte2pa e ≠ x) → k'.mem x = k.mem x :=
  copyoutLoop_spec _ k dstva src short apart

end Kmem

end Xv6.Vm
