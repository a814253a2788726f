import Xv6.Lib.Run
import Xv6.Fs.Layout

/-! The descriptor bookkeeping of `virtio_disk.c`: `alloc_desc`, `free_desc`,
`free_chain` and `alloc3_desc`, the three descriptors `virtio_disk_rw`
formats for a request, and `virtio_disk_intr`. A process in `virtio_disk_rw`
holds `vdisk_lock` except while it sleeps, and so does the interrupt handler,
so the events are the critical sections between sleeps: a first or a repeated
`alloc3_desc` with the submission after it, the handling of one chain the
device reports used, and the `free_chain` after the wakeup. The device reads
the descriptors and writes only data buffers and status bytes; it reports each
submitted chain once, in any order, with status `0`. -/

namespace Xv6.Virtio

open Lib

/-- `NUM`: the descriptors of the ring. -/
def num : Nat := 8

/-- `VRING_DESC_F_NEXT`. -/
def vringDescFNext : Nat := 1

/-- `VRING_DESC_F_WRITE`. -/
def vringDescFWrite : Nat := 2

/-- `idx[0]`, the head of the chain in `idx`. -/
def first (idx : List Nat) : Nat := idx.getD 0 0

@[simp] theorem first_cons {i : Nat} {l : List Nat} : first (i :: l) = i := rfl

/-- What a descriptor's `addr` points at: nothing, the request header `buf0`
on the stack of process `p`, the data of `p`'s buffer, or the status byte of
`info[i]`. -/
inductive Addr (P : Type) where
  | null
  | header (p : P)
  | data (p : P)
  | status (i : Nat)
deriving DecidableEq

/-- `struct VRingDesc`. -/
structure Desc (P : Type) where
  addr : Addr P
  len : Nat
  flags : Nat
  next : Nat
deriving DecidableEq

/-- The driver's part of `struct disk`: the descriptors, `free[]`, the buffer
`info[i].b` of each head, and the heads put in `avail[]` that the device has
not reported used yet. -/
structure Disk (P : Type) where
  desc : Nat → Desc P
  free : Nat → Bool
  info : Nat → Option P
  avail : List Nat

namespace Disk

variable {P : Type}

/-- `alloc_desc`: the first free descriptor, marked not free; `-1` is none. -/
def allocDesc (d : Disk P) : Option Nat × Disk P :=
  match (List.range num).find? d.free with
  | some i => (some i, { d with free := Function.update d.free i false })
  | none => (none, d)

/-- `free_desc(i)`. -/
def freeDesc (d : Disk P) (i : Nat) : Except String (Disk P) :=
  if i ≥ num then .error "virtio_disk_intr 1"
  else if d.free i then .error "virtio_disk_intr 2"
  else .ok { d with
    desc := Function.update d.desc i { d.desc i with addr := .null }
    free := Function.update d.free i true }

/-- The passes of `free_chain`'s loop from descriptor `i`; none when `fuel`
passes do not end it. -/
def freeChainLoop : Nat → Disk P → Nat → Option (Except String (Disk P))
  | 0, _, _ => none
  | fuel + 1, d, i =>
    match d.freeDesc i with
    | .error message => some (.error message)
    | .ok d =>
      if (d.desc i).flags &&& vringDescFNext ≠ 0 then freeChainLoop fuel d (d.desc i).next
      else some (.ok d)

/-- `free_chain(i)`. `NUM + 1` passes end its loop whatever the descriptors
hold (`freeChain_ends`). -/
def freeChain (d : Disk P) (i : Nat) : Option (Except String (Disk P)) :=
  freeChainLoop (num + 1) d i

/-- The passes of `alloc3_desc`'s loop, with `k` descriptors still to take and
`idx` those taken: when one is missing it frees the taken ones in order and
returns `-1`, here none. -/
def alloc3Loop : Nat → List Nat → Disk P → Except String (Option (List Nat) × Disk P)
  | 0, idx, d => .ok (some idx, d)
  | k + 1, idx, d =>
    match d.allocDesc with
    | (some i, d) => alloc3Loop k (idx ++ [i]) d
    | (none, d) => do
      let d ← idx.foldlM freeDesc d
      return (none, d)

/-- `alloc3_desc(idx)`. -/
def alloc3Desc (d : Disk P) : Except String (Option (List Nat) × Disk P) :=
  alloc3Loop 3 [] d

/-- The descriptors `virtio_disk_rw` fills for `p`'s request in `idx`: the
header, the data (which the device writes for a read), and the status byte;
the head goes to `info` and to the available ring. -/
def format (d : Disk P) (p : P) (write : Bool) (idx : List Nat) : Disk P :=
  let i0 := first idx
  let i1 := idx.getD 1 0
  let i2 := idx.getD 2 0
  let desc := Function.update d.desc i0 ⟨.header p, 16, vringDescFNext, i1⟩
  let desc := Function.update desc i1
    ⟨.data p, Fs.bsize, (if write then 0 else vringDescFWrite) ||| vringDescFNext, i2⟩
  let desc := Function.update desc i2 ⟨.status i0, 1, vringDescFWrite, 0⟩
  { d with desc := desc, info := Function.update d.info i0 (some p), avail := d.avail ++ [i0] }

end Disk

/-! ### Taking and freeing descriptors -/

namespace Disk

variable {P : Type} {d d' d₀ : Disk P} {i j : Nat} {l : List Nat}

/-- The `flags` and `next` of each descriptor: what `free_chain` follows. -/
def links (d : Disk P) (j : Nat) : Nat × Nat := ((d.desc j).flags, (d.desc j).next)

/-- The free descriptors of the ring. -/
def freeSet (d : Disk P) : Finset Nat := (Finset.range num).filter fun j => d.free j = true

/-- What `free_desc(i)` leaves when it returns: `i` free, its `addr` cleared. -/
def release (d : Disk P) (i : Nat) : Disk P :=
  { d with
    desc := Function.update d.desc i { d.desc i with addr := .null }
    free := Function.update d.free i true }

@[simp] theorem release_free : (d.release i).free j = if j = i then true else d.free j := by
  simp [release, Function.update_apply]

@[simp] theorem release_links : (d.release i).links = d.links := by
  funext j
  by_cases same : j = i
  · subst same
    simp [release, links]
  · simp [release, links, Function.update_of_ne same]

@[simp] theorem release_info : (d.release i).info = d.info := rfl

@[simp] theorem release_avail : (d.release i).avail = d.avail := rfl

/-- `d'` is `d` with the descriptors `l` taken: not free any more, nothing else
changed. -/
structure Takes (d : Disk P) (l : List Nat) (d' : Disk P) : Prop where
  free : ∀ j, d'.free j = if j ∈ l then false else d.free j
  desc : d'.desc = d.desc
  info : d'.info = d.info
  avail : d'.avail = d.avail

/-- `d'` is `d` with the descriptors `l` made free, the links, `info` and the
available ring as they were. -/
structure Releases (d : Disk P) (l : List Nat) (d' : Disk P) : Prop where
  free : ∀ j, d'.free j = if j ∈ l then true else d.free j
  links : d'.links = d.links
  info : d'.info = d.info
  avail : d'.avail = d.avail

theorem Takes.nil (d : Disk P) : d.Takes [] d := ⟨by simp, rfl, rfl, rfl⟩

theorem Releases.nil (d : Disk P) : d.Releases [] d := ⟨by simp, rfl, rfl, rfl⟩

theorem Releases.trans {d₁ d₂ : Disk P} {l' : List Nat} (earlier : d.Releases l d₁) (later : d₁.Releases l' d₂) :
    d.Releases (l ++ l') d₂ where
  free j := by
    rw [later.free, earlier.free]
    by_cases inLater : j ∈ l' <;> by_cases inFirst : j ∈ l <;> simp [inLater, inFirst]
  links := later.links.trans earlier.links
  info := later.info.trans earlier.info
  avail := later.avail.trans earlier.avail

theorem allocDesc_cases (d : Disk P) :
    (∃ i, i ∈ d.freeSet ∧ d.allocDesc = (some i, { d with free := Function.update d.free i false })) ∨
      (d.freeSet = ∅ ∧ d.allocDesc = (none, d)) := by
  unfold allocDesc
  split
  · rename_i i found
    refine .inl ⟨i, ?_, rfl⟩
    simp only [freeSet, Finset.mem_filter, Finset.mem_range]
    exact ⟨List.mem_range.mp (List.mem_of_find?_eq_some found), List.find?_some found⟩
  · rename_i missing
    refine .inr ⟨?_, rfl⟩
    ext j
    simp only [freeSet, Finset.mem_filter, Finset.mem_range, Finset.notMem_empty, iff_false, not_and]
    intro below
    simpa using List.find?_eq_none.mp missing j (List.mem_range.mpr below)

theorem freeSet_take (taken : i ∈ d.freeSet) :
    ({ d with free := Function.update d.free i false } : Disk P).freeSet = d.freeSet.erase i := by
  ext j
  by_cases same : j = i
  · subst same
    simp [freeSet]
  · simp [freeSet, same]

theorem freeDesc_eq (d : Disk P) (i : Nat) : d.freeDesc i =
    if i ≥ num then .error "virtio_disk_intr 1"
    else if d.free i then .error "virtio_disk_intr 2" else .ok (d.release i) := rfl

theorem freeDesc_ok (inRing : i < num) (taken : d.free i = false) : d.freeDesc i = .ok (d.release i) := by
  simp [freeDesc_eq, Nat.not_le.mpr inRing, taken]

theorem freeDesc_cases (d : Disk P) (i : Nat) :
    (i < num ∧ d.free i = false ∧ d.freeDesc i = .ok (d.release i)) ∨ ∃ message, d.freeDesc i = .error message := by
  by_cases inRing : i < num
  · cases taken : d.free i
    · exact .inl ⟨inRing, rfl, freeDesc_ok inRing taken⟩
    · exact .inr ⟨"virtio_disk_intr 2", by simp [freeDesc_eq, Nat.not_le.mpr inRing, taken]⟩
  · exact .inr ⟨"virtio_disk_intr 1", by simp [freeDesc_eq, Nat.le_of_not_lt inRing]⟩

theorem releases_release : d.Releases [i] (d.release i) :=
  ⟨by simp, release_links, rfl, rfl⟩

theorem foldlM_freeDesc : ∀ (l : List Nat) (d : Disk P), l.Nodup → (∀ i ∈ l, i < num ∧ d.free i = false) →
    ∃ d', l.foldlM freeDesc d = .ok d' ∧ d.Releases l d'
  | [], d, _, _ => ⟨d, rfl, .nil d⟩
  | i :: l, d, nodup, taken => by
    obtain ⟨notLater, restNodup⟩ := List.nodup_cons.mp nodup
    obtain ⟨inRing, busy⟩ := taken i (List.mem_cons_self ..)
    have restTaken : ∀ j ∈ l, j < num ∧ (d.release i).free j = false := fun j member => by
      have other : j ≠ i := fun same => notLater (same ▸ member)
      simpa [other] using taken j (List.mem_cons_of_mem i member)
    obtain ⟨d', run, released⟩ := foldlM_freeDesc l (d.release i) restNodup restTaken
    refine ⟨d', ?_, releases_release.trans released⟩
    simp only [List.foldlM_cons, freeDesc_ok inRing busy]
    exact run

theorem alloc3Loop_spec : ∀ k (idx : List Nat) (d : Disk P), d₀.Takes idx d → idx.Nodup →
    (∀ i ∈ idx, i ∈ d₀.freeSet) →
    (k ≤ d.freeSet.card ∧ ∃ new d', alloc3Loop k idx d = .ok (some (idx ++ new), d') ∧ new.length = k ∧
      d₀.Takes (idx ++ new) d' ∧ (idx ++ new).Nodup ∧ ∀ i ∈ idx ++ new, i ∈ d₀.freeSet) ∨
    (d.freeSet.card < k ∧ ∃ d', alloc3Loop k idx d = .ok (none, d') ∧ d'.free = d₀.free ∧
      d'.links = d₀.links ∧ d'.info = d₀.info ∧ d'.avail = d₀.avail)
  | 0, idx, d, takes, nodup, wereFree =>
    .inl ⟨Nat.zero_le _, [], d, by simp [alloc3Loop], rfl, by simpa using takes, by simpa using nodup,
      by simpa using wereFree⟩
  | k + 1, idx, d, takes, nodup, wereFree => by
    rcases allocDesc_cases d with ⟨i, free, found⟩ | ⟨empty, missing⟩
    · have notTaken : i ∉ idx := fun member => by
        have := takes.free i
        simp [member] at this
        simp [freeSet, this] at free
      have wasFree : i ∈ d₀.freeSet := by
        have := takes.free i
        simp only [notTaken, if_false] at this
        simpa [freeSet, this] using free
      have takes' : d₀.Takes (idx ++ [i]) { d with free := Function.update d.free i false } :=
        ⟨fun j => by
          by_cases same : j = i
          · subst same
            simp
          · simp [takes.free j, same], takes.desc, takes.info, takes.avail⟩
      have nodup' : (idx ++ [i]).Nodup := by
        refine List.nodup_append.mpr ⟨nodup, List.nodup_singleton i, ?_⟩
        intro j member b single same
        rw [List.mem_singleton] at single
        exact notTaken (single ▸ same ▸ member)
      have wereFree' : ∀ j ∈ idx ++ [i], j ∈ d₀.freeSet := fun j member => by
        rcases List.mem_append.mp member with old | new
        · exact wereFree j old
        · rw [List.mem_singleton.mp new]
          exact wasFree
      have count := Finset.card_erase_of_mem free
      have pos : 0 < d.freeSet.card := Finset.card_pos.mpr ⟨i, free⟩
      rw [← freeSet_take free] at count
      rcases alloc3Loop_spec k (idx ++ [i]) _ takes' nodup' wereFree' with
        ⟨enough, new, d', run, length, takesAll, nodupAll, freeAll⟩ | ⟨short, d', run, rest⟩
      · refine .inl ⟨by omega, i :: new, d', ?_, by simp [length], by simpa using takesAll, by simpa using nodupAll,
          by simpa using freeAll⟩
        rw [alloc3Loop, found]
        simpa using run
      · refine .inr ⟨by omega, d', ?_, rest⟩
        rw [alloc3Loop, found]
        exact run
    · have taken : ∀ i ∈ idx, i < num ∧ d.free i = false := fun i member => by
        have inRing := wereFree i member
        simp only [freeSet, Finset.mem_filter, Finset.mem_range] at inRing
        exact ⟨inRing.1, by simp [takes.free i, member]⟩
      obtain ⟨d', rollback, released⟩ := foldlM_freeDesc idx d nodup taken
      refine .inr ⟨by simp [empty], d', ?_, ?_, ?_, ?_, ?_⟩
      · rw [alloc3Loop, missing]
        simp [rollback]
      · funext j
        rw [released.free, takes.free j]
        by_cases member : j ∈ idx
        · have wasFree := wereFree j member
          simp only [freeSet, Finset.mem_filter] at wasFree
          simp [member, wasFree.2]
        · simp [member]
      · rw [released.links]
        funext j
        simp [links, takes.desc]
      · rw [released.info, takes.info]
      · rw [released.avail, takes.avail]

theorem alloc3Desc_spec (d : Disk P) :
    (3 ≤ d.freeSet.card ∧ ∃ i0 i1 i2 d', d.alloc3Desc = .ok (some [i0, i1, i2], d') ∧ d.Takes [i0, i1, i2] d' ∧
      [i0, i1, i2].Nodup ∧ ∀ i ∈ [i0, i1, i2], i ∈ d.freeSet) ∨
    (d.freeSet.card < 3 ∧ ∃ d', d.alloc3Desc = .ok (none, d') ∧ d'.free = d.free ∧ d'.links = d.links ∧
      d'.info = d.info ∧ d'.avail = d.avail) := by
  rcases alloc3Loop_spec 3 [] d (.nil d) List.nodup_nil (by simp) with
    ⟨enough, new, d', run, length, takes, nodup, free⟩ | failed
  · match new, length with
    | [i0, i1, i2], _ => exact .inl ⟨enough, i0, i1, i2, d', run, takes, nodup, free⟩
  · exact .inr failed


/-! ### `free_chain` -/

/-- The descriptors of the ring not free. -/
def busySet (d : Disk P) : Finset Nat := (Finset.range num).filter fun j => d.free j = false

theorem busySet_release (taken : i ∈ d.busySet) : (d.release i).busySet = d.busySet.erase i := by
  ext j
  by_cases same : j = i
  · subst same
    simp [busySet]
  · simp [busySet, same]

theorem freeChainLoop_succ (fuel : Nat) (d : Disk P) (i : Nat) : freeChainLoop (fuel + 1) d i =
    match d.freeDesc i with
    | .error message => some (.error message)
    | .ok d => if (d.desc i).flags &&& vringDescFNext ≠ 0 then freeChainLoop fuel d (d.desc i).next
      else some (.ok d) := rfl

theorem freeChainLoop_ends : ∀ fuel (d : Disk P) i, d.busySet.card < fuel → freeChainLoop fuel d i ≠ none
  | 0, _, _, short => absurd short (Nat.not_lt_zero _)
  | fuel + 1, d, i, short => by
    rw [freeChainLoop_succ]
    rcases freeDesc_cases d i with ⟨inRing, taken, ok⟩ | ⟨message, failed⟩
    · have busy : i ∈ d.busySet := by simp [busySet, inRing, taken]
      have fewer := Finset.card_erase_of_mem busy
      rw [← busySet_release busy] at fewer
      have pos : 0 < d.busySet.card := Finset.card_pos.mpr ⟨i, busy⟩
      rw [ok]
      dsimp only
      split
      · exact freeChainLoop_ends fuel _ _ (by omega)
      · simp
    · simp [failed]

/-- `free_chain` ends whatever the descriptors hold: a `next` that leads back
to a descriptor it already freed makes `free_desc` panic instead of looping. -/
theorem freeChain_ends (d : Disk P) (i : Nat) : d.freeChain i ≠ none := by
  have bounded : d.busySet.card ≤ num := (Finset.card_filter_le _ _).trans (Finset.card_range num).le
  exact freeChainLoop_ends (num + 1) d i (Nat.lt_succ_of_le bounded)

/-- The three descriptors `virtio_disk_rw` formats for a request: distinct, in
the ring, linked by `next` with `VRING_DESC_F_NEXT` on all but the last. -/
def Chain (d : Disk P) (idx : List Nat) : Prop :=
  ∃ i0 i1 i2, idx = [i0, i1, i2] ∧ idx.Nodup ∧ (∀ i ∈ idx, i < num) ∧
    (d.links i0).1 &&& vringDescFNext ≠ 0 ∧ (d.links i0).2 = i1 ∧
    (d.links i1).1 &&& vringDescFNext ≠ 0 ∧ (d.links i1).2 = i2 ∧
    (d.links i2).1 &&& vringDescFNext = 0

theorem chain_congr (same : d'.links = d.links) : d'.Chain l ↔ d.Chain l := by
  simp only [Chain, same]

theorem freeChainLoop_taken (fuel : Nat) (inRing : i < num) (taken : d.free i = false) :
    freeChainLoop (fuel + 1) d i =
      if (d.links i).1 &&& vringDescFNext ≠ 0 then freeChainLoop fuel (d.release i) (d.links i).2
      else some (.ok (d.release i)) := by
  have kept := congrFun (release_links (d := d) (i := i)) i
  simp only [links, Prod.mk.injEq] at kept
  rw [freeChainLoop_succ, freeDesc_ok inRing taken]
  simp only [links, kept.1, kept.2]
  rfl

theorem freeChain_chain {i0 i1 i2 : Nat} (chain : d.Chain [i0, i1, i2])
    (taken : ∀ i ∈ [i0, i1, i2], d.free i = false) :
    ∃ d', d.freeChain i0 = some (.ok d') ∧ d.Releases [i0, i1, i2] d' := by
  obtain ⟨j0, j1, j2, same, nodup, inRing, more0, next0, more1, next1, last⟩ := chain
  simp only [List.cons.injEq, and_true] at same
  obtain ⟨rfl, rfl, rfl⟩ := same
  have distinct := List.nodup_cons.mp nodup
  have distinct' := List.nodup_cons.mp distinct.2
  have ne01 : i0 ≠ i1 := fun h => distinct.1 (by simp [h])
  have ne02 : i0 ≠ i2 := fun h => distinct.1 (by simp [h])
  have ne12 : i1 ≠ i2 := fun h => distinct'.1 (by simp [h])
  have taken1 : (d.release i0).free i1 = false := by simp [Ne.symm ne01, taken]
  have taken2 : ((d.release i0).release i1).free i2 = false := by
    simp [Ne.symm ne02, Ne.symm ne12, taken]
  refine ⟨((d.release i0).release i1).release i2, ?_, (releases_release.trans releases_release).trans releases_release⟩
  rw [freeChain, show num + 1 = 6 + 1 + 1 + 1 from rfl, freeChainLoop_taken _ (inRing i0 (by simp)) (taken i0 (by simp)), if_pos more0, next0,
    freeChainLoop_taken _ (inRing i1 (by simp)) taken1, release_links, if_pos more1, next1,
    freeChainLoop_taken _ (inRing i2 (by simp)) taken2, release_links, release_links, if_neg (by simpa using last)]

/-! ### The chain `virtio_disk_rw` formats -/

theorem chain_of_links_on (same : ∀ j ∈ l, d'.links j = d.links j) (chain : d.Chain l) : d'.Chain l := by
  obtain ⟨i0, i1, i2, rfl, nodup, inRing, more0, next0, more1, next1, last⟩ := chain
  have same0 := same i0 (by simp)
  have same1 := same i1 (by simp)
  have same2 := same i2 (by simp)
  exact ⟨i0, i1, i2, rfl, nodup, inRing, same0 ▸ more0, same0 ▸ next0, same1 ▸ more1, same1 ▸ next1,
    same2 ▸ last⟩

theorem format_links (d : Disk P) (p : P) (write : Bool) (i0 i1 i2 j : Nat) :
    (d.format p write [i0, i1, i2]).links j =
      if j = i2 then (vringDescFWrite, 0)
      else if j = i1 then ((if write then 0 else vringDescFWrite) ||| vringDescFNext, i2)
      else if j = i0 then (vringDescFNext, i1) else d.links j := by
  simp only [format, links, first_cons, List.getD_cons_succ, List.getD_cons_zero, Function.update_apply]
  split_ifs <;> rfl

@[simp] theorem format_free {p : P} {write : Bool} : (d.format p write l).free = d.free := rfl

@[simp] theorem format_info {p : P} {write : Bool} :
    (d.format p write l).info = Function.update d.info (first l) (some p) := rfl

@[simp] theorem format_avail {p : P} {write : Bool} : (d.format p write l).avail = d.avail ++ [first l] := rfl

theorem format_links_other {p : P} {write : Bool} {i0 i1 i2 : Nat} (other : j ∉ [i0, i1, i2]) :
    (d.format p write [i0, i1, i2]).links j = d.links j := by
  simp only [List.mem_cons, List.not_mem_nil, or_false, not_or] at other
  simp [format_links, other.1, other.2.1, other.2.2]

theorem chain_format (p : P) (write : Bool) {i0 i1 i2 : Nat} (nodup : [i0, i1, i2].Nodup)
    (inRing : ∀ i ∈ [i0, i1, i2], i < num) : (d.format p write [i0, i1, i2]).Chain [i0, i1, i2] := by
  have ne01 : i0 ≠ i1 := fun h => by simp [h] at nodup
  have ne02 : i0 ≠ i2 := fun h => by simp [h] at nodup
  have ne12 : i1 ≠ i2 := fun h => by simp [h] at nodup
  refine ⟨i0, i1, i2, rfl, nodup, inRing, ?_, ?_, ?_, ?_, ?_⟩
  · simp [format_links, ne01, ne02, vringDescFNext]
  · simp [format_links, ne01, ne02]
  · cases write <;> simp [format_links, ne12, vringDescFNext, vringDescFWrite]
  · simp [format_links, ne12]
  · simp [format_links, vringDescFNext, vringDescFWrite]
/-- `alloc3_desc` returns `-1` exactly when fewer than three descriptors are
free. -/
theorem alloc3Desc_fails_iff (d : Disk P) : (∃ d', d.alloc3Desc = .ok (none, d')) ↔ d.freeSet.card < 3 := by
  rcases d.alloc3Desc_spec with ⟨enough, i0, i1, i2, d', alloc, -⟩ | ⟨short, d', alloc, -⟩
  · simp only [alloc, Except.ok.injEq, Prod.mk.injEq, reduceCtorEq, false_and, exists_false, false_iff]
    omega
  · exact ⟨fun _ => short, fun _ => ⟨d', alloc⟩⟩

end Disk

/-- Where a process is in `virtio_disk_rw`. -/
inductive Proc where
  /-- Not in `virtio_disk_rw`. -/
  | idle
  /-- Asleep on `free[0]` after `alloc3_desc` failed, for a write or a read. -/
  | waiting (write : Bool)
  /-- Its request in the descriptors `idx`, asleep on its buffer until the
  device is done with it. -/
  | submitted (idx : List Nat)
deriving DecidableEq

/-- The driver and the processes that call it; `bufDisk p` is `b->disk` of
`p`'s buffer. -/
structure VirtioSys (P : Type) where
  disk : Disk P
  proc : P → Proc
  bufDisk : P → Bool

/-- The critical sections of the driver. -/
inductive Event (P : Type) where
  /-- `p` calls `virtio_disk_rw` and runs up to its first sleep. -/
  | rw (p : P) (write : Bool)
  /-- `p`, woken on `free[0]`, calls `alloc3_desc` again. -/
  | retry (p : P)
  /-- `virtio_disk_intr` takes the used chain whose head is `id`. -/
  | intr (id : Nat)
  /-- `p`, woken with `b->disk == 0`, frees its chain and returns. -/
  | finish (p : P)

namespace VirtioSys

variable {P : Type} [DecidableEq P]

/-- `alloc3_desc` for `p`'s request; on success the formatting and the
submission, up to the sleep on the buffer, and otherwise the sleep on
`free[0]`. -/
def start (s : VirtioSys P) (p : P) (write : Bool) : Outcome (VirtioSys P) :=
  match s.disk.alloc3Desc with
  | .error message => .panicked message
  | .ok (none, d) => .running { s with disk := d, proc := Function.update s.proc p (.waiting write) }
  | .ok (some idx, d) => .running { s with
      disk := d.format p write idx
      proc := Function.update s.proc p (.submitted idx)
      bufDisk := Function.update s.bufDisk p true }

/-- One critical section. The used ring gives `virtio_disk_intr` the head of a
chain the device finished; a head with no buffer in `info` is a null `b`,
which faults in the kernel. -/
def step (s : VirtioSys P) : Event P → Option (Outcome (VirtioSys P))
  | .rw p write => if s.proc p = .idle then some (s.start p write) else none
  | .retry p =>
    match s.proc p with
    | .waiting write => some (s.start p write)
    | _ => none
  | .intr id =>
    if id ∈ s.disk.avail then
      match s.disk.info id with
      | some p => some (.running { s with
          disk := { s.disk with avail := s.disk.avail.erase id }
          bufDisk := Function.update s.bufDisk p false })
      | none => some (.panicked "kerneltrap")
    else none
  | .finish p =>
    match s.proc p with
    | .submitted idx =>
      if s.bufDisk p then none
      else
        match ({ s.disk with info := Function.update s.disk.info (first idx) none }).freeChain (first idx) with
        | some (.ok d) => some (.running { s with disk := d, proc := Function.update s.proc p .idle })
        | some (.error message) => some (.panicked message)
        | none => none
    | _ => none

/-- After `virtio_disk_init`: every descriptor free, the pages zeroed, no
process in the driver. -/
def init : VirtioSys P where
  disk := { desc := fun _ => ⟨.null, 0, 0, 0⟩, free := fun _ => true, info := fun _ => none, avail := [] }
  proc := fun _ => .idle
  bufDisk := fun _ => false

end VirtioSys

/-- The driver from `virtio_disk_init`, for processes `P`. -/
def virtio (P : Type) [DecidableEq P] : System (VirtioSys P) (Event P) where
  init := VirtioSys.init
  step := VirtioSys.step

/-! ### The bookkeeping invariant -/

/-- The descriptors the request of a process in this state holds. -/
def Proc.uses : Proc → Nat → Bool
  | .submitted idx, i => decide (i ∈ idx)
  | _, _ => false

@[simp] theorem Proc.uses_submitted {idx : List Nat} {i : Nat} : (Proc.submitted idx).uses i = decide (i ∈ idx) :=
  rfl

@[simp] theorem Proc.uses_idle {i : Nat} : Proc.idle.uses i = false := rfl

@[simp] theorem Proc.uses_waiting {write : Bool} {i : Nat} : (Proc.waiting write).uses i = false := rfl

namespace VirtioSys

variable {P : Type} {s : VirtioSys P} {p q : P} {idx idx' : List Nat} {i : Nat}

/-- The driver's bookkeeping between critical sections: each submitted request
holds a formatted chain whose head records its buffer, no descriptor is held
twice, `free[]` marks exactly the descriptors of the ring no request holds, the
available ring holds heads of requests, once each, and a head is there exactly
while `b->disk` is set. -/
structure Accounted (s : VirtioSys P) : Prop where
  chain : ∀ p idx, s.proc p = .submitted idx → s.disk.Chain idx
  head : ∀ p idx, s.proc p = .submitted idx → s.disk.info (first idx) = some p
  apart : ∀ p q i, (s.proc p).uses i → (s.proc q).uses i → p = q
  free : ∀ i < num, s.disk.free i = true ↔ ∀ p, (s.proc p).uses i = false
  avail : ∀ id ∈ s.disk.avail, ∃ p idx, s.proc p = .submitted idx ∧ first idx = id
  pending : ∀ p idx, s.proc p = .submitted idx → (first idx ∈ s.disk.avail ↔ s.bufDisk p = true)
  nodup : s.disk.avail.Nodup

namespace Accounted

theorem head_mem (acc : s.Accounted) (sub : s.proc p = .submitted idx) : first idx ∈ idx := by
  obtain ⟨i0, i1, i2, rfl, -⟩ := acc.chain p idx sub
  simp

theorem taken (acc : s.Accounted) (sub : s.proc p = .submitted idx) : ∀ i ∈ idx, i < num ∧ s.disk.free i = false := by
  intro i mem
  obtain ⟨i0, i1, i2, rfl, -, inRing, -⟩ := acc.chain p idx sub
  refine ⟨inRing i mem, ?_⟩
  cases free : s.disk.free i
  · rfl
  · have unused := (acc.free i (inRing i mem)).mp free p
    simp [sub, mem] at unused

theorem unique (acc : s.Accounted) (subp : s.proc p = .submitted idx) (subq : s.proc q = .submitted idx')
    (mem : i ∈ idx) (mem' : i ∈ idx') : p = q :=
  acc.apart p q i (by simp [subp, mem]) (by simp [subq, mem'])

theorem head_ne (acc : s.Accounted) (subp : s.proc p = .submitted idx) (subq : s.proc q = .submitted idx')
    (other : q ≠ p) : first idx' ≠ first idx := fun same =>
  other (acc.unique subq subp (acc.head_mem subq) (same ▸ acc.head_mem subp))

theorem owner (acc : s.Accounted) {id : Nat} (mem : id ∈ s.disk.avail) (info : s.disk.info id = some p) :
    ∃ idx, s.proc p = .submitted idx ∧ first idx = id := by
  obtain ⟨q, idx, sub, rfl⟩ := acc.avail id mem
  have recorded := acc.head q idx sub
  rw [info, Option.some.injEq] at recorded
  exact ⟨idx, recorded ▸ sub, rfl⟩

theorem three (acc : s.Accounted) (sub : s.proc p = .submitted idx) :
    idx.length = 3 ∧ idx.Nodup ∧ ∀ i ∈ idx, i < num := by
  obtain ⟨i0, i1, i2, rfl, nodup, inRing, -⟩ := acc.chain _ _ sub
  exact ⟨rfl, nodup, inRing⟩

theorem disjoint (acc : s.Accounted) (other : p ≠ q) (subP : s.proc p = .submitted idx)
    (subQ : s.proc q = .submitted idx') : ∀ i ∈ idx, ∀ j ∈ idx', i ≠ j :=
  fun _ mem _ mem' same => other (acc.unique subP subQ mem (same ▸ mem'))

theorem freeSet_card_lt (acc : s.Accounted) (other : p ≠ q) (subP : s.proc p = .submitted idx)
    (subQ : s.proc q = .submitted idx') : s.disk.freeSet.card < 3 := by
  obtain ⟨lenP, nodupP, ringP⟩ := acc.three subP
  obtain ⟨lenQ, nodupQ, ringQ⟩ := acc.three subQ
  have nodup : (idx ++ idx').Nodup := List.nodup_append.mpr ⟨nodupP, nodupQ, acc.disjoint other subP subQ⟩
  have held : (idx ++ idx').toFinset ⊆ Finset.range num := by
    intro i mem
    rw [List.mem_toFinset, List.mem_append] at mem
    rw [Finset.mem_range]
    rcases mem with inP | inQ
    · exact ringP i inP
    · exact ringQ i inQ
  have free : s.disk.freeSet ⊆ Finset.range num \ (idx ++ idx').toFinset := by
    intro i mem
    simp only [Disk.freeSet, Finset.mem_filter, Finset.mem_range] at mem
    obtain ⟨below, isFree⟩ := mem
    have unheld := (acc.free i below).mp isFree
    rw [Finset.mem_sdiff, Finset.mem_range, List.mem_toFinset, List.mem_append]
    refine ⟨below, ?_⟩
    rintro (inP | inQ)
    · simpa [subP, inP] using unheld p
    · simpa [subQ, inQ] using unheld q
  have count := Finset.card_le_card free
  rw [Finset.card_sdiff_of_subset held, Finset.card_range, List.toFinset_card_of_nodup nodup, List.length_append,
    lenP, lenQ] at count
  simp only [num] at count
  omega

end Accounted

theorem accounted_init : (init : VirtioSys P).Accounted where
  chain _ _ sub := by simp [init] at sub
  head _ _ sub := by simp [init] at sub
  apart _ _ _ used := by simp [init] at used
  free _ _ := by simp [init]
  avail _ mem := by simp [init] at mem
  pending _ _ sub := by simp [init] at sub
  nodup := List.nodup_nil

theorem Accounted.not_submitted (acc : s.Accounted) (unused : ∀ i, (s.proc p).uses i = false) :
    ∀ idx, s.proc p ≠ .submitted idx := fun idx sub => by
  have used := unused (first idx)
  rw [sub, Proc.uses_submitted, decide_eq_false_iff_not] at used
  exact used (acc.head_mem sub)

theorem finish_frees (acc : s.Accounted) (sub : s.proc p = .submitted idx) :
    ∃ d, ({ s.disk with info := Function.update s.disk.info (first idx) none }).freeChain (first idx) =
      some (.ok d) ∧ ({ s.disk with info := Function.update s.disk.info (first idx) none }).Releases idx d := by
  obtain ⟨i0, i1, i2, rfl, rest⟩ := acc.chain p idx sub
  exact Disk.freeChain_chain ⟨i0, i1, i2, rfl, rest⟩ fun i mem => (acc.taken sub i mem).2

variable [DecidableEq P]

theorem uses_update {f : P → Proc} {x : Proc} :
    (Function.update f p x q).uses i = if q = p then x.uses i else (f q).uses i := by
  by_cases same : q = p
  · subst same
    simp
  · simp [same]

theorem start_cases (s : VirtioSys P) (p : P) (write : Bool) :
    (∃ i0 i1 i2 d, s.disk.Takes [i0, i1, i2] d ∧ [i0, i1, i2].Nodup ∧ (∀ i ∈ [i0, i1, i2], i ∈ s.disk.freeSet) ∧
      s.start p write = .running { s with
        disk := d.format p write [i0, i1, i2]
        proc := Function.update s.proc p (.submitted [i0, i1, i2])
        bufDisk := Function.update s.bufDisk p true }) ∨
    (∃ d, d.free = s.disk.free ∧ d.links = s.disk.links ∧ d.info = s.disk.info ∧ d.avail = s.disk.avail ∧
      s.start p write = .running { s with disk := d, proc := Function.update s.proc p (.waiting write) }) := by
  rcases s.disk.alloc3Desc_spec with ⟨-, i0, i1, i2, d, alloc, takes, nodup, wereFree⟩ |
    ⟨-, d, alloc, free, links, info, avail⟩
  · exact .inl ⟨i0, i1, i2, d, takes, nodup, wereFree, by rw [start, alloc]⟩
  · exact .inr ⟨d, free, links, info, avail, by rw [start, alloc]⟩

theorem accounted_submit {write : Bool} {i0 i1 i2 : Nat} {d : Disk P} (acc : s.Accounted)
    (unused : ∀ i, (s.proc p).uses i = false) (takes : s.disk.Takes [i0, i1, i2] d)
    (nodup : [i0, i1, i2].Nodup) (wereFree : ∀ i ∈ [i0, i1, i2], i ∈ s.disk.freeSet) :
    Accounted { s with
      disk := d.format p write [i0, i1, i2]
      proc := Function.update s.proc p (.submitted [i0, i1, i2])
      bufDisk := Function.update s.bufDisk p true } := by
  have fresh : ∀ i ∈ [i0, i1, i2], i < num ∧ ∀ q, (s.proc q).uses i = false := fun i mem => by
    have wasFree := wereFree i mem
    simp only [Disk.freeSet, Finset.mem_filter, Finset.mem_range] at wasFree
    exact ⟨wasFree.1, (acc.free i wasFree.1).mp wasFree.2⟩
  have others : ∀ q idx, s.proc q = .submitted idx → ∀ j ∈ idx, j ∉ [i0, i1, i2] := fun q idx sub j mem new => by
    simpa [sub, mem] using (fresh j new).2 q
  have otherHead : ∀ q idx, s.proc q = .submitted idx → first idx ≠ i0 := fun q idx sub same =>
    others q idx sub _ (acc.head_mem sub) (by rw [same]; simp)
  have links : d.links = s.disk.links := by
    funext j
    simp [Disk.links, takes.desc]
  have notSubmitted := acc.not_submitted unused
  constructor
  · intro q idx sub
    by_cases same : q = p
    · subst same
      simp only [Function.update_self, Proc.submitted.injEq] at sub
      subst sub
      exact Disk.chain_format q write nodup fun i mem => (fresh i mem).1
    · simp only [Function.update_of_ne same] at sub
      refine Disk.chain_of_links_on (fun j mem => ?_) (acc.chain q idx sub)
      rw [Disk.format_links_other (others q idx sub j mem), links]
  · intro q idx sub
    by_cases same : q = p
    · subst same
      simp only [Function.update_self, Proc.submitted.injEq] at sub
      subst sub
      simp
    · simp only [Function.update_of_ne same] at sub
      simp only [Disk.format_info, takes.info, first_cons, Function.update_of_ne (otherHead q idx sub)]
      exact acc.head q idx sub
  · intro q q' j used used'
    simp only [uses_update, Proc.uses_submitted] at used used'
    by_cases same : q = p <;> by_cases same' : q' = p
    · exact same.trans same'.symm
    · simp only [same, same', if_true, if_false, decide_eq_true_eq] at used used'
      simp [(fresh j used).2 q'] at used'
    · simp only [same, same', if_true, if_false, decide_eq_true_eq] at used used'
      simp [(fresh j used').2 q] at used
    · simp only [same, same', if_false] at used used'
      exact acc.apart q q' j used used'
  · intro j below
    simp only [Disk.format_free, takes.free, uses_update, Proc.uses_submitted]
    by_cases new : j ∈ [i0, i1, i2]
    · simp only [new, if_true, Bool.false_eq_true, false_iff, not_forall]
      exact ⟨p, by simp⟩
    · simp only [new, if_false, decide_false, acc.free j below]
      constructor
      · intro unheld q
        by_cases same : q = p <;> simp [same, unheld q]
      · intro unheld q
        by_cases same : q = p
        · subst same
          exact unused j
        · simpa [same] using unheld q
  · intro id mem
    simp only [Disk.format_avail, takes.avail, List.mem_append, List.mem_singleton] at mem
    rcases mem with old | new
    · obtain ⟨q, idx, sub, rfl⟩ := acc.avail id old
      have other : q ≠ p := fun same => notSubmitted idx (same ▸ sub)
      exact ⟨q, idx, by simp [Function.update_of_ne other, sub], rfl⟩
    · exact ⟨p, [i0, i1, i2], by simp, new.symm⟩
  · intro q idx sub
    by_cases same : q = p
    · subst same
      simp only [Function.update_self, Proc.submitted.injEq] at sub
      subst sub
      simp
    · simp only [Function.update_of_ne same] at sub
      simp [takes.avail, otherHead q idx sub, Function.update_of_ne same, acc.pending q idx sub]
  · have absent : i0 ∉ s.disk.avail := fun mem => by
      obtain ⟨q, idx, sub, same⟩ := acc.avail i0 mem
      exact otherHead q idx sub same
    simpa [takes.avail, List.nodup_append] using
      ⟨acc.nodup, fun a mem same => absent (same ▸ mem)⟩

theorem accounted_wait {write : Bool} {d : Disk P} (acc : s.Accounted) (unused : ∀ i, (s.proc p).uses i = false)
    (free : d.free = s.disk.free) (links : d.links = s.disk.links) (info : d.info = s.disk.info)
    (avail : d.avail = s.disk.avail) :
    Accounted { s with disk := d, proc := Function.update s.proc p (.waiting write) } := by
  have notSubmitted := acc.not_submitted unused
  have other : ∀ q idx, Function.update s.proc p (.waiting write) q = .submitted idx →
      q ≠ p ∧ s.proc q = .submitted idx := fun q idx sub => by
    by_cases same : q = p
    · subst same
      simp at sub
    · simpa [Function.update_of_ne same, same] using sub
  constructor
  · intro q idx sub
    exact (Disk.chain_congr links).mpr (acc.chain q idx (other q idx sub).2)
  · intro q idx sub
    simpa [info] using acc.head q idx (other q idx sub).2
  · intro q q' j used used'
    simp only [uses_update] at used used'
    by_cases same : q = p <;> by_cases same' : q' = p
    · exact same.trans same'.symm
    · simp [same] at used
    · simp [same'] at used'
    · simp only [same, same', if_false] at used used'
      exact acc.apart q q' j used used'
  · intro j below
    simp only [free, acc.free j below, uses_update]
    constructor
    · intro unheld q
      by_cases same : q = p <;> simp [same, unheld q]
    · intro unheld q
      by_cases same : q = p
      · subst same
        exact unused j
      · simpa [same] using unheld q
  · intro id mem
    obtain ⟨q, idx, sub, rfl⟩ := acc.avail id (avail ▸ mem)
    have other : q ≠ p := fun same => notSubmitted idx (same ▸ sub)
    exact ⟨q, idx, by simp [Function.update_of_ne other, sub], rfl⟩
  · intro q idx sub
    obtain ⟨same, sub⟩ := other q idx sub
    simpa [avail] using acc.pending q idx sub
  · simpa [avail] using acc.nodup

theorem start_accounted {write : Bool} {t : VirtioSys P} (acc : s.Accounted) (unused : ∀ i, (s.proc p).uses i = false)
    (run : s.start p write = .running t) : t.Accounted := by
  rcases start_cases s p write with ⟨i0, i1, i2, d, takes, nodup, wereFree, started⟩ |
    ⟨d, free, links, info, avail, started⟩
  · rw [started, Outcome.running.injEq] at run
    exact run ▸ accounted_submit acc unused takes nodup wereFree
  · rw [started, Outcome.running.injEq] at run
    exact run ▸ accounted_wait acc unused free links info avail

theorem accounted_intr {id : Nat} (acc : s.Accounted) (mem : id ∈ s.disk.avail) (info : s.disk.info id = some p) :
    Accounted { s with
      disk := { s.disk with avail := s.disk.avail.erase id }
      bufDisk := Function.update s.bufDisk p false } := by
  obtain ⟨idx, subp, rfl⟩ := acc.owner mem info
  refine ⟨acc.chain, acc.head, acc.apart, acc.free, fun id' mem' => acc.avail id' (List.mem_of_mem_erase mem'),
    fun q idx' sub => ?_, acc.nodup.erase _⟩
  by_cases same : q = p
  · subst same
    rw [subp, Proc.submitted.injEq] at sub
    subst sub
    simp [acc.nodup.not_mem_erase]
  · have other := acc.head_ne subp sub same
    simp [List.mem_erase_of_ne other, Function.update_of_ne same, acc.pending q idx' sub]

theorem accounted_finish {d : Disk P} (acc : s.Accounted) (sub : s.proc p = .submitted idx)
    (done : s.bufDisk p = false)
    (released : ({ s.disk with info := Function.update s.disk.info (first idx) none }).Releases idx d) :
    Accounted { s with disk := d, proc := Function.update s.proc p .idle } := by
  have other : ∀ q idx', Function.update s.proc p .idle q = .submitted idx' →
      q ≠ p ∧ s.proc q = .submitted idx' := fun q idx' sub' => by
    by_cases same : q = p
    · subst same
      simp at sub'
    · simpa [Function.update_of_ne same, same] using sub'
  constructor
  · intro q idx' sub'
    exact (Disk.chain_congr released.links).mpr (acc.chain q idx' (other q idx' sub').2)
  · intro q idx' sub'
    obtain ⟨same, sub'⟩ := other q idx' sub'
    simp [released.info, acc.head_ne sub sub' same, acc.head q idx' sub']
  · intro q q' j used used'
    simp only [uses_update] at used used'
    by_cases same : q = p <;> by_cases same' : q' = p
    · exact same.trans same'.symm
    · simp [same] at used
    · simp [same'] at used'
    · simp only [same, same', if_false] at used used'
      exact acc.apart q q' j used used'
  · intro j below
    rw [released.free]
    simp only [uses_update]
    by_cases mem : j ∈ idx
    · simp only [mem, if_true, true_iff]
      intro q
      by_cases same : q = p
      · simp [same]
      · simp only [same, if_false]
        cases used : (s.proc q).uses j
        · rfl
        · exact absurd (acc.apart q p j used (by simp [sub, mem])) same
    · simp only [mem, if_false]
      rw [acc.free j below]
      constructor
      · intro unheld q
        by_cases same : q = p <;> simp [same, unheld q]
      · intro unheld q
        by_cases same : q = p
        · subst same
          simp [sub, mem]
        · simpa [same] using unheld q
  · intro id mem
    rw [released.avail] at mem
    obtain ⟨q, idx', sub', rfl⟩ := acc.avail id mem
    have differ : q ≠ p := fun same => by
      subst same
      rw [sub, Proc.submitted.injEq] at sub'
      subst sub'
      simp [(acc.pending q idx sub).mp mem] at done
    exact ⟨q, idx', by simp [Function.update_of_ne differ, sub'], rfl⟩
  · intro q idx' sub'
    obtain ⟨same, sub'⟩ := other q idx' sub'
    simpa [released.avail] using acc.pending q idx' sub'
  · simpa [released.avail] using acc.nodup

theorem finish_step (acc : s.Accounted) (sub : s.proc p = .submitted idx) (done : s.bufDisk p = false) :
    ∃ t, s.step (.finish p) = some (.running t) ∧ t.proc p = .idle ∧
      ∀ j, t.disk.free j = if j ∈ idx then true else s.disk.free j := by
  obtain ⟨d, freed, released⟩ := finish_frees acc sub
  refine ⟨{ s with disk := d, proc := Function.update s.proc p .idle }, ?_, by simp, released.free⟩
  delta step
  dsimp only
  simp only [sub, done, freed, Bool.false_eq_true, if_false]

theorem start_running (s : VirtioSys P) (p : P) (write : Bool) : ∃ t, s.start p write = .running t := by
  rcases start_cases s p write with ⟨_, _, _, _, _, _, _, started⟩ | ⟨_, _, _, _, _, started⟩
  · exact ⟨_, started⟩
  · exact ⟨_, started⟩

end VirtioSys

open VirtioSys

variable {P : Type} [DecidableEq P]

theorem accounted : (virtio P).Invariant Accounted where
  init := accounted_init
  step := by
    intro s t event acc run
    change s.step event = some (.running t) at run
    cases event with
    | rw p write =>
      delta step at run
      dsimp only at run
      split_ifs at run with idle
      exact start_accounted acc (by simp [idle]) (Option.some.inj run)
    | retry p =>
      delta step at run
      dsimp only at run
      split at run
      · rename_i write waiting
        exact start_accounted acc (by simp [waiting]) (Option.some.inj run)
      · cases run
    | intr id =>
      delta step at run
      dsimp only at run
      split_ifs at run with mem
      split at run
      · rename_i p info
        rw [Option.some.injEq, Outcome.running.injEq] at run
        exact run ▸ accounted_intr acc mem info
      · cases run
    | finish p =>
      delta step at run
      dsimp only at run
      split at run
      · rename_i idx sub
        split_ifs at run with busy
        obtain ⟨d, freed, released⟩ := finish_frees acc sub
        rw [freed, Option.some.injEq, Outcome.running.injEq] at run
        exact run ▸ accounted_finish acc sub (by simpa using busy) released
      · cases run

/-- No run of the driver panics: `free_desc` is never handed a free descriptor
or one outside the ring, and `virtio_disk_intr` never meets a head without a
buffer. -/
theorem never_panics (message : String) : ¬ (virtio P).CanPanic message := by
  refine accounted.not_canPanic fun s event acc stop => ?_
  change s.step event = some (.panicked message) at stop
  cases event with
  | rw p write =>
    delta step at stop
    dsimp only at stop
    split_ifs at stop
    obtain ⟨t, started⟩ := start_running s p write
    simp [started] at stop
  | retry p =>
    delta step at stop
    dsimp only at stop
    split at stop
    · rename_i write _
      obtain ⟨t, started⟩ := start_running s p write
      simp [started] at stop
    · cases stop
  | intr id =>
    delta step at stop
    dsimp only at stop
    split_ifs at stop with mem
    split at stop
    · cases stop
    · rename_i missing
      obtain ⟨q, idx, sub, rfl⟩ := acc.avail id mem
      simp [acc.head q idx sub] at missing
  | finish p =>
    delta step at stop
    dsimp only at stop
    split at stop
    · rename_i idx sub
      split_ifs at stop
      obtain ⟨d, freed, -⟩ := finish_frees acc sub
      simp [freed] at stop
    · cases stop

/-- The descriptor accounting of `virtio_disk.c` in every state the driver
reaches: (1) each request in flight holds three distinct descriptors of the
ring chained `idx[0] → idx[1] → idx[2]` with `VRING_DESC_F_NEXT` on the first
two only, and no descriptor is held twice; (2) `free[i]` is set exactly for the
descriptors of the ring no request holds; (3) `alloc3_desc`, from any disk,
takes three free descriptors and returns `0`, or returns `-1` with `free[]` as
it was; (4) once the device has reported a request, its `free_chain` returns
and frees exactly its three descriptors. -/
theorem descriptors_accounted {s : VirtioSys P} (reach : (virtio P).Reachable s) :
    (∀ p idx, s.proc p = .submitted idx → s.disk.Chain idx) ∧
      (∀ p q i, (s.proc p).uses i → (s.proc q).uses i → p = q) ∧
      (∀ i < num, s.disk.free i = true ↔ ∀ p, (s.proc p).uses i = false) ∧
      (∀ d : Disk P,
        (∃ idx d', d.alloc3Desc = .ok (some idx, d') ∧ idx.length = 3 ∧ idx.Nodup ∧
          (∀ i ∈ idx, i ∈ d.freeSet) ∧ d.Takes idx d') ∨
        (∃ d', d.alloc3Desc = .ok (none, d') ∧ d'.free = d.free)) ∧
      (∀ p idx, s.proc p = .submitted idx → s.bufDisk p = false →
        ∃ t, (virtio P).step s (.finish p) = some (.running t) ∧ t.proc p = .idle ∧
          ∀ j, t.disk.free j = if j ∈ idx then true else s.disk.free j) := by
  have acc := accounted.holds reach
  refine ⟨acc.chain, acc.apart, acc.free, fun d => ?_, fun p idx sub done => finish_step acc sub done⟩
  rcases d.alloc3Desc_spec with ⟨-, i0, i1, i2, d', alloc, takes, nodup, free⟩ | ⟨-, d', alloc, free, -⟩
  · exact .inl ⟨[i0, i1, i2], d', alloc, rfl, nodup, free, takes⟩
  · exact .inr ⟨d', alloc, free⟩

/-- Eight descriptors at three a request: at most two requests are in flight at
once, and while two are, a third `virtio_disk_rw` finds fewer than three free
descriptors and sleeps on `free[0]`, leaving the descriptors as they were. -/
theorem two_in_flight {s : VirtioSys P} (reach : (virtio P).Reachable s) :
    (∀ p q r a b c, s.proc p = .submitted a → s.proc q = .submitted b → s.proc r = .submitted c →
      p = q ∨ q = r ∨ p = r) ∧
    ∀ p q r a b (write : Bool), p ≠ q → s.proc p = .submitted a → s.proc q = .submitted b →
      s.proc r = .idle → ∃ d, (virtio P).step s (.rw r write) =
          some (.running { s with disk := d, proc := Function.update s.proc r (.waiting write) }) ∧
        d.free = s.disk.free ∧ d.links = s.disk.links ∧ d.info = s.disk.info ∧ d.avail = s.disk.avail := by
  have acc := accounted.holds reach
  refine ⟨fun p q r a b c subP subQ subR => ?_, fun p q r a b write other subP subQ idle => ?_⟩
  · by_contra distinct
    simp only [not_or] at distinct
    obtain ⟨pq, qr, pr⟩ := distinct
    obtain ⟨lenA, nodupA, ringA⟩ := acc.three subP
    obtain ⟨lenB, nodupB, ringB⟩ := acc.three subQ
    obtain ⟨lenC, nodupC, ringC⟩ := acc.three subR
    have nodup : (a ++ b ++ c).Nodup := by
      refine List.nodup_append.mpr ⟨List.nodup_append.mpr ⟨nodupA, nodupB, acc.disjoint pq subP subQ⟩, nodupC, ?_⟩
      intro i mem j mem'
      rcases List.mem_append.mp mem with inA | inB
      · exact acc.disjoint pr subP subR i inA j mem'
      · exact acc.disjoint qr subQ subR i inB j mem'
    have inside : (a ++ b ++ c).toFinset ⊆ Finset.range num := by
      intro i mem
      simp only [List.mem_toFinset, List.mem_append] at mem
      rw [Finset.mem_range]
      rcases mem with (inA | inB) | inC
      · exact ringA i inA
      · exact ringB i inB
      · exact ringC i inC
    have count := Finset.card_le_card inside
    rw [List.toFinset_card_of_nodup nodup, Finset.card_range] at count
    simp [lenA, lenB, lenC, num] at count
  · rcases s.disk.alloc3Desc_spec with ⟨enough, -⟩ | ⟨-, d, alloc, free, links, info, avail⟩
    · exact absurd enough (Nat.not_le_of_lt (acc.freeSet_card_lt other subP subQ))
    · refine ⟨d, ?_, free, links, info, avail⟩
      simp [virtio, step, idle, start, alloc]

section Scenario

attribute [local instance] neZero_two neZero_three

/-- Process `0` reads, process `1` writes, and the device reports the read. -/
def twoRequestsEvents : List (Event (Fin 2)) := [.rw 0 false, .rw 1 true, .intr 0]

def twoRequestsState : VirtioSys (Fin 2) :=
  match (virtio (Fin 2)).runFrom (virtio (Fin 2)).init twoRequestsEvents with
  | some (.running s) => s
  | _ => (virtio (Fin 2)).init

theorem twoRequestsState_reachable : (virtio (Fin 2)).Reachable twoRequestsState :=
  System.runFrom_reachable System.Reachable.init twoRequestsEvents (by rfl)

/-- The read holds descriptors `0, 1, 2` and the write `3, 4, 5`; the read's
`free_chain` frees `0, 1, 2` and leaves the write's descriptors taken. -/
theorem descriptors_accounted_twoRequests :
    twoRequestsState.disk.Chain [0, 1, 2] ∧ twoRequestsState.disk.Chain [3, 4, 5] ∧
      ∃ t, (virtio (Fin 2)).step twoRequestsState (.finish 0) = some (.running t) ∧
        (∀ j ∈ [0, 1, 2], t.disk.free j = true) ∧ ∀ j ∈ [3, 4, 5], t.disk.free j = false := by
  obtain ⟨chain, -, -, -, finish⟩ := descriptors_accounted twoRequestsState_reachable
  have read : twoRequestsState.proc 0 = .submitted [0, 1, 2] := by rfl
  have write : twoRequestsState.proc 1 = .submitted [3, 4, 5] := by rfl
  obtain ⟨t, step, -, freed⟩ := finish 0 [0, 1, 2] read (by rfl)
  refine ⟨chain 0 _ read, chain 1 _ write, t, step, fun j mem => by simp [freed j, mem], fun j mem => ?_⟩
  simp only [List.mem_cons, List.not_mem_nil, or_false] at mem
  rcases mem with rfl | rfl | rfl <;> rw [freed] <;> rfl

/-- A third process beside the two requests of `twoInFlightState`. -/
def twoInFlightState : VirtioSys (Fin 3) :=
  match (virtio (Fin 3)).runFrom (virtio (Fin 3)).init [.rw 0 false, .rw 1 true] with
  | some (.running s) => s
  | _ => (virtio (Fin 3)).init

theorem twoInFlightState_reachable : (virtio (Fin 3)).Reachable twoInFlightState :=
  System.runFrom_reachable System.Reachable.init [.rw 0 false, .rw 1 true] (by rfl)

/-- With the read on `0, 1, 2` and the write on `3, 4, 5` in flight, process
`2`'s read sleeps on `free[0]` with the two free descriptors left free. -/
theorem two_in_flight_third :
    ∃ d, (virtio (Fin 3)).step twoInFlightState (.rw 2 false) =
        some (.running { twoInFlightState with
          disk := d, proc := Function.update twoInFlightState.proc 2 (.waiting false) }) ∧
      d.free = twoInFlightState.disk.free := by
  obtain ⟨-, third⟩ := two_in_flight twoInFlightState_reachable
  obtain ⟨d, step, free, -⟩ := third 0 1 2 [0, 1, 2] [3, 4, 5] false (by decide) (by rfl) (by rfl) (by rfl)
  exact ⟨d, step, free⟩

end Scenario

end Xv6.Virtio
