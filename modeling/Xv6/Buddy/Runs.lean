import Mathlib
import Xv6.Lib.Run
import Xv6.Buddy.Calls

/-! A client of the buddy allocator: any sequence of `bd_malloc(n)` calls, and
of `bd_free(p)` calls on blocks it holds, from an allocator whose tree is well
formed and holds at least one block reserved for the allocator's own metadata,
as `bd_init` leaves it. Over every run the blocks handed out whole are exactly
the reserved ones and the ones the client holds. From that: every byte of the
heap lies in exactly one block that is free, reserved or held; each held block
has the bytes asked for and overlaps no other; `size(p)` finds the size each
held block was handed out at; and `bd_malloc` returns `0` exactly when no free
list from `firstk(n)` up has a block. -/


namespace Xv6.Buddy

open Lib Lib.Dyadic Bd

/-- What the client sees: the allocator, and the blocks `bd_malloc` returned that
it has not passed to `bd_free`, each with the size asked for. -/
structure Client where
  bd : Bd
  held : List (Nat × UInt64)

/-- The allocator's two calls. -/
inductive Call where
  | malloc (nbytes : UInt64)
  | free (p : Nat)

namespace Client

/-- One call. `bd_malloc` may not return (`firstk`'s loop, for requests above
`2^63`); `bd_free` is called only on a block the client holds. -/
def step (h : Client) : Call → Option (Outcome Client)
  | .malloc nbytes =>
    match h.bd.bdMalloc nbytes with
    | none => none
    | some (p, bd) => some (.running ⟨bd, if p = 0 then h.held else (p, nbytes) :: h.held⟩)
  | .free p =>
    if p ∈ h.held.map Prod.fst then some (.running ⟨h.bd.bdFree p, h.held.filter fun e => e.1 != p⟩)
    else none

end Client

/-- Runs of a client from the allocator `bd₀`. -/
def client (bd₀ : Bd) : System Client Call :=
  ⟨⟨bd₀, []⟩, Client.step⟩

/-- What the runs start from: a well-formed allocator (no two buddies free) over a
heap that does not start at address `0`, with at least one block reserved. -/
structure Start (bd₀ : Bd) : Prop where
  wf : bd₀.Wf
  based : 0 < bd₀.base
  reserved : ∃ k c, bd₀.AllocLeaf k c

namespace Client

/-- The client holds block `c` of size `k`: its address, asked for with a size
that `firstk` maps to `k`. -/
def Holds (h : Client) (k c : Nat) : Prop :=
  ∃ n, (h.bd.addr k c, n) ∈ h.held ∧ firstk n = some k

variable {bd₀ : Bd} {h : Client} {n : UInt64} {p k c : Nat}

/-- The invariant over runs: the tree stays well formed over the same heap, the
blocks handed out whole are the reserved ones and the held ones, no held block
is reserved, and each held address is a block's, held once. -/
structure Tracked (bd₀ : Bd) (h : Client) : Prop where
  heap : SameHeap bd₀ h.bd
  wf : h.bd.Wf
  based : 0 < h.bd.base
  leaves : ∀ k c, h.bd.AllocLeaf k c ↔ bd₀.AllocLeaf k c ∨ h.Holds k c
  fresh : ∀ k c, h.Holds k c → ¬ bd₀.AllocLeaf k c
  held_block : ∀ e ∈ h.held, ∃ k c, e.1 = h.bd.addr k c ∧ firstk e.2 = some k
  nodup : (h.held.map Prod.fst).Nodup

theorem Tracked.init (start : Start bd₀) : Tracked bd₀ ⟨bd₀, []⟩ where
  heap := .refl bd₀
  wf := start.wf
  based := start.based
  leaves k c := by simp [Holds]
  fresh k c held := by simp [Holds] at held
  held_block e mem := by simp at mem
  nodup := List.nodup_nil

theorem Tracked.holds_below (start : Start bd₀) (inv : Tracked bd₀ h) (holds : h.Holds k c) :
    k < h.bd.maxsize := by
  obtain ⟨kr, cr, reserved⟩ := start.reserved
  have leaf := (inv.leaves k c).mpr (.inr holds)
  have leafR := (inv.leaves kr cr).mpr (.inl reserved)
  have other : k ≠ kr ∨ c ≠ cr := by
    by_contra same
    obtain ⟨rfl, rfl⟩ := not_or.mp same |>.imp not_not.mp not_not.mp
    exact inv.fresh k c holds reserved
  exact InTree.below_top leaf.present leaf.unsplit leafR.present other

theorem Tracked.holds_of_mem (inv : Tracked bd₀ h) (mem : (p, n) ∈ h.held) :
    ∃ k c, p = h.bd.addr k c ∧ firstk n = some k ∧ h.Holds k c := by
  obtain ⟨k, c, placed, fits⟩ := inv.held_block _ mem
  exact ⟨k, c, placed, fits, n, placed ▸ mem, fits⟩

theorem Tracked.malloc {bd : Bd} (inv : Tracked bd₀ h) (call : h.bd.bdMalloc n = some (p, bd)) :
    Tracked bd₀ ⟨bd, if p = 0 then h.held else (p, n) :: h.held⟩ := by
  obtain ⟨fk, fits⟩ := bdMalloc_firstk call
  rcases inv.wf.bdMalloc fits with ⟨failed, -⟩ | ⟨c, t, ok, heapT, wfT, fresh, leavesT⟩
  · rw [failed] at call
    obtain ⟨rfl, rfl⟩ := Prod.mk.inj (Option.some.inj call)
    rw [if_pos rfl]
    exact inv
  · rw [ok] at call
    obtain ⟨rfl, rfl⟩ := Prod.mk.inj (Option.some.inj call)
    have positive : h.bd.addr fk c ≠ 0 := by
      have := inv.based
      rw [addr_eq]
      omega
    rw [if_neg positive]
    have holdsT : ∀ j x, Holds ⟨t, (h.bd.addr fk c, n) :: h.held⟩ j x ↔ h.Holds j x ∨ (j = fk ∧ x = c) := by
      intro j x
      simp only [Holds, heapT.addr, List.mem_cons, Prod.mk.injEq]
      constructor
      · rintro ⟨n', ⟨same, rfl⟩ | mem, fits'⟩
        · have level : j = fk := Option.some.inj (fits'.symm.trans fits)
          subst level
          exact .inr ⟨rfl, h.bd.addr_inj same⟩
        · exact .inl ⟨n', mem, fits'⟩
      · rintro (⟨n', mem, fits'⟩ | ⟨rfl, rfl⟩)
        · exact ⟨n', .inr mem, fits'⟩
        · exact ⟨n, .inl ⟨rfl, rfl⟩, fits⟩
    have notReserved : ¬ bd₀.AllocLeaf fk c := fun reserved => fresh ((inv.leaves fk c).mpr (.inl reserved))
    refine ⟨inv.heap.trans heapT, wfT, heapT.base ▸ inv.based, fun j x => ?_, fun j x holds => ?_, ?_, ?_⟩
    · rw [leavesT, inv.leaves, holdsT, or_assoc]
    · rcases (holdsT j x).mp holds with holds | ⟨rfl, rfl⟩
      · exact inv.fresh j x holds
      · exact notReserved
    · intro e mem
      rcases List.mem_cons.mp mem with rfl | mem
      · exact ⟨fk, c, by rw [heapT.addr], fits⟩
      · obtain ⟨k, c', placed, fits'⟩ := inv.held_block e mem
        exact ⟨k, c', by rw [heapT.addr]; exact placed, fits'⟩
    · refine List.nodup_cons.mpr ⟨fun mem => ?_, inv.nodup⟩
      obtain ⟨⟨q, n'⟩, mem, same⟩ := List.mem_map.mp mem
      obtain ⟨k', c', placed, -, holds⟩ := inv.holds_of_mem mem
      have leafOld := (leavesT k' c').mpr (.inl ((inv.leaves k' c').mpr (.inr holds)))
      have leafNew := (leavesT fk c).mpr (.inr ⟨rfl, rfl⟩)
      obtain ⟨rfl, rfl⟩ := leafNew.eq_of_addr leafOld (by rw [heapT.addr, ← placed]; exact same.symm)
      exact fresh ((inv.leaves fk c).mpr (.inr holds))

theorem Tracked.free (start : Start bd₀) (inv : Tracked bd₀ h) (held : p ∈ h.held.map Prod.fst) :
    Tracked bd₀ ⟨h.bd.bdFree p, h.held.filter fun e => e.1 != p⟩ := by
  obtain ⟨⟨q, n⟩, mem, rfl⟩ := List.mem_map.mp held
  obtain ⟨k, c, rfl, -, holds⟩ := inv.holds_of_mem mem
  have leaf := (inv.leaves k c).mpr (.inr holds)
  have notReserved := inv.fresh k c holds
  obtain ⟨heapT, wfT, leavesT⟩ := inv.wf.bdFree leaf (inv.holds_below start holds)
  have holdsT : ∀ j x, Holds ⟨h.bd.bdFree (h.bd.addr k c), h.held.filter fun e => e.1 != h.bd.addr k c⟩ j x ↔
      h.Holds j x ∧ ¬ (j = k ∧ x = c) := by
    intro j x
    simp only [Holds, heapT.addr, List.mem_filter, bne_iff_ne, ne_eq]
    constructor
    · rintro ⟨n', ⟨mem', other⟩, fits'⟩
      exact ⟨⟨n', mem', fits'⟩, fun taken => other (by rw [taken.1, taken.2])⟩
    · rintro ⟨⟨n', mem', fits'⟩, other⟩
      refine ⟨n', ⟨mem', fun same => other ?_⟩, fits'⟩
      exact ((inv.leaves j x).mpr (.inr ⟨n', mem', fits'⟩)).eq_of_addr leaf same
  refine ⟨inv.heap.trans heapT, wfT, heapT.base ▸ inv.based, fun j x => ?_,
    fun j x holds' => inv.fresh j x ((holdsT j x).mp holds').1, ?_, ?_⟩
  · rw [leavesT, inv.leaves, holdsT]
    constructor
    · rintro ⟨reserved | holds', other⟩
      · exact .inl reserved
      · exact .inr ⟨holds', other⟩
    · rintro (reserved | ⟨holds', other⟩)
      · exact ⟨.inl reserved, fun taken => notReserved (taken.1 ▸ taken.2 ▸ reserved)⟩
      · exact ⟨.inr holds', other⟩
  · intro e mem'
    obtain ⟨k', c', placed, fits'⟩ := inv.held_block e (List.mem_filter.mp mem').1
    exact ⟨k', c', by rw [heapT.addr]; exact placed, fits'⟩
  · exact inv.nodup.sublist ((List.filter_sublist).map _)

theorem step_malloc {t : Client} (step : h.step (.malloc n) = some (.running t)) :
    ∃ p bd, h.bd.bdMalloc n = some (p, bd) ∧ t = ⟨bd, if p = 0 then h.held else (p, n) :: h.held⟩ := by
  unfold Client.step at step
  cases call : h.bd.bdMalloc n with
  | none => simp [call] at step
  | some r =>
    obtain ⟨p, bd⟩ := r
    simp only [call, Option.some.injEq, Outcome.running.injEq] at step
    exact ⟨p, bd, rfl, step.symm⟩

theorem step_free {t : Client} (step : h.step (.free p) = some (.running t)) :
    p ∈ h.held.map Prod.fst ∧ t = ⟨h.bd.bdFree p, h.held.filter fun e => e.1 != p⟩ := by
  unfold Client.step at step
  by_cases held : p ∈ h.held.map Prod.fst
  · simp only [held, if_true, Option.some.injEq, Outcome.running.injEq] at step
    exact ⟨held, step.symm⟩
  · simp [held] at step

end Client

open Client

theorem tracked {bd₀ : Bd} (start : Start bd₀) : (client bd₀).Invariant (Tracked bd₀) where
  init := Tracked.init start
  step := by
    intro h t call inv step
    cases call with
    | malloc n =>
      obtain ⟨p, bd, result, rfl⟩ := step_malloc step
      exact inv.malloc result
    | free p =>
      obtain ⟨held, rfl⟩ := step_free step
      exact inv.free start held

/-! ### A small heap

The runs the results below are shown on: a heap of two leaves at address `64`
under one split top, the first reserved for the allocator and the second free,
and the client after one `bd_malloc(16)`. -/

def smallHeap : Bd where
  nsizes := 2
  base := 64
  free k := if k = 0 then [80] else []
  alloc k c := (k == 1 && c == 0) || (k == 0 && c == 0)
  split k c := k == 1 && c == 0

theorem smallHeap_present {k c : Nat} : smallHeap.Present k c ↔ (k = 1 ∧ c = 0) ∨ (k = 0 ∧ c < 2) := by
  unfold Present InTree
  rw [show smallHeap.maxsize = 1 from rfl]
  constructor
  · rintro ⟨le, bound, -⟩
    rcases Nat.le_one_iff_eq_zero_or_eq_one.mp le with rfl | rfl
    · exact .inr ⟨rfl, by simpa using bound⟩
    · exact .inl ⟨rfl, by simpa using bound⟩
  · rintro (⟨rfl, rfl⟩ | ⟨rfl, bound⟩)
    · exact ⟨le_refl 1, by decide, fun j higher top => by omega⟩
    · refine ⟨by decide, by simpa using bound, fun j higher top => ?_⟩
      obtain rfl : j = 1 := by omega
      have : c / 2 = 0 := by omega
      simp [smallHeap, this]

theorem smallHeap_start : Start smallHeap where
  wf := {
    sizes := by decide
    split_present := fun k c split => by
      simp [smallHeap] at split
      obtain ⟨rfl, rfl⟩ := split
      exact ⟨by decide, smallHeap_present.mpr (.inl ⟨rfl, rfl⟩)⟩
    alloc_present := fun k c alloc => by
      simp [smallHeap] at alloc
      rcases alloc with ⟨rfl, rfl⟩ | ⟨rfl, rfl⟩
      · exact smallHeap_present.mpr (.inl ⟨rfl, rfl⟩)
      · exact smallHeap_present.mpr (.inr ⟨rfl, by decide⟩)
    split_alloc := fun k c split => by
      simp [smallHeap] at split ⊢
      exact .inl split
    free_nodup := fun k => by
      simp only [smallHeap]
      split <;> simp
    free_leaf := fun k p mem => by
      simp only [smallHeap] at mem
      split at mem
      · rename_i level
        subst level
        simp at mem
        subst mem
        exact ⟨1, rfl, smallHeap_present.mpr (.inr ⟨rfl, by decide⟩), rfl, fun _ => rfl⟩
      · simp at mem
    leaf_free := fun k c present unsplit below clear => by
      have level : k = 0 := by
        have : smallHeap.maxsize = 1 := rfl
        omega
      subst level
      rcases smallHeap_present.mp present with ⟨top, -⟩ | ⟨-, bound⟩
      · cases top
      · have : c = 1 := by
          simp [smallHeap] at clear
          omega
        subst this
        decide
    coalesced := fun k c mem mem' => by
      simp only [smallHeap] at mem mem'
      split at mem
      · rename_i level
        subst level
        simp [Bd.addr, blkSize, leafSize] at mem mem'
        have : c = 1 := by omega
        subst this
        simp [sibling] at mem'
      · simp at mem }
  based := by decide
  reserved := ⟨0, 0, smallHeap_present.mpr (.inr ⟨rfl, by decide⟩), rfl, rfl, by decide⟩

/-- The client after one `bd_malloc(16)` from `smallHeap`. -/
def heldOnce : Client :=
  match (client smallHeap).runFrom ⟨smallHeap, []⟩ [.malloc 16] with
  | some (.running h) => h
  | _ => ⟨smallHeap, []⟩

theorem heldOnce_reachable : (client smallHeap).Reachable heldOnce :=
  System.runFrom_reachable System.Reachable.init [.malloc 16] (by rfl)

/-- The client after `bd_malloc(16)` and `bd_free` of the block it got. -/
def freedOnce : Client :=
  match (client smallHeap).runFrom ⟨smallHeap, []⟩ [.malloc 16, .free 80] with
  | some (.running h) => h
  | _ => ⟨smallHeap, []⟩

theorem freedOnce_reachable : (client smallHeap).Reachable freedOnce :=
  System.runFrom_reachable System.Reachable.init [.malloc 16, .free 80] (by rfl)

section Runs

variable {bd₀ : Bd} {h : Client} {n : UInt64} {p fk : Nat}

/-- In every reachable state the tree is well formed over the same heap; the
blocks it hands out whole are exactly the reserved ones and the ones the client
holds; no held block is reserved; and the client holds each address once. -/
theorem tree_tracks_client (start : Start bd₀) (reach : (client bd₀).Reachable h) :
    h.bd.Wf ∧ SameHeap bd₀ h.bd ∧ (∀ k c, h.bd.AllocLeaf k c ↔ bd₀.AllocLeaf k c ∨ h.Holds k c) ∧
      (∀ k c, h.Holds k c → ¬ bd₀.AllocLeaf k c) ∧ (h.held.map Prod.fst).Nodup := by
  have inv := (tracked start).holds reach
  exact ⟨inv.wf, inv.heap, inv.leaves, inv.fresh, inv.nodup⟩

theorem tree_tracks_client_heldOnce :
    heldOnce.bd.Wf ∧ SameHeap smallHeap heldOnce.bd ∧
      (∀ k c, heldOnce.bd.AllocLeaf k c ↔ smallHeap.AllocLeaf k c ∨ heldOnce.Holds k c) ∧
      (∀ k c, heldOnce.Holds k c → ¬ smallHeap.AllocLeaf k c) ∧ (heldOnce.held.map Prod.fst).Nodup :=
  tree_tracks_client smallHeap_start heldOnce_reachable

/-- Every byte of the heap lies in exactly one block that is on a free list,
reserved, or held by the client: no byte is lost, and none is in two blocks. -/
theorem heap_tiled (start : Start bd₀) (reach : (client bd₀).Reachable h) {a : Nat}
    (low : bd₀.base ≤ a) (high : a < bd₀.base + blkSize bd₀.maxsize) :
    ∃! b : Nat × Nat, h.bd.addr b.1 b.2 ≤ a ∧ a < h.bd.addr b.1 b.2 + blkSize b.1 ∧
      (h.bd.addr b.1 b.2 ∈ h.bd.free b.1 ∨ bd₀.AllocLeaf b.1 b.2 ∨ h.Holds b.1 b.2) := by
  have inv := (tracked start).holds reach
  have leafOf : ∀ k c, (h.bd.addr k c ∈ h.bd.free k ∨ bd₀.AllocLeaf k c ∨ h.Holds k c) →
      h.bd.Present k c ∧ h.bd.split k c = false := by
    rintro k c (free | owned)
    · exact ⟨(inv.wf.mem_free free).1, (inv.wf.mem_free free).2.1⟩
    · have leaf := (inv.leaves k c).mpr owned
      exact ⟨leaf.present, leaf.unsplit⟩
  rw [← inv.heap.base] at low
  rw [← inv.heap.base, ← inv.heap.maxsize] at high
  obtain ⟨k, c, present, unsplit, lo, hi⟩ := inv.wf.covers low high
  refine ⟨(k, c), ⟨lo, hi, ?_⟩, ?_⟩
  · by_cases leaf : h.bd.AllocLeaf k c
    · exact .inr ((inv.leaves k c).mp leaf)
    by_cases onList : h.bd.addr k c ∈ h.bd.free k
    · exact .inl onList
    have clear : h.bd.alloc k c = false := by
      cases marked : h.bd.alloc k c
      · rfl
      · exact absurd ⟨present, unsplit, marked, onList⟩ leaf
    have below : k < h.bd.maxsize := by
      obtain ⟨kr, cr, reserved⟩ := start.reserved
      have leafR := (inv.leaves kr cr).mpr (.inl reserved)
      refine InTree.below_top present unsplit leafR.present ?_
      by_contra same
      obtain ⟨rfl, rfl⟩ : k = kr ∧ c = cr := by omega
      exact leaf leafR
    exact .inl (inv.wf.leaf_free k c present unsplit below clear)
  · rintro ⟨k', c'⟩ ⟨lo', hi', kind⟩
    dsimp only at lo' hi' kind
    obtain ⟨present', unsplit'⟩ := leafOf k' c' kind
    by_contra other
    have other' : k' ≠ k ∨ c' ≠ c := by
      by_contra same
      exact other (by simp only [not_or, not_not] at same; rw [same.1, same.2])
    rcases leaves_apart present' unsplit' present unsplit other' with apart | apart <;> omega

theorem heap_tiled_heldOnce :
    smallHeap.base ≤ 72 ∧ 72 < smallHeap.base + blkSize smallHeap.maxsize ∧
      ∃! b : Nat × Nat, heldOnce.bd.addr b.1 b.2 ≤ 72 ∧ 72 < heldOnce.bd.addr b.1 b.2 + blkSize b.1 ∧
        (heldOnce.bd.addr b.1 b.2 ∈ heldOnce.bd.free b.1 ∨ smallHeap.AllocLeaf b.1 b.2 ∨ heldOnce.Holds b.1 b.2) :=
  ⟨by decide, by decide, heap_tiled smallHeap_start heldOnce_reachable (by decide) (by decide)⟩

/-- Each block the client holds has at least the bytes asked for, lies in the
heap, and overlaps neither a reserved block nor any other held block. -/
theorem held_apart (start : Start bd₀) (reach : (client bd₀).Reachable h) (held : (p, n) ∈ h.held) :
    ∃ k, firstk n = some k ∧ n.toNat ≤ blkSize k ∧ bd₀.base ≤ p ∧ p + blkSize k ≤ bd₀.base + blkSize bd₀.maxsize ∧
      (∀ kr cr, bd₀.AllocLeaf kr cr → p + blkSize k ≤ bd₀.addr kr cr ∨ bd₀.addr kr cr + blkSize kr ≤ p) ∧
      ∀ p' n', (p', n') ∈ h.held → p' ≠ p →
        ∃ k', firstk n' = some k' ∧ (p + blkSize k ≤ p' ∨ p' + blkSize k' ≤ p) := by
  have inv := (tracked start).holds reach
  obtain ⟨k, c, rfl, fits, holds⟩ := inv.holds_of_mem held
  have leaf := (inv.leaves k c).mpr (.inr holds)
  refine ⟨k, fits, firstk_fits fits, ?_, ?_, fun kr cr reserved => ?_, fun p' n' held' other => ?_⟩
  · rw [← inv.heap.base, addr_eq]
    omega
  · rw [← inv.heap.base, ← inv.heap.maxsize]
    exact leaf.present.end_le
  · have leafR := (inv.leaves kr cr).mpr (.inl reserved)
    have apart : k ≠ kr ∨ c ≠ cr := by
      by_contra same
      obtain ⟨rfl, rfl⟩ : k = kr ∧ c = cr := by omega
      exact inv.fresh k c holds reserved
    rw [← inv.heap.addr]
    exact leaves_apart leaf.present leaf.unsplit leafR.present leafR.unsplit apart
  · obtain ⟨k', c', rfl, fits', holds'⟩ := inv.holds_of_mem held'
    have leaf' := (inv.leaves k' c').mpr (.inr holds')
    have apart : k ≠ k' ∨ c ≠ c' := by
      by_contra same
      obtain ⟨rfl, rfl⟩ : k = k' ∧ c = c' := by omega
      exact other rfl
    exact ⟨k', fits', leaves_apart leaf.present leaf.unsplit leaf'.present leaf'.unsplit apart⟩

theorem held_apart_heldOnce :
    (80, (16 : UInt64)) ∈ heldOnce.held ∧
      ∃ k, firstk 16 = some k ∧ (16 : UInt64).toNat ≤ blkSize k ∧ smallHeap.base ≤ 80 ∧
        80 + blkSize k ≤ smallHeap.base + blkSize smallHeap.maxsize ∧
        (∀ kr cr, smallHeap.AllocLeaf kr cr → 80 + blkSize k ≤ smallHeap.addr kr cr ∨
          smallHeap.addr kr cr + blkSize kr ≤ 80) ∧
        ∀ p' n', (p', n') ∈ heldOnce.held → p' ≠ 80 →
          ∃ k', firstk n' = some k' ∧ (80 + blkSize k ≤ p' ∨ p' + blkSize k' ≤ 80) :=
  ⟨by decide, held_apart smallHeap_start heldOnce_reachable (by decide)⟩

/-- `size(p)` of a held block is the size `firstk` gave its request, below the
top: `bd_free` starts from the block handed out, and `size` reads no size past
the last. -/
theorem size_held (start : Start bd₀) (reach : (client bd₀).Reachable h) (held : (p, n) ∈ h.held) :
    firstk n = some (h.bd.size p) ∧ h.bd.size p < h.bd.maxsize := by
  have inv := (tracked start).holds reach
  obtain ⟨k, c, rfl, fits, holds⟩ := inv.holds_of_mem held
  have leaf := (inv.leaves k c).mpr (.inr holds)
  have below := inv.holds_below start holds
  rw [inv.wf.size_addr leaf.present leaf.unsplit below]
  exact ⟨fits, below⟩

theorem size_held_heldOnce :
    (80, (16 : UInt64)) ∈ heldOnce.held ∧ firstk 16 = some (heldOnce.bd.size 80) ∧
      heldOnce.bd.size 80 < heldOnce.bd.maxsize :=
  ⟨by decide, size_held smallHeap_start heldOnce_reachable (by decide)⟩

/-- From every reachable state `bd_malloc(n)` returns `0` exactly when every
free list from `firstk(n)` up is empty. -/
theorem malloc_zero_iff (start : Start bd₀) (reach : (client bd₀).Reachable h) {bd : Bd}
    (call : h.bd.bdMalloc n = some (p, bd)) (fits : firstk n = some fk) :
    p = 0 ↔ ∀ k, fk ≤ k → k < h.bd.nsizes → h.bd.free k = [] := by
  have inv := (tracked start).holds reach
  constructor
  · intro zero
    rcases inv.wf.bdMalloc fits with ⟨-, empty⟩ | ⟨c, t, ok, -⟩
    · exact empty
    · rw [ok] at call
      obtain ⟨placed, -⟩ := Prod.mk.inj (Option.some.inj call)
      have := inv.based
      rw [← placed, addr_eq] at zero
      omega
  · intro empty
    have none := firstFree_of_empty empty
    simp [Bd.bdMalloc, fits, none] at call
    exact call.1.symm

theorem malloc_zero_iff_smallHeap :
    smallHeap.bdMalloc 16 = some (80, heldOnce.bd) ∧
      (80 = 0 ↔ ∀ k, 0 ≤ k → k < smallHeap.nsizes → smallHeap.free k = []) :=
  ⟨by rfl, malloc_zero_iff smallHeap_start System.Reachable.init
    (show smallHeap.bdMalloc 16 = some (80, heldOnce.bd) by rfl) (show firstk 16 = some 0 by rfl)⟩

/-- Once the client has freed every block it held, the allocator is back where
it started: the same `split` and `alloc` bits, and the same blocks on each free
list, whatever the order of the calls. -/
theorem coalescing_complete (start : Start bd₀) (reach : (client bd₀).Reachable h) (none : h.held = []) :
    h.bd.split = bd₀.split ∧ h.bd.alloc = bd₀.alloc ∧ ∀ k q, q ∈ h.bd.free k ↔ q ∈ bd₀.free k := by
  have inv := (tracked start).holds reach
  obtain ⟨i, y, reserved⟩ := start.reserved
  have same : ∀ k c, h.bd.AllocLeaf k c ↔ bd₀.AllocLeaf k c := by
    intro k c
    rw [inv.leaves]
    simp [Holds, none]
  exact start.wf.determined inv.wf inv.heap reserved same

theorem coalescing_complete_freedOnce :
    freedOnce.held = [] ∧ freedOnce.bd.split = smallHeap.split ∧ freedOnce.bd.alloc = smallHeap.alloc ∧
      ∀ k q, q ∈ freedOnce.bd.free k ↔ q ∈ smallHeap.free k :=
  ⟨by decide, coalescing_complete smallHeap_start freedOnce_reachable (by decide)⟩

end Runs

end Xv6.Buddy
