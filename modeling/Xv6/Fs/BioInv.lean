import Xv6.Fs.Bio

/-! The buffer cache's representation invariant, over every interleaving of
`bread`, `brelse`, `bpin` and `bunpin`: every reference count counts the
references taken, the list through `bcache.head` is a ring through every
buffer once, and in list order a buffer in use is the first one carrying its
block, so that no two buffers in use carry the same block. -/

namespace Xv6.Fs

open Xv6.Lib

/-- A buffer is in use: referenced, or holding the contents of its block. -/
def Buf.Live (v : Buf) : Prop := v.refcnt ≠ 0 ∨ v.valid = true

/-- Two buffers carry the same block. -/
def Buf.SameBlock (u v : Buf) : Prop := u.dev = v.dev ∧ u.blockno = v.blockno

theorem Buf.SameBlock.symm {u v : Buf} (same : u.SameBlock v) : v.SameBlock u :=
  ⟨same.1.symm, same.2.symm⟩

theorem pairwise_either {α : Type} {R : α → α → Prop} {l : List α} (pairwise : l.Pairwise R)
    {x y : α} (xMember : x ∈ l) (yMember : y ∈ l) (apart : x ≠ y) : R x y ∨ R y x := by
  induction pairwise with
  | nil => simp at xMember
  | @cons a l first _ ih =>
    rcases List.mem_cons.mp xMember with rfl | xRest <;>
      rcases List.mem_cons.mp yMember with rfl | yRest
    · exact absurd rfl apart
    · exact .inl (first y yRest)
    · exact .inr (first x xRest)
    · exact ih xRest yRest

theorem pairwise_of_before {α : Type} {R S : α → α → Prop} {b : α} {before after : List α}
    (nodup : (before ++ b :: after).Nodup) (pairwise : (before ++ b :: after).Pairwise R)
    (keep : ∀ x y, y ≠ b → R x y → S x y) (toB : ∀ x ∈ before, S x b) :
    (before ++ b :: after).Pairwise S := by
  have notBefore : ∀ y ∈ before, y ≠ b := fun y member same =>
    (List.nodup_append.mp nodup).2.2 y member b List.mem_cons_self same
  have notAfter : ∀ y ∈ after, y ≠ b := fun y member same =>
    (List.nodup_cons.mp (List.nodup_append.mp nodup).2.1).1 (same ▸ member)
  obtain ⟨beforePairs, bPairs, across⟩ := List.pairwise_append.mp pairwise
  obtain ⟨fromB, afterPairs⟩ := List.pairwise_cons.mp bPairs
  refine List.pairwise_append.mpr ⟨?_, List.pairwise_cons.mpr ⟨?_, ?_⟩, ?_⟩
  · exact beforePairs.imp_of_mem fun _ yMember related => keep _ _ (notBefore _ yMember) related
  · exact fun y member => keep b y (notAfter y member) (fromB y member)
  · exact afterPairs.imp_of_mem fun _ yMember related => keep _ _ (notAfter _ yMember) related
  · intro x xMember y yMember
    rcases List.mem_cons.mp yMember with rfl | yAfter
    · exact toB x xMember
    · exact keep x y (notAfter y yAfter) (across x xMember y yMember)

namespace Bcache

variable {n : Nat} {c c' : Bcache n} {order : List (Fin n)} {b : Fin n} {dev blockno : Nat}

/-- In list order the first buffer carrying a block shadows the later ones:
they are not in use. -/
def Shadows (c : Bcache n) (a b : Fin n) : Prop :=
  (c.buf a).SameBlock (c.buf b) → ¬(c.buf b).Live

/-- The cache laid out in list order `order`. -/
structure Layout (c : Bcache n) (order : List (Fin n)) : Prop where
  nodup : order.Nodup
  complete : ∀ b, b ∈ order
  ring : Ring c.links order
  shadows : order.Pairwise c.Shadows

theorem Layout.length (layout : c.Layout order) : order.length = n := by
  have perm : order.Perm (List.finRange n) :=
    (List.perm_ext_iff_of_nodup layout.nodup (List.nodup_finRange n)).mpr
      fun b => ⟨fun _ => List.mem_finRange b, fun _ => layout.complete b⟩
  simpa using perm.length_eq

theorem Layout.unique {a : Fin n} (layout : c.Layout order) (first : (c.buf a).Live)
    (second : (c.buf b).Live) (same : (c.buf a).SameBlock (c.buf b)) : a = b := by
  by_contra apart
  rcases pairwise_either layout.shadows (layout.complete a) (layout.complete b) apart with
    shadow | shadow
  · exact shadow same second
  · exact shadow same.symm first

theorem binit_layout : (binit n).Layout (List.finRange n).reverse where
  nodup := List.nodup_reverse.mpr (List.nodup_finRange n)
  complete := fun b => List.mem_reverse.mpr (List.mem_finRange b)
  ring := by
    have start : Ring ({ next := fun _ => .head, prev := fun _ => .head } : Links (Fin n)) [] :=
      ring_nil.mpr ⟨rfl, rfl⟩
    have built : Ring (binit n).links ((List.finRange n).reverse ++ []) :=
      start.foldl_pushFront (by simpa using List.nodup_finRange n)
    rwa [List.append_nil] at built
  shadows := List.pairwise_of_forall fun _ _ _ live => by simp [binit, zeroBuf, Buf.Live] at live

theorem Layout.bget_eq (layout : c.Layout order) :
    c.bget dev blockno = some (match order.find? (c.cached dev blockno) with
      | some b => .ok (b, c.incref b)
      | none => match order.reverse.find? c.unused with
        | some b => .ok (b, c.recycle b dev blockno)
        | none => .error "bget: no buffers") := by
  unfold bget
  rw [layout.ring.scan_next (Nat.le_of_eq layout.length),
    layout.ring.scan_prev (Nat.le_of_eq layout.length)]
  cases order.find? (c.cached dev blockno) <;> cases order.reverse.find? c.unused <;> rfl

theorem Layout.mono (layout : c.Layout order) (links : c'.links = c.links)
    (block : ∀ b, (c'.buf b).dev = (c.buf b).dev ∧ (c'.buf b).blockno = (c.buf b).blockno)
    (live : ∀ b, (c'.buf b).Live → (c.buf b).Live) : c'.Layout order where
  nodup := layout.nodup
  complete := layout.complete
  ring := links ▸ layout.ring
  shadows := layout.shadows.imp fun {a b} shadow same inUse => by
    refine shadow ?_ (live b inUse)
    rw [Buf.SameBlock, ← (block a).1, ← (block b).1, ← (block a).2, ← (block b).2]
    exact same

theorem Layout.setBuf {v : Buf} (layout : c.Layout order) (dev : v.dev = (c.buf b).dev)
    (blockno : v.blockno = (c.buf b).blockno) (live : v.Live → (c.buf b).Live) :
    (c.setBuf b v).Layout order := by
  refine Layout.mono layout rfl ?_ ?_
  · intro x
    by_cases same : x = b
    · subst x
      simp [dev, blockno]
    · simp [Function.update_of_ne same]
  · intro x inUse
    by_cases same : x = b
    · subst x
      exact live (by simpa using inUse)
    · simpa [Function.update_of_ne same] using inUse

theorem Layout.incref_hit (layout : c.Layout order)
    (found : order.find? (c.cached dev blockno) = some b) : (c.incref b).Layout order := by
  obtain ⟨hit, before, after, split, missed⟩ := List.find?_eq_some_iff_append.mp found
  refine { nodup := layout.nodup, complete := layout.complete, ring := layout.ring, shadows := ?_ }
  have bufOf : ∀ x, x ≠ b → (c.incref b).buf x = c.buf x := fun x apart => by
    simp [incref, Function.update_of_ne apart]
  have bufB : (c.incref b).buf b = { c.buf b with refcnt := (c.buf b).refcnt + 1 } := by
    simp [incref]
  rw [split]
  apply pairwise_of_before (split ▸ layout.nodup) (split ▸ layout.shadows)
  · intro x y apart shadow same
    rw [bufOf y apart] at same ⊢
    apply shadow
    by_cases xb : x = b
    · subst x
      rw [bufB] at same
      exact same
    · rwa [bufOf x xb] at same
  · intro x member same
    have xb : x ≠ b := fun xSame =>
      (List.nodup_append.mp (split ▸ layout.nodup)).2.2 x member b List.mem_cons_self xSame
    rw [bufOf x xb, bufB] at same
    have notCached := missed x member
    simp only [cached, Bool.and_eq_true, beq_iff_eq] at hit notCached
    simp [Buf.SameBlock] at same
    simp [same.1, same.2, hit.1, hit.2] at notCached

theorem Layout.recycle (layout : c.Layout order)
    (missing : order.find? (c.cached dev blockno) = none) :
    (c.recycle b dev blockno).Layout order := by
  refine { nodup := layout.nodup, complete := layout.complete, ring := layout.ring, shadows := ?_ }
  have bufOf : ∀ x, x ≠ b → (c.recycle b dev blockno).buf x = c.buf x := fun x apart => by
    simp [Bcache.recycle, Function.update_of_ne apart]
  have bufB : (c.recycle b dev blockno).buf b =
      { dev := dev, blockno := blockno, valid := false, refcnt := 1 } := by
    simp [Bcache.recycle]
  have elsewhere : ∀ x, x ≠ b →
      ¬((c.recycle b dev blockno).buf x).SameBlock ((c.recycle b dev blockno).buf b) := by
    intro x apart same
    rw [bufOf x apart, bufB] at same
    have sameDev : (c.buf x).dev = dev := same.1
    have sameBlockno : (c.buf x).blockno = blockno := same.2
    have notCached := List.find?_eq_none.mp missing x (layout.complete x)
    simp [cached, sameDev, sameBlockno] at notCached
  refine (layout.nodup.and layout.shadows).imp fun {x y} ⟨apart, shadow⟩ same => ?_
  by_cases yb : y = b
  · subst y
    exact absurd same (elsewhere x apart)
  · by_cases xb : x = b
    · subst x
      exact absurd same.symm (elsewhere y yb)
    · rw [bufOf x xb, bufOf y yb] at same
      rw [bufOf y yb]
      exact shadow same

theorem brelse_buf : (c.brelse b).buf = (c.decref b).buf := by
  unfold brelse
  dsimp only
  split <;> rfl

theorem Layout.brelse (layout : c.Layout order) (referenced : (c.buf b).refcnt ≠ 0) :
    ∃ order', (c.brelse b).Layout order' := by
  have decLayout : (c.decref b).Layout order := layout.setBuf rfl rfl fun _ => .inl referenced
  by_cases last : ((c.decref b).buf b).refcnt = 0
  · have moved : c.brelse b = { c.decref b with
        links := ((c.decref b).links.unlink (.item b)).pushFront (.item b) } := by
      unfold Bcache.brelse
      dsimp only
      rw [if_pos last]
    refine ⟨b :: order.erase b, ?_⟩
    rw [moved]
    constructor
    · exact List.nodup_cons.mpr ⟨layout.nodup.not_mem_erase, layout.nodup.erase b⟩
    · intro x
      by_cases same : x = b
      · exact same ▸ List.mem_cons_self
      · exact List.mem_cons_of_mem _ ((List.mem_erase_of_ne same).mpr (layout.complete x))
    · exact decLayout.ring.moveFront layout.nodup (layout.complete b)
    · refine List.pairwise_cons.mpr ⟨?_, decLayout.shadows.erase b⟩
      intro y member same inUse
      dsimp only at same inUse
      have apart : y ≠ b := (layout.nodup.mem_erase_iff.mp member).1
      have bufY : (c.decref b).buf y = c.buf y := by simp [decref, Function.update_of_ne apart]
      have bufB : (c.decref b).buf b = { c.buf b with refcnt := (c.buf b).refcnt - 1 } := by
        simp [decref]
      rw [bufY] at inUse
      rw [bufY, bufB] at same
      exact apart (layout.unique inUse (.inl referenced) same.symm)
  · have kept : c.brelse b = c.decref b := by
      unfold Bcache.brelse
      dsimp only
      rw [if_neg last]
    exact ⟨order, kept ▸ decLayout⟩

theorem Layout.bget_ok (layout : c.Layout order)
    (returned : c.bget dev blockno = some (.ok (b, c'))) :
    (order.find? (c.cached dev blockno) = some b ∧ c' = c.incref b) ∨
      (order.find? (c.cached dev blockno) = none ∧ order.reverse.find? c.unused = some b ∧
        c' = c.recycle b dev blockno) := by
  rw [layout.bget_eq, Option.some.injEq] at returned
  split at returned
  · rename_i hit found
    cases returned
    exact .inl ⟨found, rfl⟩
  · rename_i missing
    split at returned
    · rename_i victim found
      cases returned
      exact .inr ⟨missing, found, rfl⟩
    · cases returned

end Bcache

namespace BioSys

variable {P : Type} [DecidableEq P] {n : Nat} {s t : BioSys P n} {p : P} {b : Fin n}
  {dev blockno : Nat}

/-- The buffer cache invariant. -/
structure BioInv (s : BioSys P n) : Prop where
  /-- Every reference is a holder's or a pin. -/
  refcnt : ∀ b, (s.cache.buf b).refcnt = (s.holders b).length + s.pins b
  /-- A process holds a buffer once for its sleep lock and once more while it
  sleeps on it. -/
  holders : ∀ p b, (s.holders b).count p =
    (if s.locked b = some p then 1 else 0) + (if s.sleeping p = some b then 1 else 0)
  layout : ∃ order, s.cache.Layout order

theorem BioInv.referenced (inv : BioInv s) (member : p ∈ s.holders b) :
    (s.cache.buf b).refcnt ≠ 0 := by
  rw [inv.refcnt b]
  have := List.length_pos_of_mem member
  omega

theorem BioInv.unreferenced (inv : BioInv s) (unused : (s.cache.buf b).refcnt = 0) :
    s.holders b = [] ∧ s.pins b = 0 := by
  have count := inv.refcnt b
  rw [unused] at count
  exact ⟨List.length_eq_zero_iff.mp (by omega), by omega⟩

theorem BioInv.holder_of_sleeping (inv : BioInv s) (sleeping : s.sleeping p = some b) :
    p ∈ s.holders b := by
  have count := inv.holders p b
  rw [if_pos sleeping] at count
  exact List.count_pos_iff.mp (by omega)

omit [DecidableEq P] in
theorem refcnt_of_agree (refcnt : ∀ x, (s.cache.buf x).refcnt = (s.holders x).length + s.pins x)
    (buf : ∀ x, x ≠ b → t.cache.buf x = s.cache.buf x)
    (holders : ∀ x, x ≠ b → t.holders x = s.holders x) (pins : ∀ x, x ≠ b → t.pins x = s.pins x)
    (here : (t.cache.buf b).refcnt = (t.holders b).length + t.pins b) :
    ∀ x, (t.cache.buf x).refcnt = (t.holders x).length + t.pins x := by
  intro x
  by_cases same : x = b
  · subst x
    exact here
  · rw [buf x same, holders x same, pins x same]
    exact refcnt x

theorem step_bread (next : s.step (.bread p dev blockno) = some (.running t)) :
    s.sleeping p = none ∧ ∃ b cache, s.cache.bget dev blockno = some (.ok (b, cache)) ∧
      t = { s with
        cache := cache
        sleeping := Function.update s.sleeping p (some b)
        holders := Function.update s.holders b (s.holders b ++ [p]) } := by
  delta step at next
  dsimp only at next
  split at next
  · rename_i awake
    refine ⟨awake, ?_⟩
    split at next
    · cases next
    · cases next
    · rename_i b cache returned
      cases next
      exact ⟨b, cache, returned, rfl⟩
  · cases next

theorem step_acquire (next : s.step (.acquire p) = some (.running t)) :
    ∃ b, s.sleeping p = some b ∧ s.locked b = none ∧
      t = { s with
        cache := s.cache.fill b
        locked := Function.update s.locked b (some p)
        sleeping := Function.update s.sleeping p none } := by
  delta step at next
  dsimp only at next
  split at next
  · rename_i b sleeping
    split at next
    · rename_i free
      cases next
      exact ⟨b, sleeping, free, rfl⟩
    · cases next
  · cases next

theorem step_bwrite (next : s.step (.bwrite p b) = some (.running t)) : t = s := by
  delta step at next
  dsimp only at next
  split at next
  · split at next
    · cases next
      rfl
    · cases next
  · cases next

theorem step_brelse (next : s.step (.brelse p b) = some (.running t)) :
    s.Uses p b ∧ s.locked b = some p ∧
      t = { s with
        cache := s.cache.brelse b
        locked := Function.update s.locked b none
        holders := Function.update s.holders b ((s.holders b).erase p) } := by
  delta step at next
  dsimp only at next
  split at next
  · rename_i uses
    split at next
    · rename_i locked
      cases next
      exact ⟨uses, locked, rfl⟩
    · cases next
  · cases next

theorem step_bpin (next : s.step (.bpin p b) = some (.running t)) :
    s.Uses p b ∧ t = { s with
      cache := s.cache.incref b
      pins := Function.update s.pins b (s.pins b + 1) } := by
  delta step at next
  dsimp only at next
  split at next
  · rename_i uses
    cases next
    exact ⟨uses, rfl⟩
  · cases next

theorem step_bunpin (next : s.step (.bunpin b) = some (.running t)) :
    0 < s.pins b ∧ t = { s with
      cache := s.cache.decref b
      pins := Function.update s.pins b (s.pins b - 1) } := by
  delta step at next
  dsimp only at next
  split at next
  · rename_i pinned
    cases next
    exact ⟨pinned, rfl⟩
  · cases next

theorem bioInv_init : BioInv (system P n).init where
  refcnt := fun _ => rfl
  holders := fun _ _ => rfl
  layout := ⟨_, Bcache.binit_layout⟩

theorem BioInv.bread (inv : BioInv s) (next : s.step (.bread p dev blockno) = some (.running t)) :
    BioInv t := by
  obtain ⟨awake, b, cache, returned, rfl⟩ := step_bread next
  obtain ⟨order, layout⟩ := inv.layout
  have holders : ∀ q x, ((Function.update s.holders b (s.holders b ++ [p])) x).count q =
      (if s.locked x = some q then 1 else 0) +
        (if Function.update s.sleeping p (some b) q = some x then 1 else 0) := by
    intro q x
    have before := inv.holders q x
    by_cases xb : x = b
    · subst x
      by_cases qp : q = p
      · subst q
        simp [awake] at before
        simp [before]
      · simp [Function.update_of_ne qp, Ne.symm qp, before]
    · have notB : some b ≠ some x := fun same => xb (Option.some.inj same).symm
      by_cases qp : q = p
      · subst q
        simp [awake] at before
        simp [Function.update_of_ne xb, notB, before]
      · simp [Function.update_of_ne xb, Function.update_of_ne qp, before]
  rcases layout.bget_ok returned with ⟨found, rfl⟩ | ⟨missing, victim, rfl⟩
  · refine ⟨refcnt_of_agree inv.refcnt (b := b) ?_ ?_ ?_ ?_, holders, ⟨order, layout.incref_hit found⟩⟩
    · intro x apart
      simp [Bcache.incref, Function.update_of_ne apart]
    · intro x apart
      simp [Function.update_of_ne apart]
    · intro x apart
      rfl
    · simp [Bcache.incref, inv.refcnt b]
      omega
  · have unused : (s.cache.buf b).refcnt = 0 := by
      simpa [Bcache.unused] using List.find?_some victim
    have nobody := inv.unreferenced unused
    refine ⟨refcnt_of_agree inv.refcnt (b := b) ?_ ?_ ?_ ?_, holders, ⟨order, layout.recycle missing⟩⟩
    · intro x apart
      simp [Bcache.recycle, Function.update_of_ne apart]
    · intro x apart
      simp [Function.update_of_ne apart]
    · intro x apart
      rfl
    · simp [Bcache.recycle, nobody]

theorem BioInv.acquire (inv : BioInv s) (next : s.step (.acquire p) = some (.running t)) :
    BioInv t := by
  obtain ⟨b, sleeping, free, rfl⟩ := step_acquire next
  obtain ⟨order, layout⟩ := inv.layout
  have inUse := inv.referenced (inv.holder_of_sleeping sleeping)
  refine ⟨?_, ?_, ⟨order, ?_⟩⟩
  · refine refcnt_of_agree inv.refcnt (b := b) ?_ (fun _ _ => rfl) (fun _ _ => rfl) ?_
    · intro x apart
      simp [Bcache.fill_eq, Function.update_of_ne apart]
    · simp [Bcache.fill_eq, inv.refcnt b]
  · intro q x
    have before := inv.holders q x
    by_cases xb : x = b
    · subst x
      by_cases qp : q = p
      · subst q
        simp [sleeping, free] at before
        simp [before]
      · simp [free] at before
        simp [Function.update_of_ne qp, Ne.symm qp, before]
    · have notB : some b ≠ some x := fun same => xb (Option.some.inj same).symm
      by_cases qp : q = p
      · subst q
        simp [sleeping, notB] at before
        simp [Function.update_of_ne xb, before]
      · simp [Function.update_of_ne xb, Function.update_of_ne qp, before]
  · rw [Bcache.fill_eq]
    exact layout.setBuf rfl rfl fun _ => .inl inUse

theorem BioInv.brelse (inv : BioInv s) (next : s.step (.brelse p b) = some (.running t)) :
    BioInv t := by
  obtain ⟨uses, locked, rfl⟩ := step_brelse next
  obtain ⟨order, layout⟩ := inv.layout
  have inUse := inv.referenced uses.2
  refine ⟨?_, ?_, layout.brelse inUse⟩
  · refine refcnt_of_agree inv.refcnt (b := b) ?_ ?_ (fun _ _ => rfl) ?_
    · intro x apart
      simp [Bcache.brelse_buf, Bcache.decref, Function.update_of_ne apart]
    · intro x apart
      simp [Function.update_of_ne apart]
    · have held := List.length_pos_of_mem uses.2
      simp [Bcache.brelse_buf, Bcache.decref, List.length_erase_of_mem uses.2, inv.refcnt b]
      omega
  · intro q x
    have before := inv.holders q x
    by_cases xb : x = b
    · subst x
      by_cases qp : q = p
      · subst q
        simp [locked, uses.1] at before
        simp [before, uses.1]
      · simp [locked, Ne.symm qp] at before
        simp [List.count_erase_of_ne qp, before]
    · simp [Function.update_of_ne xb, before]

theorem BioInv.bpin (inv : BioInv s) (next : s.step (.bpin p b) = some (.running t)) :
    BioInv t := by
  obtain ⟨uses, rfl⟩ := step_bpin next
  obtain ⟨order, layout⟩ := inv.layout
  have inUse := inv.referenced uses.2
  refine ⟨?_, inv.holders, ⟨order, layout.setBuf rfl rfl fun _ => .inl inUse⟩⟩
  refine refcnt_of_agree inv.refcnt (b := b) ?_ (fun _ _ => rfl) ?_ ?_
  · intro x apart
    simp [Bcache.incref, Function.update_of_ne apart]
  · intro x apart
    simp [Function.update_of_ne apart]
  · simp [Bcache.incref, inv.refcnt b]
    omega

theorem BioInv.bunpin (inv : BioInv s) (next : s.step (.bunpin b) = some (.running t)) :
    BioInv t := by
  obtain ⟨pinned, rfl⟩ := step_bunpin next
  obtain ⟨order, layout⟩ := inv.layout
  have inUse : (s.cache.buf b).refcnt ≠ 0 := by
    rw [inv.refcnt b]
    omega
  refine ⟨?_, inv.holders, ⟨order, layout.setBuf rfl rfl fun _ => .inl inUse⟩⟩
  refine refcnt_of_agree inv.refcnt (b := b) ?_ (fun _ _ => rfl) ?_ ?_
  · intro x apart
    simp [Bcache.decref, Function.update_of_ne apart]
  · intro x apart
    simp [Function.update_of_ne apart]
  · simp [Bcache.decref, inv.refcnt b]
    omega

theorem bioInv_invariant : (system P n).Invariant BioInv where
  init := bioInv_init
  step := by
    intro s t event inv next
    cases event with
    | bread p dev blockno => exact inv.bread next
    | acquire p => exact inv.acquire next
    | bwrite p b => exact (step_bwrite next) ▸ inv
    | brelse p b => exact inv.brelse next
    | bpin p b => exact inv.bpin next
    | bunpin b => exact inv.bunpin next

/-- Buffer cache representation invariant: in every state that an interleaving
of `bread`, `brelse`, `bpin` and `bunpin` reaches, where each `brelse` (and
`bpin`, `bwrite`) is made by a process on a buffer it read and each `bunpin`
drops a pin taken earlier:
(1) every buffer's `refcnt` is the number of its holders plus its pins, so
`brelse` and `bunpin` never decrement it at zero;
(2) a buffer that `bget` returns for a block it did not carry had
`refcnt == 0`, no holder and no pin;
(3) no two buffers in use (`refcnt > 0` or `valid`) carry the same block;
(4) the links through `bcache.head` form one ring through every buffer once. -/
theorem bcache_invariant {s : BioSys P n} (reach : (system P n).Reachable s) :
    (∀ b, (s.cache.buf b).refcnt = (s.holders b).length + s.pins b) ∧
      (∀ dev blockno b cache, s.cache.bget dev blockno = some (.ok (b, cache)) →
        s.cache.cached dev blockno b = false →
        (s.cache.buf b).refcnt = 0 ∧ s.holders b = [] ∧ s.pins b = 0) ∧
      (∀ a b, a ≠ b → (s.cache.buf a).Live → (s.cache.buf b).Live →
        ¬(s.cache.buf a).SameBlock (s.cache.buf b)) ∧
      (∃ order : List (Fin n), order.Nodup ∧ (∀ b, b ∈ order) ∧ Ring s.cache.links order) := by
  have inv := bioInv_invariant.holds reach
  obtain ⟨order, layout⟩ := inv.layout
  refine ⟨inv.refcnt, ?_, ?_, ⟨order, layout.nodup, layout.complete, layout.ring⟩⟩
  · intro dev blockno b cache returned notCached
    rcases layout.bget_ok returned with ⟨found, -⟩ | ⟨-, victim, -⟩
    · have hit := List.find?_some found
      rw [notCached] at hit
      cases hit
    · have unused : (s.cache.buf b).refcnt = 0 := by
        simpa [Bcache.unused] using List.find?_some victim
      exact ⟨unused, inv.unreferenced unused⟩
  · intro a b apart first second same
    exact apart (layout.unique first second same)

/-- Process `0` reads block `(1, 5)`, pins it as `log_write` does and releases
it; process `1` reads the same block, and the log unpins it. -/
def pinnedReadEvents : List (BioEvent (Fin 2) 3) :=
  [.bread 0 1 5, .acquire 0, .bpin 0 0, .brelse 0 0, .bread 1 1 5, .bunpin 0]

def pinnedReadState : BioSys (Fin 2) 3 :=
  match (system (Fin 2) 3).runFrom (system (Fin 2) 3).init pinnedReadEvents with
  | some (.running s) => s
  | _ => (system (Fin 2) 3).init

theorem pinnedReadState_reachable : (system (Fin 2) 3).Reachable pinnedReadState :=
  System.runFrom_reachable System.Reachable.init pinnedReadEvents (by rfl)

/-- After that run buffer `0`, recycled for the block by the first `bread` and
hit by the second, has the one reference of process `1`. -/
theorem bcache_invariant_pinnedRead :
    pinnedReadState.holders 0 = [1] ∧ pinnedReadState.pins 0 = 0 ∧
      (pinnedReadState.cache.buf 0).refcnt = 1 ∧
      ∃ order : List (Fin 3), order.Nodup ∧ (∀ b, b ∈ order) ∧
        Ring pinnedReadState.cache.links order := by
  obtain ⟨refcnt, -, -, ring⟩ := bcache_invariant pinnedReadState_reachable
  have holders : pinnedReadState.holders 0 = [1] := by rfl
  have pins : pinnedReadState.pins 0 = 0 := by rfl
  refine ⟨holders, pins, ?_, ring⟩
  rw [refcnt 0, holders, pins]
  rfl

end BioSys

end Xv6.Fs
