import Mathlib
import Xv6.Fs.BioInv
import Xv6.Param

/-! The buffer cache while the log is recovered at boot. `fsinit` runs in the
first process before any other uses the disk, and `initlog` calls
`recover_from_log`, so `read_head`, `install_trans` and `write_head` make
their cache calls one after another. `install_trans` is shared with
`commit`, where `log_write` pinned every home block; at boot nothing pinned
them, and its `bunpin` drops the reference that `bread` took. The `brelse`
after it then takes a reference from a count of zero. `refcnt` is a `uint`,
so the counts here are taken modulo 2^32, as the code takes them. -/

namespace Xv6.Fs

open Xv6.Lib

namespace Bcache

variable {n : Nat}

/-- `b->refcnt = r` on the `uint` field. -/
def setRef (c : Bcache n) (b : Fin n) (r : Nat) : Bcache n :=
  c.setBuf b { c.buf b with refcnt := r % 2 ^ 32 }

/-- `b->refcnt--` on the `uint` field: from `0` it wraps to `2^32 - 1`. -/
def decrefU (c : Bcache n) (b : Fin n) : Bcache n :=
  c.setRef b ((c.buf b).refcnt + (2 ^ 32 - 1))

/-- `bget` on `uint` counts: the count its `b->refcnt++` leaves wraps at 2^32. -/
def bgetU (c : Bcache n) (dev blockno : Nat) : Option (Except String (Fin n × Bcache n)) :=
  (c.bget dev blockno).map (Except.map fun (b, c) => (b, c.setRef b (c.buf b).refcnt))

/-- `brelse`'s critical section on `uint` counts. -/
def brelseU (c : Bcache n) (b : Fin n) : Bcache n :=
  let c := c.decrefU b
  if (c.buf b).refcnt = 0 then { c with links := (c.links.unlink (.item b)).pushFront (.item b) }
  else c

/-- `bread` at boot by the one process there is, which holds the sleep locks
of `held`: `bget`, then `acquiresleep`, which never returns on a lock its
caller holds, then the block is read into a buffer that is not valid. -/
def bread (c : Bcache n) (held : List (Fin n)) (dev blockno : Nat) :
    ExceptT String Option (Fin n × Bcache n) := do
  let (b, c) ← ExceptT.mk (c.bgetU dev blockno)
  if b ∈ held then ExceptT.lift none
  else return (b, c.fill b)

/-- One pass of `install_trans`'s loop: the log block `lblock` is copied to
its home block `dblock`. -/
def installBlock (c : Bcache n) (dev lblock dblock : Nat) : ExceptT String Option (Bcache n) := do
  let (lbuf, c) ← c.bread [] dev lblock
  let (dbuf, c) ← c.bread [lbuf] dev dblock
  return ((c.decrefU dbuf).brelseU lbuf).brelseU dbuf

/-- `install_trans`'s loop from `tail`, over the home blocks `lh.block[tail..]`. -/
def installLoop (dev start : Nat) (c : Bcache n) (tail : Nat) : List Nat → ExceptT String Option (Bcache n)
  | [] => pure c
  | dblock :: rest => do
    let c ← c.installBlock dev (start + tail + 1) dblock
    installLoop dev start c (tail + 1) rest

/-- `install_trans`, for the header `lh.block[0..lh.n)` read at `start`. -/
def installTrans (c : Bcache n) (dev start : Nat) (blocks : List Nat) : ExceptT String Option (Bcache n) :=
  installLoop dev start c 0 blocks

/-- `read_head` on the cache: the header block is read and released. -/
def readHead (c : Bcache n) (dev start : Nat) : ExceptT String Option (Bcache n) := do
  let (b, c) ← c.bread [] dev start
  return c.brelseU b

/-- `write_head` on the cache is `read_head`'s: its `bwrite` leaves the cache
as it is. -/
def writeHead (c : Bcache n) (dev start : Nat) : ExceptT String Option (Bcache n) :=
  c.readHead dev start

/-- `recover_from_log` on the cache, for the header `blocks` that `read_head`
finds on disk. -/
def recoverFromLog (c : Bcache n) (dev start : Nat) (blocks : List Nat) :
    ExceptT String Option (Bcache n) := do
  let c ← c.readHead dev start
  let c ← c.installTrans dev start blocks
  c.writeHead dev start

/-! ### The `uint` counts against the `Nat` ones -/

variable {c c' : Bcache n} {order : List (Fin n)} {b x : Fin n} {dev blockno : Nat}

theorem run_bind_ok {α β : Type} {y : ExceptT String Option α} {f : α → ExceptT String Option β} {a : α}
    (returns : y.run = some (.ok a)) : (y >>= f).run = (f a).run := by
  rw [ExceptT.run_bind, returns]
  rfl

@[simp] theorem setRef_links {r : Nat} : (c.setRef b r).links = c.links := rfl

@[simp] theorem setRef_buf {r : Nat} :
    (c.setRef b r).buf = Function.update c.buf b { c.buf b with refcnt := r % 2 ^ 32 } := rfl

theorem decrefU_of_pos (pos : 0 < (c.buf b).refcnt) (small : (c.buf b).refcnt ≤ 2 ^ 32) :
    c.decrefU b = c.decref b := by
  have same : ((c.buf b).refcnt + (2 ^ 32 - 1)) % 2 ^ 32 = (c.buf b).refcnt - 1 := by omega
  unfold decrefU setRef decref
  rw [same]

theorem brelseU_of_pos (pos : 0 < (c.buf b).refcnt) (small : (c.buf b).refcnt ≤ 2 ^ 32) :
    c.brelseU b = c.brelse b := by
  unfold brelseU brelse
  rw [decrefU_of_pos pos small]

theorem brelseU_of_zero (zero : (c.buf b).refcnt = 0) :
    c.brelseU b = c.setBuf b { c.buf b with refcnt := 2 ^ 32 - 1 } := by
  have wrapped : (0 + (2 ^ 32 - 1)) % 2 ^ 32 = 2 ^ 32 - 1 := by omega
  unfold brelseU decrefU setRef
  rw [zero, wrapped, if_neg (by simp)]

/-! ### `bread` of a block nobody holds -/

theorem Layout.bget_idle (layout : c.Layout order)
    (idle : ∀ b, c.cached dev blockno b = true → (c.buf b).refcnt = 0) (free : ∃ b, (c.buf b).refcnt = 0) :
    ∃ x c', c.bget dev blockno = some (.ok (x, c')) ∧ c'.Layout order ∧ (c.buf x).refcnt = 0 ∧
      (c'.buf x).dev = dev ∧ (c'.buf x).blockno = blockno ∧ (c'.buf x).refcnt = 1 ∧
      ∀ b, b ≠ x → c'.buf b = c.buf b := by
  rw [layout.bget_eq]
  split
  · rename_i x found
    have hit : c.cached dev blockno x = true := List.find?_some found
    have block : (c.buf x).dev = dev ∧ (c.buf x).blockno = blockno := by simpa [Bcache.cached] using hit
    have zero := idle x hit
    refine ⟨x, _, rfl, layout.incref_hit found, zero, ?_, ?_, ?_, ?_⟩
    · simp [incref, block.1]
    · simp [incref, block.2]
    · simp [incref, zero]
    · intro b apart
      simp [incref, Function.update_of_ne apart]
  · rename_i missing
    split
    · rename_i x victim
      have unused : (c.buf x).refcnt = 0 := by simpa [Bcache.unused] using List.find?_some victim
      refine ⟨x, _, rfl, layout.recycle missing, unused, by simp [Bcache.recycle], by simp [Bcache.recycle],
        by simp [Bcache.recycle], ?_⟩
      intro b apart
      simp [Bcache.recycle, Function.update_of_ne apart]
    · rename_i noVictim
      obtain ⟨b, unused⟩ := free
      have none := List.find?_eq_none.mp noVictim b (List.mem_reverse.mpr (layout.complete b))
      simp [Bcache.unused, unused] at none

theorem Layout.bread_idle (layout : c.Layout order) (held : List (Fin n))
    (idle : ∀ b, c.cached dev blockno b = true → (c.buf b).refcnt = 0) (free : ∃ b, (c.buf b).refcnt = 0)
    (busy : ∀ b ∈ held, (c.buf b).refcnt ≠ 0) :
    ∃ x c', (c.bread held dev blockno).run = some (.ok (x, c')) ∧ c'.Layout order ∧ (c.buf x).refcnt = 0 ∧
      c'.buf x = { valid := true, dev := dev, blockno := blockno, refcnt := 1 } ∧
      ∀ b, b ≠ x → c'.buf b = c.buf b := by
  obtain ⟨x, c1, got, layout1, unused, dev1, blockno1, one, others⟩ := layout.bget_idle idle free
  have counted : c1.setRef x (c1.buf x).refcnt = c1.setRef x 1 := by rw [one]
  have notHeld : x ∉ held := fun member => busy x member unused
  have layout2 : (c1.setRef x 1).Layout order := layout1.setBuf rfl rfl fun _ => .inl (by omega)
  have filled : ((c1.setRef x 1).fill x).Layout order :=
    fill_eq ▸ layout2.setBuf rfl rfl fun _ => .inl (by simp)
  refine ⟨x, (c1.setRef x 1).fill x, ?_, filled, unused, ?_, ?_⟩
  · unfold bread
    rw [run_bind_ok (a := (x, c1.setRef x (c1.buf x).refcnt)) (by simp only [ExceptT.run_mk, bgetU, got]; rfl)]
    simp [counted, notHeld]
  · rw [fill_eq]
    cases v : c1.buf x
    simp_all
  · intro b apart
    simp [fill_eq, Function.update_of_ne apart, others b apart]

/-! ### The releases of `install_trans` -/

theorem Layout.brelseU_one (layout : c.Layout order) (one : (c.buf b).refcnt = 1) :
    (∃ order', (c.brelseU b).Layout order') ∧
      (c.brelseU b).buf = Function.update c.buf b { c.buf b with refcnt := 0 } := by
  rw [brelseU_of_pos (by omega) (by omega)]
  refine ⟨layout.brelse (by omega), ?_⟩
  rw [brelse_buf]
  simp [decref, one]

theorem Layout.decrefU_one (layout : c.Layout order) (one : (c.buf b).refcnt = 1) :
    (c.decrefU b).Layout order ∧ (c.decrefU b).buf = Function.update c.buf b { c.buf b with refcnt := 0 } := by
  rw [decrefU_of_pos (by omega) (by omega)]
  refine ⟨layout.setBuf rfl rfl fun _ => .inl (by omega), ?_⟩
  simp [decref, one]

theorem Layout.brelseU_zero (layout : c.Layout order) (zero : (c.buf b).refcnt = 0) (valid : (c.buf b).valid = true) :
    (c.brelseU b).Layout order ∧
      (c.brelseU b).buf = Function.update c.buf b { c.buf b with refcnt := 2 ^ 32 - 1 } := by
  rw [brelseU_of_zero zero]
  exact ⟨layout.setBuf rfl rfl fun _ => .inr valid, rfl⟩

theorem Layout.installBlock_idle {l d : Nat} (layout : c.Layout order) (apart : l ≠ d)
    (idleL : ∀ b, c.cached dev l b = true → (c.buf b).refcnt = 0)
    (idleD : ∀ b, c.cached dev d b = true → (c.buf b).refcnt = 0)
    (free : ∃ u v, u ≠ v ∧ (c.buf u).refcnt = 0 ∧ (c.buf v).refcnt = 0) :
    ∃ x y c', (c.installBlock dev l d).run = some (.ok c') ∧ (∃ order', c'.Layout order') ∧ x ≠ y ∧
      (c.buf x).refcnt = 0 ∧ (c.buf y).refcnt = 0 ∧
      c'.buf x = { valid := true, dev := dev, blockno := l, refcnt := 0 } ∧
      c'.buf y = { valid := true, dev := dev, blockno := d, refcnt := 2 ^ 32 - 1 } ∧
      ∀ b, b ≠ x → b ≠ y → c'.buf b = c.buf b := by
  obtain ⟨u, v, uv, zu, zv⟩ := free
  obtain ⟨x, c1, read1, layout1, zx, bufx, others1⟩ := layout.bread_idle [] idleL ⟨u, zu⟩ (by simp)
  have free1 : ∃ b, (c1.buf b).refcnt = 0 := by
    by_cases ux : u = x
    · exact ⟨v, by rw [others1 v (ux ▸ Ne.symm uv)]; exact zv⟩
    · exact ⟨u, by rw [others1 u ux]; exact zu⟩
  have idle1 : ∀ b, c1.cached dev d b = true → (c1.buf b).refcnt = 0 := by
    intro b hit
    by_cases bx : b = x
    · subst bx
      simp [Bcache.cached, bufx, apart] at hit
    · have hitC : c.cached dev d b = true := by simpa [Bcache.cached, others1 b bx] using hit
      rw [others1 b bx]
      exact idleD b hitC
  obtain ⟨y, c2, read2, layout2, zy, bufy, others2⟩ :=
    layout1.bread_idle [x] idle1 free1 (by simp [bufx])
  have yx : y ≠ x := fun same => by
    rw [same, bufx] at zy
    simp at zy
  obtain ⟨layout3, buf3⟩ := layout2.decrefU_one (b := y) (by simp [bufy])
  have oneX : ((c2.decrefU y).buf x).refcnt = 1 := by
    simp [buf3, Function.update_of_ne (Ne.symm yx), others2 x (Ne.symm yx), bufx]
  obtain ⟨⟨order4, layout4⟩, buf4⟩ := layout3.brelseU_one oneX
  have bufY4 : (((c2.decrefU y).brelseU x).buf y) = { valid := true, dev := dev, blockno := d, refcnt := 0 } := by
    simp [buf4, Function.update_of_ne yx, buf3, bufy]
  obtain ⟨layout5, buf5⟩ := layout4.brelseU_zero (b := y) (by simp [bufY4]) (by simp [bufY4])
  refine ⟨x, y, _, ?_, ⟨order4, layout5⟩, Ne.symm yx, zx, by rw [← others1 y yx]; exact zy, ?_, ?_, ?_⟩
  · unfold installBlock
    rw [run_bind_ok read1, run_bind_ok read2]
    rfl
  · simp [buf5, Function.update_of_ne (Ne.symm yx), buf4, buf3, others2 x (Ne.symm yx), bufx]
  · simp [buf5, bufY4]
  · intro b bx yb
    simp [buf5, buf4, buf3, Function.update_of_ne bx, Function.update_of_ne yb, others2 b yb, others1 b bx]

/-! ### Recovery over the whole header -/

/-- The cache once recovery has installed the home blocks `done` on `dev`:
laid out in some order, a valid buffer of a block of `done` keeps the count
`2^32 - 1`, every other buffer has none, and each block of `done` has such a
buffer. -/
structure Stranded (c : Bcache n) (dev : Nat) (done : List Nat) : Prop where
  layout : ∃ order, c.Layout order
  refcnt : ∀ b, (c.buf b).refcnt =
    if (c.buf b).valid = true ∧ (c.buf b).dev = dev ∧ (c.buf b).blockno ∈ done then 2 ^ 32 - 1 else 0
  held : ∀ d ∈ done, ∃ b, (c.buf b).valid = true ∧ c.cached dev d b = true

variable {done : List Nat}

theorem Stranded.idle (strand : c.Stranded dev done) (fresh : blockno ∉ done) :
    ∀ b, c.cached dev blockno b = true → (c.buf b).refcnt = 0 := by
  intro b hit
  have block : (c.buf b).dev = dev ∧ (c.buf b).blockno = blockno := by simpa [Bcache.cached] using hit
  rw [strand.refcnt b, if_neg]
  rintro ⟨-, -, member⟩
  exact fresh (block.2 ▸ member)

theorem Stranded.free_card (strand : c.Stranded dev done) :
    n ≤ done.length + (Finset.univ.filter fun b => (c.buf b).refcnt = 0).card := by
  obtain ⟨order, layout⟩ := strand.layout
  have counted := Finset.card_filter_add_card_filter_not (s := Finset.univ) fun b => (c.buf b).refcnt = 0
  rw [Finset.card_univ, Fintype.card_fin] at counted
  have busy : ∀ b, (c.buf b).refcnt ≠ 0 →
      (c.buf b).valid = true ∧ (c.buf b).dev = dev ∧ (c.buf b).blockno ∈ done := by
    intro b counts
    rw [strand.refcnt b] at counts
    split at counts
    · assumption
    · exact absurd rfl counts
  have injective : Set.InjOn (fun b => (c.buf b).blockno)
      (Finset.univ.filter fun b => ¬(c.buf b).refcnt = 0 : Finset (Fin n)) := by
    intro a memA b memB same
    simp only [Finset.coe_filter, Finset.mem_univ, true_and, Set.mem_ofPred_eq] at memA memB
    have sameDev : (c.buf a).dev = (c.buf b).dev := ((busy a memA).2.1).trans (busy b memB).2.1.symm
    exact layout.unique (.inl memA) (.inl memB) ⟨sameDev, same⟩
  have mapped : Set.MapsTo (fun b => (c.buf b).blockno)
      (Finset.univ.filter fun b => ¬(c.buf b).refcnt = 0 : Finset (Fin n)) done.toFinset := by
    intro b member
    simp only [Finset.coe_filter, Finset.mem_univ, true_and, Set.mem_ofPred_eq] at member
    simpa using (busy b member).2.2
  have fewer := Finset.card_le_card_of_injOn _ mapped injective
  have distinct := List.toFinset_card_le done
  omega

theorem Stranded.free {k : Nat} (strand : c.Stranded dev done) (room : done.length + k ≤ n) :
    k ≤ (Finset.univ.filter fun b => (c.buf b).refcnt = 0).card := by
  have free := strand.free_card
  omega

theorem Stranded.counted {d : Nat} (strand : c.Stranded dev done) (valid : (c.buf b).valid = true)
    (hit : c.cached dev d b = true) (member : d ∈ done) : (c.buf b).refcnt = 2 ^ 32 - 1 := by
  have block : (c.buf b).dev = dev ∧ (c.buf b).blockno = d := by simpa [Bcache.cached] using hit
  rw [strand.refcnt b, if_pos ⟨valid, block.1, block.2 ▸ member⟩]

theorem Stranded.readHead {start : Nat} (strand : c.Stranded dev done) (fresh : start ∉ done)
    (room : done.length + 1 ≤ n) :
    ∃ c', (c.readHead dev start).run = some (.ok c') ∧ c'.Stranded dev done := by
  obtain ⟨order, layout⟩ := strand.layout
  have free : ∃ b, (c.buf b).refcnt = 0 := by
    obtain ⟨b, member⟩ := Finset.card_pos.mp (Nat.lt_of_lt_of_le Nat.zero_lt_one (strand.free room))
    exact ⟨b, (Finset.mem_filter.mp member).2⟩
  obtain ⟨x, c1, read, layout1, zx, bufx, others⟩ :=
    layout.bread_idle [] (strand.idle fresh) free (by simp)
  obtain ⟨layout2, buf2⟩ := layout1.brelseU_one (b := x) (by simp [bufx])
  have notX : ∀ b d, (c.buf b).valid = true → c.cached dev d b = true → d ∈ done → b ≠ x := by
    intro b d valid hit member same
    rw [← same, strand.counted valid hit member] at zx
    simp at zx
  refine ⟨c1.brelseU x, ?_, ⟨layout2, ?_, ?_⟩⟩
  · unfold Bcache.readHead
    rw [run_bind_ok read]
    rfl
  · intro b
    by_cases bx : b = x
    · subst bx
      simp [buf2, bufx, fresh]
    · rw [buf2, Function.update_of_ne bx, others b bx]
      exact strand.refcnt b
  · intro d member
    obtain ⟨b, valid, hit⟩ := strand.held d member
    have bx := notX b d valid hit member
    refine ⟨b, ?_, ?_⟩
    · simpa [buf2, Function.update_of_ne bx, others b bx] using valid
    · simpa [Bcache.cached, buf2, Function.update_of_ne bx, others b bx] using hit

theorem Stranded.installBlock {l d : Nat} (strand : c.Stranded dev done) (lNew : l ∉ done) (dNew : d ∉ done)
    (apart : l ≠ d) (room : done.length + 2 ≤ n) :
    ∃ c', (c.installBlock dev l d).run = some (.ok c') ∧ c'.Stranded dev (done ++ [d]) := by
  obtain ⟨order, layout⟩ := strand.layout
  have free : ∃ u v, u ≠ v ∧ (c.buf u).refcnt = 0 ∧ (c.buf v).refcnt = 0 := by
    obtain ⟨u, memU, v, memV, uv⟩ := Finset.one_lt_card.mp (Nat.lt_of_lt_of_le (by omega) (strand.free room))
    exact ⟨u, v, uv, (Finset.mem_filter.mp memU).2, (Finset.mem_filter.mp memV).2⟩
  obtain ⟨x, y, c', run, ⟨order', layout'⟩, xy, zx, zy, bufx, bufy, others⟩ :=
    layout.installBlock_idle apart (strand.idle lNew) (strand.idle dNew) free
  have untouched : ∀ b d', (c.buf b).valid = true → c.cached dev d' b = true → d' ∈ done → b ≠ x ∧ b ≠ y := by
    intro b d' valid hit member
    have counted := strand.counted valid hit member
    constructor
    · rintro rfl
      rw [counted] at zx
      simp at zx
    · rintro rfl
      rw [counted] at zy
      simp at zy
  refine ⟨c', run, ⟨order', layout'⟩, ?_, ?_⟩
  · intro b
    by_cases bx : b = x
    · subst bx
      simp [bufx, lNew, apart]
    by_cases yb : b = y
    · subst yb
      simp [bufy]
    have notD : ¬((c.buf b).valid = true ∧ (c.buf b).dev = dev ∧ (c.buf b).blockno = d) := by
      rintro ⟨valid, onDev, block⟩
      have same : (c'.buf b).SameBlock (c'.buf y) := by simp [Buf.SameBlock, others b bx yb, bufy, onDev, block]
      exact yb (layout'.unique (.inr (by simp [others b bx yb, valid])) (.inr (by simp [bufy])) same)
    rw [others b bx yb, strand.refcnt b]
    by_cases cond : (c.buf b).valid = true ∧ (c.buf b).dev = dev ∧ (c.buf b).blockno ∈ done
    · rw [if_pos cond, if_pos ⟨cond.1, cond.2.1, List.mem_append_left _ cond.2.2⟩]
    · rw [if_neg cond, if_neg]
      rintro ⟨valid, onDev, member⟩
      rcases List.mem_append.mp member with old | new
      · exact cond ⟨valid, onDev, old⟩
      · exact notD ⟨valid, onDev, List.mem_singleton.mp new⟩
  · intro d' member
    rcases List.mem_append.mp member with old | new
    · obtain ⟨b, valid, hit⟩ := strand.held d' old
      obtain ⟨bx, yb⟩ := untouched b d' valid hit old
      refine ⟨b, ?_, ?_⟩
      · simpa [others b bx yb] using valid
      · simpa [Bcache.cached, others b bx yb] using hit
    · rw [List.mem_singleton.mp new]
      exact ⟨y, by simp [bufy], by simp [Bcache.cached, bufy]⟩

theorem Stranded.installLoop {start : Nat} {blocks : List Nat} (distinct : blocks.Nodup)
    (outside : ∀ d ∈ blocks, d < start ∨ start + blocks.length < d) (fits : blocks.length < n) :
    ∀ rest (c : Bcache n) done, blocks = done ++ rest → c.Stranded dev done →
      ∃ c', (installLoop dev start c done.length rest).run = some (.ok c') ∧ c'.Stranded dev blocks := by
  intro rest
  induction rest with
  | nil =>
    intro c done whole strand
    rw [List.append_nil] at whole
    exact ⟨c, rfl, whole ▸ strand⟩
  | cons d rest ih =>
    intro c done whole strand
    have length : blocks.length = done.length + rest.length + 1 := by simp [whole]; omega
    have inLog : ∀ d' ∈ blocks, d' ≠ start + done.length + 1 := by
      intro d' member same
      rcases outside d' member with below | above <;> omega
    have dNew : d ∉ done := fun old => by
      rw [whole] at distinct
      exact (List.nodup_append.mp distinct).2.2 d old d List.mem_cons_self rfl
    have lNew : start + done.length + 1 ∉ done := fun old =>
      inLog _ (whole ▸ List.mem_append_left _ old) rfl
    have apart : start + done.length + 1 ≠ d := fun same =>
      inLog d (whole ▸ List.mem_append_right _ List.mem_cons_self) same.symm
    obtain ⟨c1, pass, strand1⟩ := strand.installBlock lNew dNew apart (by omega)
    obtain ⟨c', run, final⟩ := ih c1 (done ++ [d]) (by simp [whole]) strand1
    refine ⟨c', ?_, final⟩
    unfold Bcache.installLoop
    rw [run_bind_ok pass]
    simpa using run

/-- `recover_from_log` from a cache where no buffer holds a reference, for a
header as `commit` writes it: distinct home blocks outside the log, fewer than
the buffers. It returns, and leaves the buffer of every home block with the
count `2^32 - 1`, so that `bget` never recycles it; only those buffers hold a
count. -/
theorem recoverFromLog_strands_buffers {start : Nat} {blocks : List Nat} (layout : c.Layout order)
    (idle : ∀ b, (c.buf b).refcnt = 0) (distinct : blocks.Nodup)
    (outside : ∀ d ∈ blocks, d < start ∨ start + blocks.length < d) (fits : blocks.length < n) :
    ∃ c', (c.recoverFromLog dev start blocks).run = some (.ok c') ∧
      (∀ d ∈ blocks, ∃ b, c'.cached dev d b = true ∧ (c'.buf b).refcnt = 2 ^ 32 - 1) ∧
      ∀ b, (c'.buf b).refcnt ≠ 0 → ∃ d ∈ blocks, c'.cached dev d b = true := by
  have initial : c.Stranded dev [] := ⟨⟨order, layout⟩, fun b => by simp [idle b], by simp⟩
  have notHead : start ∉ blocks := fun member => by
    rcases outside start member with below | above <;> omega
  obtain ⟨c1, readRun, strand1⟩ := initial.readHead List.not_mem_nil (by simp; omega)
  obtain ⟨c2, installRun, strand2⟩ := Stranded.installLoop distinct outside fits blocks c1 [] rfl strand1
  obtain ⟨c3, writeRun, strand3⟩ := strand2.readHead notHead (by omega)
  refine ⟨c3, ?_, ?_, ?_⟩
  · unfold recoverFromLog
    rw [run_bind_ok readRun, run_bind_ok (by simpa [installTrans] using installRun)]
    exact writeRun
  · intro d member
    obtain ⟨b, valid, hit⟩ := strand3.held d member
    exact ⟨b, hit, strand3.counted valid hit member⟩
  · intro b counts
    rw [strand3.refcnt b] at counts
    split at counts
    · rename_i stranded
      exact ⟨_, stranded.2.2, by simp [Bcache.cached, stranded.2.1]⟩
    · exact absurd rfl counts

/-- At boot, with the log at block 2 as `mkfs` lays it out and one home block
`46` in the header: the buffer of block 46 is left with `2^32 - 1`. -/
theorem recoverFromLog_strands_buffers_boot :
    (binit nbuf).Layout (List.finRange nbuf).reverse ∧ (∀ b, ((binit nbuf).buf b).refcnt = 0) ∧
      [46].Nodup ∧ (∀ d ∈ [46], d < 2 ∨ 2 + [46].length < d) ∧ [46].length < nbuf ∧
      ∃ c', ((binit nbuf).recoverFromLog rootdev 2 [46]).run = some (.ok c') ∧
        (∀ d ∈ [46], ∃ b, c'.cached rootdev d b = true ∧ (c'.buf b).refcnt = 2 ^ 32 - 1) ∧
        ∀ b, (c'.buf b).refcnt ≠ 0 → ∃ d ∈ [46], c'.cached rootdev d b = true :=
  have idle : ∀ b, ((binit nbuf).buf b).refcnt = 0 := fun _ => rfl
  ⟨binit_layout, idle, by decide, by decide, by decide,
    recoverFromLog_strands_buffers binit_layout idle (by decide) (by decide) (by decide)⟩

/-- With three buffers and the home block `40`: the header's and the log
block's buffers end free, block 40's with `2^32 - 1`. -/
example : ((binit 3).recoverFromLog 0 2 [40]).run.map (Except.map fun c =>
    (List.finRange 3).map fun b => ((c.buf b).blockno, (c.buf b).refcnt)) =
      some (.ok [(2, 0), (3, 0), (40, 4294967295)]) := by
  decide

end Bcache

end Xv6.Fs
