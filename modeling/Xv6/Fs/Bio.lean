import Xv6.Lib.Run
import Xv6.Lib.Ring

/-! The buffer cache of `bio.c`: `NBUF` buffers on one list through
`bcache.head`, most recently used first. `bget` looks for the block from the
front of the list and recycles an unused buffer from the back, `brelse` moves
a buffer whose last reference it drops to the front, and `bpin` and `bunpin`
take and drop a reference for the log. Every buffer has a sleep lock that
`bread` takes after `bget` returns and `brelse` gives back.

The cache is modelled for any number `n` of buffers; `bio.c` has `n = NBUF`. -/

namespace Xv6.Fs

open Xv6.Lib

/-- The fields of `struct buf` the cache reads and writes, beside its sleep
lock and its list links. `refcnt` is a `Nat`: it only counts references, and
the decrements are shown never to happen at zero. -/
structure Buf where
  valid : Bool
  dev : Nat
  blockno : Nat
  refcnt : Nat
  deriving DecidableEq, Repr

/-- `bcache`: the buffers and the `next`/`prev` links of the list through
`bcache.head`. -/
structure Bcache (n : Nat) where
  buf : Fin n → Buf
  links : Links (Fin n)

namespace Bcache

variable {n : Nat}

/-- A `struct buf` in static storage: every field zero. -/
def zeroBuf : Buf := { valid := false, dev := 0, blockno := 0, refcnt := 0 }

/-- `binit`: `head` linked to itself, then every buffer in turn pushed to the
front. -/
def binit (n : Nat) : Bcache n where
  buf := fun _ => zeroBuf
  links := (List.finRange n).foldl (fun links b => links.pushFront (.item b))
    { next := fun _ => .head, prev := fun _ => .head }

def setBuf (c : Bcache n) (b : Fin n) (v : Buf) : Bcache n :=
  { c with buf := Function.update c.buf b v }

/-- `b->dev == dev && b->blockno == blockno`. -/
def cached (c : Bcache n) (dev blockno : Nat) (b : Fin n) : Bool :=
  (c.buf b).dev == dev && (c.buf b).blockno == blockno

/-- `b->refcnt == 0`. -/
def unused (c : Bcache n) (b : Fin n) : Bool :=
  (c.buf b).refcnt == 0

/-- `b->refcnt++`. -/
def incref (c : Bcache n) (b : Fin n) : Bcache n :=
  c.setBuf b { c.buf b with refcnt := (c.buf b).refcnt + 1 }

/-- `b->refcnt--`. -/
def decref (c : Bcache n) (b : Fin n) : Bcache n :=
  c.setBuf b { c.buf b with refcnt := (c.buf b).refcnt - 1 }

/-- `bget`'s recycling of `b` for a block: `b->dev = dev; b->blockno = blockno;
b->valid = 0; b->refcnt = 1;`. -/
def recycle (c : Bcache n) (b : Fin n) (dev blockno : Nat) : Bcache n :=
  c.setBuf b { dev := dev, blockno := blockno, valid := false, refcnt := 1 }

/-- `bget`'s critical section: the buffer it returns and the cache after it,
or its panic; `none` when one of its loops is not back at `head` after `n`
buffers and would run on. -/
def bget (c : Bcache n) (dev blockno : Nat) : Option (Except String (Fin n × Bcache n)) :=
  match scan c.links.next (c.cached dev blockno) n (c.links.next .head) with
  | none => none
  | some (some b) => some (.ok (b, c.incref b))
  | some none =>
    match scan c.links.prev c.unused n (c.links.prev .head) with
    | none => none
    | some (some b) => some (.ok (b, c.recycle b dev blockno))
    | some none => some (.error "bget: no buffers")

/-- `brelse`'s critical section: the reference goes, and a buffer left with
none moves to the front of the list. -/
def brelse (c : Bcache n) (b : Fin n) : Bcache n :=
  let c := c.decref b
  if (c.buf b).refcnt = 0 then { c with links := (c.links.unlink (.item b)).pushFront (.item b) }
  else c

/-- `bread` after `acquiresleep`: `if(!b->valid) { virtio_disk_rw(b->dev, b, 0);
b->valid = 1; }`; the contents are not modelled. -/
def fill (c : Bcache n) (b : Fin n) : Bcache n :=
  if (c.buf b).valid then c else c.setBuf b { c.buf b with valid := true }

@[simp] theorem setBuf_links {c : Bcache n} {b : Fin n} {v : Buf} : (c.setBuf b v).links = c.links :=
  rfl

@[simp] theorem setBuf_buf {c : Bcache n} {b : Fin n} {v : Buf} :
    (c.setBuf b v).buf = Function.update c.buf b v :=
  rfl

theorem fill_eq {c : Bcache n} {b : Fin n} : c.fill b = c.setBuf b { c.buf b with valid := true } := by
  unfold fill
  split
  · rename_i valid
    cases c
    simp only [setBuf, Bcache.mk.injEq, and_true]
    funext x
    by_cases same : x = b
    · subst x
      simp [← valid]
    · simp [Function.update_of_ne same]
  · rfl

end Bcache

/-- The cache, the sleep locks of its buffers and the processes using it, with
two ghost records: the processes that hold a reference from `bget`, once per
reference, and how many pins the log holds on each buffer. -/
structure BioSys (P : Type) (n : Nat) where
  cache : Bcache n
  /-- `b->lock`: the process holding it (its `locked` and `pid`). -/
  locked : Fin n → Option P
  /-- The buffer a process sleeps on in `acquiresleep`, after `bget` returned it. -/
  sleeping : P → Option (Fin n)
  holders : Fin n → List P
  pins : Fin n → Nat

inductive BioEvent (P : Type) (n : Nat) where
  /-- `bread(dev, blockno)` up to its `acquiresleep`: `bget`'s critical section. -/
  | bread (p : P) (dev blockno : Nat)
  /-- `acquiresleep` returns in `bread`, which then reads the block if needed. -/
  | acquire (p : P)
  | bwrite (p : P) (b : Fin n)
  | brelse (p : P) (b : Fin n)
  | bpin (p : P) (b : Fin n)
  | bunpin (b : Fin n)

namespace BioSys

variable {P : Type} [DecidableEq P] {n : Nat}

/-- A process that is not asleep uses a buffer it got from `bread`: `brelse`
matches a `bget` of the same process, and `bpin` and `bwrite`, as `log_write`
and `write_log` call them, act on a buffer their caller read. -/
def Uses (s : BioSys P n) (p : P) (b : Fin n) : Prop :=
  s.sleeping p = none ∧ p ∈ s.holders b

instance (s : BioSys P n) (p : P) (b : Fin n) : Decidable (s.Uses p b) :=
  inferInstanceAs (Decidable (_ ∧ _))

def step (s : BioSys P n) : BioEvent P n → Option (Outcome (BioSys P n))
  | .bread p dev blockno =>
    if s.sleeping p = none then
      match s.cache.bget dev blockno with
      | none => none
      | some (.error message) => some (.panicked message)
      | some (.ok (b, cache)) =>
        some (.running { s with
          cache := cache
          sleeping := Function.update s.sleeping p (some b)
          holders := Function.update s.holders b (s.holders b ++ [p]) })
    else none
  | .acquire p =>
    match s.sleeping p with
    | some b =>
      if s.locked b = none then
        some (.running { s with
          cache := s.cache.fill b
          locked := Function.update s.locked b (some p)
          sleeping := Function.update s.sleeping p none })
      else none
    | none => none
  | .bwrite p b =>
    if s.Uses p b then
      if s.locked b = some p then some (.running s) else some (.panicked "bwrite")
    else none
  | .brelse p b =>
    if s.Uses p b then
      if s.locked b = some p then
        some (.running { s with
          cache := s.cache.brelse b
          locked := Function.update s.locked b none
          holders := Function.update s.holders b ((s.holders b).erase p) })
      else some (.panicked "brelse")
    else none
  | .bpin p b =>
    if s.Uses p b then
      some (.running { s with
        cache := s.cache.incref b
        pins := Function.update s.pins b (s.pins b + 1) })
    else none
  | .bunpin b =>
    if 0 < s.pins b then
      some (.running { s with
        cache := s.cache.decref b
        pins := Function.update s.pins b (s.pins b - 1) })
    else none

/-- The cache `binit` builds, no lock held, nobody asleep, no reference taken. -/
def system (P : Type) [DecidableEq P] (n : Nat) : System (BioSys P n) (BioEvent P n) where
  init :=
    { cache := Bcache.binit n
      locked := fun _ => none
      sleeping := fun _ => none
      holders := fun _ => []
      pins := fun _ => 0 }
  step := step

end BioSys

end Xv6.Fs
