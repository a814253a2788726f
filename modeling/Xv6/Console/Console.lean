import Mathlib
import Xv6.Lib.Run

/-! The input side of `console.c`: the ring `cons.buf` of `INPUT_BUF` bytes
with its three free-running `uint` indices, `consoleintr` for each character
the UART delivers, and `consoleread` by any number of processes. Both hold
`cons.lock`, except that a reader sleeps when nothing committed is left; so an
event is one `consoleintr`, the start of a `consoleread`, or a reader running
from a wakeup until it sleeps again or returns. The echo to the UART and
`procdump` change nothing here. -/

namespace Xv6

open Xv6.Lib

/-- `INPUT_BUF`. -/
def inputBuf : Nat := 128

/-- `C('D')`, `C('H')`, `C('P')` and `C('U')`. -/
def ctrlD : UInt8 := 4

def ctrlH : UInt8 := 8

def ctrlP : UInt8 := 16

def ctrlU : UInt8 := 21

/-- `'\n'`, `'\r'` and `'\x7f'`. -/
def newline : UInt8 := 10

def carriageReturn : UInt8 := 13

def delete : UInt8 := 0x7f

/-- The element `i % INPUT_BUF` of `buf`. -/
def bufSlot (i : UInt32) : Fin inputBuf :=
  ⟨i.toNat % inputBuf, Nat.mod_lt _ (by decide)⟩

/-- The input fields of `cons` (its lock is the atomicity of the events). -/
structure Cons where
  buf : Fin inputBuf → UInt8
  r : UInt32
  w : UInt32
  e : UInt32

/-- The `n` bytes of the ring `buf` from index `i` on. -/
def segment (buf : Fin inputBuf → UInt8) (i : UInt32) : Nat → List UInt8
  | 0 => []
  | n + 1 => buf (bufSlot i) :: segment buf (i + 1) n

namespace Cons

/-- The loop of `^U`: erase back to the write index or a newline. -/
def killLine : Nat → Cons → Cons
  | 0, cons => cons
  | fuel + 1, cons =>
    if cons.e != cons.w && cons.buf (bufSlot (cons.e - 1)) != newline then
      killLine fuel { cons with e := cons.e - 1 }
    else cons

/-- `consoleintr(c)`. -/
def consoleintr (cons : Cons) (c : UInt8) : Cons :=
  if c == ctrlP then cons
  else if c == ctrlU then killLine (cons.e - cons.w).toNat cons
  else if c == ctrlH || c == delete then
    if cons.e != cons.w then { cons with e := cons.e - 1 } else cons
  else if c != 0 && cons.e - cons.r < UInt32.ofNat inputBuf then
    let c := if c == carriageReturn then newline else c
    let cons := { cons with buf := Function.update cons.buf (bufSlot cons.e) c, e := cons.e + 1 }
    if c == newline || c == ctrlD || cons.e == cons.r + UInt32.ofNat inputBuf then
      { cons with w := cons.e }
    else cons
  else cons

end Cons

/-- Where a process is in `consoleread`. -/
inductive ConsPc where
  | idle
  /-- In `consoleread(user_dst, dst, n)` at the test of its outer loop, with
  `n` left of `target` and the bytes `got` copied so far; `dst i` says whether
  `either_copyout` to `dst + i` succeeds. -/
  | reading (dst : Nat → Bool) (target : Int) (n : Int) (got : List UInt8)
  /-- Returned `result`, having copied `got`. -/
  | returned (result : Int) (got : List UInt8)

namespace ConsPc

/-- Not inside `consoleread`. -/
def isIdle : ConsPc → Bool
  | .idle | .returned _ _ => true
  | _ => false

end ConsPc

/-- The passes of `consoleread`'s loop while the lock is held: a byte is taken
before it is looked at, `^D` is put back when something was read before it,
and the loop sleeps when nothing committed is left. -/
def readLoop (dst : Nat → Bool) (target : Int) : Nat → Cons → Int → List UInt8 →
    Option (Cons × ConsPc)
  | 0, _, _, _ => none
  | fuel + 1, cons, n, got =>
    if n > 0 then
      if cons.r == cons.w then some (cons, .reading dst target n got)
      else
        let c := cons.buf (bufSlot cons.r)
        let cons := { cons with r := cons.r + 1 }
        if c == ctrlD then
          if n < target then some ({ cons with r := cons.r - 1 }, .returned (target - n) got)
          else some (cons, .returned (target - n) got)
        else if !dst got.length then some (cons, .returned (target - n) got)
        else if c == newline then some (cons, .returned (target - (n - 1)) (got ++ [c]))
        else readLoop dst target fuel cons (n - 1) (got ++ [c])
    else some (cons, .returned (target - n) got)

/-- The console and the processes reading it, with two ghost histories: every
byte `consoleintr` committed to readers, and every byte readers took out of the
ring, in order. -/
structure ConsSys (P : Type) where
  cons : Cons
  pc : P → ConsPc
  committed : List UInt8
  taken : List UInt8

inductive ConsEvent (P : Type) where
  | consoleintr (c : UInt8)
  | consoleread (p : P) (dst : Nat → Bool) (n : Int)
  /-- `p` wakes and runs until it sleeps or returns. -/
  | run (p : P)

namespace ConsSys

variable {P : Type} [DecidableEq P]

def step (s : ConsSys P) : ConsEvent P → Option (Outcome (ConsSys P))
  | .consoleintr c =>
    let cons := s.cons.consoleintr c
    some (.running { s with
      cons := cons
      committed := s.committed ++ segment cons.buf s.cons.w (cons.w - s.cons.w).toNat })
  | .consoleread p dst n =>
    if (s.pc p).isIdle then some (.running { s with pc := Function.update s.pc p (.reading dst n n []) })
    else none
  | .run p =>
    match s.pc p with
    | .reading dst target n got =>
      (readLoop dst target ((s.cons.w - s.cons.r).toNat + 1) s.cons n got).map fun (cons, next) =>
        .running { s with
          cons := cons
          pc := Function.update s.pc p next
          taken := s.taken ++ segment s.cons.buf s.cons.r (cons.r - s.cons.r).toNat }
    | _ => none

/-- The console at boot: all indices `0`, the buffer zeroed, nobody reading. -/
def system (P : Type) [DecidableEq P] : System (ConsSys P) (ConsEvent P) where
  init := { cons := { buf := fun _ => 0, r := 0, w := 0, e := 0 }, pc := fun _ => .idle,
            committed := [], taken := [] }
  step := step

end ConsSys

end Xv6
