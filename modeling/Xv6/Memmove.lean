import Xv6.Lib.Bytes

/-! `memmove` twice: the kernel's of `string.c` and the user library's of
`ulib.c`. Both copy one byte at a time, front to back or back to front, and
pick the direction so that no source byte is overwritten before it is read.
Each loop computes `Lib.copyBytes`, the destination overwritten by the
original source bytes, under the overlap its direction tolerates; the two
functions test for the direction differently, and both tests pick a safe one. -/

namespace Xv6

open Lib

variable {m : Mem} {d s n : Nat}

/-- `while(n-- > 0) *d++ = *s++;` -/
def copyForward (m : Mem) (d s : Nat) : Nat → Mem
  | 0 => m
  | n + 1 => copyForward (Function.update m d (m s)) (d + 1) (s + 1) n

/-- `d += n; s += n; while(n-- > 0) *--d = *--s;`: with `n` bytes left the
decremented pointers stand at `d + n` and `s + n`. -/
def copyBackward (m : Mem) (d s : Nat) : Nat → Mem
  | 0 => m
  | n + 1 => copyBackward (Function.update m (d + n) (m (s + n))) d s n

/-- `memmove(dst, src, n)` of `string.c`. -/
def memmove (m : Mem) (dst src n : Nat) : Mem :=
  if src < dst ∧ src + n > dst then copyBackward m dst src n else copyForward m dst src n

/-- `memmove(vdst, vsrc, n)` of `ulib.c`; its count is an `int`, and a
negative one copies nothing. -/
def User.memmove (m : Mem) (vdst vsrc : Nat) (n : Int) : Mem :=
  if vsrc > vdst then copyForward m vdst vsrc n.toNat else copyBackward m vdst vsrc n.toNat

theorem copyBytes_zero (m src : Mem) (d s : Nat) : copyBytes m d src s 0 = m := by
  funext i
  exact copyBytes_outside (by omega) src s

theorem copyBytes_succ_forward (ahead : d ≤ s ∨ s + (n + 1) ≤ d) :
    copyBytes (Function.update m d (m s)) (d + 1) (Function.update m d (m s)) (s + 1) n =
      copyBytes m d m s (n + 1) := by
  funext i
  by_cases first : i = d
  · subst first
    rw [copyBytes_outside (by omega), Function.update_self, copyBytes_inside (by omega),
      Nat.sub_self, Nat.add_zero]
  · by_cases inside : d + 1 ≤ i ∧ i < d + 1 + n
    · rw [copyBytes_inside inside, copyBytes_inside (by omega), Function.update_of_ne (by omega)]
      congr 1
      omega
    · rw [copyBytes_outside (by omega), copyBytes_outside (by omega), Function.update_of_ne first]

theorem copyBytes_succ_backward (behind : s ≤ d ∨ d + (n + 1) ≤ s) :
    copyBytes (Function.update m (d + n) (m (s + n))) d (Function.update m (d + n) (m (s + n))) s n =
      copyBytes m d m s (n + 1) := by
  funext i
  by_cases last : i = d + n
  · subst last
    rw [copyBytes_outside (by omega), Function.update_self, copyBytes_inside (by omega),
      Nat.add_sub_cancel_left]
  · by_cases inside : d ≤ i ∧ i < d + n
    · rw [copyBytes_inside inside, copyBytes_inside (by omega), Function.update_of_ne (by omega)]
    · rw [copyBytes_outside (by omega), copyBytes_outside (by omega), Function.update_of_ne last]

theorem copyForward_eq (m : Mem) (d s n : Nat) (ahead : d ≤ s ∨ s + n ≤ d) :
    copyForward m d s n = copyBytes m d m s n := by
  induction n generalizing m d s with
  | zero => exact (copyBytes_zero m m d s).symm
  | succ n ih =>
    rw [copyForward, ih _ (d + 1) (s + 1) (by omega)]
    exact copyBytes_succ_forward ahead

theorem copyBackward_eq (m : Mem) (d s n : Nat) (behind : s ≤ d ∨ d + n ≤ s) :
    copyBackward m d s n = copyBytes m d m s n := by
  induction n generalizing m with
  | zero => exact (copyBytes_zero m m d s).symm
  | succ n ih =>
    rw [copyBackward, ih _ (by omega)]
    exact copyBytes_succ_backward behind

theorem memmove_eq (m : Mem) (dst src n : Nat) : memmove m dst src n = copyBytes m dst m src n := by
  unfold memmove
  split
  · next overlap => exact copyBackward_eq m dst src n (.inl (Nat.le_of_lt overlap.1))
  · next apart => exact copyForward_eq m dst src n (by omega)

theorem User.memmove_eq (m : Mem) (vdst vsrc : Nat) (n : Int) :
    User.memmove m vdst vsrc n = copyBytes m vdst m vsrc n.toNat := by
  unfold User.memmove
  split
  · next above => exact copyForward_eq m vdst vsrc n.toNat (.inl (Nat.le_of_lt above))
  · next below => exact copyBackward_eq m vdst vsrc n.toNat (.inl (by omega))

theorem memmove_moves (m : Mem) (dst src n : Nat) :
    (∀ k < n, memmove m dst src n (dst + k) = m (src + k) ∧
      User.memmove m dst src n (dst + k) = m (src + k)) ∧
    (∀ i, i < dst ∨ dst + n ≤ i → memmove m dst src n i = m i ∧ User.memmove m dst src n i = m i) := by
  rw [memmove_eq, User.memmove_eq, Int.toNat_natCast]
  refine ⟨fun k below => ?_, fun i outside => ?_⟩
  · have inside : dst ≤ dst + k ∧ dst + k < dst + n := by omega
    rw [copyBytes_inside inside, Nat.add_sub_cancel_left]
    exact ⟨rfl, rfl⟩
  · rw [copyBytes_outside outside]
    exact ⟨rfl, rfl⟩

end Xv6
