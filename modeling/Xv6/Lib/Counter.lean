import Mathlib

/-! Free-running 32-bit counters. A `UInt32` incremented `total` times from zero
holds `total % 2^32`; while two such counters stay less than `2^32` apart, their
wrapped difference and their equality tell the true difference, and their
residues modulo any divisor of `2^32` are those of the true counts. -/

namespace Xv6.Lib

/-- `c` has been incremented `total` times from zero. -/
def Counts (c : UInt32) (total : Nat) : Prop :=
  c.toNat = total % 2 ^ 32

variable {x y : UInt32} {X Y : Nat}

theorem Counts.zero : Counts 0 0 := rfl

theorem Counts.succ (counts : Counts x X) : Counts (x + 1) (X + 1) := by
  unfold Counts at *
  rw [UInt32.toNat_add, counts, UInt32.toNat_one]
  omega

theorem Counts.add (counts : Counts x X) (k : Nat) : Counts (x + UInt32.ofNat k) (X + k) := by
  unfold Counts at *
  rw [UInt32.toNat_add, counts, UInt32.toNat_ofNat']
  omega

theorem Counts.sub (countsX : Counts x X) (countsY : Counts y Y) (ahead : Y ≤ X)
    (close : X - Y < 2 ^ 32) : (x - y).toNat = X - Y := by
  unfold Counts at *
  rw [UInt32.toNat_sub, countsX, countsY]
  omega

theorem Counts.eq_iff (countsX : Counts x X) (countsY : Counts y Y) (ahead : Y ≤ X)
    (close : X - Y < 2 ^ 32) : x = y ↔ X = Y := by
  rw [← UInt32.toNat_inj]
  unfold Counts at *
  rw [countsX, countsY]
  omega

theorem Counts.eq_add_iff {gap : Nat} (countsX : Counts x X) (countsY : Counts y Y)
    (ahead : Y ≤ X) (within : X ≤ Y + gap) (small : gap < 2 ^ 32) :
    x = y + UInt32.ofNat gap ↔ X = Y + gap := by
  rw [← UInt32.toNat_inj, UInt32.toNat_add, UInt32.toNat_ofNat']
  unfold Counts at *
  rw [countsX, countsY]
  omega

theorem Counts.mod {m : Nat} (counts : Counts x X) (divides : m ∣ 2 ^ 32) :
    x.toNat % m = X % m := by
  unfold Counts at counts
  rw [counts, Nat.mod_mod_of_dvd _ divides]

/-! How far one counter is ahead of another: the wrapped difference. -/

theorem gap_self : (x - x).toNat = 0 := by
  simp

theorem gap_eq_zero_iff : (x - y).toNat = 0 ↔ x = y := by
  rw [← UInt32.toNat_inj, UInt32.toNat_sub]
  have := x.toNat_lt
  have := y.toNat_lt
  omega

theorem gap_add {z : UInt32} (close : (x - y).toNat + (y - z).toNat < 2 ^ 32) :
    (x - z).toNat = (x - y).toNat + (y - z).toNat := by
  simp only [UInt32.toNat_sub] at close ⊢
  have := x.toNat_lt
  have := y.toNat_lt
  have := z.toNat_lt
  omega

theorem gap_succ (room : (x - y).toNat + 1 < 2 ^ 32) : (x + 1 - y).toNat = (x - y).toNat + 1 := by
  simp only [UInt32.toNat_sub, UInt32.toNat_add, UInt32.toNat_one] at room ⊢
  have := x.toNat_lt
  have := y.toNat_lt
  omega

theorem gap_pred (ahead : x ≠ y) : (x - 1 - y).toNat = (x - y).toNat - 1 := by
  have apart : x.toNat ≠ y.toNat := fun same => ahead (UInt32.toNat_inj.mp same)
  rw [UInt32.toNat_sub, UInt32.toNat_sub, UInt32.toNat_sub]
  have := x.toNat_lt
  have := y.toNat_lt
  simp only [UInt32.toNat_one]
  omega

theorem gap_succ_right (ahead : x ≠ y) : (x - (y + 1)).toNat = (x - y).toNat - 1 := by
  have apart : x.toNat ≠ y.toNat := fun same => ahead (UInt32.toNat_inj.mp same)
  rw [UInt32.toNat_sub, UInt32.toNat_sub, UInt32.toNat_add]
  have := x.toNat_lt
  have := y.toNat_lt
  simp only [UInt32.toNat_one]
  omega

theorem gap_add_ofNat {k : Nat} (small : k < 2 ^ 32) : (x + UInt32.ofNat k - x).toNat = k := by
  simp only [UInt32.toNat_sub, UInt32.toNat_add, UInt32.toNat_ofNat']
  have := x.toNat_lt
  omega

theorem gap_advance {k : Nat} (within : k ≤ (x - y).toNat) :
    (x - (y + UInt32.ofNat k)).toNat = (x - y).toNat - k := by
  simp only [UInt32.toNat_sub, UInt32.toNat_add, UInt32.toNat_ofNat'] at within ⊢
  have := x.toNat_lt
  have := y.toNat_lt
  omega

theorem toNat_add_ofNat_mod {m d : Nat} (divides : d ∣ 2 ^ 32) :
    (x + UInt32.ofNat m).toNat % d = (x.toNat + m) % d := by
  rw [UInt32.toNat_add, UInt32.toNat_ofNat', Nat.mod_mod_of_dvd _ divides, Nat.add_mod,
    Nat.mod_mod_of_dvd _ divides, ← Nat.add_mod]

end Xv6.Lib
