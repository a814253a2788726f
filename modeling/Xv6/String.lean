import Mathlib

/-! The string functions of `string.c` that names go through, on C strings
given as the list of their bytes before the terminating NUL: past the end of
the list a string reads as NUL. -/

namespace Xv6

/-- A C string: its bytes before the terminating NUL, which hold no NUL. -/
structure CString where
  bytes : List UInt8
  noNul : 0 ∉ bytes

/-- `strncmp(p, q, n)`. -/
def strncmp : List UInt8 → List UInt8 → Nat → Int
  | _, _, 0 => 0
  | p, q, n + 1 =>
    let a := p.headD 0
    let b := q.headD 0
    if a ≠ 0 ∧ a = b then strncmp p.tail q.tail n else (a.toNat : Int) - b.toNat

/-- The `n` bytes `strncpy(s, t, n)` writes to `s`: those of `t` up to its NUL,
then NULs. -/
def strncpy : List UInt8 → Nat → List UInt8
  | _, 0 => []
  | [], n + 1 => 0 :: strncpy [] n
  | c :: t, n + 1 => if c = 0 then 0 :: strncpy [] n else c :: strncpy t n

@[simp] theorem strncpy_length : ∀ (t : List UInt8) (n : Nat), (strncpy t n).length = n
  | _, 0 => rfl
  | [], n + 1 => by simp [strncpy, strncpy_length [] n]
  | c :: t, n + 1 => by
    by_cases nul : c = 0 <;> simp [strncpy, nul, strncpy_length]

theorem strncmp_strncpy : ∀ (t : List UInt8) (n : Nat), strncmp t (strncpy t n) n = 0
  | _, 0 => rfl
  | [], n + 1 => by simp [strncmp, strncpy]
  | c :: t, n + 1 => by
    by_cases nul : c = 0
    · simp [strncmp, strncpy, nul]
    · simp [strncmp, strncpy, nul, strncmp_strncpy t n]

/-- The bytes of `p` that `strncmp(p, q, n)` compares: those before its
first NUL, at most `n`. -/
def strnKey (p : List UInt8) (n : Nat) : List UInt8 :=
  (strncpy p n).takeWhile (· != 0)

theorem strnKey_succ (p : List UInt8) (n : Nat) :
    strnKey p (n + 1) = if p.headD 0 = 0 then [] else p.headD 0 :: strnKey p.tail n := by
  cases p with
  | nil => simp [strnKey, strncpy]
  | cons c t =>
    by_cases nul : c = 0
    · simp [strnKey, strncpy, nul]
    · simp [strnKey, strncpy, nul]

theorem strncmp_eq_zero_iff : ∀ (p q : List UInt8) (n : Nat), strncmp p q n = 0 ↔ strnKey p n = strnKey q n
  | _, _, 0 => by simp [strncmp, strnKey, strncpy]
  | p, q, n + 1 => by
    rw [strncmp, strnKey_succ, strnKey_succ]
    by_cases same : p.headD 0 ≠ 0 ∧ p.headD 0 = q.headD 0
    · rw [if_pos same, strncmp_eq_zero_iff p.tail q.tail n, if_neg same.1, ← same.2, if_neg same.1,
        List.cons.injEq]
      simp
    · rw [if_neg same]
      have differ : ((p.headD 0).toNat : Int) - (q.headD 0).toNat = 0 ↔ p.headD 0 = q.headD 0 := by
        rw [sub_eq_zero, Nat.cast_inj, UInt8.toNat_inj]
      rw [differ]
      by_cases nul : p.headD 0 = 0
      · rw [if_pos nul, nul]
        split
        · simp_all
        · rename_i full
          simp only [List.nil_eq, reduceCtorEq, iff_false]
          exact fun zero => full zero.symm
      · have apart : p.headD 0 ≠ q.headD 0 := fun equal => same ⟨nul, equal⟩
        rw [if_neg nul]
        split <;> simp_all

end Xv6
