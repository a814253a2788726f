import Mathlib

/-! A device that performs a list of operations one at a time, each atomically,
and a crash that stops it after the first `k` of them. -/

namespace Xv6.Lib

variable {σ ω : Type} (apply : σ → ω → σ)

/-- The state left when the device completed exactly the first `k` of `ops`. -/
def crashAfter (s : σ) (ops : List ω) (k : Nat) : σ :=
  (ops.take k).foldl apply s

variable {apply} {s : σ} {ops more : List ω} {k : Nat}

theorem crashAfter_append_of_le (inside : k ≤ ops.length) :
    crashAfter apply s (ops ++ more) k = crashAfter apply s ops k := by
  unfold crashAfter
  rw [List.take_append_of_le_length inside]

theorem crashAfter_append_of_ge (after : ops.length ≤ k) :
    crashAfter apply s (ops ++ more) k = crashAfter apply (ops.foldl apply s) more (k - ops.length) := by
  unfold crashAfter
  rw [List.take_append, List.take_of_length_le after, List.foldl_append]

theorem crashAfter_of_ge (after : ops.length ≤ k) :
    crashAfter apply s ops k = ops.foldl apply s := by
  unfold crashAfter
  rw [List.take_of_length_le after]

theorem crashAfter_cons_succ {op : ω} :
    crashAfter apply s (op :: ops) (k + 1) = crashAfter apply (apply s op) ops k := by
  simp [crashAfter, List.take_succ_cons]

@[simp] theorem crashAfter_nil : crashAfter apply s [] k = s := by
  simp [crashAfter]

end Xv6.Lib
