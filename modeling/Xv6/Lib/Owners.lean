import Mathlib

/-! Locks held by agents: a table that names, for each lock, the agent that
holds it, kept in step with what each agent holds by its own account. Taking
a free lock and dropping a held one keep the two in step, and a table names
one holder, so no two agents hold one lock. Nothing here is specific to one
program. -/

namespace Xv6.Lib

variable {K A : Type}

/-- `holder` names, for every lock, the agent that holds it by `held`, and
names none for a lock no agent holds. -/
def Owned (holder : K → Option A) (held : A → K → Prop) : Prop :=
  ∀ k a, holder k = some a ↔ held a k

namespace Owned

variable {holder : K → Option A} {held held' : A → K → Prop} {k : K} {a b : A}

theorem unique (own : Owned holder held) (first : held a k) (second : held b k) : a = b := by
  have named : holder k = some a := (own k a).mpr first
  rw [(own k b).mpr second] at named
  exact (Option.some.inj named).symm

theorem not_held (own : Owned holder held) (free : holder k = none) : ¬ held a k := by
  intro holds
  rw [(own k a).mpr holds] at free
  cases free

theorem congr (own : Owned holder held) (same : ∀ b j, held' b j ↔ held b j) : Owned holder held' := by
  intro j b
  rw [same, own]

variable [DecidableEq K]

theorem take (own : Owned holder held) (free : holder k = none)
    (grow : ∀ j, held' a j ↔ held a j ∨ j = k) (others : ∀ b, b ≠ a → ∀ j, held' b j ↔ held b j) :
    Owned (Function.update holder k (some a)) held' := by
  intro j b
  by_cases taken : j = k
  · subst taken
    rw [Function.update_self]
    by_cases same : b = a
    · subst same
      simp [grow]
    · rw [others b same]
      simp only [Option.some.injEq]
      exact ⟨fun named => absurd named.symm same, fun holds => absurd holds (own.not_held free)⟩
  · rw [Function.update_of_ne taken, own j b]
    by_cases same : b = a
    · subst same
      simp [grow, taken]
    · rw [others b same]

theorem drop (own : Owned holder held) (mine : holder k = some a)
    (shrink : ∀ j, held' a j ↔ held a j ∧ j ≠ k) (others : ∀ b, b ≠ a → ∀ j, held' b j ↔ held b j) :
    Owned (Function.update holder k none) held' := by
  intro j b
  by_cases dropped : j = k
  · subst dropped
    rw [Function.update_self]
    simp only [reduceCtorEq, false_iff]
    by_cases same : b = a
    · subst same
      simp [shrink]
    · rw [others b same]
      exact fun holds => same (own.unique holds ((own j a).mp mine))
  · rw [Function.update_of_ne dropped, own j b]
    by_cases same : b = a
    · subst same
      simp [shrink, dropped]
    · rw [others b same]

end Owned

end Xv6.Lib
