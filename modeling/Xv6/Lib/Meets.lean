import Mathlib

/-! Programs in `Except`, specified over every run. `Meets stop post x` says
that `x` returns a value that satisfies `post` or fails with an error that
satisfies `stop`. The rules compose it along a `do` block, so that a call is
specified by the specifications of the steps it is made of, with no unfolding
of the steps. Nothing here is specific to one program. -/

namespace Xv6.Lib

variable {ε α β : Type} {stop : ε → Prop} {post post' : α → Prop} {x : Except ε α}

/-- `x` returns a value that satisfies `post`, or fails with an error that
satisfies `stop`. -/
def Meets (stop : ε → Prop) (post : α → Prop) : Except ε α → Prop
  | .ok a => post a
  | .error e => stop e

theorem meets_pure {a : α} (holds : post a) : Meets stop post (pure a : Except ε α) := holds

theorem meets_ok {a : α} (holds : post a) : Meets stop post (.ok a : Except ε α) := holds

theorem meets_throw {e : ε} (allowed : stop e) : Meets stop post (throw e : Except ε α) := allowed

theorem meets_bind {f : α → Except ε β} {post : β → Prop}
    (first : Meets stop (fun a => Meets stop post (f a)) x) : Meets stop post (x >>= f) := by
  cases x with
  | error e => exact first
  | ok a => exact first

theorem meets_bind_ok {f : α → Except ε β} {post : β → Prop} {a : α} (returns : x = .ok a)
    (rest : Meets stop post (f a)) : Meets stop post (x >>= f) := by
  subst returns
  exact rest

theorem Meets.mono (meets : Meets stop post x) (weaker : ∀ a, post a → post' a) : Meets stop post' x := by
  cases x with
  | error e => exact meets
  | ok a => exact weaker a meets

theorem meets_map {f : α → β} {post : β → Prop} (meets : Meets stop (fun a => post (f a)) x) :
    Meets stop post (x.map f) := by
  cases x with
  | error e => exact meets
  | ok a => exact meets

theorem Meets.widen {stop' : ε → Prop} (meets : Meets stop post x) (wider : ∀ e, stop e → stop' e) :
    Meets stop' post x := by
  cases x with
  | error e => exact wider e meets
  | ok a => exact meets

theorem Meets.and {stop' : ε → Prop} (meets : Meets stop post x) (also : Meets stop' post' x) :
    Meets stop (fun a => post a ∧ post' a) x := by
  cases x with
  | error e => exact meets
  | ok a => exact ⟨meets, also⟩

theorem Meets.returns (meets : Meets (fun _ => False) post x) : ∃ a, x = .ok a ∧ post a := by
  cases x with
  | error e => exact meets.elim
  | ok a => exact ⟨a, rfl, meets⟩

theorem Meets.of_ne {e : ε} (meets : Meets (fun e' => e' = e) post x) (other : x ≠ .error e) :
    Meets (fun _ => False) post x := by
  cases x with
  | error e' => exact other (congrArg Except.error meets)
  | ok a => exact meets

theorem Meets.of_ok {a : α} (meets : Meets stop post x) (returns : x = .ok a) : post a := by
  subst returns
  exact meets

end Xv6.Lib
