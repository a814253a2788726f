import Mathlib

/-! Transition systems given by a guarded step function whose steps may stop the
machine with a message, their reachable states, the replay of a list of events,
and the invariant rule that every state-machine result of the development is
proved with. Nothing here is specific to one program. -/

namespace Xv6.Lib

universe u v

/-- Where one step can lead: another state, or a stop with the message printed. -/
inductive Outcome (σ : Type u) where
  | running (state : σ)
  | panicked (message : String)
deriving DecidableEq

/-- A system: its initial state, and for every state and event the outcome of
the event, or `none` when the event is not enabled there. -/
structure System (σ : Type u) (ε : Type v) where
  init : σ
  step : σ → ε → Option (Outcome σ)

namespace System

variable {σ : Type u} {ε : Type v} {sys : System σ ε} {inv : σ → Prop} {s t : σ}

/-- One event leads from `s` to `t` without stopping. -/
def Next (sys : System σ ε) (s t : σ) : Prop :=
  ∃ event, sys.step s event = some (.running t)

/-- The states that runs from the initial state reach without stopping. -/
def Reachable (sys : System σ ε) : σ → Prop :=
  Relation.ReflTransGen sys.Next sys.init

/-- Some run stops with `message`. -/
def CanPanic (sys : System σ ε) (message : String) : Prop :=
  ∃ s, sys.Reachable s ∧ ∃ event, sys.step s event = some (.panicked message)

/-- Replay `events` from `s`; a stop ends the replay, a disabled event fails it. -/
def runFrom (sys : System σ ε) (s : σ) : List ε → Option (Outcome σ)
  | [] => some (.running s)
  | event :: events =>
    match sys.step s event with
    | some (.running next) => sys.runFrom next events
    | some (.panicked message) => some (.panicked message)
    | none => none

/-- A predicate that holds initially and that every non-stopping step keeps. -/
structure Invariant (sys : System σ ε) (inv : σ → Prop) : Prop where
  init : inv sys.init
  step : ∀ {s t} event, inv s → sys.step s event = some (.running t) → inv t

theorem Reachable.init : sys.Reachable sys.init := Relation.ReflTransGen.refl

theorem Reachable.next (reach : sys.Reachable s) (event : ε)
    (step : sys.step s event = some (.running t)) : sys.Reachable t :=
  Relation.ReflTransGen.tail reach ⟨event, step⟩

theorem Invariant.holds (rule : sys.Invariant inv) (reach : sys.Reachable s) : inv s := by
  induction reach with
  | refl => exact rule.init
  | tail _ next ih =>
    obtain ⟨event, step⟩ := next
    exact rule.step event ih step

theorem Invariant.not_canPanic (rule : sys.Invariant inv) {message : String}
    (safe : ∀ s event, inv s → sys.step s event ≠ some (.panicked message)) :
    ¬ sys.CanPanic message := by
  rintro ⟨s, reach, event, stop⟩
  exact safe s event (rule.holds reach) stop

theorem runFrom_reachable (reach : sys.Reachable s) :
    ∀ events, sys.runFrom s events = some (.running t) → sys.Reachable t := by
  intro events
  induction events generalizing s with
  | nil =>
    intro replay
    simp only [runFrom, Option.some.injEq, Outcome.running.injEq] at replay
    exact replay ▸ reach
  | cons event events ih =>
    intro replay
    simp only [runFrom] at replay
    split at replay
    · rename_i next step
      exact ih (reach.next event step) replay
    · cases replay
    · cases replay

theorem runFrom_append {events : List ε} (run : sys.runFrom s events = some (.running t))
    (more : List ε) : sys.runFrom s (events ++ more) = sys.runFrom t more := by
  induction events generalizing s with
  | nil =>
    simp only [runFrom, Option.some.injEq, Outcome.running.injEq] at run
    rw [List.nil_append, run]
  | cons event events ih =>
    simp only [runFrom] at run
    rw [List.cons_append, runFrom]
    split at run
    · exact ih run
    · cases run
    · cases run

end System

/-! ### Loops that may stop -/

section Loop

variable {ε σ α : Type} {f : σ → α → Except ε σ}

theorem foldlM_invariant (inv : List α → σ → Prop) (xs : List α) {s : σ} (start : inv [] s)
    (step : ∀ ys x zs t, xs = ys ++ x :: zs → inv ys t → ∃ t', f t x = .ok t' ∧ inv (ys ++ [x]) t') :
    ∃ t, xs.foldlM f s = .ok t ∧ inv xs t := by
  suffices loop : ∀ rest done s, xs = done ++ rest → inv done s → ∃ t, rest.foldlM f s = .ok t ∧ inv xs t from
    loop xs [] s rfl start
  intro rest
  induction rest with
  | nil =>
    intro done s whole holds
    rw [List.append_nil] at whole
    exact ⟨s, rfl, whole ▸ holds⟩
  | cons x rest ih =>
    intro done s whole holds
    obtain ⟨t, pass, holds'⟩ := step done x rest s whole holds
    obtain ⟨u, run, final⟩ := ih (done ++ [x]) t (by simp [whole]) holds'
    refine ⟨u, ?_, final⟩
    simp only [List.foldlM_cons, pass]
    exact run

end Loop

/-! ### Small sets of processes

Scenarios run a system on `Fin 2` or `Fin 3` and name the processes by
numerals; these lemmas, made local instances there, give the numerals' bound
once. -/

theorem neZero_two : NeZero 2 := ⟨by decide⟩

theorem neZero_three : NeZero 3 := ⟨by decide⟩

end Xv6.Lib
