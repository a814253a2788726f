import Xv6.Lib.Run

/-! `push_off` and `pop_off` of `spinlock.c` on one CPU: the hart's
interrupt-enable bit `SSTATUS_SIE`, which `intr_get`, `intr_on` and
`intr_off` read and write, and the fields `noff` and `intena` of its
`struct cpu`. `acquire` calls `push_off` and the matching `release` calls
`pop_off`; `myproc` calls one after the other. Nested calls leave the
interrupt state as the outermost `push_off` found it. -/

namespace Xv6

open Lib

/-- One CPU: whether device interrupts are enabled, and `noff` and `intena`
of its `struct cpu`. -/
structure Cpu where
  intr : Bool
  noff : Int
  intena : Bool
deriving DecidableEq

/-- `push_off()`. -/
def pushOff (c : Cpu) : Cpu :=
  let old := c.intr
  let c := if old then { c with intr := false } else c
  let c := if c.noff = 0 then { c with intena := old } else c
  { c with noff := c.noff + 1 }

/-- `pop_off()`. -/
def popOff (c : Cpu) : Outcome Cpu :=
  if c.intr then .panicked "pop_off - interruptible"
  else if c.noff < 1 then .panicked "pop_off"
  else
    let c := { c with noff := c.noff - 1 }
    .running (if c.noff = 0 ∧ c.intena then { c with intr := true } else c)

/-- A call on the CPU. -/
inductive Call where
  | pushOff
  | popOff
deriving DecidableEq

/-- One CPU, from interrupts `on` or off and a zeroed `struct cpu`. -/
def cpu (on : Bool) : System Cpu Call where
  init := { intr := on, noff := 0, intena := false }
  step c
    | .pushOff => some (.running (pushOff c))
    | .popOff => some (popOff c)

variable {c t : Cpu}

@[simp] theorem cpu_pushOff (on : Bool) : (cpu on).step c .pushOff = some (.running (pushOff c)) := rfl

@[simp] theorem cpu_popOff (on : Bool) : (cpu on).step c .popOff = some (popOff c) := rfl

theorem pushOff_eq (c : Cpu) :
    pushOff c = { intr := false, noff := c.noff + 1, intena := if c.noff = 0 then c.intr else c.intena } := by
  obtain ⟨intr, noff, intena⟩ := c
  cases intr <;> by_cases outer : noff = 0 <;> simp [pushOff, outer]

@[simp] theorem pushOff_intr (c : Cpu) : (pushOff c).intr = false := by
  rw [pushOff_eq]

@[simp] theorem pushOff_noff (c : Cpu) : (pushOff c).noff = c.noff + 1 := by
  rw [pushOff_eq]

theorem pushOff_intena (c : Cpu) : (pushOff c).intena = if c.noff = 0 then c.intr else c.intena := by
  rw [pushOff_eq]

theorem popOff_eq (off : c.intr = false) (pushed : 1 ≤ c.noff) :
    popOff c = .running { intr := decide (c.noff = 1) && c.intena, noff := c.noff - 1, intena := c.intena } := by
  obtain ⟨intr, noff, intena⟩ := c
  simp only at off pushed
  subst off
  have notEmpty : ¬ noff < 1 := by omega
  have last : noff - 1 = 0 ↔ noff = 1 := by omega
  by_cases lastOne : noff = 1 <;> cases intena <;> simp [popOff, notEmpty, last, lastOne]

theorem popOff_running (step : popOff c = .running t) : c.intr = false ∧ 1 ≤ c.noff := by
  unfold popOff at step
  split_ifs at step with on empty
  exact ⟨by simpa using on, by omega⟩

/-- Interrupts are off while anything is pushed, and `noff` is never negative. -/
def Disciplined (c : Cpu) : Prop := 0 ≤ c.noff ∧ (0 < c.noff → c.intr = false)

theorem pushOff_disciplined (inv : Disciplined c) : Disciplined (pushOff c) := by
  obtain ⟨nonneg, -⟩ := inv
  exact ⟨by simp; omega, fun _ => pushOff_intr c⟩

theorem popOff_disciplined (step : popOff c = .running t) : Disciplined t := by
  obtain ⟨off, pushed⟩ := popOff_running step
  rw [popOff_eq off pushed, Outcome.running.injEq] at step
  subst step
  refine ⟨by simp; omega, fun remaining => ?_⟩
  simp only [Bool.and_eq_false_iff, decide_eq_false_iff_not]
  exact .inl (by simp at remaining; omega)

theorem disciplined (on : Bool) : (cpu on).Invariant Disciplined where
  init := by simp [Disciplined, cpu]
  step := by
    intro c t call inv step
    cases call with
    | pushOff =>
      simp only [cpu_pushOff, Option.some.injEq, Outcome.running.injEq] at step
      exact step ▸ pushOff_disciplined inv
    | popOff =>
      simp only [cpu_popOff, Option.some.injEq] at step
      exact popOff_disciplined step

/-- Calls in which every `push_off` is matched by a later `pop_off`, as
`acquire` and `release` and `myproc` make them. -/
inductive Nested : List Call → Prop
  | nil : Nested []
  | wrap {inner rest : List Call} : Nested inner → Nested rest → Nested (.pushOff :: inner ++ .popOff :: rest)

theorem runFrom_nested {calls : List Call} (nested : Nested calls) (on : Bool) :
    ∀ c, Disciplined c → ∃ t, (cpu on).runFrom c calls = some (.running t) ∧
      t.noff = c.noff ∧ t.intr = c.intr ∧ (0 < c.noff → t.intena = c.intena) := by
  induction nested with
  | nil => exact fun c _ => ⟨c, rfl, rfl, rfl, fun _ => rfl⟩
  | @wrap inner rest _ _ ihInner ihRest =>
    intro c inv
    obtain ⟨nonneg, offWhenPushed⟩ := inv
    obtain ⟨c₂, inside, noff₂, intr₂, intena₂⟩ := ihInner (pushOff c) (pushOff_disciplined ⟨nonneg, offWhenPushed⟩)
    simp only [pushOff_noff, pushOff_intr] at noff₂ intr₂
    have intena₂ : c₂.intena = (pushOff c).intena := intena₂ (by rw [pushOff_noff]; omega)
    have pop := popOff_eq intr₂ (by omega)
    set c₃ : Cpu := { intr := decide (c₂.noff = 1) && c₂.intena, noff := c₂.noff - 1, intena := c₂.intena }
    have noff₃ : c₃.noff = c.noff := by simp [c₃, noff₂]
    have intr₃ : c₃.intr = c.intr := by
      by_cases outer : c.noff = 0
      · simp [c₃, noff₂, intena₂, pushOff_intena, outer]
      · have off := offWhenPushed (by omega)
        simp [c₃, noff₂, outer, off]
    obtain ⟨t, after, noffT, intrT, intenaT⟩ :=
      ihRest c₃ ⟨by rw [noff₃]; exact nonneg, fun pushed => by rw [intr₃]; exact offWhenPushed (by omega)⟩
    refine ⟨t, ?_, by omega, by rw [intrT, intr₃], fun pushed => ?_⟩
    · have upToPop : (cpu on).runFrom (pushOff c) (inner ++ [.popOff]) = some (.running c₃) := by
        rw [System.runFrom_append inside]
        simp [System.runFrom, pop]
      rw [List.cons_append, System.runFrom, cpu_pushOff]
      dsimp only
      rw [show inner ++ Call.popOff :: rest = (inner ++ [.popOff]) ++ rest by simp,
        System.runFrom_append upToPop, after]
    · rw [intenaT (by omega), show c₃.intena = c₂.intena from rfl, intena₂, pushOff_intena,
        if_neg (by omega)]

theorem pushOff_popOff_nest (on : Bool) :
    (∀ c, (cpu on).Reachable c → 0 ≤ c.noff ∧ (0 < c.noff → c.intr = false)) ∧
      ∀ c inner, (cpu on).Reachable c → c.noff = 0 → Nested inner →
        ∃ t, (cpu on).runFrom c (.pushOff :: inner ++ [.popOff]) = some (.running t) ∧
          t.noff = 0 ∧ t.intr = c.intr := by
  refine ⟨fun c reach => (disciplined on).holds reach, fun c inner reach empty nested => ?_⟩
  obtain ⟨t, run, noff, intr, -⟩ := runFrom_nested (.wrap nested .nil) on c ((disciplined on).holds reach)
  exact ⟨t, run, noff.trans empty, intr⟩

end Xv6
