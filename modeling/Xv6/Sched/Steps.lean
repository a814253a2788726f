import Mathlib
import Xv6.Sched.Coherent

/-! Every step the machine can take from a coherent state goes on, into a
coherent state (`Coherent.safe`): no check of `acquire`, `release`,
`pop_off` or `sched()` ever stops the kernel. There is a lemma for each kind
of step a thread takes: taking a spinlock (`safe_take`), letting one go
(`safe_drop`), writing under the locks it holds, and the switches of
`sched()` and `scheduler()`. The loop of `wakeup` and the writes of
`lk->locked` are where no lost wakeup is shown. -/

namespace Xv6.Sched

open Lib
open Xv6.Vm (ProcState)

variable {n m : Nat} {L : Type}

namespace State

variable {s t : State n m L} {c d : Fin m} {p q : Fin n} {k : Lock n L} {l : L} {pc : Pc n L}

/-- The step, if it is enabled, goes on into a coherent state. -/
def Safe (step : Option (Outcome (State n m L))) : Prop :=
  ∀ o, step = some o → ∃ t, o = .running t ∧ t.Coherent

theorem safe_running (coherent : t.Coherent) : Safe (some (.running t)) := by
  intro o step
  cases step
  exact ⟨t, rfl, coherent⟩

theorem safe_none : Safe (none : Option (Outcome (State n m L))) := by
  intro o step
  cases step

namespace Sound

theorem releasable (sound : s.Sound) (on : s.loop c = .switched p) (mine : k ∈ (s.procs p).pc.locks p) :
    s.holder k = some c ∧ (s.cpus c).intr = false ∧ 1 ≤ (s.cpus c).noff := by
  obtain ⟨noff, intr, -⟩ := (sound.cpu c).of_switched on
  refine ⟨sound.holder_of_mem on mine, ?_, ?_⟩
  · rw [intr]
    cases closed : (s.procs p).pc.interruptible
    · rfl
    · rw [Pc.locks_of_interruptible p closed] at mine
      cases mine
  · have held : 0 < ((s.procs p).pc.locks p).length := List.length_pos_of_mem mine
    omega

theorem releasable_rest (sound : s.Sound) (on : s.loop c = .switched p) (rest : (s.procs p).pc.rests = true) :
    s.holder (.proc p) = some c ∧ (s.cpus c).intr = false ∧ (s.cpus c).noff = 1 := by
  have locks := (Pc.rests_spec p rest).1
  obtain ⟨held, off, -⟩ := sound.releasable on (by rw [locks]; exact List.mem_singleton_self _)
  have noff := ((sound.cpu c).of_switched on).1
  rw [locks] at noff
  exact ⟨held, off, by simpa using noff⟩

theorem not_holder (sound : s.Sound) (on : s.loop c = .switched p) (absent : k ∉ (s.procs p).pc.locks p) :
    s.holder k ≠ some c := by
  intro held
  have holds : k ∈ s.holds c := (sound.owned k c).mp held
  rw [holds_of_switched on] at holds
  exact absent holds

theorem switched_of_busy (sound : s.Sound) (busy : (s.procs q).pc.rests = false) :
    ∃ e, s.loop e = .switched q := by
  by_contra none
  push Not at none
  have rest := (sound.resting q none).rests
  rw [busy] at rest
  cases rest

theorem same_of_holds (sound : s.Sound) (on : s.loop c = .switched p) (on' : s.loop d = .switched q)
    (mine : k ∈ (s.procs p).pc.locks p) (theirs : k ∈ (s.procs q).pc.locks q) : p = q := by
  have one : c = d := sound.owned.unique (show k ∈ s.holds c by rw [holds_of_switched on]; exact mine)
    (show k ∈ s.holds d by rw [holds_of_switched on']; exact theirs)
  subst one
  rw [on] at on'
  exact Loop.switched.inj on'

theorem keep (sound : s.Sound) (on : s.loop c = .switched p)
    (loop : t.loop = s.loop) (others : ∀ q, q ≠ p → t.procs q = s.procs q)
    (state : (t.procs p).state = (s.procs p).state) (holder : t.holder = s.holder) (cpus : t.cpus = s.cpus)
    (locks : (t.procs p).pc.locks p = (s.procs p).pc.locks p)
    (intr : (t.procs p).pc.interruptible = (s.procs p).pc.interruptible)
    (intena : (t.procs p).pc.intena = (s.procs p).pc.intena)
    (wf : (t.procs p).pc.Wf) (saved : (t.procs p).Saved) (sleep : t.SleepOk) : t.Sound := by
  have on' : t.loop c = .switched p := loop ▸ on
  obtain ⟨noff, intrWas, intenaWas⟩ := (sound.cpu c).of_switched on
  refine sound.move on loop others state (fun d _ => by rw [cpus]) wf saved ?_ ?_ sleep
  · rw [holder]
    refine sound.owned.congr fun d j => ?_
    show j ∈ t.holds d ↔ j ∈ s.holds d
    by_cases same : d = c
    · rw [same, holds_of_switched on', holds_of_switched on, locks]
    · rw [sound.holds_other on loop others same]
  · refine cpuOk_of_switched on' ?_ ?_ ?_
    · rw [cpus, locks]
      exact noff
    · rw [cpus, intr]
      exact intrWas
    · rw [cpus, locks, intena]
      exact intenaWas

end Sound

theorem Coherent.sleep_moved (inv : s.Coherent) {pc' : Pc n L} (held : pc'.sleepHeld = (s.procs p).pc.sleepHeld)
    (sleeplocks : t.sleeplocks = s.sleeplocks) (others : ∀ q, q ≠ p → t.procs q = s.procs q)
    (here : t.procs p = { s.procs p with pc := pc' }) : t.SleepOk :=
  inv.sleep.congr sleeplocks (procs_of_move (·.pc.sleepHeld) others (by rw [here]; exact held))

theorem Coherent.waits_moved (inv : s.Coherent) {pc' : Pc n L}
    (sleeping : pc'.sleepingOn = (s.procs p).pc.sleepingOn) (waking : pc'.waking = (s.procs p).pc.waking)
    (sleeplocks : t.sleeplocks = s.sleeplocks) (others : ∀ q, q ≠ p → t.procs q = s.procs q)
    (here : t.procs p = { s.procs p with pc := pc' }) : t.Waits := by
  refine inv.waits.keep (fun l held => by rw [sleeplocks]; exact held)
    (procs_of_move (·.pc.waking) others (by rw [here]; exact waking)) (asleep_of_move others fun l sleeps => ?_)
  unfold Asleep at sleeps ⊢
  rwa [here, sleeping] at sleeps

variable [DecidableEq L]

theorem safe_acquire {f : State n m L → State n m L} (notMine : s.holder k ≠ some c)
    (go : s.holder k = none → (f (s.take c k)).Coherent) : Safe (s.acquire c k f) := by
  intro o step
  unfold acquire at step
  split at step
  · rename_i free
    cases step
    exact ⟨_, rfl, go free⟩
  · rename_i d held
    split at step
    · rename_i same
      rw [same] at held
      exact absurd held notMine
    · cases step

theorem safe_release {f : State n m L → State n m L} (mine : s.holder k = some c)
    (off : (s.cpus c).intr = false) (pushed : 1 ≤ (s.cpus c).noff)
    (go : (f (s.drop c k
      { intr := decide ((s.cpus c).noff = 1) && (s.cpus c).intena, noff := (s.cpus c).noff - 1,
        intena := (s.cpus c).intena })).Coherent) :
    Safe (some (s.release c k f)) := by
  rw [release_of_mine mine off pushed]
  exact safe_running go

theorem SleepOk.write (ok : s.SleepOk) (l : L) (lk : SleepLock n) (sleeplocks : t.sleeplocks = Function.update s.sleeplocks l lk)
    (agree : lk.locked = lk.pid.isSome)
    (owned : Owned (Function.update (fun l' => (s.sleeplocks l').pid) l lk.pid)
      fun q l' => (t.procs q).pc.sleepHeld = some l') : t.SleepOk := by
  have pids : (fun l' => (t.sleeplocks l').pid) = Function.update (fun l' => (s.sleeplocks l').pid) l lk.pid := by
    funext l'
    by_cases same : l' = l
    · subst same
      simp [sleeplocks]
    · simp [sleeplocks, same]
  refine ⟨by rw [pids]; exact owned, fun l' => ?_⟩
  by_cases same : l' = l
  · subst same
    simpa [sleeplocks] using agree
  · simpa [sleeplocks, same] using ok.locked l'

theorem Sound.drop (sound : s.Sound) (on : s.loop c = .switched p) (mine : k ∈ (s.procs p).pc.locks p)
    (loop : t.loop = s.loop) (others : ∀ q, q ≠ p → t.procs q = s.procs q)
    (state : (t.procs p).state = (s.procs p).state) (holder : t.holder = Function.update s.holder k none)
    (cpus : ∀ d, d ≠ c → t.cpus d = s.cpus d)
    (locks : (t.procs p).pc.locks p = ((s.procs p).pc.locks p).erase k)
    (cpu : t.CpuOk c) (wf : (t.procs p).pc.Wf) (saved : (t.procs p).Saved) (sleep : t.SleepOk) : t.Sound := by
  have on' : t.loop c = .switched p := loop ▸ on
  refine sound.move on loop others state cpus wf saved ?_ cpu sleep
  rw [holder]
  refine sound.owned.drop (sound.holder_of_mem on mine) (fun j => ?_) fun d other j => ?_
  · show j ∈ t.holds c ↔ j ∈ s.holds c ∧ j ≠ k
    rw [holds_of_switched on', holds_of_switched on, locks]
    exact ((s.procs p).pc.locks_nodup p).mem_erase_iff.trans and_comm
  · show j ∈ t.holds d ↔ j ∈ s.holds d
    rw [sound.holds_other on loop others other]


/-! ### A process takes a spinlock, or lets one go -/

theorem Coherent.safe_take (inv : s.Coherent) (on : s.loop c = .switched p) (hpc : (s.procs p).pc = pc)
    (pc' : Pc n L) (locks : pc'.locks p = k :: pc.locks p) (intr : pc'.interruptible = false)
    (intena : pc'.intena = if pc.locks p = [] then pc.interruptible else pc.intena)
    (wf : pc'.Wf) (saved : pc'.saved = none) (held : pc'.sleepHeld = pc.sleepHeld)
    (sleeping : pc'.sleepingOn = pc.sleepingOn) (waking : pc'.waking = pc.waking) :
    Safe (s.acquire c k (·.setPc p pc')) := by
  subst hpc
  have fresh : k ∉ (s.procs p).pc.locks p := by
    have nodup := pc'.locks_nodup p
    rw [locks] at nodup
    exact (List.nodup_cons.mp nodup).1
  refine safe_acquire (inv.not_holder on fresh) fun free => ?_
  set t := (s.take c k).setPc p pc'
  have loop : t.loop = s.loop := rfl
  have others : ∀ q, q ≠ p → t.procs q = s.procs q := fun q other => by simp [t, other]
  have here : t.procs p = { s.procs p with pc := pc' } := by simp [t]
  have on' : t.loop c = .switched p := on
  obtain ⟨noff, intrWas, intenaWas⟩ := (inv.cpu c).of_switched on
  have cpu : t.CpuOk c := by
    refine cpuOk_of_switched on' ?_ ?_ fun _ => ?_
    · simp [t, noff, locks]
    · simp [t, intr]
    · simp only [t, setPc_eq, setProc_cpus, take_cpus, Function.update_self, pushOff_intena]
      by_cases empty : (s.procs p).pc.locks p = []
      · simp [empty, noff, intrWas, intena]
      · simp [empty, noff, intenaWas empty, intena]
  have owned : Owned t.holder fun d j => j ∈ t.holds d := by
    refine inv.owned.take free (fun j => ?_) fun d other j => ?_
    · show j ∈ t.holds c ↔ j ∈ s.holds c ∨ j = k
      rw [holds_of_switched on', here, holds_of_switched on]
      simp [locks, or_comm]
    · show j ∈ t.holds d ↔ j ∈ s.holds d
      rw [inv.holds_other on loop others other]
  exact ⟨inv.move on loop others (by rw [here]) (fun d other => by simp [t, other])
    (by rw [here]; exact wf) (fun b was => by rw [here] at was; simp [saved] at was) owned cpu
    (inv.sleep_moved held rfl others here), inv.waits_moved sleeping waking rfl others here⟩

theorem Coherent.safe_drop (inv : s.Coherent) (on : s.loop c = .switched p) (hpc : (s.procs p).pc = pc)
    (mine : k ∈ pc.locks p) (pc' : Pc n L) (locks : pc'.locks p = (pc.locks p).erase k)
    (intr : pc'.interruptible = (decide ((pc.locks p).length = 1) && pc.intena))
    (intena : pc'.locks p ≠ [] → pc'.intena = pc.intena)
    (wf : pc'.Wf) (saved : pc'.saved = none) (held : pc'.sleepHeld = pc.sleepHeld)
    (waits : ∀ t : State n m L, t.sleeplocks = s.sleeplocks → (∀ q, q ≠ p → t.procs q = s.procs q) →
      t.procs p = { s.procs p with pc := pc' } → t.Waits) :
    Safe (some (s.release c k (·.setPc p pc'))) := by
  subst hpc
  obtain ⟨mine', off, pushed⟩ := inv.releasable on mine
  refine safe_release mine' off pushed ?_
  obtain ⟨noff, -, intenaWas⟩ := (inv.cpu c).of_switched on
  have was : (s.cpus c).intena = (s.procs p).pc.intena := intenaWas (List.ne_nil_of_mem mine)
  set t := (s.drop c k
    { intr := decide ((s.cpus c).noff = 1) && (s.cpus c).intena, noff := (s.cpus c).noff - 1,
      intena := (s.cpus c).intena }).setPc p pc'
  have loop : t.loop = s.loop := rfl
  have others : ∀ q, q ≠ p → t.procs q = s.procs q := fun q other => by simp [t, other]
  have here : t.procs p = { s.procs p with pc := pc' } := by simp [t]
  have on' : t.loop c = .switched p := on
  have length := List.length_erase_of_mem mine
  have held₁ : 0 < ((s.procs p).pc.locks p).length := List.length_pos_of_mem mine
  have cpu : t.CpuOk c := by
    refine cpuOk_of_switched on' ?_ ?_ fun nonempty => ?_
    · simp only [t, setPc_eq, setProc_cpus, setProc_procs, drop_cpus, drop_procs, Function.update_self,
        locks, length, noff]
      omega
    · simp [t, intr, noff, was]
    · have nonempty' : pc'.locks p ≠ [] := by simpa [t] using nonempty
      simp [t, was, intena nonempty']
  exact ⟨inv.drop on mine loop others (by rw [here]) (by simp [t])
    (fun d other => by simp [t, other]) (by rw [here]; exact locks) cpu (by rw [here]; exact wf)
    (fun b was => by rw [here] at was; simp [saved] at was) (inv.sleep_moved held rfl others here),
    waits t rfl others here⟩

/-! ### Writes under the locks a process holds -/

omit [DecidableEq L] in
theorem Coherent.stillLocked (inv : s.Coherent) (on : s.loop c = .switched p)
    (hpc : (s.procs p).pc = .whileLocked l) (locked : (s.sleeplocks l).locked = true) :
    (s.setPc p (.sleepAcquire l)).Coherent := by
  set t := s.setPc p (.sleepAcquire l)
  have others : ∀ q, q ≠ p → t.procs q = s.procs q := fun q other => by simp [t, other]
  have here : (t.procs p).pc = .sleepAcquire l := by simp [t]
  have running : (t.procs p).state = .running := by simp [t, inv.running c p on]
  refine ⟨inv.keep on rfl others (by simp [t]) rfl rfl (by rw [here, hpc]; rfl) (by rw [here, hpc]; rfl)
    (by rw [here, hpc]; rfl) (by rw [here]; trivial) (fun b was => by rw [here] at was; cases was)
    (inv.sleep.congr rfl (procs_of_move (·.pc.sleepHeld) others (by rw [here, hpc]; rfl))), ?_⟩
  refine inv.waits.keep (fun l => id) (procs_of_move (·.pc.waking) others (by rw [here, hpc]; rfl))
    fun q l' sleeps => ?_
  by_cases same : q = p
  · subst same
    right
    rcases sleeps with going | ⟨asleep, -⟩
    · rw [here] at going
      cases going
      exact locked
    · rw [running] at asleep
      cases asleep
  · unfold Asleep at sleeps ⊢
    rw [others q same] at sleeps
    exact .inl sleeps

theorem Coherent.takeSleep (inv : s.Coherent) (on : s.loop c = .switched p)
    (hpc : (s.procs p).pc = .whileLocked l) (unlocked : (s.sleeplocks l).locked = false) :
    ((s.setSleep l ⟨true, some p⟩).setPc p (.acquiredRelease l)).Coherent := by
  set t := (s.setSleep l ⟨true, some p⟩).setPc p (.acquiredRelease l)
  have others : ∀ q, q ≠ p → t.procs q = s.procs q := fun q other => by simp [t, other]
  have here : (t.procs p).pc = .acquiredRelease l := by simp [t]
  have free : (s.sleeplocks l).pid = none := by
    have locked := inv.sleep.locked l
    rw [unlocked] at locked
    exact Option.not_isSome_iff_eq_none.mp (by rw [← locked]; decide)
  have sleep : t.SleepOk := by
    refine inv.sleep.write l ⟨true, some p⟩ (by simp [t]) rfl (inv.sleep.owned.take free (fun j => ?_) fun q other j => ?_)
    · rw [here, hpc]
      simp [Pc.sleepHeld, eq_comm]
    · rw [others q other]
  refine ⟨inv.keep on rfl others (by simp [t]) rfl rfl (by rw [here, hpc]; rfl) (by rw [here, hpc]; rfl)
    (by rw [here, hpc]; rfl) (by rw [here]; trivial) (fun b was => by rw [here] at was; cases was) sleep, ?_⟩
  have running : (t.procs p).state = .running := by simp [t, inv.running c p on]
  refine inv.waits.keep (fun l' held => ?_) (procs_of_move (·.pc.waking) others (by rw [here, hpc]; rfl))
    fun q l' sleeps => .inl (asleep_of_running others running (by rw [here]; rfl) q l' sleeps)
  by_cases same : l' = l
  · subst same
    simp [t]
  · simpa [t, same] using held

theorem Coherent.releaseClear (inv : s.Coherent) (on : s.loop c = .switched p)
    (hpc : (s.procs p).pc = .releaseClear l) :
    ((s.setSleep l ⟨false, none⟩).setPc p (.wakeup l 0)).Coherent := by
  set t := (s.setSleep l ⟨false, none⟩).setPc p (.wakeup l 0)
  have others : ∀ q, q ≠ p → t.procs q = s.procs q := fun q other => by simp [t, other]
  have here : (t.procs p).pc = .wakeup l 0 := by simp [t]
  have mine : (s.sleeplocks l).pid = some p :=
    (inv.sleep.owned l p).mpr (show (s.procs p).pc.sleepHeld = some l by rw [hpc]; rfl)
  have sleep : t.SleepOk := by
    refine inv.sleep.write l ⟨false, none⟩ (by simp [t]) rfl (inv.sleep.owned.drop mine (fun j => ?_) fun q other j => ?_)
    · rw [here, hpc]
      simp only [Pc.sleepHeld, reduceCtorEq, Option.some.injEq, false_iff, not_and, not_not]
      exact Eq.symm
    · rw [others q other]
  refine ⟨inv.keep on rfl others (by simp [t]) rfl rfl (by rw [here, hpc]; rfl) (by rw [here, hpc]; rfl)
    (by rw [here, hpc]; rfl) (by rw [here]; trivial) (fun b was => by rw [here] at was; cases was) sleep, ?_⟩
  have running : (t.procs p).state = .running := by simp [t, inv.running c p on]
  intro q l' sleeps
  have before := asleep_of_running others running (by rw [here]; rfl) q l' sleeps
  by_cases same : l' = l
  · subst same
    exact .inr ⟨p, 0, by rw [here]; rfl, Nat.zero_le _⟩
  · rcases inv.waits q l' before with held | ⟨w, i, there, below⟩
    · exact .inl (by simpa [t, same] using held)
    · refine .inr ⟨w, i, ?_, below⟩
      have other : w ≠ p := by
        rintro rfl
        rw [hpc] at there
        cases there
      rw [others w other]
      exact there

omit [DecidableEq L] in
theorem Coherent.wakeupDone (inv : s.Coherent) (on : s.loop c = .switched p)
    {i : Nat} (hpc : (s.procs p).pc = .wakeup l i) (past : ¬ i < n) :
    (s.setPc p (.releaseRelease l)).Coherent := by
  set t := s.setPc p (.releaseRelease l)
  have others : ∀ q, q ≠ p → t.procs q = s.procs q := fun q other => by simp [t, other]
  have here : (t.procs p).pc = .releaseRelease l := by simp [t]
  refine ⟨inv.keep on rfl others (by simp [t]) rfl rfl (by rw [here, hpc]; rfl) (by rw [here, hpc]; rfl)
    (by rw [here, hpc]; rfl) (by rw [here]; trivial) (fun b was => by rw [here] at was; cases was)
    (inv.sleep.congr rfl (procs_of_move (·.pc.sleepHeld) others (by rw [here, hpc]; rfl))), ?_⟩
  have running : (t.procs p).state = .running := by simp [t, inv.running c p on]
  intro q l' sleeps
  have before := asleep_of_running others running (by rw [here]; rfl) q l' sleeps
  rcases inv.waits q l' before with held | ⟨w, j, there, below⟩
  · exact .inl held
  · refine .inr ⟨w, j, ?_, below⟩
    have other : w ≠ p := by
      rintro rfl
      rw [hpc] at there
      simp only [Pc.waking, Option.some.injEq, Prod.mk.injEq] at there
      omega
    rw [others w other]
    exact there

/-! ### `wakeup`'s test -/

theorem Coherent.wake (inv : s.Coherent) (i : Fin n) (l : L) : (s.wake i l).Coherent := by
  have pcs : ∀ q, ((s.wake i l).procs q).pc = (s.procs q).pc := fun q => wake_pc i l q
  have procsOn : ∀ d q, s.loop d = .switched q → (s.wake i l).procs q = s.procs q := by
    intro d q on
    rw [wake_procs, wake_state, if_neg]
    rintro ⟨rfl, sleeping, -⟩
    rw [inv.running d q on] at sleeping
    cases sleeping
  have states : ∀ q, ((s.wake i l).procs q).state = .running → (s.procs q).state = .running := by
    intro q running
    rw [wake_state] at running
    split at running
    · cases running
    · exact running
  refine ⟨⟨?_, fun d => (inv.cpu d).congr (by simp) (by simp) fun q _ => pcs q,
    fun d q on => ?_, by simpa using inv.single, fun d q there running => ?_, fun q rest => ?_,
    fun q => by rw [pcs q]; exact inv.wf q, fun q b was => ?_,
    inv.sleep.congr (by simp) fun q => by rw [pcs q]⟩, ?_⟩
  · rw [wake_holder]
    refine inv.owned.congr fun d j => ?_
    show j ∈ (s.wake i l).holds d ↔ j ∈ s.holds d
    rw [holds_congr (by simp) fun q _ => pcs q]
  · rw [wake_loop] at on
    rw [procsOn d q on]
    exact inv.running d q on
  · rw [wake_loop] at there
    exact inv.back d q there (states q running)
  · rw [wake_procs, wake_state]
    simp only [wake_loop] at rest
    split
    · exact (inv.resting q rest).runnable
    · exact inv.resting q rest
  · rw [wake_intena]
    rw [pcs q] at was
    exact inv.saved q b was
  refine inv.waits.keep (fun l' held => by simpa using held) (fun q => by rw [pcs q]) fun q l' sleeps => .inl ?_
  unfold Asleep at sleeps ⊢
  rw [pcs q, wake_chan] at sleeps
  rcases sleeps with going | ⟨sleeping, chan⟩
  · exact .inl going
  · have kept : (s.procs q).state = .sleeping := by
      rw [wake_state] at sleeping
      split at sleeping
      · cases sleeping
      · exact sleeping
    exact .inr ⟨kept, chan⟩

theorem Coherent.waits_wakeupTest (inv : s.Coherent) (on : s.loop c = .switched p) {i : Fin n}
    (hpc : (s.procs p).pc = .wakeupTest l i) (sleeplocks : t.sleeplocks = (s.wake i l).sleeplocks)
    (others : ∀ q, q ≠ p → t.procs q = (s.wake i l).procs q)
    (here : t.procs p = { (s.wake i l).procs p with pc := .wakeup l (i.val + 1) }) : t.Waits := by
  have woken := inv.wake i l
  intro q l' sleeps
  have before : (s.wake i l).Asleep q l' := by
    by_cases same : q = p
    · subst same
      rcases sleeps with going | asleep
      · rw [here] at going
        cases going
      · rw [here] at asleep
        exact .inr asleep
    · unfold Asleep at sleeps ⊢
      rwa [others q same] at sleeps
  rcases woken.waits q l' before with held | ⟨w, j, there, below⟩
  · exact .inl (by rw [sleeplocks]; exact held)
  by_cases self : w = p
  · subst self
    rw [wake_pc, hpc] at there
    simp only [Pc.waking, Option.some.injEq, Prod.mk.injEq] at there
    obtain ⟨rfl, rfl⟩ := there
    rcases Nat.lt_or_ge i.val q.val with ahead | atOrBehind
    · exact .inr ⟨w, i.val + 1, by rw [here]; rfl, ahead⟩
    · have same : q = i := Fin.ext (by omega)
      subst same
      exfalso
      rcases before with going | ⟨sleeping, chan⟩
      · rw [wake_pc] at going
        obtain ⟨shares, busy⟩ := Pc.sleepingOn_spec q going
        obtain ⟨e, on'⟩ := inv.switched_of_busy busy
        have one : w = q := by
          rcases shares with sleepLock | procLock
          · exact inv.same_of_holds on on' (by rw [hpc]; simp [Pc.locks]) sleepLock
          · exact inv.same_of_holds on on' (by rw [hpc]; simp [Pc.locks]) procLock
        subst one
        rw [hpc] at going
        cases going
      · have was : (s.procs q).state = .sleeping := by
          by_contra awake
          rw [wake_state, if_neg (fun h => awake h.2.1)] at sleeping
          exact awake sleeping
        rw [wake_chan] at chan
        simp [wake_state, was, chan] at sleeping
  · exact .inr ⟨w, j, by rw [others w self]; exact there, below⟩

theorem Coherent.safe_wakeupTest (inv : s.Coherent) (on : s.loop c = .switched p) {i : Fin n}
    (hpc : (s.procs p).pc = .wakeupTest l i) :
    Safe (some ((s.wake i l).release c (.proc i) (·.setPc p (.wakeup l (i.val + 1))))) :=
  (inv.wake i l).safe_drop (by simpa using on)
    (show ((s.wake i l).procs p).pc = .wakeupTest l i by simpa using hpc) (by simp [Pc.locks]) _
    (by simp [Pc.locks]) rfl (fun _ => rfl) trivial rfl rfl
    fun _ sleeplocks others here => inv.waits_wakeupTest on hpc sleeplocks others here

/-! ### Back on a CPU: `sleep` and `yield` after `sched()`, and `forkret` -/

theorem Coherent.resumed (inv : s.Coherent) (on : s.loop c = .switched p) (rest : (s.procs p).pc.rests = true)
    (pc' : Pc n L) (opened : pc'.interruptible = true) (held : pc'.sleepHeld = (s.procs p).pc.sleepHeld)
    (loop : t.loop = s.loop) (others : ∀ q, q ≠ p → t.procs q = s.procs q)
    (here : (t.procs p).pc = pc') (state : (t.procs p).state = (s.procs p).state)
    (holder : t.holder = Function.update s.holder (.proc p) none) (cpus : ∀ d, d ≠ c → t.cpus d = s.cpus d)
    (noff : (t.cpus c).noff = 0) (intr : (t.cpus c).intr = true) (sleeplocks : t.sleeplocks = s.sleeplocks) :
    t.Coherent := by
  obtain ⟨locksWas, -, -, sleepingWas, wakingWas⟩ := Pc.rests_spec p rest
  obtain ⟨locks', sleeping', waking', saved', wf'⟩ := Pc.interruptible_spec p opened
  have on' : t.loop c = .switched p := loop ▸ on
  have running : (s.procs p).state = .running := inv.running c p on
  have cpu : t.CpuOk c := by
    refine cpuOk_of_switched on' ?_ ?_ fun empty => absurd (by rw [here, locks']) empty
    · rw [noff, here, locks']
      rfl
    · rw [intr, here, opened]
  refine ⟨inv.drop on (by rw [locksWas]; exact List.mem_singleton_self _) loop others state holder cpus
    (by rw [here, locks', locksWas]; simp) cpu (by rw [here]; exact wf')
    (fun b was => by rw [here, saved'] at was; cases was)
    (inv.sleep.congr sleeplocks (procs_of_move (·.pc.sleepHeld) others (by rw [here, held]))), ?_⟩
  exact inv.waits.keep (fun l held => by rw [sleeplocks]; exact held)
    (procs_of_move (·.pc.waking) others (by rw [here, waking', wakingWas]))
    fun q l sleeps => .inl (asleep_of_running others (by rw [state, running]) (by rw [here, sleeping']) q l sleeps)

theorem Coherent.safe_sleepTidy (inv : s.Coherent) (on : s.loop c = .switched p)
    (hpc : (s.procs p).pc = .sleepTidy l) :
    Safe (some (((s.setIntena c (s.procs p).intena).setProc p { s.procs p with chan := none }).release c
      (.proc p) (·.setPc p (.sleepReacquire l)))) := by
  have rest : (s.procs p).pc.rests = true := by rw [hpc]; rfl
  obtain ⟨held, off, one⟩ := inv.releasable_rest on rest
  have restored : (s.procs p).intena = true := inv.saved p true (by rw [hpc]; rfl)
  refine safe_release (by simpa using held) (by simpa using off) (by simp [one]) ?_
  exact inv.resumed on rest (.sleepReacquire l) rfl (by rw [hpc]; rfl) rfl (fun q other => by simp [other])
    (by simp) (by simp) (by simp) (fun d other => by simp [other]) (by simp [one]) (by simp [one, restored]) rfl

theorem Coherent.safe_forkret (inv : s.Coherent) (on : s.loop c = .switched p) (hpc : (s.procs p).pc = .forkret) :
    Safe (some (s.release c (.proc p) fun t => (t.setPc p .outside).setIntr c true)) := by
  have rest : (s.procs p).pc.rests = true := by rw [hpc]; rfl
  obtain ⟨held, off, one⟩ := inv.releasable_rest on rest
  refine safe_release held off (by rw [one]) ?_
  exact inv.resumed on rest .outside rfl (by rw [hpc]; rfl) rfl (fun q other => by simp [other]) (by simp)
    (by simp) (by simp) (fun d other => by simp [other]) (by simp [one]) (by simp) rfl

theorem Coherent.safe_yieldRelease (inv : s.Coherent) (on : s.loop c = .switched p) {r : Pc n L}
    (hpc : (s.procs p).pc = .yieldRelease r) :
    Safe (some ((s.setIntena c (s.procs p).intena).release c (.proc p) fun t => (t.setPc p r).setIntr c true)) := by
  have rest : (s.procs p).pc.rests = true := by rw [hpc]; rfl
  obtain ⟨held, off, one⟩ := inv.releasable_rest on rest
  have opened : r.interruptible = true := by
    have wf := inv.wf p
    rw [hpc] at wf
    exact wf
  refine safe_release (by simpa using held) (by simpa using off) (by simp [one]) ?_
  exact inv.resumed on rest r opened (by rw [hpc]; rfl) rfl (fun q other => by simp [other]) (by simp)
    (by simp) (by simp) (fun d other => by simp [other]) (by simp [one]) (by simp) rfl

/-! ### `sched()` -/

omit [DecidableEq L] in
theorem Coherent.switchOut (inv : s.Coherent) (on : s.loop c = .switched p)
    (locks : (s.procs p).pc.locks p = [.proc p]) {resume : Pc n L}
    (loop : t.loop = Function.update s.loop c (.back p)) (others : ∀ q, q ≠ p → t.procs q = s.procs q)
    (here : (t.procs p).pc = resume) (stopped : (t.procs p).state ≠ .running)
    (holder : t.holder = s.holder) (cpus : t.cpus = s.cpus) (sleeplocks : t.sleeplocks = s.sleeplocks)
    (rest : (t.procs p).Resting) (saved : (t.procs p).Saved) (wf : resume.Wf)
    (held : resume.sleepHeld = (s.procs p).pc.sleepHeld) (waking : resume.waking = (s.procs p).pc.waking)
    (asleep : ∀ l, t.Asleep p l → (s.procs p).pc.sleepingOn = some l) : t.Coherent := by
  have running : (s.procs p).state = .running := inv.running c p on
  have loopOther : ∀ d, d ≠ c → t.loop d = s.loop d := fun d other => by rw [loop, Function.update_of_ne other]
  have loopHere : t.loop c = .back p := by rw [loop, Function.update_self]
  have elsewhere : ∀ d q, d ≠ c → s.loop d = .switched q → q ≠ p := by
    rintro d q other there rfl
    exact other (inv.single d c q there on)
  have holdsOther : ∀ d, d ≠ c → t.holds d = s.holds d := fun d other =>
    holds_congr (loopOther d other) fun q there => by rw [others q (elsewhere d q other there)]
  have holdsHere : t.holds c = s.holds c := by
    rw [holds_of_switched on, locks]
    simp [holds, loopHere]
  have notHere : ∀ q, t.loop c ≠ .switched q := fun q there => by rw [loopHere] at there; cases there
  refine ⟨⟨?_, fun d => ?_, fun d q there => ?_, fun d d' q first second => ?_, fun d q there => ?_,
    fun q idle => ?_, forall_of_move (·.pc.Wf) others inv.wf (by rw [here]; exact wf),
    forall_of_move Proc.Saved others inv.saved saved,
    inv.sleep.congr sleeplocks (procs_of_move (·.pc.sleepHeld) others (by rw [here, held]))⟩,
    inv.waits.keep (fun l held => by rw [sleeplocks]; exact held)
      (procs_of_move (·.pc.waking) others (by rw [here, waking]))
      (asleep_of_move others fun l sleeps => .inl (asleep l sleeps))⟩
  · rw [holder]
    refine inv.owned.congr fun d j => ?_
    show j ∈ t.holds d ↔ j ∈ s.holds d
    by_cases same : d = c
    · rw [same, holdsHere]
    · rw [holdsOther d same]
  · by_cases same : d = c
    · subst same
      obtain ⟨noff, intr, -⟩ := (inv.cpu d).of_switched on
      refine ⟨by rw [cpus, holdsHere, holds_of_switched on]; exact noff, ?_, by simp [IntenaOk, loopHere]⟩
      have closed : (s.procs p).pc.interruptible = false := by
        cases opened : (s.procs p).pc.interruptible
        · rfl
        · rw [Pc.locks_of_interruptible p opened] at locks
          cases locks
      rw [cpus, intr, closed]
      simp [intrOn, loopHere]
    · refine (inv.cpu d).congr (loopOther d same) (by rw [cpus]) fun q there => ?_
      rw [others q (elsewhere d q same there)]
  · have other : d ≠ c := by rintro rfl; exact notHere q there
    rw [loopOther d other] at there
    rw [others q (elsewhere d q other there)]
    exact inv.running d q there
  · have other : d ≠ c := by rintro rfl; exact notHere q first
    have other' : d' ≠ c := by rintro rfl; exact notHere q second
    rw [loopOther d other] at first
    rw [loopOther d' other'] at second
    exact inv.single d d' q first second
  · by_cases same : d = c
    · subst same
      rw [loopHere] at there
      cases there
      exact stopped
    · rw [loopOther d same] at there
      have other : q ≠ p := by
        rintro rfl
        exact inv.back d q there running
      rw [others q other]
      exact inv.back d q there
  · by_cases same : q = p
    · rw [same]
      exact rest
    · rw [others q same]
      refine inv.resting q fun d there => ?_
      by_cases here' : d = c
      · rw [here', on] at there
        exact same (Loop.switched.inj there).symm
      · exact idle d (by rw [loopOther d here']; exact there)

omit [DecidableEq L] in
theorem Coherent.safe_sched (inv : s.Coherent) (on : s.loop c = .switched p) (hpc : (s.procs p).pc = pc)
    (locks : pc.locks p = [.proc p]) {st : ProcState} {ch : Option L} (stopped : st ≠ .running)
    (resume : Pc n L) (rest : ∀ b, Proc.Resting { state := st, chan := ch, pc := resume, intena := b })
    (saved : resume.saved = some pc.intena) (wf : resume.Wf) (held : resume.sleepHeld = pc.sleepHeld)
    (waking : resume.waking = pc.waking)
    (asleep : ∀ l, resume.sleepingOn = some l ∨ st = .sleeping ∧ ch = some l → pc.sleepingOn = some l) :
    Safe (some ((s.setProc p { s.procs p with chan := ch, state := st }).sched c p resume)) := by
  subst hpc
  obtain ⟨noff, intr, intena⟩ := (inv.cpu c).of_switched on
  rw [locks] at noff intena
  have mine : s.holder (.proc p) = some c := inv.holder_of_mem on (by rw [locks]; exact List.mem_singleton_self _)
  have kept : (s.cpus c).intena = (s.procs p).pc.intena := intena (List.cons_ne_nil _ _)
  have off : (s.cpus c).intr = false := by
    rw [intr]
    cases opened : (s.procs p).pc.interruptible
    · rfl
    · rw [Pc.locks_of_interruptible p opened] at locks
      cases locks
  rw [sched_of_ok (by simpa using mine) (by simpa using noff) (by simpa using stopped) (by simpa using off)]
  refine safe_running (inv.switchOut on locks (by simp) (fun q other => by simp [other]) (by simp) (by simpa using stopped)
    (by simp) (by simp) (by simp) (by simpa using rest _) (fun b was => ?_) wf held waking fun l sleeps => ?_)
  · simp only [setLoop_procs, setProc_procs, Function.update_self] at was ⊢
    rw [saved] at was
    simp only [setProc_cpus]
    rw [kept]
    exact Option.some.inj was
  · apply asleep l
    simpa [Asleep] using sleeps

/-! ### `scheduler()` -/

omit [DecidableEq L] in
theorem Sound.idle (sound : s.Sound) (idle : ∀ p, s.loop c ≠ .switched p) (idle' : ∀ p, t.loop c ≠ .switched p)
    (loop : ∀ d, d ≠ c → t.loop d = s.loop d) (procs : t.procs = s.procs) (cpus : ∀ d, d ≠ c → t.cpus d = s.cpus d)
    (backs : ∀ p, t.loop c ≠ .back p) (sleeplocks : t.sleeplocks = s.sleeplocks)
    (owned : Owned t.holder fun d k => k ∈ t.holds d) (cpu : t.CpuOk c) : t.Sound := by
  refine ⟨owned, fun d => ?_, fun d q there => ?_, fun d d' q first second => ?_, fun d q there => ?_,
    fun q rest => ?_, fun q => by rw [procs]; exact sound.wf q, fun q => by rw [procs]; exact sound.saved q,
    sound.sleep.congr sleeplocks fun q => by rw [procs]⟩
  · by_cases same : d = c
    · rw [same]
      exact cpu
    · exact (sound.cpu d).congr (loop d same) (cpus d same) fun q _ => by rw [procs]
  · have other : d ≠ c := by rintro rfl; exact idle' q there
    rw [loop d other] at there
    rw [procs]
    exact sound.running d q there
  · have other : d ≠ c := by rintro rfl; exact idle' q first
    have other' : d' ≠ c := by rintro rfl; exact idle' q second
    exact sound.single d d' q (by rw [← loop d other]; exact first) (by rw [← loop d' other']; exact second)
  · have other : d ≠ c := by rintro rfl; exact backs q there
    rw [loop d other] at there
    rw [procs]
    exact sound.back d q there
  · rw [procs]
    refine sound.resting q fun d there => ?_
    by_cases same : d = c
    · rw [same] at there
      exact idle q there
    · exact rest d (by rw [loop d same]; exact there)

omit [DecidableEq L] in
theorem holds_idle (loop : ∀ d, d ≠ c → t.loop d = s.loop d) (procs : t.procs = s.procs) (other : d ≠ c) :
    t.holds d = s.holds d :=
  holds_congr (loop d other) fun q _ => by rw [procs]

omit [DecidableEq L] in
theorem Coherent.waits_idle (inv : s.Coherent) (procs : t.procs = s.procs) (sleeplocks : t.sleeplocks = s.sleeplocks) :
    t.Waits :=
  inv.waits.keep (fun l held => by rw [sleeplocks]; exact held) (fun q => by rw [procs])
    fun q l sleeps => .inl (by unfold Asleep at sleeps ⊢; rwa [procs] at sleeps)

theorem Coherent.safe_scan (inv : s.Coherent) {i : Nat} (place : s.loop c = .scan i) (h : i < n) :
    Safe (s.acquire c (.proc ⟨i, h⟩) (·.setLoop c (.found ⟨i, h⟩))) := by
  have empty : s.holds c = [] := by simp [holds, place]
  refine safe_acquire (fun held => by
    have mine : Lock.proc ⟨i, h⟩ ∈ s.holds c := (inv.owned _ c).mp held
    rw [empty] at mine
    cases mine) fun free => ?_
  set t := (s.take c (.proc ⟨i, h⟩)).setLoop c (.found ⟨i, h⟩)
  have loop : ∀ d, d ≠ c → t.loop d = s.loop d := fun d other => by simp [t, other]
  have procs : t.procs = s.procs := rfl
  obtain ⟨noff, intr, -⟩ := inv.cpu c
  rw [empty] at noff
  have closed : s.intrOn c = false := by simp [intrOn, place]
  have cpu : t.CpuOk c :=
    ⟨by simp [t, holds, noff], by simp [t, intrOn], by simp [t, IntenaOk, pushOff_intena, noff, intr, closed]⟩
  have owned : Owned t.holder fun d k => k ∈ t.holds d := by
    refine inv.owned.take free (fun j => ?_) fun d other j => ?_
    · show j ∈ t.holds c ↔ j ∈ s.holds c ∨ j = .proc ⟨i, h⟩
      rw [empty]
      simp [t, holds]
    · show j ∈ t.holds d ↔ j ∈ s.holds d
      rw [holds_idle loop procs other]
  exact ⟨inv.idle (fun p there => by rw [place] at there; cases there) (fun p there => by simp [t] at there) loop procs
    (fun d other => by simp [t, other]) (fun p there => by simp [t] at there) rfl owned cpu, inv.waits_idle procs rfl⟩

omit [DecidableEq L] in
theorem Coherent.restart (inv : s.Coherent) {i : Nat} (place : s.loop c = .scan i) :
    ((s.setIntr c false).setLoop c (.scan 0)).Coherent := by
  set t := (s.setIntr c false).setLoop c (.scan 0)
  have loop : ∀ d, d ≠ c → t.loop d = s.loop d := fun d other => by simp [t, other]
  have procs : t.procs = s.procs := rfl
  have empty : s.holds c = [] := by simp [holds, place]
  obtain ⟨noff, -, -⟩ := inv.cpu c
  have owned : Owned t.holder fun d k => k ∈ t.holds d := by
    refine inv.owned.congr fun d j => ?_
    show j ∈ t.holds d ↔ j ∈ s.holds d
    by_cases same : d = c
    · rw [same, empty]
      simp [t, holds]
    · rw [holds_idle loop procs same]
  have cpu : t.CpuOk c := ⟨by rw [empty] at noff; simp [t, holds, noff], by simp [t, intrOn], by simp [t, IntenaOk]⟩
  exact ⟨inv.idle (fun p there => by rw [place] at there; cases there) (fun p there => by simp [t] at there) loop procs
    (fun d other => by simp [t, other]) (fun p there => by simp [t] at there) rfl owned cpu, inv.waits_idle procs rfl⟩

theorem Coherent.safe_leave (inv : s.Coherent) (place : s.loop c = .found p ∨ s.loop c = .back p) :
    Safe (some ((s.setIntena c false).release c (.proc p) (·.setLoop c (.scan (p.val + 1))))) := by
  have holding : s.holds c = [.proc p] := by rcases place with place | place <;> simp [holds, place]
  have closed : s.intrOn c = false := by rcases place with place | place <;> simp [intrOn, place]
  have idle : ∀ q, s.loop c ≠ .switched q := fun q there => by
    rcases place with place | place <;> rw [place] at there <;> cases there
  obtain ⟨noff, intr, -⟩ := inv.cpu c
  rw [holding] at noff
  rw [closed] at intr
  have mine : s.holder (.proc p) = some c := (inv.owned _ c).mpr (by show _ ∈ s.holds c; rw [holding]; simp)
  refine safe_release (by simpa using mine) (by simpa using intr) (by simp [noff]) ?_
  set t := ((s.setIntena c false).drop c (.proc p)
    { intr := decide (((s.setIntena c false).cpus c).noff = 1) && ((s.setIntena c false).cpus c).intena,
      noff := ((s.setIntena c false).cpus c).noff - 1,
      intena := ((s.setIntena c false).cpus c).intena }).setLoop c (.scan (p.val + 1))
  have loop : ∀ d, d ≠ c → t.loop d = s.loop d := fun d other => by simp [t, other]
  have procs : t.procs = s.procs := rfl
  have owned : Owned t.holder fun d k => k ∈ t.holds d := by
    have dropped : t.holder = Function.update s.holder (.proc p) none := by simp [t]
    rw [dropped]
    refine inv.owned.drop mine (fun j => ?_) fun d other j => ?_
    · show j ∈ t.holds c ↔ j ∈ s.holds c ∧ j ≠ .proc p
      rw [holding]
      simp [t, holds]
    · show j ∈ t.holds d ↔ j ∈ s.holds d
      rw [holds_idle loop procs other]
  have cpu : t.CpuOk c := ⟨by simp [t, holds, noff], by simp [t, intrOn], by simp [t, IntenaOk]⟩
  exact ⟨inv.idle idle (fun q there => by simp [t] at there) loop procs (fun d other => by simp [t, other])
    (fun q there => by simp [t] at there) rfl owned cpu, inv.waits_idle procs rfl⟩

omit [DecidableEq L] in
theorem Coherent.switch (inv : s.Coherent) (place : s.loop c = .found p) (runnable : (s.procs p).state = .runnable) :
    ((s.setProc p { s.procs p with state := .running }).setLoop c (.switched p)).Coherent := by
  set t := (s.setProc p { s.procs p with state := .running }).setLoop c (.switched p)
  have nowhere : ∀ d, s.loop d ≠ .switched p := fun d there => by
    have running := inv.running d p there
    rw [runnable] at running
    cases running
  have rest := (inv.resting p nowhere).rests
  obtain ⟨locks, closed, intenaRest, sleepingRest, -⟩ := Pc.rests_spec p rest
  have others : ∀ q, q ≠ p → t.procs q = s.procs q := fun q other => by simp [t, other]
  have here : t.procs p = { s.procs p with state := .running } := by simp [t]
  have on : t.loop c = .switched p := by simp [t]
  have loopOther : ∀ d, d ≠ c → t.loop d = s.loop d := fun d other => by simp [t, other]
  have elsewhere : ∀ d q, d ≠ c → s.loop d = .switched q → q ≠ p := by
    rintro d q - there rfl
    exact nowhere d there
  have holdsOther : ∀ d, d ≠ c → t.holds d = s.holds d := fun d other =>
    holds_congr (loopOther d other) fun q there => by rw [others q (elsewhere d q other there)]
  have holdsHere : t.holds c = s.holds c := by
    rw [holds_of_switched on, here]
    simp [holds, place, locks]
  obtain ⟨noff, intr, intena⟩ := inv.cpu c
  refine ⟨⟨?_, fun d => ?_, fun d q there => ?_, fun d d' q first second => ?_, fun d q there => ?_,
    fun q idle => ?_, forall_of_move (·.pc.Wf) others inv.wf (by rw [here]; exact inv.wf p),
    forall_of_move Proc.Saved others inv.saved (by rw [here]; exact inv.saved p),
    inv.sleep.congr rfl (procs_of_move (·.pc.sleepHeld) others (by rw [here]))⟩, ?_⟩
  · refine inv.owned.congr fun d j => ?_
    show j ∈ t.holds d ↔ j ∈ s.holds d
    by_cases same : d = c
    · rw [same, holdsHere]
    · rw [holdsOther d same]
  · by_cases same : d = c
    · subst same
      refine cpuOk_of_switched on ?_ ?_ fun _ => ?_
      · rw [here]
        simp only [t, setLoop_cpus, setProc_cpus]
        rw [noff]
        simp [holds, place, locks]
      · rw [here]
        simp only [t, setLoop_cpus, setProc_cpus]
        rw [intr, closed]
        simp [intrOn, place]
      · rw [here]
        simp only [t, setLoop_cpus, setProc_cpus]
        rw [intenaRest]
        simpa [IntenaOk, place] using intena
    · refine (inv.cpu d).congr (loopOther d same) (by simp [t]) fun q there => ?_
      rw [others q (elsewhere d q same there)]
  · by_cases same : d = c
    · subst same
      rw [on] at there
      cases there
      rw [here]
    · rw [loopOther d same] at there
      rw [others q (elsewhere d q same there)]
      exact inv.running d q there
  · by_cases same : q = p
    · subst same
      have one : ∀ e, t.loop e = .switched q → e = c := by
        intro e there
        by_contra other
        rw [loopOther e other] at there
        exact nowhere e there
      rw [one d first, one d' second]
    · have other : d ≠ c := by rintro rfl; rw [on] at first; exact same (Loop.switched.inj first).symm
      have other' : d' ≠ c := by rintro rfl; rw [on] at second; exact same (Loop.switched.inj second).symm
      rw [loopOther d other] at first
      rw [loopOther d' other'] at second
      exact inv.single d d' q first second
  · have other : d ≠ c := by rintro rfl; rw [on] at there; cases there
    rw [loopOther d other] at there
    have notP : q ≠ p := by
      rintro rfl
      have theirs : Lock.proc q ∈ s.holds d := by simp [holds, there]
      have mine : Lock.proc q ∈ s.holds c := by simp [holds, place]
      exact other (inv.owned.unique theirs mine)
    rw [others q notP]
    exact inv.back d q there
  · have notP : q ≠ p := by rintro rfl; exact idle c on
    rw [others q notP]
    refine inv.resting q fun d there => ?_
    by_cases same : d = c
    · rw [same, place] at there
      cases there
    · exact idle d (by rw [loopOther d same]; exact there)
  exact inv.waits.keep (fun l => id) (procs_of_move (·.pc.waking) others (by rw [here]))
    fun q l sleeps => .inl (asleep_of_running others (by rw [here]) (by rw [here, sleepingRest]) q l sleeps)

/-! ### A timer interrupt -/

omit [DecidableEq L] in
theorem Coherent.tick (inv : s.Coherent) (on : s.loop c = .switched p) (opened : (s.cpus c).intr = true) :
    (s.trap c p).Coherent := by
  obtain ⟨noff, intr, -⟩ := (inv.cpu c).of_switched on
  have interruptible : (s.procs p).pc.interruptible = true := by rw [← intr]; exact opened
  obtain ⟨locks, sleeping, waking, -, -⟩ := Pc.interruptible_spec p interruptible
  rw [trap, if_pos (inv.running c p on)]
  set t := (s.setIntr c false).setPc p (.yieldAcquire (s.procs p).pc)
  have others : ∀ q, q ≠ p → t.procs q = s.procs q := fun q other => by simp [t, other]
  have here : t.procs p = { s.procs p with pc := .yieldAcquire (s.procs p).pc } := by simp [t]
  have on' : t.loop c = .switched p := on
  have held : (Pc.yieldAcquire (s.procs p).pc).sleepHeld = (s.procs p).pc.sleepHeld := rfl
  have nothing : (Pc.yieldAcquire (s.procs p).pc).locks p = [] := rfl
  refine ⟨inv.move on rfl others (by rw [here]) (fun d other => by simp [t, other]) (by rw [here]; exact interruptible)
    (fun b was => by rw [here] at was; cases was) ?_ ?_ (inv.sleep_moved held rfl others here), ?_⟩
  · refine inv.owned.congr fun d j => ?_
    show j ∈ t.holds d ↔ j ∈ s.holds d
    by_cases same : d = c
    · rw [same, holds_of_switched on', holds_of_switched on, here, locks]
      rfl
    · rw [inv.holds_other on (show t.loop = s.loop from rfl) others same]
  · refine cpuOk_of_switched on' ?_ ?_ fun empty => absurd (by rw [here]; exact nothing) empty
    · rw [here]
      simp [t, noff, locks, nothing]
    · rw [here]
      simp [t, Pc.interruptible]
  · exact inv.waits_moved (by rw [sleeping]; rfl) (by rw [waking]; rfl) rfl others here

/-! ### Every step -/

theorem Coherent.safe_exec (inv : s.Coherent) (on : s.loop c = .switched p) : Safe (s.exec c p) := by
  unfold exec
  cases hpc : (s.procs p).pc with
  | whileLocked l =>
    dsimp only
    split
    · rename_i locked
      exact safe_running (inv.stillLocked on hpc locked)
    · rename_i unlocked
      exact safe_running (inv.takeSleep on hpc (by simpa using unlocked))
  | sleepAcquire l => exact inv.safe_take on hpc _ rfl rfl rfl trivial rfl rfl rfl rfl
  | sleepRelease l =>
    exact inv.safe_drop on hpc (by simp [Pc.locks]) _ (by simp [Pc.locks]) rfl (fun _ => rfl) trivial rfl rfl
      fun _ sleeplocks others here => inv.waits_moved (by rw [hpc]; rfl) (by rw [hpc]; rfl) sleeplocks others here
  | sleepSched l =>
    refine inv.safe_sched on hpc rfl (by decide) (.sleepTidy l) (fun _ => .inr ⟨rfl, rfl⟩) rfl trivial rfl rfl
      fun l' going => ?_
    rcases going with never | ⟨-, chan⟩
    · cases never
    · exact chan
  | sleepTidy l => exact inv.safe_sleepTidy on hpc
  | sleepReacquire l => exact inv.safe_take on hpc _ rfl rfl rfl trivial rfl rfl rfl rfl
  | acquiredRelease l =>
    exact inv.safe_drop on hpc (by simp [Pc.locks]) _ (by simp [Pc.locks]) rfl (fun empty => absurd rfl empty)
      trivial rfl rfl
      fun _ sleeplocks others here => inv.waits_moved (by rw [hpc]; rfl) (by rw [hpc]; rfl) sleeplocks others here
  | critical l => exact inv.safe_take on hpc _ rfl rfl rfl trivial rfl rfl rfl rfl
  | releaseClear l => exact safe_running (inv.releaseClear on hpc)
  | wakeup l i =>
    dsimp only
    split
    · exact inv.safe_take on hpc _ rfl rfl rfl trivial rfl rfl rfl rfl
    · rename_i past
      exact safe_running (inv.wakeupDone on hpc past)
  | wakeupTest l i => exact inv.safe_wakeupTest on hpc
  | releaseRelease l =>
    exact inv.safe_drop on hpc (by simp [Pc.locks]) _ (by simp [Pc.locks]) rfl (fun empty => absurd rfl empty)
      trivial rfl rfl
      fun _ sleeplocks others here => inv.waits_moved (by rw [hpc]; rfl) (by rw [hpc]; rfl) sleeplocks others here
  | outside => exact safe_none
  | forkret => exact inv.safe_forkret on hpc
  | yieldAcquire r =>
    have wf := inv.wf p
    rw [hpc] at wf
    exact inv.safe_take on hpc _ rfl rfl rfl wf rfl rfl rfl rfl
  | yieldSched r =>
    have wf := inv.wf p
    rw [hpc] at wf
    refine inv.safe_sched on hpc rfl (by decide) (.yieldRelease r) (fun _ => rfl) rfl wf rfl rfl fun l' going => ?_
    rcases going with never | ⟨never, -⟩
    · cases never
    · cases never
  | yieldRelease r => exact inv.safe_yieldRelease on hpc

theorem Coherent.safe_schedule (inv : s.Coherent) : Safe (s.schedule c (s.loop c)) := by
  cases place : s.loop c with
  | scan i =>
    rw [schedule]
    split
    · rename_i below
      exact inv.safe_scan place below
    · exact safe_running (inv.restart place)
  | found p =>
    rw [schedule]
    split
    · rename_i runnable
      exact safe_running (inv.switch place runnable)
    · exact inv.safe_leave (.inl place)
  | switched p => exact inv.safe_exec place
  | back p => exact inv.safe_leave (.inr place)

theorem Coherent.safe (inv : s.Coherent) (e : Event m L) : Safe (s.step e) := by
  cases e with
  | run c => exact inv.safe_schedule
  | call c l =>
    rw [step]
    cases place : s.loop c with
    | switched p =>
      dsimp only
      split
      · rename_i hpc
        exact inv.safe_take place hpc _ rfl rfl rfl trivial rfl rfl rfl rfl
      · exact safe_none
    | _ => exact safe_none
  | tick c =>
    rw [step]
    cases place : s.loop c with
    | switched p =>
      dsimp only
      split
      · rename_i opened
        exact safe_running (inv.tick place opened)
      · exact safe_none
    | _ => exact safe_none

end State

end Xv6.Sched
