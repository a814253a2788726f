import Xv6.Fs.Log
import Xv6.Lib.Run
import Xv6.Lib.Procs

/-! Many processes running FS operations through `begin_op`, `log_write` and
`end_op` on one log, with `commit` run by the process whose `end_op` ended the
last outstanding operation. Events interleave at the log lock. `log_write`
reads `lh.n` and `outstanding` for its panic tests before it takes the lock,
so its tests and its critical section are two events, and `commit` runs
without the lock. -/

namespace Xv6.Fs

open Xv6.Lib

/-- Where a process is in the log protocol. -/
inductive Phase where
  /-- Outside any FS operation, or asleep in `begin_op`. -/
  | idle
  /-- Returned from `begin_op`; the ghost fields are the index of the group it
  joined and the blocks it has passed to `log_write`. -/
  | inOp (group : Nat) (logged : List Nat)
  /-- Inside `log_write` for `blockno`: its panic tests passed, the log lock
  not yet taken. -/
  | writing (group : Nat) (logged : List Nat) (blockno : Nat)
  /-- Set `committing` in `end_op` and runs `commit`. -/
  | committing
  /-- `commit` returned; `committing` is not yet cleared. -/
  | committed
deriving DecidableEq

namespace Phase

def isInOp : Phase → Bool
  | .inOp .. | .writing .. => true
  | _ => false

def isWriting : Phase → Bool
  | .writing .. => true
  | _ => false

def isCommitter : Phase → Bool
  | .committing | .committed => true
  | _ => false

/-- The group an operation joined. -/
def group : Phase → Nat
  | .inOp group _ | .writing group _ _ => group
  | _ => 0

/-- The blocks an operation has logged. -/
def logged : Phase → List Nat
  | .inOp _ logged | .writing _ logged _ => logged
  | _ => []

@[simp] theorem isInOp_inOp {group : Nat} {logged : List Nat} : (inOp group logged).isInOp = true := rfl

@[simp] theorem isInOp_writing {group blockno : Nat} {logged : List Nat} :
    (writing group logged blockno).isInOp = true := rfl

@[simp] theorem isWriting_inOp {group : Nat} {logged : List Nat} : (inOp group logged).isWriting = false := rfl

@[simp] theorem isWriting_writing {group blockno : Nat} {logged : List Nat} :
    (writing group logged blockno).isWriting = true := rfl

@[simp] theorem isCommitter_inOp {group : Nat} {logged : List Nat} : (inOp group logged).isCommitter = false := rfl

@[simp] theorem isCommitter_writing {group blockno : Nat} {logged : List Nat} :
    (writing group logged blockno).isCommitter = false := rfl

@[simp] theorem group_inOp {group : Nat} {logged : List Nat} : (inOp group logged).group = group := rfl

@[simp] theorem group_writing {group blockno : Nat} {logged : List Nat} :
    (writing group logged blockno).group = group := rfl

@[simp] theorem logged_inOp {group : Nat} {logged : List Nat} : (inOp group logged).logged = logged := rfl

@[simp] theorem logged_writing {group blockno : Nat} {logged : List Nat} :
    (writing group logged blockno).logged = logged := rfl

theorem logged_of_not_isInOp {ph : Phase} (outside : ph.isInOp = false) : ph.logged = [] := by
  cases ph <;> simp_all [isInOp, logged]

theorem isInOp_of_isWriting {ph : Phase} (writing : ph.isWriting = true) : ph.isInOp = true := by
  cases ph <;> simp_all [isInOp, isWriting]

end Phase

/-- The log of one device and the phase of every process, with two ghost
histories: the header of every `commit` call, and the group and logged blocks
of every finished operation. -/
structure LogSys (P : Type) where
  log : Log
  phase : P → Phase
  groups : List (List Nat)
  finished : List (Nat × List Nat)

inductive LogEvent (P : Type) where
  | beginOp (p : P)
  /-- The panic tests of `log_write`, made without the lock. -/
  | logWrite (p : P) (blockno : Nat)
  /-- The critical section of `log_write`. -/
  | logWriteLocked (p : P)
  | endOp (p : P)
  | commit (p : P)
  | endCommit (p : P)

namespace LogSys

variable {P : Type} [DecidableEq P]

/-- One event of process `p`; a process asleep in `begin_op` has no event. -/
def step (s : LogSys P) : LogEvent P → Option (Outcome (LogSys P))
  | .beginOp p =>
    match s.phase p, s.log.beginOp with
    | .idle, some log =>
      some (.running { s with
        log := log
        phase := Function.update s.phase p (.inOp s.groups.length []) })
    | _, _ => none
  | .logWrite p blockno =>
    match s.phase p with
    | .inOp group logged =>
      match s.log.logWriteTest with
      | .ok () => some (.running { s with phase := Function.update s.phase p (.writing group logged blockno) })
      | .error message => some (.panicked message)
    | _ => none
  | .logWriteLocked p =>
    match s.phase p with
    | .writing group logged blockno =>
      some (.running { s with
        log := s.log.logWriteLocked blockno
        phase := Function.update s.phase p (.inOp group (logged ++ [blockno])) })
    | _ => none
  | .endOp p =>
    match s.phase p with
    | .inOp group logged =>
      match s.log.endOp with
      | .ok (log, doCommit) =>
        some (.running { s with
          log := log
          phase := Function.update s.phase p (if doCommit then .committing else .idle)
          finished := s.finished ++ [(group, logged)] })
      | .error message => some (.panicked message)
    | _ => none
  | .commit p =>
    match s.phase p with
    | .committing =>
      some (.running { s with
        log := s.log.commit
        phase := Function.update s.phase p .committed
        groups := s.groups ++ [s.log.lh] })
    | _ => none
  | .endCommit p =>
    match s.phase p with
    | .committed =>
      some (.running { s with
        log := s.log.endCommit
        phase := Function.update s.phase p .idle })
    | _ => none

/-- The protocol from the log left by `initlog`, every process idle. -/
def system (P : Type) [DecidableEq P] (start size : Nat) : System (LogSys P) (LogEvent P) where
  init := { log := Log.initial start size, phase := fun _ => .idle, groups := [], finished := [] }
  step := step

/-- The blocks of group `g`: the `g`-th committed header, or the open one. -/
def groupOf (s : LogSys P) (g : Nat) : List Nat :=
  (s.groups ++ [s.log.lh]).getD g []

variable {s t : LogSys P} {p : P}

theorem step_beginOp (next : s.step (.beginOp p) = some (.running t)) :
    s.phase p = .idle ∧ ∃ log, s.log.beginOp = some log ∧
      t = { s with
        log := log
        phase := Function.update s.phase p (.inOp s.groups.length []) } := by
  delta step at next
  dsimp only at next
  split at next
  · rename_i log idle admitted
    cases next
    exact ⟨idle, log, admitted, rfl⟩
  · cases next

theorem step_logWrite {blockno : Nat} (next : s.step (.logWrite p blockno) = some (.running t)) :
    ∃ group logged, s.phase p = .inOp group logged ∧ s.log.logWriteTest = .ok () ∧
      t = { s with phase := Function.update s.phase p (.writing group logged blockno) } := by
  delta step at next
  dsimp only at next
  split at next
  · rename_i group logged inOp
    split at next
    · rename_i passed
      cases next
      exact ⟨group, logged, inOp, passed, rfl⟩
    · cases next
  · cases next

theorem step_logWriteLocked (next : s.step (.logWriteLocked p) = some (.running t)) :
    ∃ group logged blockno, s.phase p = .writing group logged blockno ∧
      t = { s with
        log := s.log.logWriteLocked blockno
        phase := Function.update s.phase p (.inOp group (logged ++ [blockno])) } := by
  delta step at next
  dsimp only at next
  split at next
  · rename_i group logged blockno writing
    cases next
    exact ⟨group, logged, blockno, writing, rfl⟩
  · cases next

theorem step_endOp (next : s.step (.endOp p) = some (.running t)) :
    ∃ group logged log doCommit, s.phase p = .inOp group logged ∧
      s.log.endOp = .ok (log, doCommit) ∧
      t = { s with
        log := log
        phase := Function.update s.phase p (if doCommit then .committing else .idle)
        finished := s.finished ++ [(group, logged)] } := by
  delta step at next
  dsimp only at next
  split at next
  · rename_i group logged inOp
    split at next
    · rename_i log doCommit finish
      cases next
      exact ⟨group, logged, log, doCommit, inOp, finish, rfl⟩
    · cases next
  · cases next

theorem step_commit (next : s.step (.commit p) = some (.running t)) :
    s.phase p = .committing ∧
      t = { s with
        log := s.log.commit
        phase := Function.update s.phase p .committed
        groups := s.groups ++ [s.log.lh] } := by
  delta step at next
  dsimp only at next
  split at next
  · rename_i committing
    cases next
    exact ⟨committing, rfl⟩
  · cases next

theorem step_endCommit (next : s.step (.endCommit p) = some (.running t)) :
    s.phase p = .committed ∧
      t = { s with
        log := s.log.endCommit
        phase := Function.update s.phase p .idle } := by
  delta step at next
  dsimp only at next
  split at next
  · rename_i committed
    cases next
    exact ⟨committed, rfl⟩
  · cases next

theorem step_panicked {event : LogEvent P} {message : String}
    (stop : s.step event = some (.panicked message)) :
    (∃ p blockno group logged, event = .logWrite p blockno ∧ s.phase p = .inOp group logged ∧
        s.log.logWriteTest = .error message) ∨
      (∃ p group logged, event = .endOp p ∧ s.phase p = .inOp group logged ∧
        s.log.endOp = .error message) := by
  cases event with
  | beginOp p =>
    simp only [step] at stop
    split at stop <;> cases stop
  | logWrite p blockno =>
    simp only [step] at stop
    split at stop
    · rename_i group logged inOp
      split at stop
      · cases stop
      · rename_i failure failed
        cases stop
        exact .inl ⟨p, blockno, group, logged, rfl, inOp, failed⟩
    · cases stop
  | logWriteLocked p =>
    simp only [step] at stop
    split at stop <;> cases stop
  | endOp p =>
    simp only [step] at stop
    split at stop
    · rename_i group logged inOp
      split at stop
      · cases stop
      · rename_i failure finish
        cases stop
        exact .inr ⟨p, group, logged, rfl, inOp, finish⟩
    · cases stop
  | commit p =>
    simp only [step] at stop
    split at stop <;> cases stop
  | endCommit p =>
    simp only [step] at stop
    split at stop <;> cases stop

omit [DecidableEq P] in
theorem groupOf_length : s.groupOf s.groups.length = s.log.lh := by
  simp [groupOf]

omit [DecidableEq P] in
theorem groupOf_of_lt {g : Nat} (committed : g < s.groups.length) : s.groupOf g = s.groups[g] := by
  simp [groupOf, List.getElem?_append_left committed, committed]

theorem update_keeps {β : Type} (view : Phase → β) {f : P → Phase} {v : Phase}
    (same : view (f p) = view v) (q : P) : view (Function.update f p v q) = view (f q) := by
  by_cases moved : q = p
  · subst q
    simp [same]
  · simp [Function.update_of_ne moved]

section Invariant

variable [Fintype P]

/-- The invariant of the protocol. -/
structure GroupInv (s : LogSys P) : Prop where
  /-- `outstanding` counts the processes between `begin_op` and `end_op`. -/
  outstanding : s.log.outstanding = countWhere Phase.isInOp s.phase
  /-- A committer has set `committing`. -/
  committer : ∀ p, (s.phase p).isCommitter → s.log.committing = true
  /-- At most one process commits. -/
  single : ∀ p q, (s.phase p).isCommitter → (s.phase q).isCommitter → p = q
  /-- While `committing` is set no process is inside an operation. -/
  closed : s.log.committing = true → ∀ q, (s.phase q).isInOp = false
  /-- An open operation belongs to the open group, and its blocks are in the header. -/
  opened : ∀ p, (s.phase p).isInOp → (s.phase p).group = s.groups.length ∧ ∀ b ∈ (s.phase p).logged, b ∈ s.log.lh
  /-- A finished operation's blocks all lie in its one group. -/
  finished : ∀ group logged, (group, logged) ∈ s.finished →
    group ≤ s.groups.length ∧ ∀ b ∈ logged, b ∈ s.groupOf group
  /-- A committed group holds only blocks that its own operations logged:
  `commit` empties the header it commits. -/
  sourced : ∀ g lh, s.groups[g]? = some lh → ∀ b ∈ lh, ∃ logged, (g, logged) ∈ s.finished ∧ b ∈ logged
  /-- The open header holds only blocks that operations of the open group logged. -/
  current : ∀ b ∈ s.log.lh,
    (∃ logged, (s.groups.length, logged) ∈ s.finished ∧ b ∈ logged) ∨ ∃ p, b ∈ (s.phase p).logged
  /-- Absorption keeps every header free of repeats. -/
  headers : ∀ lh ∈ s.log.lh :: s.groups, lh.Nodup ∧ lh.length ≤ s.log.size - 2 + Fintype.card P
  /-- A process passes the size test of `log_write` only while the header has
  room, but adds its block later: the header outgrows the log's `size - 1`
  data blocks by at most the processes that passed the test together. -/
  racing : s.log.lh.length + countWhere Phase.isWriting s.phase ≤ s.log.size - 2 + Fintype.card P

theorem groupInv_init (start size : Nat) : GroupInv (system P start size).init where
  outstanding := by simp [system, Log.initial, countWhere, Phase.isInOp]
  committer := by intro p; simp [system, Phase.isCommitter]
  single := by intro p q; simp [system, Phase.isCommitter]
  closed := by simp [system, Log.initial]
  opened := by simp [system, Phase.isInOp]
  finished := by simp [system]
  sourced := by simp [system]
  current := by simp [system, Log.initial]
  headers := by simp [system, Log.initial]
  racing := by simp [system, Log.initial, countWhere, Phase.isWriting]

omit [DecidableEq P] in
theorem GroupInv.not_committing (inv : GroupInv s) (inOp : (s.phase p).isInOp = true) :
    s.log.committing = false := by
  cases committing : s.log.committing
  · rfl
  · have open_ := inv.closed committing p
    simp [inOp] at open_

omit [DecidableEq P] in
theorem GroupInv.no_committer (inv : GroupInv s) (notCommitting : s.log.committing = false) (q : P) :
    (s.phase q).isCommitter = false := by
  cases committer : (s.phase q).isCommitter
  · rfl
  · simp [inv.committer q committer] at notCommitting

theorem groupInv_beginOp (inv : GroupInv s) (next : s.step (.beginOp p) = some (.running t)) :
    GroupInv t := by
  obtain ⟨idle, log, admitted, rfl⟩ := step_beginOp next
  obtain ⟨notCommitting, -, rfl⟩ := Log.beginOp_eq_some admitted
  have noCommitter := inv.no_committer notCommitting
  constructor
  · have entered := countWhere_update_enter Phase.isInOp s.phase (p := p)
      (v := .inOp s.groups.length []) (by simp [idle, Phase.isInOp]) rfl
    simp only [entered, inv.outstanding]
    push_cast
    rfl
  · intro q committer
    by_cases same : q = p
    · subst q; simp at committer
    · simp [Function.update_of_ne same, noCommitter q] at committer
  · intro q r committer _
    by_cases same : q = p
    · subst q; simp at committer
    · simp [Function.update_of_ne same, noCommitter q] at committer
  · intro committing
    simp [notCommitting] at committing
  · intro q inOp
    by_cases same : q = p
    · subst q
      simp
    · simp only [Function.update_of_ne same] at inOp ⊢
      exact inv.opened q inOp
  · exact inv.finished
  · exact inv.sourced
  · have kept := update_keeps Phase.logged (f := s.phase) (p := p) (v := .inOp s.groups.length [])
      (by simp [idle, Phase.logged])
    intro b member
    simpa only [kept] using inv.current b member
  · exact inv.headers
  · have same := countWhere_update_same Phase.isWriting s.phase (p := p) (v := .inOp s.groups.length [])
      (by simp [idle, Phase.isWriting])
    simpa only [same] using inv.racing

theorem groupInv_logWrite {blockno : Nat} (inv : GroupInv s)
    (next : s.step (.logWrite p blockno) = some (.running t)) : GroupInv t := by
  obtain ⟨group, logged, inOp, passed, rfl⟩ := step_logWrite next
  obtain ⟨-, room, -⟩ := Log.logWriteTest_eq_ok passed
  have inside := update_keeps Phase.isInOp (f := s.phase) (p := p) (v := .writing group logged blockno)
    (by simp [inOp])
  have committer := update_keeps Phase.isCommitter (f := s.phase) (p := p)
    (v := .writing group logged blockno) (by simp [inOp])
  have joined := update_keeps Phase.group (f := s.phase) (p := p) (v := .writing group logged blockno)
    (by simp [inOp])
  have kept := update_keeps Phase.logged (f := s.phase) (p := p) (v := .writing group logged blockno)
    (by simp [inOp])
  constructor
  · have same := countWhere_update_same Phase.isInOp s.phase (p := p) (v := .writing group logged blockno)
      (by simp [inOp])
    simpa only [same] using inv.outstanding
  · simpa only [committer] using inv.committer
  · simpa only [committer] using inv.single
  · simpa only [inside] using inv.closed
  · simpa only [inside, joined, kept] using inv.opened
  · exact inv.finished
  · exact inv.sourced
  · simpa only [kept] using inv.current
  · exact inv.headers
  · have entered := countWhere_update_enter Phase.isWriting s.phase (p := p)
      (v := .writing group logged blockno) (by simp [inOp]) rfl
    have others := countWhere_lt_card Phase.isWriting s.phase (p := p) (by simp [inOp])
    have racing := inv.racing
    simp only [entered]
    omega

theorem groupInv_logWriteLocked (inv : GroupInv s) (next : s.step (.logWriteLocked p) = some (.running t)) :
    GroupInv t := by
  obtain ⟨group, logged, blockno, writing, rfl⟩ := step_logWriteLocked next
  have notCommitting := inv.not_committing (p := p) (by simp [writing])
  have grown : ∀ b ∈ s.log.lh, b ∈ (s.log.logWriteLocked blockno).lh := fun _ member =>
    Log.mem_logWriteLocked.mpr (.inl member)
  have inside := update_keeps Phase.isInOp (f := s.phase) (p := p) (v := .inOp group (logged ++ [blockno]))
    (by simp [writing])
  have committer := update_keeps Phase.isCommitter (f := s.phase) (p := p)
    (v := .inOp group (logged ++ [blockno])) (by simp [writing])
  obtain ⟨current, contained⟩ := inv.opened p (by simp [writing])
  simp only [writing, Phase.group_writing, Phase.logged_writing] at current contained
  constructor
  · have same := countWhere_update_same Phase.isInOp s.phase (p := p) (v := .inOp group (logged ++ [blockno]))
      (by simp [writing])
    simpa only [same, Log.logWriteLocked_outstanding] using inv.outstanding
  · simpa only [committer, Log.logWriteLocked_committing] using inv.committer
  · simpa only [committer] using inv.single
  · simpa only [inside, Log.logWriteLocked_committing] using inv.closed
  · intro q inOp'
    by_cases moved : q = p
    · subst q
      refine ⟨by simpa using current, fun b member => ?_⟩
      simp only [Function.update_self, Phase.logged_inOp, List.mem_append, List.mem_singleton] at member
      rcases member with old | rfl
      · exact grown b (contained b old)
      · exact Log.mem_logWriteLocked.mpr (.inr rfl)
    · simp only [Function.update_of_ne moved] at inOp' ⊢
      obtain ⟨same, blocks⟩ := inv.opened q inOp'
      exact ⟨same, fun b member => grown b (blocks b member)⟩
  · intro group' logged' record
    obtain ⟨bound, blocks⟩ := inv.finished group' logged' record
    refine ⟨bound, fun b member => ?_⟩
    have old := blocks b member
    by_cases open_ : group' = s.groups.length
    · subst open_
      rw [groupOf_length] at old
      simpa [groupOf] using grown b old
    · simpa [groupOf, List.getElem?_append_left (Nat.lt_of_le_of_ne bound open_)] using old
  · exact inv.sourced
  · intro b member
    rcases Log.mem_logWriteLocked.mp member with old | rfl
    · rcases inv.current b old with done | ⟨q, from_⟩
      · exact .inl done
      · refine .inr ⟨q, ?_⟩
        by_cases moved : q = p
        · subst q
          simp only [writing, Phase.logged_writing] at from_
          simp [from_]
        · simpa [Function.update_of_ne moved] using from_
    · exact .inr ⟨p, by simp⟩
  · have racing := inv.racing
    have one := countWhere_pos Phase.isWriting s.phase (p := p) (by simp [writing])
    intro lh member
    rcases List.mem_cons.mp member with rfl | committed
    · obtain ⟨nodup, -⟩ := inv.headers s.log.lh (List.mem_cons_self ..)
      simp only [Log.logWriteLocked_lh, Log.logWriteLocked_size]
      split
      · exact ⟨nodup, by omega⟩
      · rename_i fresh
        exact ⟨nodup.append (by simp) (by simpa using fresh), by simp; omega⟩
    · simpa only [Log.logWriteLocked_size] using inv.headers lh (List.mem_cons_of_mem _ committed)
  · have left := countWhere_update_leave Phase.isWriting s.phase (p := p)
      (v := .inOp group (logged ++ [blockno])) (by simp [writing]) rfl
    have racing := inv.racing
    have grew : (s.log.logWriteLocked blockno).lh.length ≤ s.log.lh.length + 1 := Log.length_logWriteLocked_le
    simp only [Log.logWriteLocked_size]
    omega

omit [Fintype P] in
private theorem committer_after_endOp (noCommitter : ∀ q, (s.phase q).isCommitter = false)
    {v : Phase} {q : P} (committer : (Function.update s.phase p v q).isCommitter = true) :
    q = p ∧ v.isCommitter = true := by
  by_cases moved : q = p
  · subst q
    exact ⟨rfl, by simpa using committer⟩
  · simp [Function.update_of_ne moved, noCommitter q] at committer

theorem groupInv_endOp (inv : GroupInv s) (next : s.step (.endOp p) = some (.running t)) :
    GroupInv t := by
  obtain ⟨group, logged, log, doCommit, inOp, finish, rfl⟩ := step_endOp next
  obtain ⟨notCommitting, commitFlag, rfl⟩ := Log.endOp_eq_ok finish
  have leaving := countWhere_update_leave Phase.isInOp s.phase (p := p)
    (v := if doCommit then .committing else .idle) (by simp [inOp]) (by split <;> rfl)
  have noCommitter := inv.no_committer notCommitting
  obtain ⟨current, contained⟩ := inv.opened p (by simp [inOp])
  simp only [inOp, Phase.group_inOp, Phase.logged_inOp] at current contained
  constructor
  · have counted := inv.outstanding
    simp only
    omega
  · intro q committer
    obtain ⟨rfl, committing⟩ := committer_after_endOp noCommitter committer
    cases doCommit
    · simp [Phase.isCommitter] at committing
    · rfl
  · intro q r committerQ committerR
    rw [(committer_after_endOp noCommitter committerQ).1,
      (committer_after_endOp noCommitter committerR).1]
  · intro committing q
    have last : s.log.outstanding - 1 = 0 := by simpa [commitFlag] using committing
    by_cases moved : q = p
    · subst q
      cases doCommit <;> simp [Phase.isInOp]
    · simp only [Function.update_of_ne moved]
      cases other : (s.phase q).isInOp
      · rfl
      · have one : countWhere Phase.isInOp s.phase = 1 := by
          have counted := inv.outstanding
          omega
        exact absurd (countWhere_eq_one_only Phase.isInOp s.phase (by simp [inOp]) one other) moved
  · intro q inOp'
    by_cases moved : q = p
    · subst q
      cases doCommit <;> simp [Phase.isInOp] at inOp'
    · simp only [Function.update_of_ne moved] at inOp' ⊢
      exact inv.opened q inOp'
  · intro group' logged' record
    rcases List.mem_append.mp record with old | new
    · exact inv.finished group' logged' old
    · simp only [List.mem_singleton, Prod.mk.injEq] at new
      obtain ⟨rfl, rfl⟩ := new
      refine ⟨by simp [current], ?_⟩
      intro b member
      simpa [current, groupOf] using contained b member
  · intro g lh committed b member
    obtain ⟨logged', record, logs⟩ := inv.sourced g lh committed b member
    exact ⟨logged', List.mem_append_left _ record, logs⟩
  · intro b member
    rcases inv.current b member with ⟨logged', record, logs⟩ | ⟨q, from_⟩
    · exact .inl ⟨logged', List.mem_append_left _ record, logs⟩
    · by_cases moved : q = p
      · subst q
        simp only [inOp, Phase.logged_inOp] at from_
        exact .inl ⟨logged, by simp [current], from_⟩
      · exact .inr ⟨q, by simpa [Function.update_of_ne moved] using from_⟩
  · exact inv.headers
  · have same := countWhere_update_same Phase.isWriting s.phase (p := p)
      (v := if doCommit then .committing else .idle) (by simp only [inOp]; split <;> rfl)
    simpa only [same] using inv.racing

theorem groupInv_commit (inv : GroupInv s) (next : s.step (.commit p) = some (.running t)) :
    GroupInv t := by
  obtain ⟨committing, rfl⟩ := step_commit next
  have flag : s.log.committing = true := inv.committer p (by simp [committing, Phase.isCommitter])
  have noOp := inv.closed flag
  have back : ∀ q, (Function.update s.phase p .committed q).isCommitter = true →
      (s.phase q).isCommitter = true := by
    intro q committer
    by_cases moved : q = p
    · subst q
      simp [committing, Phase.isCommitter]
    · simpa [Function.update_of_ne moved] using committer
  have inside := update_keeps Phase.isInOp (f := s.phase) (p := p) (v := .committed)
    (by simp [committing, Phase.isInOp])
  constructor
  · have same := countWhere_update_same Phase.isInOp s.phase (p := p) (v := .committed)
      (by simp [committing, Phase.isInOp])
    simpa [same] using inv.outstanding
  · intro q _
    simpa using flag
  · intro q r committerQ committerR
    exact inv.single q r (back q committerQ) (back r committerR)
  · intro _ q
    simpa only [inside] using noOp q
  · intro q inOp
    simp only [inside, noOp q] at inOp
    cases inOp
  · intro group logged record
    obtain ⟨bound, contained⟩ := inv.finished group logged record
    have inside : group < (s.groups ++ [s.log.lh]).length := by simp; omega
    refine ⟨by simp; omega, fun b member => ?_⟩
    have kept : ((s.groups ++ [s.log.lh]) ++ [s.log.commit.lh]).getD group [] = s.groupOf group := by
      rw [List.getD_eq_getElem?_getD, List.getElem?_append_left inside]
      rfl
    show b ∈ ((s.groups ++ [s.log.lh]) ++ [s.log.commit.lh]).getD group []
    rw [kept]
    exact contained b member
  · intro g lh committed b member
    by_cases old : g < s.groups.length
    · rw [List.getElem?_append_left old] at committed
      exact inv.sourced g lh committed b member
    · rw [List.getElem?_append_right (Nat.le_of_not_lt old)] at committed
      have header : g = s.groups.length ∧ lh = s.log.lh := by
        rw [List.getElem?_singleton] at committed
        split at committed
        · cases committed
          exact ⟨by omega, rfl⟩
        · cases committed
      obtain ⟨rfl, rfl⟩ := header
      rcases inv.current b member with done | ⟨q, from_⟩
      · exact done
      · simp [Phase.logged_of_not_isInOp (noOp q)] at from_
  · intro b member
    simp at member
  · intro lh member
    simp only [Log.commit_lh, List.mem_cons, List.mem_append, List.not_mem_nil, or_false] at member
    dsimp only
    rw [Log.commit_size]
    rcases member with rfl | committed | rfl
    · simp
    · exact inv.headers lh (List.mem_cons_of_mem _ committed)
    · exact inv.headers s.log.lh (List.mem_cons_self ..)
  · have same := countWhere_update_same Phase.isWriting s.phase (p := p) (v := .committed)
      (by simp [committing, Phase.isWriting])
    have racing := inv.racing
    simp only [same, Log.commit_lh, Log.commit_size, List.length_nil]
    omega

theorem groupInv_endCommit (inv : GroupInv s) (next : s.step (.endCommit p) = some (.running t)) :
    GroupInv t := by
  obtain ⟨committed, rfl⟩ := step_endCommit next
  have flag : s.log.committing = true := inv.committer p (by simp [committed, Phase.isCommitter])
  have noOp := inv.closed flag
  have noneLeft : ∀ q, (Function.update s.phase p .idle q).isCommitter = false := by
    intro q
    by_cases moved : q = p
    · subst q
      simp [Phase.isCommitter]
    · cases committer : (s.phase q).isCommitter
      · simpa [Function.update_of_ne moved] using committer
      · exact absurd (inv.single q p committer (by simp [committed, Phase.isCommitter])) moved
  have inside := update_keeps Phase.isInOp (f := s.phase) (p := p) (v := .idle)
    (by simp [committed, Phase.isInOp])
  have kept := update_keeps Phase.logged (f := s.phase) (p := p) (v := .idle)
    (by simp [committed, Phase.logged])
  constructor
  · have same := countWhere_update_same Phase.isInOp s.phase (p := p) (v := .idle)
      (by simp [committed, Phase.isInOp])
    simpa [same] using inv.outstanding
  · intro q committer
    simp [noneLeft q] at committer
  · intro q r committer _
    simp [noneLeft q] at committer
  · intro committing
    simp at committing
  · intro q inOp
    simp only [inside, noOp q] at inOp
    cases inOp
  · exact inv.finished
  · exact inv.sourced
  · simpa only [kept, Log.endCommit_lh] using inv.current
  · exact inv.headers
  · have same := countWhere_update_same Phase.isWriting s.phase (p := p) (v := .idle)
      (by simp [committed, Phase.isWriting])
    simpa only [same, Log.endCommit_lh, Log.endCommit_size] using inv.racing

theorem groupInv_invariant (start size : Nat) : (system P start size).Invariant GroupInv where
  init := groupInv_init start size
  step := by
    intro s t event inv next
    cases event with
    | beginOp p => exact groupInv_beginOp inv next
    | logWrite p blockno => exact groupInv_logWrite inv next
    | logWriteLocked p => exact groupInv_logWriteLocked inv next
    | endOp p => exact groupInv_endOp inv next
    | commit p => exact groupInv_commit inv next
    | endCommit p => exact groupInv_endCommit inv next

/-- Group commit never includes an unfinished operation: in every state that
any interleaving reaches, a running `commit` sees `outstanding == 0` and no
process inside an operation, `end_op`'s `committing` panic cannot fire, no
process is inside an operation while `committing` is set (so no `begin_op`
returned during a commit), and an open operation's blocks are all in the open
header. Each finished operation has one group, the one open during it, which
holds every block it logged; and a committed group holds only blocks that its
own operations logged, so an operation's blocks reach another committed group
only where an operation of that group logged them again. -/
theorem groupCommit_excludes_open_ops (start size : Nat) {s : LogSys P}
    (reach : (system P start size).Reachable s) :
    (∀ p, s.phase p = .committing →
        s.log.outstanding = 0 ∧ ∀ q, (s.phase q).isInOp = false) ∧
      (∀ event, (system P start size).step s event ≠ some (.panicked "log[dev].committing")) ∧
      (s.log.committing = true → ∀ q, (s.phase q).isInOp = false) ∧
      (∀ p, (s.phase p).isInOp → (s.phase p).group = s.groups.length ∧ ∀ b ∈ (s.phase p).logged, b ∈ s.log.lh) ∧
      (∀ group logged, (group, logged) ∈ s.finished →
        group ≤ s.groups.length ∧ ∀ b ∈ logged, b ∈ s.groupOf group) ∧
      (∀ g lh, s.groups[g]? = some lh → ∀ b ∈ lh, ∃ logged, (g, logged) ∈ s.finished ∧ b ∈ logged) := by
  have inv := (groupInv_invariant start size).holds reach
  refine ⟨?_, ?_, inv.closed, inv.opened, inv.finished, inv.sourced⟩
  · intro p committing
    have noOp := inv.closed (inv.committer p (by simp [committing, Phase.isCommitter]))
    have empty : countWhere Phase.isInOp s.phase = 0 := countWhere_eq_zero Phase.isInOp s.phase noOp
    exact ⟨by simp [inv.outstanding, empty], noOp⟩
  · intro event stop
    rcases step_panicked stop with
      ⟨p, blockno, group, logged, -, -, failed⟩ | ⟨p, group, logged, -, inOp, finish⟩
    · rcases Log.logWriteTest_eq_error failed with ⟨same, -⟩ | ⟨same, -⟩ <;> simp at same
    · have committing := (Log.endOp_eq_error finish).2
      simp [inv.not_committing (p := p) (by simp [inOp])] at committing

/-- The log's bookkeeping in every state any interleaving reaches:
`outstanding` is the number of processes between `begin_op` and `end_op`; at
most one process commits, with `committing` set; the in-memory header and the
header of every commit list each block at most once, since `log_write` absorbs
a block the transaction already holds. `log_write` tests `lh.n` before it takes
the lock, so processes that pass the test together each add a block: the
header plus the processes between the test and the lock stay within the log's
`size - 2` blocks and one more for each process. -/
theorem log_bookkeeping (start size : Nat) {s : LogSys P} (reach : (system P start size).Reachable s) :
    s.log.outstanding = countWhere Phase.isInOp s.phase ∧
      (∀ p q, (s.phase p).isCommitter → (s.phase q).isCommitter → p = q) ∧
      (∀ p, (s.phase p).isCommitter → s.log.committing = true) ∧
      (∀ lh ∈ s.log.lh :: s.groups, lh.Nodup ∧ lh.length ≤ s.log.size - 2 + Fintype.card P) ∧
      s.log.lh.length + countWhere Phase.isWriting s.phase ≤ s.log.size - 2 + Fintype.card P := by
  have inv := (groupInv_invariant start size).holds reach
  exact ⟨inv.outstanding, inv.single, inv.committer, inv.headers, inv.racing⟩

end Invariant

section Scenarios

attribute [local instance] neZero_two neZero_three

omit [DecidableEq P] in
/-- `log_write` by `p` of each of `blocks`, its tests and its critical
section back to back. -/
def writes (p : P) (blocks : List Nat) : List (LogEvent P) :=
  blocks.flatMap fun b => [.logWrite p b, .logWriteLocked p]

/-- Process `0` runs an operation logging block `40`, which commits; then
process `1` runs one logging block `41` and ends it, so its `end_op` has set
`committing`. -/
def twoGroupsEvents : List (LogEvent (Fin 2)) :=
  [.beginOp 0] ++ writes 0 [40] ++ [.endOp 0, .commit 0, .endCommit 0, .beginOp 1] ++ writes 1 [41] ++ [.endOp 1]

def twoGroupsState : LogSys (Fin 2) :=
  match (system (Fin 2) 2 logSize).runFrom (system (Fin 2) 2 logSize).init twoGroupsEvents with
  | some (.running s) => s
  | _ => (system (Fin 2) 2 logSize).init

theorem twoGroupsState_reachable : (system (Fin 2) 2 logSize).Reachable twoGroupsState :=
  System.runFrom_reachable System.Reachable.init twoGroupsEvents (by rfl)

/-- At that state the committer sees no outstanding operation, no event can
raise `end_op`'s panic, the open group holds the block `41` of its operation but
not the block `40` committed before, and group `0` holds `40` because its own
operation logged it. -/
theorem groupCommit_excludes_open_ops_twoGroups :
    twoGroupsState.phase 1 = .committing ∧ twoGroupsState.log.outstanding = 0 ∧
      (∀ q, (twoGroupsState.phase q).isInOp = false) ∧
      (∀ event, (system (Fin 2) 2 logSize).step twoGroupsState event ≠
        some (.panicked "log[dev].committing")) ∧
      41 ∈ twoGroupsState.groupOf 1 ∧ 40 ∉ twoGroupsState.groupOf 1 ∧
      ∃ logged, (0, logged) ∈ twoGroupsState.finished ∧ 40 ∈ logged := by
  obtain ⟨committer, panic, -, -, finished, sourced⟩ :=
    groupCommit_excludes_open_ops 2 logSize twoGroupsState_reachable
  have pending : twoGroupsState.phase 1 = .committing := by rfl
  exact ⟨pending, (committer 1 pending).1, (committer 1 pending).2, panic,
    (finished 1 [41] (by decide)).2 41 (by simp), by decide, sourced 0 [40] (by rfl) 40 (by simp)⟩

/-- Three operations admitted together on an empty log log twenty-eight
distinct blocks, ten, nine and nine; then processes `1` and `2` both pass the
tests of `log_write` for a tenth block each, before either takes the lock. -/
def racingEvents : List (LogEvent (Fin 3)) :=
  [.beginOp 0, .beginOp 1, .beginOp 2] ++ writes 0 (List.range' 50 10) ++ writes 1 (List.range' 60 9) ++
    writes 2 (List.range' 70 9) ++ [.logWrite 1 69, .logWrite 2 79]

def racingState : LogSys (Fin 3) :=
  match (system (Fin 3) 2 logSize).runFrom (system (Fin 3) 2 logSize).init racingEvents with
  | some (.running s) => s
  | _ => (system (Fin 3) 2 logSize).init

theorem racingState_reachable : (system (Fin 3) 2 logSize).Reachable racingState :=
  System.runFrom_reachable System.Reachable.init racingEvents (by rfl)

/-- There two processes are between the tests of `log_write` and its lock,
with `28` blocks in the header: together they reach the bound. -/
theorem log_bookkeeping_racing :
    racingState.log.outstanding = countWhere Phase.isInOp racingState.phase ∧ racingState.log.lh.Nodup ∧
      racingState.log.lh.length + countWhere Phase.isWriting racingState.phase ≤
        racingState.log.size - 2 + Fintype.card (Fin 3) ∧
      racingState.log.lh.length = 28 ∧ countWhere Phase.isWriting racingState.phase = 2 := by
  obtain ⟨outstanding, -, -, headers, racing⟩ := log_bookkeeping 2 logSize racingState_reachable
  exact ⟨outstanding, (headers _ (List.mem_cons_self ..)).1, racing, by rfl, by decide⟩

/-- Three operations admitted together on an empty log, the first two logging
ten distinct blocks each and the third nine. -/
def overflowEvents : List (LogEvent (Fin 3)) :=
  [.beginOp 0, .beginOp 1, .beginOp 2] ++ writes 0 (List.range' 0 10) ++ writes 1 (List.range' 10 10) ++
    writes 2 (List.range' 20 9)

/-- The state those events reach on the log `mkfs` lays out (`logstart = 2`,
`nlog = LOGSIZE`). -/
def overflowState : LogSys (Fin 3) :=
  match (system (Fin 3) 2 logSize).runFrom (system (Fin 3) 2 logSize).init overflowEvents with
  | some (.running s) => s
  | _ => (system (Fin 3) 2 logSize).init

theorem overflowState_reachable : (system (Fin 3) 2 logSize).Reachable overflowState :=
  System.runFrom_reachable System.Reachable.init overflowEvents (by rfl)

theorem overflowState_phase : ∀ p : Fin 3,
    overflowState.phase p = .inOp 0 (List.range' (10 * p) (if p = 2 then 9 else 10))
  | 0 => rfl
  | 1 => rfl
  | 2 => rfl

/-- `begin_op` reserves `MAXOPBLOCKS` slots of `LOGSIZE` for each operation, but
the log `mkfs` writes has only `LOGSIZE - 1` data blocks: three admitted
operations, each logging at most `MAXOPBLOCKS` distinct blocks, reach a state
where the third operation's tenth new block makes `log_write` panic, and where
re-logging a block it already logged panics as well. -/
theorem logWrite_panics_within_budget :
    ∃ s, (system (Fin 3) 2 logSize).Reachable s ∧
      (∀ p group logged, s.phase p = .inOp group logged →
        logged.Nodup ∧ logged.length ≤ maxOpBlocks) ∧
      ∃ p group logged blockno, s.phase p = .inOp group logged ∧
        blockno ∉ s.log.lh ∧ logged.length < maxOpBlocks ∧
        (system (Fin 3) 2 logSize).step s (.logWrite p blockno) =
          some (.panicked "too big a transaction") ∧
        ∃ again ∈ logged, (system (Fin 3) 2 logSize).step s (.logWrite p again) =
          some (.panicked "too big a transaction") := by
  refine ⟨overflowState, overflowState_reachable, ?_, 2, 0, List.range' 20 9, 29, ?_⟩
  · intro p group logged inOp
    rw [overflowState_phase p, Phase.inOp.injEq] at inOp
    obtain ⟨-, rfl⟩ := inOp
    refine ⟨List.nodup_range', ?_⟩
    split <;> simp [maxOpBlocks]
  · refine ⟨overflowState_phase 2, by decide, by simp [maxOpBlocks], by rfl, 20, by simp, by rfl⟩

end Scenarios

end LogSys

end Xv6.Fs
