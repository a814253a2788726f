import Mathlib
import Xv6.Param

/-! The in-memory side of `log.c`: the admission test of `begin_op`, the header
updates of `log_write`, and the counters of `end_op` and `commit`. -/

namespace Xv6.Fs

/-- The `struct log` of one device. `start` and `size` are the superblock's
`logstart` and `nlog`; the header keeps `lh.block[0..lh.n)` as a list, so `lh.n`
is its length. -/
structure Log where
  start : Nat
  size : Nat
  outstanding : Int
  committing : Bool
  lh : List Nat
deriving DecidableEq, Repr

namespace Log

/-- `begin_op`: admits the operation, or `none` when the caller sleeps on the
log and tests again after a wakeup. -/
def beginOp (log : Log) : Option Log :=
  if log.committing then none
  else if (log.lh.length : Int) + (log.outstanding + 1) * maxOpBlocks > logSize then none
  else some { log with outstanding := log.outstanding + 1 }

/-- The slot `log_write`'s absorption loop stops at: the first one holding
`blockno`, or `lh.n`. -/
def absorbIndex (lh : List Nat) (blockno : Nat) : Nat :=
  lh.idxOf blockno

/-- The two panic tests at the top of `log_write`, made before it takes the
log lock. The C test `lh.n >= log.size - 1` is on `int`s; for a natural `lh.n`
it agrees with the truncated subtraction used here, also when `size` is `0`. -/
def logWriteTest (log : Log) : Except String Unit :=
  if log.lh.length ≥ logSize ∨ log.lh.length ≥ log.size - 1 then
    .error "too big a transaction"
  else if log.outstanding < 1 then
    .error "log_write outside of trans"
  else .ok ()

/-- The critical section of `log_write`: a block not yet in the header takes
slot `lh.n` (and its buffer is pinned). -/
def logWriteLocked (log : Log) (blockno : Nat) : Log :=
  let i := absorbIndex log.lh blockno
  if i = log.lh.length then { log with lh := log.lh ++ [blockno] }
  else { log with lh := log.lh.set i blockno }

/-- `log_write` as one process runs it alone: the tests, then the critical
section. -/
def logWrite (log : Log) (blockno : Nat) : Except String Log := do
  log.logWriteTest
  pure (log.logWriteLocked blockno)

/-- The first critical section of `end_op`; the flag is `do_commit`. -/
def endOp (log : Log) : Except String (Log × Bool) :=
  let outstanding := log.outstanding - 1
  if log.committing then .error "log[dev].committing"
  else if outstanding = 0 then .ok ({ log with outstanding, committing := true }, true)
  else .ok ({ log with outstanding }, false)

/-- The header effect of `commit`: a nonempty transaction is written, installed
and erased, leaving `lh.n = 0`. -/
def commit (log : Log) : Log :=
  if log.lh.length > 0 then { log with lh := [] } else log

/-- The critical section at the end of `end_op`, after `commit` returns. -/
def endCommit (log : Log) : Log :=
  { log with committing := false }

/-- The log after `initlog`: recovery has emptied the header. -/
def initial (start size : Nat) : Log :=
  { start, size, outstanding := 0, committing := false, lh := [] }

variable {log next : Log} {blockno : Nat}

theorem beginOp_eq_some (admitted : log.beginOp = some next) :
    log.committing = false ∧
      (log.lh.length : Int) + (log.outstanding + 1) * maxOpBlocks ≤ logSize ∧
      next = { log with outstanding := log.outstanding + 1 } := by
  unfold beginOp at admitted
  split at admitted
  · cases admitted
  · split at admitted
    · cases admitted
    · rename_i notCommitting fits
      cases admitted
      exact ⟨by simpa using notCommitting, by omega, rfl⟩

theorem absorbIndex_of_mem (member : blockno ∈ log.lh) :
    absorbIndex log.lh blockno < log.lh.length :=
  List.idxOf_lt_length_of_mem member

theorem absorbIndex_of_not_mem (fresh : blockno ∉ log.lh) :
    absorbIndex log.lh blockno = log.lh.length :=
  List.idxOf_eq_length fresh

theorem set_absorbIndex (member : blockno ∈ log.lh) :
    log.lh.set (absorbIndex log.lh blockno) blockno = log.lh := by
  apply List.ext_getElem (by simp)
  intro j _ _
  rw [List.getElem_set]
  split
  · rename_i found
    subst found
    exact (List.getElem_idxOf (absorbIndex_of_mem member)).symm
  · rfl

theorem logWriteTest_eq_ok (passed : log.logWriteTest = .ok ()) :
    log.lh.length < logSize ∧ log.lh.length < log.size - 1 ∧ 1 ≤ log.outstanding := by
  unfold logWriteTest at passed
  split at passed
  · cases passed
  · split at passed
    · cases passed
    · omega

theorem logWriteTest_eq_error {message : String} (failed : log.logWriteTest = .error message) :
    (message = "too big a transaction" ∧
        (logSize ≤ log.lh.length ∨ log.size - 1 ≤ log.lh.length)) ∨
      (message = "log_write outside of trans" ∧ log.outstanding < 1) := by
  unfold logWriteTest at failed
  split at failed
  · cases failed
    exact .inl ⟨rfl, by omega⟩
  · split at failed
    · cases failed
      exact .inr ⟨rfl, by omega⟩
    · cases failed

theorem logWriteLocked_eq (log : Log) (blockno : Nat) :
    log.logWriteLocked blockno = { log with lh := if blockno ∈ log.lh then log.lh else log.lh ++ [blockno] } := by
  unfold logWriteLocked
  by_cases member : blockno ∈ log.lh
  · have found := absorbIndex_of_mem member
    rw [if_neg (by omega)]
    simp [member, set_absorbIndex member]
  · rw [if_pos (absorbIndex_of_not_mem member)]
    simp [member]

@[simp] theorem logWriteLocked_lh :
    (log.logWriteLocked blockno).lh = if blockno ∈ log.lh then log.lh else log.lh ++ [blockno] := by
  rw [logWriteLocked_eq]

@[simp] theorem logWriteLocked_outstanding : (log.logWriteLocked blockno).outstanding = log.outstanding := by
  rw [logWriteLocked_eq]

@[simp] theorem logWriteLocked_committing : (log.logWriteLocked blockno).committing = log.committing := by
  rw [logWriteLocked_eq]

@[simp] theorem logWriteLocked_size : (log.logWriteLocked blockno).size = log.size := by
  rw [logWriteLocked_eq]

theorem mem_logWriteLocked {b : Nat} : b ∈ (log.logWriteLocked blockno).lh ↔ b ∈ log.lh ∨ b = blockno := by
  rw [logWriteLocked_lh]
  split
  · rename_i present
    exact ⟨.inl, fun found => found.elim id fun same => same ▸ present⟩
  · simp

theorem length_logWriteLocked_le : (log.logWriteLocked blockno).lh.length ≤ log.lh.length + 1 := by
  rw [logWriteLocked_lh]
  split <;> simp

theorem logWrite_eq_ok (write : log.logWrite blockno = .ok next) :
    log.lh.length < logSize ∧ log.lh.length < log.size - 1 ∧ 1 ≤ log.outstanding ∧
      next = { log with lh := if blockno ∈ log.lh then log.lh else log.lh ++ [blockno] } := by
  unfold logWrite at write
  cases passed : log.logWriteTest with
  | error message => simp [passed] at write
  | ok u =>
    rw [passed] at write
    cases write
    exact ⟨(logWriteTest_eq_ok passed).1, (logWriteTest_eq_ok passed).2.1, (logWriteTest_eq_ok passed).2.2,
      logWriteLocked_eq log blockno⟩

theorem logWrite_eq_error {message : String} (write : log.logWrite blockno = .error message) :
    (message = "too big a transaction" ∧
        (logSize ≤ log.lh.length ∨ log.size - 1 ≤ log.lh.length)) ∨
      (message = "log_write outside of trans" ∧ log.outstanding < 1) := by
  unfold logWrite at write
  cases passed : log.logWriteTest with
  | error failure =>
    rw [passed] at write
    cases write
    exact logWriteTest_eq_error passed
  | ok u => simp [passed] at write

theorem endOp_eq_ok {doCommit : Bool} (finish : log.endOp = .ok (next, doCommit)) :
    log.committing = false ∧ doCommit = decide (log.outstanding - 1 = 0) ∧
      next = { log with outstanding := log.outstanding - 1, committing := doCommit } := by
  unfold endOp at finish
  dsimp only at finish
  split at finish
  · cases finish
  · rename_i notCommitting
    simp only [Bool.not_eq_true] at notCommitting
    split at finish
    · rename_i zero
      cases finish
      exact ⟨notCommitting, by simpa using zero, rfl⟩
    · rename_i nonzero
      cases finish
      exact ⟨notCommitting, by simpa using nonzero, by simp [notCommitting]⟩

theorem endOp_eq_error {message : String} (finish : log.endOp = .error message) :
    message = "log[dev].committing" ∧ log.committing = true := by
  unfold endOp at finish
  dsimp only at finish
  split at finish
  · cases finish
    rename_i committing
    exact ⟨rfl, committing⟩
  · split at finish <;> cases finish

@[simp] theorem commit_lh : (commit log).lh = [] := by
  unfold commit
  split
  · rfl
  · rename_i empty
    simpa using empty

@[simp] theorem commit_committing : (commit log).committing = log.committing := by
  unfold commit; split <;> rfl

@[simp] theorem commit_outstanding : (commit log).outstanding = log.outstanding := by
  unfold commit; split <;> rfl

@[simp] theorem commit_size : (commit log).size = log.size := by
  unfold commit; split <;> rfl

@[simp] theorem endCommit_lh : (endCommit log).lh = log.lh := rfl

@[simp] theorem endCommit_committing : (endCommit log).committing = false := rfl

@[simp] theorem endCommit_outstanding : (endCommit log).outstanding = log.outstanding := rfl

@[simp] theorem endCommit_size : (endCommit log).size = log.size := rfl

end Log

end Xv6.Fs
