import Xv6.Fs.GroupCommit
import Xv6.Lib.Crash
import Xv6.Mkfs.Mkfs

/-! The disk side of `log.c`: the block writes of `write_log`, `write_head`,
`install_trans` and `recover_from_log`, on a disk whose single-block writes are
atomic and complete before `virtio_disk_rw` returns. Every `bwrite` of the
kernel is in these functions; the FS code itself only calls `log_write`. -/

namespace Xv6.Fs

open Xv6.Lib

/-- The disk as the log code sees it: the `struct logheader` in block
`log.start` (its `n` is the length of the list), and every other block. -/
structure Disk (α : Type) where
  head : List Nat
  data : Nat → α

/-- One atomic disk write issued by the log. -/
inductive DiskWrite (α : Type) where
  /-- `bwrite` of a buffer holding `v` to block `b`. -/
  | block (b : Nat) (v : α)
  /-- `install_trans`: the destination buffer, overwritten with the log block
  `src` as read back, is written to `dst`. Log blocks are written through the
  cache, so the read returns the disk's contents. -/
  | install (src dst : Nat)
  /-- `write_head`. -/
  | head (blocks : List Nat)

namespace Disk

variable {α : Type}

/-- The disk after one write completes. -/
def write (d : Disk α) : DiskWrite α → Disk α
  | .block b v => { d with data := Function.update d.data b v }
  | .install src dst => { d with data := Function.update d.data dst (d.data src) }
  | .head blocks => { d with head := blocks }

@[simp] theorem write_block (d : Disk α) (b : Nat) (v : α) :
    d.write (.block b v) = { d with data := Function.update d.data b v } := rfl

@[simp] theorem write_install (d : Disk α) (src dst : Nat) :
    d.write (.install src dst) = { d with data := Function.update d.data dst (d.data src) } := rfl

@[simp] theorem write_head (d : Disk α) (blocks : List Nat) : d.write (.head blocks) = { d with head := blocks } :=
  rfl

end Disk

/-- A home location: a block outside the log's `size` blocks from `start`. -/
def Log.outside (log : Log) (b : Nat) : Prop :=
  b < log.start ∨ log.start + log.size ≤ b

/-- A transaction as `commit` finds it: the header `lh` built by `log_write`,
and the contents of each logged block in its pinned buffer. -/
structure Group (α : Type) where
  lh : List Nat
  cached : Nat → α

namespace Group

variable {α : Type}

/-- The home blocks once the group is installed. -/
def apply (g : Group α) (home : Nat → α) : Nat → α :=
  fun b => if b ∈ g.lh then g.cached b else home b

end Group

/-- What `log_write` and the disk layout guarantee of a committed header: no
block twice (absorption), only home locations, and no more than the
`log.size - 1` data blocks of the log (the first panic test of `log_write`). -/
structure Group.Valid {α : Type} (log : Log) (g : Group α) : Prop where
  nodup : g.lh.Nodup
  homes : ∀ b ∈ g.lh, log.outside b
  fits : g.lh.length ≤ log.size - 1

/-- The home blocks after the groups, in order. -/
def applyGroups {α : Type} (gs : List (Group α)) (home : Nat → α) : Nat → α :=
  gs.foldl (fun home g => g.apply home) home

namespace Log

variable {α : Type}

/-- The iterations `tail, tail + 1, ...` of `write_log`'s loop: the cached copy
of each logged block goes to log block `start + tail + 1`. -/
def writeLogLoop (start : Nat) (cached : Nat → α) : Nat → List Nat → List (DiskWrite α)
  | _, [] => []
  | tail, b :: rest => .block (start + tail + 1) (cached b) :: writeLogLoop start cached (tail + 1) rest

@[simp] theorem writeLogLoop_nil (start tail : Nat) (cached : Nat → α) : writeLogLoop start cached tail [] = [] :=
  rfl

@[simp] theorem writeLogLoop_cons (start tail b : Nat) (cached : Nat → α) (rest : List Nat) :
    writeLogLoop start cached tail (b :: rest) =
      .block (start + tail + 1) (cached b) :: writeLogLoop start cached (tail + 1) rest :=
  rfl

/-- `write_log`. -/
def writeLog (log : Log) (cached : Nat → α) : List (DiskWrite α) :=
  writeLogLoop log.start cached 0 log.lh

/-- `write_head`: the in-memory header goes to block `start`. -/
def writeHead (log : Log) : DiskWrite α :=
  .head log.lh

/-- The iterations `tail, tail + 1, ...` of `install_trans`'s loop. -/
def installLoop (start : Nat) : Nat → List Nat → List (DiskWrite α)
  | _, [] => []
  | tail, b :: rest => .install (start + tail + 1) b :: installLoop start (tail + 1) rest

@[simp] theorem installLoop_nil (start tail : Nat) : installLoop (α := α) start tail [] = [] :=
  rfl

@[simp] theorem installLoop_cons (start tail b : Nat) (rest : List Nat) :
    installLoop (α := α) start tail (b :: rest) = .install (start + tail + 1) b :: installLoop start (tail + 1) rest :=
  rfl

/-- `install_trans`. -/
def installTrans (log : Log) : List (DiskWrite α) :=
  installLoop log.start 0 log.lh

/-- The disk writes of `commit`: nothing for an empty transaction; otherwise
`write_log`, the committing `write_head`, `install_trans`, and the
`write_head` that erases the transaction. -/
def commitWrites (log : Log) (cached : Nat → α) : List (DiskWrite α) :=
  if log.lh.length > 0 then
    writeLog log cached ++ [writeHead log] ++ installTrans log ++ [writeHead { log with lh := [] }]
  else []

/-- `read_head`. -/
def readHead (log : Log) (d : Disk α) : Log :=
  { log with lh := d.head }

/-- The disk writes of `recover_from_log` on disk `d`. -/
def recoverWrites (log : Log) (d : Disk α) : List (DiskWrite α) :=
  let log := readHead log d
  installTrans log ++ [writeHead { log with lh := [] }]

/-- `recover_from_log`. -/
def recoverFromLog (log : Log) (d : Disk α) : Disk α :=
  (recoverWrites log d).foldl Disk.write d

/-- Boots that each crash after some writes of `recover_from_log`, then one
boot whose recovery completes. -/
def recoverAfterCrashes (log : Log) (d : Disk α) : List Nat → Disk α
  | [] => recoverFromLog log d
  | k :: ks => recoverAfterCrashes log (crashAfter Disk.write d (recoverWrites log d) k) ks

/-- The disk writes of a run of commits, one group after another. -/
def groupsWrites (log : Log) (gs : List (Group α)) : List (DiskWrite α) :=
  gs.flatMap fun g => commitWrites { log with lh := g.lh } g.cached

/-- How many groups have their committing `write_head` among the first `k`
writes of the run. -/
def committedBefore (log : Log) : List (Group α) → Nat → Nat
  | [], _ => 0
  | g :: gs, k =>
    let ws := commitWrites { log with lh := g.lh } g.cached
    if ws.length ≤ k then committedBefore log gs (k - ws.length) + 1
    else if g.lh.length < k then 1 else 0

section Loops

variable {start tail : Nat} {cached : Nat → α} {d : Disk α}

@[simp] theorem writeLogLoop_length (blocks : List Nat) :
    (writeLogLoop start cached tail blocks).length = blocks.length := by
  induction blocks generalizing tail with
  | nil => rfl
  | cons b rest ih => simp [ih]

theorem writeLogLoop_take (blocks : List Nat) (j : Nat) :
    (writeLogLoop start cached tail blocks).take j = writeLogLoop start cached tail (blocks.take j) := by
  induction blocks generalizing tail j with
  | nil => simp
  | cons b rest ih =>
    cases j with
    | zero => simp
    | succ j => simp [ih]

@[simp] theorem writeLogLoop_head (blocks : List Nat) :
    ((writeLogLoop start cached tail blocks).foldl Disk.write d).head = d.head := by
  induction blocks generalizing tail d with
  | nil => rfl
  | cons b rest ih => simp [ih]

theorem writeLogLoop_data_other (blocks : List Nat) {x : Nat}
    (notSlot : ∀ i < blocks.length, x ≠ start + tail + i + 1) :
    ((writeLogLoop start cached tail blocks).foldl Disk.write d).data x = d.data x := by
  induction blocks generalizing tail d with
  | nil => rfl
  | cons b rest ih =>
    simp only [writeLogLoop_cons, List.foldl_cons]
    have later : ∀ i < rest.length, x ≠ start + (tail + 1) + i + 1 := by
      intro i bound
      have := notSlot (i + 1) (by simp; omega)
      omega
    have first : x ≠ start + tail + 1 := by simpa using notSlot 0 (by simp)
    rw [ih later]
    simp [Function.update_of_ne first]

theorem writeLogLoop_data_slot (blocks : List Nat) {i : Nat} (bound : i < blocks.length) :
    ((writeLogLoop start cached tail blocks).foldl Disk.write d).data (start + tail + i + 1) =
      cached blocks[i] := by
  induction blocks generalizing tail d i with
  | nil => simp at bound
  | cons b rest ih =>
    simp only [writeLogLoop_cons, List.foldl_cons]
    cases i with
    | zero =>
      rw [writeLogLoop_data_other rest (by intro i _; omega)]
      simp
    | succ i =>
      have inRest : i < rest.length := by simpa using bound
      have slot : ((writeLogLoop start cached (tail + 1) rest).foldl Disk.write
          (d.write (.block (start + tail + 1) (cached b)))).data (start + (tail + 1) + i + 1) =
          cached rest[i] := ih inRest
      rw [show start + tail + (i + 1) + 1 = start + (tail + 1) + i + 1 by omega, slot]
      simp

@[simp] theorem installLoop_length (blocks : List Nat) :
    (installLoop (α := α) start tail blocks).length = blocks.length := by
  induction blocks generalizing tail with
  | nil => rfl
  | cons b rest ih => simp [ih]

theorem installLoop_take (blocks : List Nat) (j : Nat) :
    (installLoop (α := α) start tail blocks).take j = installLoop start tail (blocks.take j) := by
  induction blocks generalizing tail j with
  | nil => simp
  | cons b rest ih =>
    cases j with
    | zero => simp
    | succ j => simp [ih]

@[simp] theorem installLoop_head (blocks : List Nat) :
    ((installLoop start tail blocks).foldl Disk.write d).head = d.head := by
  induction blocks generalizing tail d with
  | nil => rfl
  | cons b rest ih => simp [ih]

theorem installLoop_data_other (blocks : List Nat) {x : Nat} (notLogged : x ∉ blocks) :
    ((installLoop start tail blocks).foldl Disk.write d).data x = d.data x := by
  induction blocks generalizing tail d with
  | nil => rfl
  | cons b rest ih =>
    simp only [installLoop_cons, List.foldl_cons]
    have first : x ≠ b := fun same => notLogged (by simp [same])
    rw [ih (fun member => notLogged (List.mem_cons_of_mem b member))]
    simp [Function.update_of_ne first]

theorem installLoop_data_home (blocks : List Nat) (nodup : blocks.Nodup)
    (slotsApart : ∀ i < blocks.length, start + tail + i + 1 ∉ blocks)
    {i : Nat} (bound : i < blocks.length) :
    ((installLoop start tail blocks).foldl Disk.write d).data blocks[i] =
      d.data (start + tail + i + 1) := by
  induction blocks generalizing tail d i with
  | nil => simp at bound
  | cons b rest ih =>
    simp only [installLoop_cons, List.foldl_cons]
    have restNodup := (List.nodup_cons.mp nodup).2
    cases i with
    | zero =>
      rw [List.getElem_cons_zero, installLoop_data_other rest (List.nodup_cons.mp nodup).1]
      simp
    | succ i =>
      have inRest : i < rest.length := by simpa using bound
      have restApart : ∀ j < rest.length, start + (tail + 1) + j + 1 ∉ rest := by
        intro j jBound member
        have := slotsApart (j + 1) (by simp; omega)
        rw [show start + tail + (j + 1) + 1 = start + (tail + 1) + j + 1 by omega] at this
        exact this (List.mem_cons_of_mem b member)
      have notFirst : start + tail + (i + 1) + 1 ≠ b := by
        intro same
        exact slotsApart (i + 1) bound (by simp [same])
      rw [List.getElem_cons_succ, ih restNodup restApart inRest,
        show start + (tail + 1) + i + 1 = start + tail + (i + 1) + 1 by omega]
      simp [Function.update_of_ne notFirst]

end Loops

theorem not_outside_slot (log : Log) (i : Nat) (bound : i < log.size - 1) :
    ¬ log.outside (log.start + i + 1) := by
  unfold outside
  omega

/-- A disk whose recovery leaves `target` on every home location: a well-formed
header whose log slots hold the new contents of its blocks, and every other home
location already at `target`. -/
structure Recoverable (log : Log) (d : Disk α) (target : Nat → α) : Prop where
  nodup : d.head.Nodup
  homes : ∀ b ∈ d.head, log.outside b
  fits : d.head.length ≤ log.size - 1
  slots : ∀ i (bound : i < d.head.length), d.data (log.start + i + 1) = target d.head[i]
  others : ∀ b, log.outside b → b ∉ d.head → d.data b = target b

variable {log : Log} {d : Disk α} {target : Nat → α}

theorem recoverable_clean (clean : d.head = []) (home : ∀ b, log.outside b → d.data b = target b) :
    Recoverable log d target where
  nodup := by simp [clean]
  homes := by simp [clean]
  fits := by simp [clean]
  slots := by simp [clean]
  others := fun b outside _ => home b outside

theorem Recoverable.slotsApart (r : Recoverable log d target) :
    ∀ i < d.head.length, log.start + 0 + i + 1 ∉ d.head := by
  intro i bound member
  have inside := not_outside_slot log i (by have := r.fits; omega)
  exact inside (by simpa using r.homes _ member)

theorem Recoverable.installs (r : Recoverable log d target) (j : Nat) :
    Recoverable log ((installLoop log.start 0 (d.head.take j)).foldl Disk.write d) target ∧
      ∀ b ∈ d.head.take j,
        ((installLoop log.start 0 (d.head.take j)).foldl Disk.write d).data b = target b := by
  have apart : ∀ i < (d.head.take j).length, log.start + 0 + i + 1 ∉ d.head.take j := by
    intro i bound member
    exact r.slotsApart i (by simp at bound; omega) (List.mem_of_mem_take member)
  have nodup : (d.head.take j).Nodup := r.nodup.sublist (List.take_sublist j d.head)
  refine ⟨⟨by simpa using r.nodup, by simpa using r.homes, by simpa using r.fits, ?_, ?_⟩, ?_⟩
  · intro i bound
    simp only [installLoop_head] at bound ⊢
    rw [installLoop_data_other _ (fun member => r.slotsApart i bound
      (by simpa using List.mem_of_mem_take member))]
    exact r.slots i bound
  · intro b outside notLogged
    simp only [installLoop_head] at notLogged
    rw [installLoop_data_other _ (fun member => notLogged (List.mem_of_mem_take member))]
    exact r.others b outside notLogged
  · intro b member
    obtain ⟨i, bound, rfl⟩ := List.getElem_of_mem member
    rw [installLoop_data_home _ nodup apart bound, List.getElem_take]
    simpa using r.slots i (by simp at bound; omega)

theorem Recoverable.clear (r : Recoverable log d target)
    (installed : ∀ b ∈ d.head, d.data b = target b) :
    Recoverable log (d.write (writeHead { log with lh := [] })) target := by
  apply recoverable_clean rfl
  intro b outside
  by_cases logged : b ∈ d.head
  · exact installed b logged
  · exact r.others b outside logged

theorem recoverWrites_eq (d : Disk α) :
    recoverWrites log d = installLoop log.start 0 d.head ++ [.head []] := rfl

theorem Recoverable.installAll (r : Recoverable log d target) :
    let done := ((installLoop log.start 0 d.head).foldl Disk.write d).write (.head [])
    done.head = [] ∧ Recoverable log done target := by
  have installed := r.installs d.head.length
  rw [List.take_length] at installed
  exact ⟨rfl, installed.1.clear (by simpa using installed.2)⟩

theorem Recoverable.crashAfter_recover (r : Recoverable log d target) (j : Nat) :
    Recoverable log (crashAfter Disk.write d (recoverWrites log d) j) target := by
  rw [recoverWrites_eq]
  by_cases inLoop : j ≤ d.head.length
  · rw [crashAfter_append_of_le (by simpa using inLoop)]
    unfold crashAfter
    rw [installLoop_take]
    exact (r.installs j).1
  · rw [crashAfter_append_of_ge (by simp; omega), crashAfter_of_ge (by simp; omega)]
    exact r.installAll.2

theorem Recoverable.recoverFromLog (r : Recoverable log d target) :
    (recoverFromLog log d).head = [] ∧
      ∀ b, log.outside b → (recoverFromLog log d).data b = target b := by
  obtain ⟨clean, cleared⟩ := r.installAll
  unfold Log.recoverFromLog
  rw [recoverWrites_eq, List.foldl_append, List.foldl_cons, List.foldl_nil]
  exact ⟨clean, fun b outside => cleared.others b outside (by simp)⟩

theorem Recoverable.recoverAfterCrashes (r : Recoverable log d target) (crashes : List Nat) :
    (recoverAfterCrashes log d crashes).head = [] ∧
      ∀ b, log.outside b → (recoverAfterCrashes log d crashes).data b = target b := by
  induction crashes generalizing d with
  | nil => exact r.recoverFromLog
  | cons k rest ih => exact ih (r.crashAfter_recover k)

variable {g : Group α}

theorem commitWrites_eq (nonempty : 0 < g.lh.length) :
    commitWrites { log with lh := g.lh } g.cached =
      writeLogLoop log.start g.cached 0 g.lh ++ .head g.lh :: (installLoop log.start 0 g.lh ++ [.head []]) := by
  simp [commitWrites, nonempty, writeLog, writeHead, installTrans]

theorem commitWrites_length (nonempty : 0 < g.lh.length) :
    (commitWrites { log with lh := g.lh } g.cached).length = 2 * g.lh.length + 2 := by
  rw [commitWrites_eq nonempty]
  simp
  omega

theorem Recoverable.committed (r : Recoverable log d target) (clean : d.head = [])
    (valid : g.Valid log) :
    Recoverable log (((writeLogLoop log.start g.cached 0 g.lh).foldl Disk.write d).write (.head g.lh))
      (g.apply target) where
  nodup := valid.nodup
  homes := valid.homes
  fits := valid.fits
  slots := by
    intro i bound
    have inHeader : i < g.lh.length := bound
    have slot : ((writeLogLoop log.start g.cached 0 g.lh).foldl Disk.write d).data
        (log.start + 0 + i + 1) = g.cached g.lh[i] := writeLogLoop_data_slot g.lh inHeader
    show ((writeLogLoop log.start g.cached 0 g.lh).foldl Disk.write d).data (log.start + 0 + i + 1) =
      g.apply target g.lh[i]
    rw [slot]
    simp [Group.apply]
  others := by
    intro b outside notLogged
    have notHeader : b ∉ g.lh := notLogged
    have notSlot : ∀ i < g.lh.length, b ≠ log.start + 0 + i + 1 := by
      intro i bound same
      exact not_outside_slot log i (by have := valid.fits; omega) (by simpa [same] using outside)
    show ((writeLogLoop log.start g.cached 0 g.lh).foldl Disk.write d).data b = g.apply target b
    rw [writeLogLoop_data_other g.lh notSlot, r.others b outside (by simp [clean])]
    simp [Group.apply, notHeader]

theorem Recoverable.crashAfter_commit (r : Recoverable log d target) (clean : d.head = [])
    (valid : g.Valid log) (k : Nat) :
    Recoverable log (crashAfter Disk.write d (commitWrites { log with lh := g.lh } g.cached) k)
      (if g.lh.length < k then g.apply target else target) := by
  by_cases nonempty : 0 < g.lh.length
  · rw [commitWrites_eq nonempty]
    by_cases logging : k ≤ g.lh.length
    · rw [crashAfter_append_of_le (by simpa using logging), if_neg (by omega)]
      unfold crashAfter
      rw [writeLogLoop_take]
      apply recoverable_clean (by simp [clean])
      intro b outside
      rw [writeLogLoop_data_other _ (fun i bound same => not_outside_slot log i
        (by simp at bound; have := valid.fits; omega) (by simpa [same] using outside))]
      exact r.others b outside (by simp [clean])
    · obtain ⟨j, rfl⟩ : ∃ j, k = g.lh.length + (j + 1) := ⟨k - g.lh.length - 1, by omega⟩
      rw [crashAfter_append_of_ge (by simp), if_pos (by omega), writeLogLoop_length,
        show g.lh.length + (j + 1) - g.lh.length = j + 1 by omega, crashAfter_cons_succ]
      exact (r.committed clean valid).crashAfter_recover j
  · have empty : g.lh = [] := List.eq_nil_of_length_eq_zero (by omega)
    have same : g.apply target = target := by
      funext b
      simp [Group.apply, empty]
    simpa [commitWrites, empty, same] using r

theorem Recoverable.commit (r : Recoverable log d target) (clean : d.head = [])
    (valid : g.Valid log) :
    let done := (commitWrites { log with lh := g.lh } g.cached).foldl Disk.write d
    done.head = [] ∧ Recoverable log done (g.apply target) := by
  by_cases nonempty : 0 < g.lh.length
  · have whole := r.crashAfter_commit clean valid (2 * g.lh.length + 2)
    rw [crashAfter_of_ge (Nat.le_of_eq (commitWrites_length nonempty)), if_pos (by omega)] at whole
    refine ⟨?_, whole⟩
    rw [commitWrites_eq nonempty, List.foldl_append]
    simp
  · have empty : g.lh = [] := List.eq_nil_of_length_eq_zero (by omega)
    have same : g.apply target = target := by
      funext b
      simp [Group.apply, empty]
    simp [commitWrites, empty, same, r, clean]

theorem Recoverable.crashAfter_groups (gs : List (Group α)) (valid : ∀ g ∈ gs, g.Valid log)
    (r : Recoverable log d target) (clean : d.head = []) (k : Nat) :
    Recoverable log (crashAfter Disk.write d (groupsWrites log gs) k)
      (applyGroups (gs.take (committedBefore log gs k)) target) := by
  induction gs generalizing d target k with
  | nil => simpa [groupsWrites, committedBefore, applyGroups] using r
  | cons g rest ih =>
    have validRest : ∀ g ∈ rest, g.Valid log := fun g member => valid g (List.mem_cons_of_mem _ member)
    have groupValid := valid g (List.mem_cons_self ..)
    rw [show groupsWrites log (g :: rest) =
        commitWrites { log with lh := g.lh } g.cached ++ groupsWrites log rest by
      simp [groupsWrites]]
    simp only [committedBefore]
    split
    · rename_i completed
      rw [crashAfter_append_of_ge completed]
      obtain ⟨cleared, installed⟩ := r.commit clean groupValid
      simpa [applyGroups] using ih validRest installed cleared (k - _)
    · rename_i inside
      rw [crashAfter_append_of_le (by omega)]
      have crashed := r.crashAfter_commit clean groupValid k
      split
      · rename_i committing
        simpa [applyGroups, committing] using crashed
      · rename_i notCommitting
        simpa [applyGroups, notCommitting] using crashed

theorem commitWrites_overrun (full : g.lh.length = log.size) (positive : 0 < log.size)
    (notLogged : log.start + log.size ∉ g.lh) :
    ((commitWrites { log with lh := g.lh } g.cached).foldl Disk.write d).data (log.start + log.size) =
      g.cached (g.lh.getLastD 0) := by
  rw [commitWrites_eq (by omega), List.foldl_append, List.foldl_cons, List.foldl_append, List.foldl_cons,
    List.foldl_nil]
  simp only [Disk.write_head]
  rw [installLoop_data_other g.lh notLogged]
  have slot : ((writeLogLoop log.start g.cached 0 g.lh).foldl Disk.write d).data
      (log.start + 0 + (log.size - 1) + 1) = g.cached g.lh[log.size - 1] :=
    writeLogLoop_data_slot g.lh (by omega)
  rw [show log.start + 0 + (log.size - 1) + 1 = log.start + log.size by omega] at slot
  rw [slot, List.getLastD_eq_getLast?, List.getLast?_eq_getElem?]
  simp only [full, List.getElem?_eq_getElem (show log.size - 1 < g.lh.length by omega), Option.getD_some]

theorem commitWrites_head : ((commitWrites { log with lh := g.lh } g.cached).foldl Disk.write d).head =
    if 0 < g.lh.length then [] else d.head := by
  by_cases nonempty : 0 < g.lh.length
  · rw [commitWrites_eq nonempty, List.foldl_append]
    simp [nonempty]
  · simp [commitWrites, nonempty]

theorem recoverFromLog_data_of_clean (clean : d.head = []) : (recoverFromLog log d).data = d.data := by
  simp [recoverFromLog, recoverWrites, readHead, installTrans, writeHead, clean]

end Log

theorem recoverFromLog_crash_atomic {α : Type} (log : Log) (d : Disk α) (gs : List (Group α))
    (k : Nat) (crashes : List Nat) (clean : d.head = []) (valid : ∀ g ∈ gs, g.Valid log) :
    (log.recoverAfterCrashes (crashAfter Disk.write d (log.groupsWrites gs) k) crashes).head = [] ∧
      ∀ b, log.outside b →
        (log.recoverAfterCrashes (crashAfter Disk.write d (log.groupsWrites gs) k) crashes).data b =
          applyGroups (gs.take (log.committedBefore gs k)) d.data b := by
  have start : log.Recoverable d d.data := Log.recoverable_clean clean (fun _ _ => rfl)
  exact (start.crashAfter_groups gs valid clean k).recoverAfterCrashes crashes

namespace LogSys

variable {P : Type} [DecidableEq P] [Fintype P] {start size : Nat} {s : LogSys P} {α : Type}

/-- The groups of a run, each with the contents its pinned buffers hold at
its `commit`. -/
def committedGroups (s : LogSys P) (cached : Nat → Nat → α) : List (Group α) :=
  s.groups.mapIdx fun g lh => ⟨lh, cached g⟩

/-- Crash atomicity of the log for the groups a run of the protocol commits,
when each header names home blocks and fits the log's `size - 1` data blocks:
the protocol keeps every header free of repeats, and the disk side does the
rest. A crash after any number `k` of the block writes of those commits, then
any number of boots crashing inside recovery and one that completes, leaves
an empty header and every home location as the groups whose committing
`write_head` completed made it, in order. -/
theorem crash_atomic_of_fits (reach : (system P start size).Reachable s)
    (homes : ∀ lh ∈ s.groups, ∀ b ∈ lh, s.log.outside b) (fits : ∀ lh ∈ s.groups, lh.length ≤ s.log.size - 1)
    (cached : Nat → Nat → α) (d : Disk α) (clean : d.head = []) (k : Nat) (crashes : List Nat) :
    (s.log.recoverAfterCrashes (crashAfter Disk.write d (s.log.groupsWrites (s.committedGroups cached)) k)
        crashes).head = [] ∧
      ∀ b, s.log.outside b →
        (s.log.recoverAfterCrashes (crashAfter Disk.write d (s.log.groupsWrites (s.committedGroups cached)) k)
            crashes).data b =
          applyGroups ((s.committedGroups cached).take (s.log.committedBefore (s.committedGroups cached) k))
            d.data b := by
  have inv := (groupInv_invariant start size).holds reach
  have valid : ∀ g ∈ s.committedGroups cached, g.Valid s.log := by
    intro g member
    obtain ⟨i, bound, rfl⟩ := List.mem_mapIdx.mp member
    have committed : s.groups[i] ∈ s.groups := List.getElem_mem bound
    exact ⟨(inv.headers _ (List.mem_cons_of_mem _ committed)).1, homes _ committed, fits _ committed⟩
  exact recoverFromLog_crash_atomic s.log d (s.committedGroups cached) k crashes clean valid

attribute [local instance] neZero_two neZero_three

/-- Two groups committed on the log of `mkfs`, the second with its commit not
yet run: a crash after the first group's `write_log` and committing
`write_head`, and one crashed recovery, leave its block installed. -/
theorem crash_atomic_of_fits_twoGroups :
    (twoGroupsState.log.recoverAfterCrashes
        (crashAfter Disk.write ⟨[], fun _ => 0⟩ (twoGroupsState.log.groupsWrites
          (twoGroupsState.committedGroups fun g b => g + b)) 2) [1]).head = [] ∧
      (twoGroupsState.log.recoverAfterCrashes
        (crashAfter Disk.write ⟨[], fun _ => 0⟩ (twoGroupsState.log.groupsWrites
          (twoGroupsState.committedGroups fun g b => g + b)) 2) [1]).data 40 = 40 := by
  have homes : ∀ lh ∈ twoGroupsState.groups, ∀ b ∈ lh, twoGroupsState.log.outside b := by
    unfold Log.outside
    decide
  have fits : ∀ lh ∈ twoGroupsState.groups, lh.length ≤ twoGroupsState.log.size - 1 := by decide
  obtain ⟨clean, home⟩ := crash_atomic_of_fits twoGroupsState_reachable homes fits (fun g b => g + b)
    ⟨[], fun _ => 0⟩ rfl 2 [1]
  refine ⟨clean, ?_⟩
  rw [home 40 (by unfold Log.outside; decide)]
  rfl

/-- Both racing processes of `racingState` add their block, the three
operations end, and the last one commits. -/
def raceEvents : List (LogEvent (Fin 3)) :=
  [.logWriteLocked 1, .logWriteLocked 2, .endOp 0, .endOp 1, .endOp 2, .commit 2]

def raceState : LogSys (Fin 3) :=
  match (system (Fin 3) 2 logSize).runFrom racingState raceEvents with
  | some (.running s) => s
  | _ => racingState

theorem raceState_reachable : (system (Fin 3) 2 logSize).Reachable raceState :=
  System.runFrom_reachable racingState_reachable raceEvents (by rfl)

end LogSys

/-- `log_write` tests `lh.n` before it takes the log lock, so two operations
can pass the size test together and each add a block. On the log `mkfs` lays
out (`logstart = 2`, `nlog = 30`), three operations admitted together, each
logging at most `MAXOPBLOCKS` distinct home blocks, reach a committed header
of `30` blocks, one more than the log's data blocks. `write_log`'s last pass
then writes block `logstart + 30`, the first inode block, with the cached copy
of the last logged block. After the whole commit and a recovery, that block
holds the copy, where crash atomicity wants its old contents: it is in no
group. -/
theorem logWrite_race_overruns_log :
    ∃ s : LogSys (Fin 3), (LogSys.system (Fin 3) 2 logSize).Reachable s ∧
      (∀ op ∈ s.finished, op.2.Nodup ∧ op.2.length ≤ maxOpBlocks) ∧
      ∃ lh, s.groups = [lh] ∧ lh.Nodup ∧ lh.length = s.log.size ∧ (∀ b ∈ lh, s.log.outside b) ∧
        s.log.start + s.log.size = Mkfs.sb.inodestart ∧ s.log.outside Mkfs.sb.inodestart ∧
        Mkfs.sb.inodestart ∉ lh ∧
        ∀ {α : Type} (d : Disk α) (cached : Nat → α), d.head = [] →
          s.log.committedBefore [⟨lh, cached⟩] (s.log.groupsWrites [⟨lh, cached⟩]).length = 1 ∧
          (s.log.recoverAfterCrashes (crashAfter Disk.write d (s.log.groupsWrites [⟨lh, cached⟩])
              (s.log.groupsWrites [⟨lh, cached⟩]).length) []).data Mkfs.sb.inodestart = cached 79 ∧
          applyGroups [⟨lh, cached⟩] d.data Mkfs.sb.inodestart = d.data Mkfs.sb.inodestart := by
  refine ⟨LogSys.raceState, LogSys.raceState_reachable, by decide,
    List.range' 50 10 ++ List.range' 60 9 ++ List.range' 70 9 ++ [69, 79], by rfl, by decide, by rfl,
    by unfold Log.outside; decide, by rfl, by unfold Log.outside; decide, by decide, ?_⟩
  intro α d cached clean
  set lh := List.range' 50 10 ++ List.range' 60 9 ++ List.range' 70 9 ++ [69, 79]
  have start : LogSys.raceState.log.start = 2 := by rfl
  have size : LogSys.raceState.log.size = 30 := by rfl
  have full : lh.length = LogSys.raceState.log.size := by rw [size]; rfl
  have past : LogSys.raceState.log.start + LogSys.raceState.log.size ∉ lh := by rw [start, size]; decide
  have single : LogSys.raceState.log.groupsWrites [⟨lh, cached⟩] =
      Log.commitWrites { LogSys.raceState.log with lh := lh } cached := by
    simp [Log.groupsWrites]
  refine ⟨?_, ?_, ?_⟩
  · simp [Log.committedBefore, single]
  · -- recovery that follows finds the header cleared
    rw [crashAfter_of_ge (le_refl _), Log.recoverAfterCrashes, single]
    have overrun := Log.commitWrites_overrun (d := d) (g := ⟨lh, cached⟩) full (by rw [size]; decide) past
    have cleared : ((Log.commitWrites { LogSys.raceState.log with lh := lh } cached).foldl Disk.write d).head =
        if 0 < lh.length then [] else d.head := Log.commitWrites_head (g := ⟨lh, cached⟩)
    rw [if_pos (by rw [full, size]; decide)] at cleared
    rw [Log.recoverFromLog_data_of_clean cleared]
    rw [start, size] at overrun
    exact overrun
  · have notLogged : Mkfs.sb.inodestart ∉ lh := by decide
    simp [applyGroups, Group.apply, notLogged]

end Xv6.Fs
