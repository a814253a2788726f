import Mathlib
import Xv6.Files.Files
import Xv6.Lib.Procs

/-! What the files model counts: the descriptor slots that point to a file, the
open files and the `cwd`s that hold an inode cache entry, and the files on the
ends of a pipe. `Refs s hf hi` says that every reference count is the number
of things that point to the entry, plus the references `hf` and `hi` that a
call under way holds in its local variables; `Pipes s` says that the pipe
table is what the files make of it: a pipe is allocated while a file is on one
of its ends, and an end is open while its one file is. Each operation of
`file.c`, `fs.c` and `pipe.c` keeps both, moving references between the
entries and the call's hands. -/

namespace Xv6.Fs.FsState

variable {s s' : FsState} {i j : Fin ninode} {ip : Inode} {dev inum : Nat}

@[simp] theorem setInode_icache_self : (s.setInode i ip).icache i = ip := Function.update_self ..

theorem setInode_icache_of_ne (other : j ≠ i) : (s.setInode i ip).icache j = s.icache j :=
  Function.update_of_ne other ..

theorem iget_ok (got : s.iget dev inum = .ok (i, s')) :
    (0 < (s.icache i).ref ∧ (s.icache i).dev = dev ∧ (s.icache i).inum = inum ∧
      s' = s.setInode i { s.icache i with ref := (s.icache i).ref + 1 }) ∨
    ((s.icache i).ref = 0 ∧ (∀ j, 0 < (s.icache j).ref → (s.icache j).dev = dev → (s.icache j).inum ≠ inum) ∧
      s' = s.setInode i { s.icache i with dev, inum, ref := 1, valid := false }) := by
  unfold iget at got
  split at got
  · rename_i k found
    simp only [Except.ok.injEq, Prod.mk.injEq] at got
    obtain ⟨rfl, rfl⟩ := got
    have holds := List.find?_some found
    simp only [Bool.and_eq_true, decide_eq_true_eq, beq_iff_eq] at holds
    exact .inl ⟨holds.1.1, holds.1.2, holds.2, rfl⟩
  · rename_i noHolder
    split at got
    · rename_i k found
      simp only [Except.ok.injEq, Prod.mk.injEq] at got
      obtain ⟨rfl, rfl⟩ := got
      have free := List.find?_some found
      simp only [beq_iff_eq] at free
      refine .inr ⟨free, fun j held sameDev sameInum => ?_, rfl⟩
      have missed := List.find?_eq_none.mp noHolder j (List.mem_finRange j)
      simp [held, sameDev, sameInum] at missed
    · cases got

theorem iget_error {message : String} (got : s.iget dev inum = .error message) :
    message = "iget: no inodes" := by
  unfold iget at got
  split at got
  · cases got
  · split at got
    · cases got
    · injection got with same
      exact same.symm

theorem iget_ref (got : s.iget dev inum = .ok (i, s')) :
    (s'.icache i).ref = (s.icache i).ref + 1 ∧ ∀ j, j ≠ i → (s'.icache j).ref = (s.icache j).ref := by
  rcases iget_ok got with ⟨-, -, -, rfl⟩ | ⟨free, -, rfl⟩
  · exact ⟨by simp, fun j other => by rw [setInode_icache_of_ne other]⟩
  · exact ⟨by simp [free], fun j other => by rw [setInode_icache_of_ne other]⟩

theorem iput_icache_self : ((s.iput i).icache i).ref = (s.icache i).ref - 1 ∧
    ((s.iput i).icache i).dev = (s.icache i).dev ∧ ((s.iput i).icache i).inum = (s.icache i).inum := by
  dsimp only [iput]
  split <;> simp

theorem iput_icache_of_ne (other : j ≠ i) : (s.iput i).icache j = s.icache j := by
  dsimp only [iput]
  exact setInode_icache_of_ne other

@[simp] theorem idup_icache_self : (s.idup i).icache i = { s.icache i with ref := (s.icache i).ref + 1 } :=
  setInode_icache_self

theorem idup_icache_of_ne (other : j ≠ i) : (s.idup i).icache j = s.icache j :=
  setInode_icache_of_ne other

/-! ### One inode, one entry -/

/-- The referenced entries of the inode cache hold distinct inodes. -/
def Apart (s : FsState) : Prop :=
  ∀ i j, 0 < (s.icache i).ref → 0 < (s.icache j).ref →
    (s.icache i).dev = (s.icache j).dev → (s.icache i).inum = (s.icache j).inum → i = j

theorem Apart.mono (apart : s.Apart)
    (kept : ∀ i, (s'.icache i).dev = (s.icache i).dev ∧ (s'.icache i).inum = (s.icache i).inum ∧
      (0 < (s'.icache i).ref → 0 < (s.icache i).ref)) : s'.Apart := by
  intro i j iHeld jHeld sameDev sameInum
  obtain ⟨iDev, iInum, iWas⟩ := kept i
  obtain ⟨jDev, jInum, jWas⟩ := kept j
  refine apart i j (iWas iHeld) (jWas jHeld) ?_ ?_
  · rw [← iDev, ← jDev]
    exact sameDev
  · rw [← iInum, ← jInum]
    exact sameInum

theorem Apart.bump (apart : s.Apart) (held : 0 < (s.icache i).ref) :
    (s.setInode i { s.icache i with ref := (s.icache i).ref + 1 }).Apart := by
  refine apart.mono fun j => ?_
  by_cases here : j = i
  · subst here
    simp [held]
  · rw [setInode_icache_of_ne here]
    exact ⟨rfl, rfl, id⟩

theorem Apart.claim (apart : s.Apart) (free : (s.icache i).ref = 0)
    (unheld : ∀ j, 0 < (s.icache j).ref → (s.icache j).dev = ip.dev → (s.icache j).inum ≠ ip.inum) :
    (s.setInode i ip).Apart := by
  intro j k jHeld kHeld sameDev sameInum
  by_cases jHere : j = i
  · by_cases kHere : k = i
    · rw [jHere, kHere]
    · subst jHere
      simp only [setInode_icache_self, setInode_icache_of_ne kHere] at kHeld sameDev sameInum
      exact absurd sameInum.symm (unheld k kHeld sameDev.symm)
  · by_cases kHere : k = i
    · subst kHere
      simp only [setInode_icache_self, setInode_icache_of_ne jHere] at jHeld sameDev sameInum
      exact absurd sameInum (unheld j jHeld sameDev)
    · simp only [setInode_icache_of_ne jHere, setInode_icache_of_ne kHere] at jHeld kHeld sameDev sameInum
      exact apart j k jHeld kHeld sameDev sameInum

theorem Apart.iget (apart : s.Apart) (got : s.iget dev inum = .ok (i, s')) : s'.Apart := by
  rcases iget_ok got with ⟨held, -, -, rfl⟩ | ⟨free, unheld, rfl⟩
  · exact apart.bump held
  · exact apart.claim free unheld

theorem Apart.iput (apart : s.Apart) : (s.iput i).Apart := by
  refine apart.mono fun j => ?_
  by_cases here : j = i
  · subst here
    obtain ⟨ref, dev, inum⟩ := iput_icache_self (s := s) (i := j)
    exact ⟨dev, inum, fun held => by omega⟩
  · rw [iput_icache_of_ne here]
    exact ⟨rfl, rfl, id⟩

end Xv6.Fs.FsState

namespace Xv6.Files

open Xv6.Lib Xv6.Fs

/-- An open file of type `FD_INODE` or `FD_DEVICE` on inode cache entry `i`. -/
def File.holds (file : File) (i : Fin ninode) : Bool :=
  decide (0 < file.ref) && (file.type == .inode || file.type == .device) && file.ip == i

/-- An open file on the end `w` (its `writable`) of the pipe at page `pi`. -/
def File.pipedOn (file : File) (pi : Nat) (w : Bool) : Bool :=
  decide (0 < file.ref) && file.type == .pipe && file.pipe == pi && file.writable == w

namespace Sys

variable {s t : Sys} {f g : Fin nfile} {file : File} {p q : Fin nproc} {fd : Fin nofile}
  {i j : Fin ninode} {o : Option (Fin nfile)} {proc : Proc} {pi : Nat} {pipe : Option Pipe}
  {hf hf' : Multiset (Fin nfile)} {hi hi' : Multiset (Fin ninode)} {fs : FsState}

/-! ### The updates, field by field -/

@[simp] theorem setFile_file : (s.setFile f file).file = Function.update s.file f file := rfl

@[simp] theorem setFile_proc : (s.setFile f file).proc = s.proc := rfl

@[simp] theorem setFile_fs : (s.setFile f file).fs = s.fs := rfl

@[simp] theorem setFile_pipes : (s.setFile f file).pipes = s.pipes := rfl

@[simp] theorem setPipe_pipes : (s.setPipe pi pipe).pipes = Function.update s.pipes pi pipe := rfl

@[simp] theorem setPipe_file : (s.setPipe pi pipe).file = s.file := rfl

@[simp] theorem setPipe_proc : (s.setPipe pi pipe).proc = s.proc := rfl

@[simp] theorem setPipe_fs : (s.setPipe pi pipe).fs = s.fs := rfl

@[simp] theorem setProc_proc : (s.setProc p proc).proc = Function.update s.proc p proc := rfl

@[simp] theorem setProc_file : (s.setProc p proc).file = s.file := rfl

@[simp] theorem setProc_fs : (s.setProc p proc).fs = s.fs := rfl

@[simp] theorem setProc_pipes : (s.setProc p proc).pipes = s.pipes := rfl

@[simp] theorem setOfile_file : (s.setOfile p fd o).file = s.file := rfl

@[simp] theorem setOfile_pipes : (s.setOfile p fd o).pipes = s.pipes := rfl

@[simp] theorem setOfile_fs : (s.setOfile p fd o).fs = s.fs := rfl

@[simp] theorem iput_fs : (s.iput i).fs = s.fs.iput i := rfl

@[simp] theorem iput_file : (s.iput i).file = s.file := rfl

@[simp] theorem iput_proc : (s.iput i).proc = s.proc := rfl

@[simp] theorem iput_pipes : (s.iput i).pipes = s.pipes := rfl

/-! ### What the counts count -/

/-- The descriptor slots of all processes. -/
def slotOf (s : Sys) (x : Fin nproc × Fin nofile) : Option (Fin nfile) :=
  (s.proc x.1).ofile x.2

/-- The descriptor slots that point to file `f`. -/
def slots (s : Sys) (f : Fin nfile) : Nat :=
  countWhere (· == some f) s.slotOf

/-- The open files that hold inode cache entry `i`. -/
def fileHolders (s : Sys) (i : Fin ninode) : Nat :=
  countWhere (·.holds i) s.file

/-- The processes whose `cwd` is inode cache entry `i`. -/
def cwdHolders (s : Sys) (i : Fin ninode) : Nat :=
  countWhere (·.cwd == some i) s.proc

theorem slotOf_setOfile : (s.setOfile p fd o).slotOf = Function.update s.slotOf (p, fd) o := by
  funext ⟨q, g⟩
  by_cases here : q = p
  · subst here
    by_cases same : g = fd
    · subst same
      simp [slotOf, setOfile]
    · simp [slotOf, setOfile, same]
  · simp [slotOf, setOfile, here]

theorem slots_setOfile (f : Fin nfile) :
    (s.setOfile p fd o).slots f + (if (s.proc p).ofile fd = some f then 1 else 0) =
      s.slots f + (if o = some f then 1 else 0) := by
  have moved := countWhere_update (· == some f) s.slotOf (p := (p, fd)) (v := o)
  simpa [slots, slotOf_setOfile, slotOf] using moved

theorem fileHolders_setFile (i : Fin ninode) :
    (s.setFile f file).fileHolders i + (if (s.file f).holds i then 1 else 0) =
      s.fileHolders i + (if file.holds i then 1 else 0) :=
  countWhere_update (fun file : File => file.holds i) s.file (p := f) (v := file)

theorem cwdHolders_setProc (i : Fin ninode) :
    (s.setProc p proc).cwdHolders i + (if (s.proc p).cwd = some i then 1 else 0) =
      s.cwdHolders i + (if proc.cwd = some i then 1 else 0) := by
  have moved := countWhere_update (·.cwd == some i) s.proc (p := p) (v := proc)
  simpa [cwdHolders] using moved

theorem cwdHolders_setProc_same (same : proc.cwd = (s.proc p).cwd) :
    (s.setProc p proc).cwdHolders = s.cwdHolders := by
  funext i
  have moved : (s.setProc p proc).cwdHolders i + (if (s.proc p).cwd = some i then 1 else 0) =
      s.cwdHolders i + (if proc.cwd = some i then 1 else 0) := cwdHolders_setProc i
  rw [same] at moved
  omega

theorem cwdHolders_setOfile : (s.setOfile p fd o).cwdHolders = s.cwdHolders :=
  cwdHolders_setProc_same rfl

@[simp] theorem slots_setFile : (s.setFile f file).slots = s.slots := rfl

theorem slots_setProc_same (same : proc.ofile = (s.proc p).ofile) : (s.setProc p proc).slots = s.slots := by
  have slotOf : (s.setProc p proc).slotOf = s.slotOf := by
    funext ⟨q, fd⟩
    by_cases here : q = p
    · subst here
      simp [Sys.slotOf, same]
    · simp [Sys.slotOf, here]
  funext f
  simp only [slots, slotOf]

/-! ### The reference counts -/

/-- Every file's `ref` counts the slots that point to it and the references
the call under way holds (`hf`); every inode cache entry's `ref` counts the
open files and `cwd`s on it and the references the call holds (`hi`). -/
structure Refs (s : Sys) (hf : Multiset (Fin nfile)) (hi : Multiset (Fin ninode)) : Prop where
  files : ∀ f, (s.file f).ref = s.slots f + hf.count f
  inodes : ∀ i, (s.fs.icache i).ref = s.fileHolders i + s.cwdHolders i + hi.count i
  apart : s.fs.Apart
  closed : ∀ f, (s.file f).ref = 0 → (s.file f).type = .none

theorem Refs.withFs (refs : s.Refs hf hi')
    (inodes : ∀ i, (fs.icache i).ref = s.fileHolders i + s.cwdHolders i + hi.count i) (apart : fs.Apart) :
    ({ s with fs } : Sys).Refs hf hi :=
  ⟨refs.files, inodes, apart, refs.closed⟩

theorem Refs.bump (refs : s.Refs hf hi) (apart : fs.Apart)
    (bumped : (fs.icache i).ref = (s.fs.icache i).ref + 1)
    (others : ∀ j, j ≠ i → (fs.icache j).ref = (s.fs.icache j).ref) :
    ({ s with fs } : Sys).Refs hf (i ::ₘ hi) := by
  refine refs.withFs (fun j => ?_) apart
  by_cases here : j = i
  · subst here
    rw [bumped, refs.inodes j, Multiset.count_cons_self]
    omega
  · rw [others j here, refs.inodes j, Multiset.count_cons_of_ne here]

theorem Refs.iget (refs : s.Refs hf hi) {dev inum : Nat} (got : s.fs.iget dev inum = .ok (i, fs)) :
    ({ s with fs } : Sys).Refs hf (i ::ₘ hi) :=
  have counted := FsState.iget_ref got
  refs.bump (refs.apart.iget got) counted.1 counted.2

theorem Refs.idup (refs : s.Refs hf hi) (held : 0 < (s.fs.icache i).ref) :
    ({ s with fs := s.fs.idup i } : Sys).Refs hf (i ::ₘ hi) :=
  refs.bump (refs.apart.bump held) (by simp) fun _ other => by rw [FsState.idup_icache_of_ne other]

theorem Refs.iput (refs : s.Refs hf (i ::ₘ hi)) : (s.iput i).Refs hf hi := by
  obtain ⟨ref, -, -⟩ := FsState.iput_icache_self (s := s.fs) (i := i)
  show ({ s with fs := s.fs.iput i } : Sys).Refs hf hi
  refine refs.withFs (fun j => ?_) refs.apart.iput
  have counted := refs.inodes j
  by_cases here : j = i
  · subst here
    rw [Multiset.count_cons_self] at counted
    rw [ref, counted]
    omega
  · rw [Multiset.count_cons_of_ne here] at counted
    rw [FsState.iput_icache_of_ne here, counted]

theorem Refs.setOfile (refs : s.Refs hf hi)
    (moved : ∀ f, hf'.count f + (if o = some f then 1 else 0) =
      hf.count f + (if (s.proc p).ofile fd = some f then 1 else 0)) :
    (s.setOfile p fd o).Refs hf' hi where
  files f := by
    have counted := refs.files f
    have slots : (s.setOfile p fd o).slots f + (if (s.proc p).ofile fd = some f then 1 else 0) =
        s.slots f + (if o = some f then 1 else 0) := slots_setOfile f
    have held := moved f
    show (s.file f).ref = _
    omega
  inodes i := by
    rw [cwdHolders_setOfile]
    exact refs.inodes i
  apart := refs.apart
  closed := refs.closed

theorem Refs.place (refs : s.Refs (f ::ₘ hf) hi) (free : (s.proc p).ofile fd = none) :
    (s.setOfile p fd (some f)).Refs hf hi := by
  refine refs.setOfile fun g => ?_
  by_cases same : g = f
  · subst same
    simp [free]
  · simp [free, Multiset.count_cons_of_ne same, Ne.symm same]

theorem Refs.clear (refs : s.Refs hf hi) (pointing : (s.proc p).ofile fd = some f) :
    (s.setOfile p fd none).Refs (f ::ₘ hf) hi := by
  refine refs.setOfile fun g => ?_
  by_cases same : g = f
  · subst same
    simp [pointing]
  · simp [pointing, Multiset.count_cons_of_ne same, Ne.symm same]

theorem Refs.setFile (refs : s.Refs hf hi)
    (counted : file.ref = s.slots f + hf'.count f) (others : ∀ g, g ≠ f → hf'.count g = hf.count g)
    (holders : ∀ i, hi'.count i + (if file.holds i then 1 else 0) =
      hi.count i + (if (s.file f).holds i then 1 else 0))
    (closed : file.ref = 0 → file.type = .none) :
    (s.setFile f file).Refs hf' hi' where
  files g := by
    by_cases here : g = f
    · subst here
      simpa using counted
    · rw [setFile_file, Function.update_of_ne here, refs.files g, others g here]
      rfl
  inodes i := by
    have moved : (s.setFile f file).fileHolders i + (if (s.file f).holds i then 1 else 0) =
        s.fileHolders i + (if file.holds i then 1 else 0) := fileHolders_setFile i
    have counted := refs.inodes i
    have held := holders i
    show (s.fs.icache i).ref = _ + s.cwdHolders i + _
    omega
  apart := refs.apart
  closed g := by
    by_cases here : g = f
    · subst here
      simpa using closed
    · rw [setFile_file, Function.update_of_ne here]
      exact refs.closed g

theorem Refs.setRef (refs : s.Refs hf hi) {n : Nat}
    (counted : n = s.slots f + hf'.count f) (others : ∀ g, g ≠ f → hf'.count g = hf.count g)
    (same : ∀ i, File.holds { s.file f with ref := n } i = (s.file f).holds i)
    (closed : n = 0 → (s.file f).type = .none) :
    (s.setFile f { s.file f with ref := n }).Refs hf' hi :=
  refs.setFile counted others (fun i => by rw [same i]) closed

theorem Refs.congr (refs : s.Refs hf hi) (file : t.file = s.file) (proc : t.proc = s.proc) (fs : t.fs = s.fs) :
    t.Refs hf hi := by
  obtain ⟨tfs, tfile, tpipes, tproc⟩ := t
  simp only at file proc fs
  subst file proc fs
  exact ⟨refs.files, refs.inodes, refs.apart, refs.closed⟩

theorem Refs.setProc_same (refs : s.Refs hf hi) (ofile : proc.ofile = (s.proc p).ofile)
    (cwd : proc.cwd = (s.proc p).cwd) : (s.setProc p proc).Refs hf hi where
  files f := by
    rw [slots_setProc_same ofile]
    exact refs.files f
  inodes i := by
    rw [cwdHolders_setProc_same cwd]
    exact refs.inodes i
  apart := refs.apart
  closed := refs.closed

theorem Refs.setCwd (refs : s.Refs hf hi) {c : Option (Fin ninode)}
    (moved : ∀ i, hi'.count i + (if c = some i then 1 else 0) =
      hi.count i + (if (s.proc p).cwd = some i then 1 else 0)) :
    (s.setCwd p c).Refs hf hi' where
  files f := by
    have slots : (s.setProc p { s.proc p with cwd := c }).slots = s.slots := slots_setProc_same rfl
    show (s.file f).ref = (s.setProc p { s.proc p with cwd := c }).slots f + _
    rw [slots]
    exact refs.files f
  inodes i := by
    have counted := refs.inodes i
    have cwds : (s.setProc p { s.proc p with cwd := c }).cwdHolders i + (if (s.proc p).cwd = some i then 1 else 0) =
        s.cwdHolders i + (if c = some i then 1 else 0) := cwdHolders_setProc i
    have held := moved i
    show (s.fs.icache i).ref = s.fileHolders i + (s.setProc p { s.proc p with cwd := c }).cwdHolders i + _
    omega
  apart := refs.apart
  closed := refs.closed

/-! ### The pipe table -/

/-- File `f` is open on the end `w` of the pipe at page `pi`. -/
def piped (s : Sys) (f : Fin nfile) (pi : Nat) (w : Bool) : Bool :=
  (s.file f).pipedOn pi w

/-- Some open file is on the end `w` of the pipe at page `pi`. -/
def endOpen (s : Sys) (pi : Nat) (w : Bool) : Bool :=
  decide (∃ f, s.piped f pi w = true)

/-- The pipe the files make at page `pi`: allocated while a file is on one of
its ends, and with the ends open that a file is on. -/
def pipeOf (s : Sys) (pi : Nat) : Option Pipe :=
  if s.endOpen pi false || s.endOpen pi true then
    some { readopen := s.endOpen pi false, writeopen := s.endOpen pi true }
  else none

/-- The pipe table is what the files make of it, and one file at most is on
each end. -/
structure Pipes (s : Sys) : Prop where
  table : ∀ pi, s.pipes pi = s.pipeOf pi
  unique : ∀ f g pi w, s.piped f pi w → s.piped g pi w → f = g

@[simp] theorem piped_setPipe : (s.setPipe pi pipe).piped = s.piped := rfl

@[simp] theorem pipeOf_setPipe : (s.setPipe pi pipe).pipeOf = s.pipeOf := rfl

theorem endOpen_congr (same : ∀ g, t.piped g pi w = s.piped g pi w) : t.endOpen pi w = s.endOpen pi w := by
  simp only [endOpen, same]

theorem pipeOf_congr (same : ∀ w, t.endOpen pi w = s.endOpen pi w) : t.pipeOf pi = s.pipeOf pi := by
  simp only [pipeOf, same]

theorem piped_setFile : (s.setFile f file).piped g pi w = if g = f then file.pipedOn pi w else s.piped g pi w := by
  by_cases here : g = f
  · subst here
    simp [piped]
  · simp [piped, here]

theorem Pipes.of_piped (pipes : s.Pipes) (same : t.piped = s.piped) (kept : t.pipes = s.pipes) : t.Pipes where
  table pi := by
    rw [kept, pipes.table pi]
    unfold pipeOf endOpen
    rw [same]
  unique f g pi w := by
    rw [same]
    exact pipes.unique f g pi w

theorem Pipes.congr (pipes : s.Pipes) (file : t.file = s.file) (kept : t.pipes = s.pipes) : t.Pipes :=
  pipes.of_piped (by funext f pi w; simp only [piped, file]) kept

theorem Pipes.setPipe (table : ∀ pi', pi' ≠ pi → s.pipes pi' = s.pipeOf pi')
    (unique : ∀ f g pi w, s.piped f pi w → s.piped g pi w → f = g) : (s.setPipe pi (s.pipeOf pi)).Pipes where
  table pi' := by
    by_cases here : pi' = pi
    · subst here
      simp
    · rw [setPipe_pipes, Function.update_of_ne here, table pi' here, pipeOf_setPipe]
  unique := unique

theorem Pipes.setFile (pipes : s.Pipes) (same : ∀ pi w, file.pipedOn pi w = (s.file f).pipedOn pi w) :
    (s.setFile f file).Pipes :=
  pipes.of_piped (by
    funext g pi w
    rw [piped_setFile]
    split
    · next here =>
      subst here
      exact same pi w
    · rfl) rfl

theorem pipedOn_of_type {file : File} (other : file.type ≠ .pipe) (pi : Nat) (w : Bool) :
    file.pipedOn pi w = false := by
  simp [File.pipedOn, other]

end Sys

end Xv6.Files
