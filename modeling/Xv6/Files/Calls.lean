import Xv6.Files.Ops
import Xv6.Lib.Meets
import Xv6.Mkfs.Boot

/-! The system calls, each proved to keep the reference counts exact. A call
under way holds references in its local variables: `During p s₀ hf hi s`
says that the counts of `s` are exact up to the files `hf` and inodes `hi`
the call by `p` holds, and that nothing but `p`'s descriptors and `cwd` has
changed since `s₀`. Every step of a call moves references between the entries
and its hands, and a call that returns holds none. A call that stops does so
with one of the `Expected` panics, which no count decides. -/

namespace Xv6.Files

open Xv6.Lib Xv6.Fs

/-- The panics a call may stop with whatever the counts: no free inode cache
entry, no free inode on the disk, and `init` exiting. -/
def Expected (message : String) : Prop :=
  message = "iget: no inodes" ∨ message = "ialloc: no inodes" ∨ message = "init exiting"

/-- The inode references `hi`, and the one that an optional inode holds. -/
def heldWith : Option (Fin ninode) → Multiset (Fin ninode) → Multiset (Fin ninode)
  | some i, hi => i ::ₘ hi
  | none, hi => hi

namespace Sys

variable {s s₀ t : Sys} {p : Fin nproc} {hf hf' : Multiset (Fin nfile)} {hi hi' : Multiset (Fin ninode)}
  {f : Fin nfile} {i ip cwd : Fin ninode}

/-- A call by `p` under way from `s₀`, holding the files `hf` and the inodes
`hi`: the counts are exact up to what it holds, the pipe table is what the
files make of it, no other process has changed, and `p` keeps its state and
some `cwd`. -/
structure During (s : Sys) (p : Fin nproc) (s₀ : Sys) (hf : Multiset (Fin nfile)) (hi : Multiset (Fin ninode)) :
    Prop where
  refs : s.Refs hf hi
  pipes : s.Pipes
  others : ∀ q, q ≠ p → s.proc q = s₀.proc q
  state : (s.proc p).state = (s₀.proc p).state
  cwd : (s.proc p).cwd.isSome

theorem During.keep (during : s.During p s₀ hf hi) (refs : t.Refs hf' hi') (pipes : t.Pipes)
    (proc : t.proc = s.proc) : t.During p s₀ hf' hi' where
  refs := refs
  pipes := pipes
  others q other := by rw [proc, during.others q other]
  state := by rw [proc, during.state]
  cwd := by rw [proc]; exact during.cwd

theorem cwd_referenced (refs : s.Refs hf hi) (is : (s.proc p).cwd = some i) : 0 < (s.fs.icache i).ref := by
  have holder : 0 < s.cwdHolders i := countWhere_pos (fun proc : Proc => proc.cwd == some i) s.proc (p := p)
    (by simp [is])
  rw [refs.inodes i]
  omega

/-! ### The inode cache -/

theorem meets_iget (during : s.During p s₀ hf hi) (dev inum : Nat) :
    Meets Expected (fun r => r.2.During p s₀ hf (r.1 ::ₘ hi)) (s.iget dev inum) := by
  unfold Sys.iget
  cases got : s.fs.iget dev inum with
  | error message => exact .inl (FsState.iget_error got)
  | ok r =>
    obtain ⟨i, fs⟩ := r
    exact during.keep (during.refs.iget got) (during.pipes.congr rfl rfl) rfl

theorem During.iput (during : s.During p s₀ hf (i ::ₘ hi)) : (s.iput i).During p s₀ hf hi :=
  during.keep during.refs.iput (during.pipes.congr rfl rfl) rfl

theorem During.idup (during : s.During p s₀ hf hi) (held : 0 < (s.fs.icache i).ref) :
    ({ s with fs := s.fs.idup i } : Sys).During p s₀ hf (i ::ₘ hi) :=
  during.keep (during.refs.idup held) (during.pipes.congr rfl rfl) rfl

/-! ### Path names -/

theorem meets_walkLoop (found : List Nat) {ip : Fin ninode} (during : s.During p s₀ hf (ip ::ₘ hi)) :
    Meets Expected (fun r => r.2.During p s₀ hf (r.1 ::ₘ hi)) (walkLoop s ip found) := by
  induction found generalizing s ip with
  | nil => exact during
  | cons inum rest ih =>
    apply meets_bind
    refine (meets_iget during _ inum).mono fun r got => ?_
    obtain ⟨next, s'⟩ := r
    rw [Multiset.cons_swap] at got
    exact ih got.iput

theorem meets_namex (during : s.During p s₀ hf hi) (w : Walk) :
    Meets Expected (fun r => r.2.During p s₀ hf (heldWith r.1 hi)) (s.namex p w) := by
  unfold namex
  have walk : ∀ (ip : Fin ninode) (s1 : Sys), s1.During p s₀ hf (ip ::ₘ hi) →
      Meets Expected (fun r => r.2.During p s₀ hf (heldWith r.1 hi))
        (walkLoop s1 ip w.found >>= fun r =>
          if w.reaches then return (some r.1, r.2) else return (none, r.2.iput r.1)) := by
    intro ip s1 started
    apply meets_bind
    refine (meets_walkLoop w.found started).mono fun r walked => ?_
    split
    · exact walked
    · exact walked.iput
  dsimp only
  split
  · apply meets_bind
    exact (meets_iget during rootdev rootino).mono fun r started => walk r.1 r.2 started
  · obtain ⟨cwd, is⟩ := Option.isSome_iff_exists.mp during.cwd
    rw [is]
    exact walk cwd _ (during.idup (cwd_referenced during.refs is))

theorem meets_create (during : s.During p s₀ hf hi) (w : Walk) (lookup : Lookup) :
    Meets Expected (fun r => r.2.During p s₀ hf (heldWith (r.1.map Prod.fst) hi)) (s.create p w lookup) := by
  unfold create
  apply meets_bind
  refine (meets_namex during w).mono fun ⟨dp, s1⟩ parent => ?_
  rcases dp with _ | dp
  · exact parent
  dsimp only [heldWith] at parent ⊢
  rcases lookup with ⟨inum, kind⟩ | ⟨_ | inum⟩
  · apply meets_bind
    refine (meets_iget parent _ inum).mono fun ⟨ip, s2⟩ got => ?_
    dsimp only at got ⊢
    rw [Multiset.cons_swap] at got
    have put := got.iput
    rcases kind with _ | _ | major
    · exact put.iput
    · exact put
    · exact put
  · exact .inr (.inl rfl)
  · apply meets_bind
    refine (meets_iget parent _ inum).mono fun ⟨ip, s2⟩ got => ?_
    dsimp only at got ⊢
    rw [Multiset.cons_swap] at got
    exact got.iput

theorem meets_openInode (during : s.During p s₀ hf hi) (omode : Nat) (w : Walk) (lookup : Lookup) (kind : Kind) :
    Meets Expected (fun r => r.2.During p s₀ hf (heldWith (r.1.map Prod.fst) hi))
      (s.openInode p omode w lookup kind) := by
  unfold openInode
  split
  · exact meets_create during w lookup
  · apply meets_bind
    refine (meets_namex during w).mono fun ⟨ip, s1⟩ found => ?_
    rcases ip with _ | ip
    · exact found
    dsimp only
    split
    · exact found.iput
    · exact found

/-! ### The file table -/

theorem file_referenced (refs : s.Refs hf hi) {fd : Fin nofile} (pointing : (s.proc p).ofile fd = some f) :
    0 < (s.file f).ref := by
  have slot : 0 < s.slots f := countWhere_pos (· == some f) s.slotOf (p := (p, fd)) (by simp [slotOf, pointing])
  rw [refs.files f]
  omega

theorem During.filealloc (during : s.During p s₀ hf hi) (free : (s.file f).ref = 0) :
    (s.setFile f { s.file f with ref := 1 }).During p s₀ (f ::ₘ hf) hi :=
  during.keep (during.refs.filealloc free) (during.pipes.filealloc during.refs free) rfl

theorem During.filedup (during : s.During p s₀ hf hi) (held : 0 < (s.file f).ref) :
    (s.setFile f { s.file f with ref := (s.file f).ref + 1 }).During p s₀ (f ::ₘ hf) hi :=
  during.keep (during.refs.filedup held) (during.pipes.filedup held) rfl

theorem During.fileclose (during : s.During p s₀ (f ::ₘ hf) hi) :
    ∃ t, s.fileclose f = .ok t ∧ t.During p s₀ hf hi := by
  obtain ⟨t, closed, refs, pipes, proc⟩ := fileclose_ok during.refs during.pipes
  exact ⟨t, closed, during.keep refs pipes proc⟩

theorem During.setProc (during : s.During p s₀ hf hi) {proc : Proc} (refs : (s.setProc p proc).Refs hf' hi')
    (state : proc.state = (s.proc p).state) (cwd : proc.cwd.isSome) : (s.setProc p proc).During p s₀ hf' hi' where
  refs := refs
  pipes := during.pipes.congr rfl rfl
  others q other := by rw [setProc_proc, Function.update_of_ne other, during.others q other]
  state := by rw [setProc_proc, Function.update_self, state, during.state]
  cwd := by rw [setProc_proc, Function.update_self]; exact cwd

theorem During.setOfile (during : s.During p s₀ hf hi) {fd : Fin nofile} {o : Option (Fin nfile)}
    (refs : (s.setOfile p fd o).Refs hf' hi) : (s.setOfile p fd o).During p s₀ hf' hi :=
  during.setProc refs rfl during.cwd

theorem During.place (during : s.During p s₀ (f ::ₘ hf) hi) {fd : Fin nofile} (free : (s.proc p).ofile fd = none) :
    (s.setOfile p fd (some f)).During p s₀ hf hi :=
  during.setOfile (during.refs.place free)

theorem During.clear (during : s.During p s₀ hf hi) {fd : Fin nofile} (pointing : (s.proc p).ofile fd = some f) :
    (s.setOfile p fd none).During p s₀ (f ::ₘ hf) hi :=
  during.setOfile (during.refs.clear pointing)

theorem During.openInode (during : s.During p s₀ hf (ip ::ₘ hi)) (opened : 0 < (s.file f).ref)
    (none : (s.file f).type = .none) {file : File} (ref : file.ref = (s.file f).ref)
    (typed : file.type = .inode ∨ file.type = .device) (on : file.ip = ip) :
    (s.setFile f file).During p s₀ hf hi := by
  have notPipe : file.type ≠ .pipe := by rcases typed with typed | typed <;> rw [typed] <;> decide
  refine during.keep (during.refs.setFile ?_ (fun _ _ => rfl) (fun i => ?_) (fun zero => by omega)) ?_ rfl
  · rw [ref]
    exact during.refs.files f
  · have was : (s.file f).holds i = false := by simp [File.holds, none]
    have is : file.holds i = (ip == i) := by
      rcases typed with typed | typed <;> simp [File.holds, typed, ref, opened, on]
    rw [was, is, Multiset.count_cons]
    by_cases same : ip = i
    · subst same
      simp
    · simp [same, Ne.symm same]
  · refine during.pipes.setFile fun pi w => ?_
    rw [pipedOn_of_type notPipe, pipedOn_of_type (by rw [none]; decide)]

/-! ### The system calls -/

theorem meets_sysOpen (during : s.During p s₀ hf hi) (omode : Nat) (w : Walk) (lookup : Lookup) (kind : Kind) :
    Meets Expected (fun r => r.2.During p s₀ hf hi) (s.sysOpen p omode w lookup kind) := by
  unfold sysOpen
  apply meets_bind
  refine (meets_openInode during omode w lookup kind).mono fun ⟨ik, s1⟩ opened => ?_
  rcases ik with _ | ⟨ip, kind⟩
  · exact opened
  dsimp only
  dsimp only [heldWith, Option.map] at opened
  split
  · exact opened.iput
  rcases alloc : s1.filealloc with ⟨_ | f, s2⟩
  · rw [filealloc_none alloc]
    exact opened.iput
  obtain ⟨free, rfl⟩ := filealloc_some alloc
  have allocated := opened.filealloc free
  dsimp only
  rcases slot : (s1.setFile f { s1.file f with ref := 1 }).fdalloc p f with ⟨_ | fd, s3⟩
  · rw [fdalloc_none slot]
    obtain ⟨t, closed, done⟩ := allocated.fileclose
    dsimp only
    rw [closed]
    exact done.iput
  obtain ⟨unused, rfl⟩ := fdalloc_some slot
  have none : (s1.file f).type = .none := opened.refs.closed f free
  dsimp only
  exact (allocated.place unused).openInode (by simp) (by simp [none]) rfl (by cases kind <;> simp) rfl

theorem meets_sysClose (during : s.During p s₀ hf hi) (fd : Int) :
    Meets Expected (fun r => r.2.During p s₀ hf hi) (s.sysClose p fd) := by
  unfold sysClose
  split
  · exact during
  · rename_i fd f found
    obtain ⟨t, closed, done⟩ := (during.clear (argfd_some found)).fileclose
    rw [closed]
    exact done

theorem meets_sysDup (during : s.During p s₀ hf hi) (fd : Int) :
    Meets Expected (fun r => r.2.During p s₀ hf hi) (s.sysDup p fd) := by
  unfold sysDup
  split
  · exact during
  rename_i fd f found
  have held := file_referenced during.refs (argfd_some found)
  split
  · rename_i s1 slot
    have same := fdalloc_none slot
    subst s1
    exact during
  rename_i fd' s1 slot
  obtain ⟨unused, rfl⟩ := fdalloc_some slot
  have dup : (s.setOfile p fd' (some f)).filedup f = .ok
      ((s.setFile f { s.file f with ref := (s.file f).ref + 1 }).setOfile p fd' (some f)) :=
    filedup_ok held
  rw [dup]
  exact (during.filedup held).place unused

theorem During.pipealloc (during : s.During p s₀ hf hi) {page : Option Nat}
    (fresh : page.all fun pi => (s.pipes pi).isNone) :
    ∃ files t, s.pipealloc page = .ok (files, t) ∧
      t.During p s₀ (match files with | some (f0, f1) => f0 ::ₘ f1 ::ₘ hf | none => hf) hi := by
  obtain ⟨files, t, made, pipes, proc, refs⟩ := pipealloc_ok during.refs during.pipes fresh
  exact ⟨files, t, made, during.keep refs pipes proc⟩

theorem meets_closeBoth {rf wf : Fin nfile} (during : s.During p s₀ (rf ::ₘ wf ::ₘ hf) hi) :
    Meets Expected (fun r => r.2.During p s₀ hf hi)
      (do
        let s ← s.fileclose rf
        let s ← s.fileclose wf
        return ((-1 : Int), s)) := by
  obtain ⟨t, closed, held⟩ := during.fileclose
  obtain ⟨u, closed', done⟩ := held.fileclose
  exact meets_bind_ok closed (meets_bind_ok closed' done)

theorem meets_sysPipe (during : s.During p s₀ hf hi) {page : Option Nat}
    (fresh : page.all fun pi => (s.pipes pi).isNone) (copied : Bool) :
    Meets Expected (fun r => r.2.During p s₀ hf hi) (s.sysPipe p page copied) := by
  obtain ⟨files, t, made, allocated⟩ := during.pipealloc fresh
  unfold sysPipe
  refine meets_bind_ok made ?_
  rcases files with _ | ⟨rf, wf⟩
  · exact allocated
  dsimp only at allocated ⊢
  rcases slot0 : t.fdalloc p rf with ⟨_ | fd0, t1⟩
  · have same := fdalloc_none slot0
    subst t1
    exact meets_closeBoth allocated
  obtain ⟨unused0, rfl⟩ := fdalloc_some slot0
  have placed0 := allocated.place unused0
  have pointing0 : ((t.setOfile p fd0 (some rf)).proc p).ofile fd0 = some rf := by simp [setOfile]
  dsimp only
  rcases slot1 : (t.setOfile p fd0 (some rf)).fdalloc p wf with ⟨_ | fd1, t2⟩
  · have same := fdalloc_none slot1
    subst t2
    exact meets_closeBoth (placed0.clear pointing0)
  obtain ⟨unused1, rfl⟩ := fdalloc_some slot1
  have placed1 := placed0.place unused1
  have apart : fd1 ≠ fd0 := by
    rintro rfl
    rw [pointing0] at unused1
    cases unused1
  dsimp only
  split
  · exact placed1
  · let placed := (t.setOfile p fd0 (some rf)).setOfile p fd1 (some wf)
    have read : (placed.proc p).ofile fd0 = some rf := by simp [placed, setOfile, apart.symm]
    have write : ((placed.setOfile p fd0 none).proc p).ofile fd1 = some wf := by simp [placed, setOfile, apart]
    have cleared := (placed1.clear read).clear write
    rw [Multiset.cons_swap] at cleared
    exact meets_closeBoth cleared

theorem During.chdir (during : s.During p s₀ hf (ip ::ₘ hi)) (is : (s.proc p).cwd = some cwd) :
    ((s.iput cwd).setCwd p (some ip)).During p s₀ hf hi := by
  have moved : (s.setCwd p (some ip)).Refs hf (cwd ::ₘ hi) := during.refs.setCwd fun i => by
    rw [is, Multiset.count_cons, Multiset.count_cons]
    by_cases here : ip = i <;> by_cases was : cwd = i <;> simp [here, was, eq_comm]
  have set : (s.setCwd p (some ip)).During p s₀ hf (cwd ::ₘ hi) := during.setProc moved rfl rfl
  exact set.iput

theorem meets_sysChdir (during : s.During p s₀ hf hi) (w : Walk) (kind : Kind) :
    Meets Expected (fun r => r.2.During p s₀ hf hi) (s.sysChdir p w kind) := by
  unfold sysChdir
  apply meets_bind
  refine (meets_namex during w).mono fun ⟨ip, s1⟩ found => ?_
  rcases ip with _ | ip
  · exact found
  dsimp only [heldWith] at found ⊢
  split
  · exact found.iput
  obtain ⟨cwd, is⟩ := Option.isSome_iff_exists.mp found.cwd
  rw [is]
  exact found.chdir is

theorem meets_execInode (during : s.During p s₀ hf hi) (w : Walk) :
    Meets Expected (fun t => t.During p s₀ hf hi) (s.execInode p w) := by
  unfold execInode
  apply meets_bind
  refine (meets_namex during w).mono fun ⟨ip, s1⟩ found => ?_
  rcases ip with _ | ip
  · exact found
  · exact found.iput

/-! ### The loops of `exit` and `fork` -/

theorem closeLoop_ok (during : s.During p s₀ hf hi) (fds : List (Fin nofile)) :
    ∃ t, closeLoop p fds s = .ok t ∧ t.During p s₀ hf hi ∧
      ∀ fd, (t.proc p).ofile fd = if fd ∈ fds then none else (s.proc p).ofile fd := by
  induction fds generalizing s with
  | nil => exact ⟨s, rfl, during, fun fd => by simp⟩
  | cons fd rest ih =>
    unfold closeLoop
    split
    · rename_i f pointing
      obtain ⟨u, closedCleared, held⟩ := (during.clear pointing).fileclose
      let cleared : Proc := { s.proc p with ofile := Function.update (s.proc p).ofile fd none }
      have moved : (s.fileclose f).map (·.setProc p cleared) = .ok u := by
        rw [← fileclose_setProc]
        exact closedCleared
      obtain ⟨v, closed, same⟩ : ∃ v, s.fileclose f = .ok v ∧ v.setProc p cleared = u := by
        cases closes : s.fileclose f with
        | error message => rw [closes] at moved; cases moved
        | ok v =>
          rw [closes] at moved
          exact ⟨v, rfl, Except.ok.inj moved⟩
      have kept : v.proc = s.proc := fileclose_proc closed
      have cleared : v.setOfile p fd none = u := by
        rw [← same]
        unfold setOfile
        rw [kept]
      obtain ⟨t, loop, done, slots⟩ := ih held
      refine ⟨t, ?_, done, fun g => ?_⟩
      · rw [closed]
        show closeLoop p rest (v.setOfile p fd none) = _
        rw [cleared, loop]
      · rw [slots g, ← cleared]
        by_cases here : g = fd
        · simp [here, setOfile]
        · simp [here, setOfile, kept]
    · rename_i unused
      obtain ⟨t, loop, done, slots⟩ := ih during
      refine ⟨t, loop, done, fun g => ?_⟩
      rw [slots g]
      by_cases here : g = fd
      · subst here
        simp [unused]
      · simp [here]

theorem dupLoop_ok {np : Fin nproc} (refs : s.Refs hf hi) (pipes : s.Pipes) (apart : p ≠ np)
    (fds : List (Fin nofile)) (nodup : fds.Nodup) (free : ∀ fd ∈ fds, (s.proc np).ofile fd = none) :
    ∃ t, dupLoop p np fds s = .ok t ∧ t.Refs hf hi ∧ t.Pipes ∧
      t.proc = Function.update s.proc np
        { s.proc np with ofile := fun fd => if fd ∈ fds then (s.proc p).ofile fd else (s.proc np).ofile fd } := by
  induction fds generalizing s with
  | nil =>
    refine ⟨s, rfl, refs, pipes, ?_⟩
    simp only [List.not_mem_nil, if_false]
    exact (Function.update_eq_self np s.proc).symm
  | cons fd rest ih =>
    obtain ⟨fresh, nodup⟩ := List.nodup_cons.mp nodup
    unfold dupLoop
    split
    · rename_i f pointing
      have held := file_referenced refs pointing
      rw [filedup_ok held]
      have placed := (refs.filedup held).place (p := np) (free fd List.mem_cons_self)
      have free' : ∀ g ∈ rest, (((s.setFile f { s.file f with ref := (s.file f).ref + 1 }).setOfile np fd
          (some f)).proc np).ofile g = none := by
        intro g member
        have other : g ≠ fd := fun same => fresh (same ▸ member)
        simp [setOfile, other, free g (List.mem_cons_of_mem fd member)]
      obtain ⟨t, loop, refs', pipes', proc⟩ :=
        ih placed (((pipes.filedup held).congr rfl rfl)) nodup free'
      refine ⟨t, loop, refs', pipes', ?_⟩
      rw [proc]
      funext q
      by_cases child : q = np
      · subst child
        simp only [setOfile, setProc_proc, setFile_proc, Function.update_self, Function.update_of_ne apart]
        congr 1
        funext g
        by_cases here : g = fd
        · simp [here, pointing]
        · simp [here]
      · simp [setOfile, child]
    · rename_i unused
      obtain ⟨t, loop, refs', pipes', proc⟩ :=
        ih refs pipes nodup fun g member => free g (List.mem_cons_of_mem fd member)
      refine ⟨t, loop, refs', pipes', ?_⟩
      have same : (fun g => if g ∈ rest then (s.proc p).ofile g else (s.proc np).ofile g) =
          fun g => if g ∈ fd :: rest then (s.proc p).ofile g else (s.proc np).ofile g := by
        funext g
        by_cases here : g = fd
        · subst here
          simp [unused, free g List.mem_cons_self]
        · simp [here]
      rw [proc, same]

/-! ### Between system calls -/

/-- What holds between system calls: the counts are exact with nothing in a
call's hands, the pipe table is what the files make of it, a process that is
not on a CPU holds no descriptor and no `cwd`, and one that is has a `cwd`. -/
structure Sound (s : Sys) : Prop where
  refs : s.Refs 0 0
  pipes : s.Pipes
  idle : ∀ q, s.runs q = false → (∀ fd, (s.proc q).ofile fd = none) ∧ (s.proc q).cwd = none
  working : ∀ q, s.runs q = true → (s.proc q).cwd.isSome

theorem runs_congr {q : Fin nproc} (same : t.proc q = s.proc q) : t.runs q = s.runs q := by
  unfold runs
  rw [same]

theorem Sound.of_changed (sound : s.Sound) (refs : t.Refs 0 0) (pipes : t.Pipes)
    (changed : ∀ q, t.proc q ≠ s.proc q →
      (t.runs q = true ∧ (t.proc q).cwd.isSome) ∨
      (t.runs q = false ∧ (∀ fd, (t.proc q).ofile fd = none) ∧ (t.proc q).cwd = none)) : t.Sound where
  refs := refs
  pipes := pipes
  idle q off := by
    by_cases same : t.proc q = s.proc q
    · rw [same]
      exact sound.idle q (by rw [← runs_congr same, off])
    · rcases changed q same with ⟨on, -⟩ | ⟨-, idle⟩
      · rw [on] at off
        cases off
      · exact idle
  working q on := by
    by_cases same : t.proc q = s.proc q
    · rw [same]
      exact sound.working q (by rw [← runs_congr same, on])
    · rcases changed q same with ⟨-, cwd⟩ | ⟨off, -⟩
      · exact cwd
      · rw [on] at off
        cases off

theorem Sound.during (sound : s.Sound) (runs : s.runs p) : s.During p s 0 0 :=
  ⟨sound.refs, sound.pipes, fun _ _ => rfl, rfl, sound.working p runs⟩

theorem Sound.of_during (sound : s₀.Sound) (runs : s₀.runs p) (during : s.During p s₀ 0 0) : s.Sound := by
  refine sound.of_changed during.refs during.pipes fun q changed => ?_
  have caller : q = p := by
    by_contra other
    exact changed (during.others q other)
  subst caller
  have stays : s.runs q = s₀.runs q := by
    unfold Sys.runs
    rw [during.state]
  exact .inl ⟨stays.trans runs, during.cwd⟩

theorem Sound.call {α : Type} (sound : s.Sound) (runs : s.runs p) {x : Except String (α × Sys)}
    (meets : Meets Expected (fun r => r.2.During p s 0 0) x) : Meets Expected (fun r => r.2.Sound) x :=
  meets.mono fun _ during => sound.of_during runs during

theorem meets_fork (sound : s.Sound) (runs : s.runs p) (made : Bool) :
    Meets Expected (fun r => r.2.Sound) (s.fork p made) := by
  unfold fork
  split
  · exact sound
  rename_i np found
  have unused : (s.proc np).state = .unused := by simpa using List.find?_some found
  have off : s.runs np = false := by simp [Sys.runs, unused]
  have apart : p ≠ np := by
    rintro rfl
    rw [off] at runs
    cases runs
  split
  · exact sound
  obtain ⟨empty, noCwd⟩ := sound.idle np off
  obtain ⟨t, loop, refs, pipes, proc⟩ :=
    dupLoop_ok sound.refs sound.pipes apart (List.finRange nofile) (List.nodup_finRange nofile) fun fd _ => empty fd
  refine meets_bind_ok loop ?_
  have parent : t.proc p = s.proc p := by rw [proc, Function.update_of_ne apart]
  have child : (t.proc np).cwd = none := by
    rw [proc, Function.update_self]
    exact noCwd
  obtain ⟨cwd, is⟩ := Option.isSome_iff_exists.mp (sound.working p runs)
  rw [← parent] at is
  rw [is]
  have refs' : ({ t with fs := t.fs.idup cwd }.setCwd np (some cwd)).Refs 0 0 :=
    (refs.idup (cwd_referenced refs is)).setCwd fun i => by
      by_cases here : cwd = i <;> simp [child, here, eq_comm]
  refine sound.of_changed (refs'.setProc_same rfl rfl) (pipes.congr rfl rfl) fun q changed => ?_
  by_cases here : q = np
  · subst here
    exact .inl ⟨by simp [setState, setCwd, Sys.runs], by simp [setState, setCwd]⟩
  · refine absurd ?_ changed
    simp [setState, setCwd, here, proc]

theorem meets_exit (sound : s.Sound) (runs : s.runs p) :
    Meets Expected (fun t => t.Sound) (s.exit p) := by
  unfold exit
  dsimp only
  split
  · exact .inr (.inr rfl)
  obtain ⟨t, loop, during, slots⟩ := closeLoop_ok (sound.during runs) (List.finRange nofile)
  refine meets_bind_ok loop ?_
  obtain ⟨cwd, is⟩ := Option.isSome_iff_exists.mp during.cwd
  rw [is]
  have refs : (t.setCwd p none).Refs 0 {cwd} := during.refs.setCwd fun i => by
    by_cases here : cwd = i <;> simp [is, here, eq_comm]
  refine sound.of_changed (refs.iput.setProc_same rfl rfl) (during.pipes.congr rfl rfl) fun q changed => ?_
  by_cases here : q = p
  · subst here
    refine .inr ⟨by simp [setState, setCwd, Sys.runs], fun fd => ?_, by simp [setState, setCwd]⟩
    simp [setState, setCwd, slots fd]
  · refine absurd ?_ changed
    simp [setState, setCwd, here, during.others q here]

/-! ### Every step -/

/-- Where a step from a sound state leads: a sound state, or an `Expected`
panic. -/
def Settles : Outcome Sys → Prop
  | .running t => t.Sound
  | .panicked message => Expected message

theorem settles_ended {α : Type} {x : Except String (α × Sys)} (meets : Meets Expected (fun r => r.2.Sound) x) :
    Settles (ended x) := by
  cases x with
  | error message => exact meets
  | ok r => exact meets

theorem settles_guarded {α : Type} {x : Except String (α × Sys)} {o : Outcome Sys}
    (meets : s.runs p → Meets Expected (fun r => r.2.Sound) x)
    (step : (if s.runs p then some (ended x) else none) = some o) : Settles o := by
  split at step
  · rename_i runs
    cases step
    exact settles_ended (meets runs)
  · cases step

theorem Sound.step (sound : s.Sound) {event : Event} {o : Outcome Sys} (step : s.step event = some o) :
    Settles o := by
  cases event with
  | «open» p omode w lookup kind =>
    exact settles_guarded (fun runs => sound.call runs (meets_sysOpen (sound.during runs) omode w lookup kind)) step
  | close p fd => exact settles_guarded (fun runs => sound.call runs (meets_sysClose (sound.during runs) fd)) step
  | dup p fd => exact settles_guarded (fun runs => sound.call runs (meets_sysDup (sound.during runs) fd)) step
  | pipe p page copied =>
    simp only [Sys.step] at step
    split at step
    · rename_i enabled
      obtain ⟨runs, fresh⟩ := Bool.and_eq_true_iff.mp enabled
      cases step
      exact settles_ended (sound.call runs (meets_sysPipe (sound.during runs) fresh copied))
    · cases step
  | fork p made => exact settles_guarded (fun runs => meets_fork sound runs made) step
  | exit p => exact settles_guarded (fun runs => meets_map (meets_exit sound runs)) step
  | reap child =>
    simp only [Sys.step] at step
    split at step
    · rename_i zombie
      cases step
      have off : s.runs child = false := by simp [Sys.runs, zombie]
      obtain ⟨empty, noCwd⟩ := sound.idle child off
      refine sound.of_changed (sound.refs.setProc_same rfl rfl) (sound.pipes.congr rfl rfl) fun q changed => ?_
      by_cases here : q = child
      · subst here
        exact .inr ⟨by simp [setState, Sys.runs], by simpa [setState] using empty, by simpa [setState] using noCwd⟩
      · exact absurd (by simp [setState, here]) changed
    · cases step
  | chdir p w kind => exact settles_guarded (fun runs => sound.call runs (meets_sysChdir (sound.during runs) w kind)) step
  | exec p w => exact settles_guarded (fun runs => sound.call runs (meets_map (meets_execInode (sound.during runs) w))) step

theorem booted_sound (fs : FsState) : (booted fs).Sound := by
  let root : Fin ninode := ⟨0, by decide⟩
  have first : ∀ q, q ≠ initproc → (booted fs).proc q = Proc.unused := fun q other => by
    simp [booted, other]
  have closed : ∀ f, (booted fs).file f = File.zero := fun _ => rfl
  have unpiped : ∀ f pi w, (booted fs).piped f pi w = false := fun f pi w => by
    simp [piped, closed, File.pipedOn, File.zero]
  have cwds : ∀ i, (booted fs).cwdHolders i = if root = i then 1 else 0 := by
    intro i
    have moved := countWhere_update (fun proc : Proc => proc.cwd == some i) (fun _ => Proc.unused) (p := initproc)
      (v := { state := .runnable, ofile := fun _ => none, cwd := some root })
    have none : countWhere (fun proc : Proc => proc.cwd == some i) (fun _ : Fin nproc => Proc.unused) = 0 :=
      countWhere_eq_zero _ _ fun _ => by simp [Proc.unused]
    have unusedCwd : (Proc.unused.cwd == some i) = false := by simp [Proc.unused]
    rw [none, unusedCwd] at moved
    simp only [Bool.false_eq_true, if_false, add_zero, zero_add] at moved
    show countWhere _ (Function.update (fun _ => Proc.unused) initproc _) = _
    rw [moved]
    simp
  have files : ∀ i, (booted fs).fileHolders i = 0 := fun i =>
    countWhere_eq_zero _ _ fun f => by simp [closed, File.holds, File.zero]
  have icache : ∀ i, ((booted fs).fs.icache i).ref = if root = i then 1 else 0 := by
    intro i
    by_cases here : root = i
    · subst here
      simp [booted, root]
    · simp [booted, root, Ne.symm here, here, Inode.unused]
  refine ⟨⟨fun f => ?_, fun i => ?_, fun i j iHeld jHeld _ _ => ?_, fun f _ => rfl⟩, ⟨fun pi => ?_, ?_⟩, ?_, ?_⟩
  · have none : (booted fs).slots f = 0 := countWhere_eq_zero _ _ fun slot => by
      obtain ⟨q, fd⟩ := slot
      by_cases here : q = initproc <;> simp [slotOf, booted, here, Proc.unused]
    simp [closed, File.zero, none]
  · rw [icache, files, cwds]
    simp
  · rw [icache] at iHeld jHeld
    by_cases iRoot : root = i <;> by_cases jRoot : root = j <;> simp_all
  · show none = _
    simp [pipeOf, endOpen, unpiped]
  · intro f g pi w on
    rw [unpiped] at on
    cases on
  · intro q off
    by_cases here : q = initproc
    · subst here
      simp [Sys.runs, booted] at off
    · simp [first q here, Proc.unused]
  · intro q on
    by_cases here : q = initproc
    · subst here
      simp [booted]
    · simp [Sys.runs, first q here, Proc.unused] at on

theorem Pipes.allocated_iff (pipes : s.Pipes) (pi : Nat) :
    (s.pipes pi).isSome ↔ ∃ f, 0 < (s.file f).ref ∧ (s.file f).type = .pipe ∧ (s.file f).pipe = pi := by
  have allocated : (s.pipeOf pi).isSome = (s.endOpen pi false || s.endOpen pi true) := by
    unfold pipeOf
    split <;> simp_all
  rw [pipes.table pi, allocated]
  simp only [endOpen, piped, File.pipedOn, Bool.or_eq_true, decide_eq_true_eq, Bool.and_eq_true, beq_iff_eq]
  constructor
  · rintro (⟨f, ⟨⟨opened, typed⟩, on⟩, -⟩ | ⟨f, ⟨⟨opened, typed⟩, on⟩, -⟩) <;> exact ⟨f, opened, typed, on⟩
  · rintro ⟨f, opened, typed, on⟩
    cases writes : (s.file f).writable
    · exact .inl ⟨f, ⟨⟨opened, typed⟩, on⟩, writes⟩
    · exact .inr ⟨f, ⟨⟨opened, typed⟩, on⟩, writes⟩

end Sys

theorem sound_invariant (fs : FsState) : (system fs).Invariant Sys.Sound where
  init := Sys.booted_sound fs
  step _ sound step := sound.step step

theorem panics_expected (fs : FsState) {message : String} (panics : (system fs).CanPanic message) :
    Expected message := by
  obtain ⟨s, reach, event, step⟩ := panics
  exact ((sound_invariant fs).holds reach).step step

theorem refcounts_exact (fs : FsState) {s : Sys} (reach : (system fs).Reachable s) :
    (∀ f, (s.file f).ref = s.slots f) ∧
    (∀ i, (s.fs.icache i).ref = s.fileHolders i + s.cwdHolders i) ∧
    s.fs.Apart ∧
    (∀ pi, (s.pipes pi).isSome ↔ ∃ f, 0 < (s.file f).ref ∧ (s.file f).type = .pipe ∧ (s.file f).pipe = pi) ∧
    ¬ (system fs).CanPanic "pipeclose: freed pipe" := by
  have sound := (sound_invariant fs).holds reach
  refine ⟨fun f => ?_, fun i => ?_, sound.refs.apart, sound.pipes.allocated_iff, fun panics => ?_⟩
  · simpa using sound.refs.files f
  · simpa using sound.refs.inodes i
  · have expected := panics_expected fs panics
    simp [Expected] at expected

/-- On the image `mkfs` makes with no file but the root, `initproc` makes a
pipe, forks a child that shares both ends, and the child exits. -/
def pipedEvents : List Event :=
  [.pipe ⟨0, nproc_pos⟩ (some 0) true, .fork ⟨0, nproc_pos⟩ true, .exit ⟨1, one_lt_nproc⟩]

def pipedState : Sys :=
  match (system (Mkfs.booted Mkfs.rooted)).runFrom (system (Mkfs.booted Mkfs.rooted)).init pipedEvents with
  | some (.running s) => s
  | _ => (system (Mkfs.booted Mkfs.rooted)).init

theorem pipedState_reachable : (system (Mkfs.booted Mkfs.rooted)).Reachable pipedState :=
  System.runFrom_reachable System.Reachable.init pipedEvents (by rfl)

/-- There every file is referenced by its slots alone, and pipe `0` is held
by a pipe file still open. -/
theorem refcounts_exact_piped :
    (∀ f, (pipedState.file f).ref = pipedState.slots f) ∧
    (∀ i, (pipedState.fs.icache i).ref = pipedState.fileHolders i + pipedState.cwdHolders i) ∧
    pipedState.fs.Apart ∧
    (∃ f, 0 < (pipedState.file f).ref ∧ (pipedState.file f).type = .pipe ∧ (pipedState.file f).pipe = 0) ∧
    ¬ (system (Mkfs.booted Mkfs.rooted)).CanPanic "pipeclose: freed pipe" := by
  obtain ⟨files, inodes, apart, pipes, panic⟩ := refcounts_exact (Mkfs.booted Mkfs.rooted) pipedState_reachable
  exact ⟨files, inodes, apart, (pipes 0).mp (by rfl), panic⟩

/-- In every state the system calls reach, an `UNUSED` or `ZOMBIE` slot holds
no open file and no working directory, and a `RUNNABLE` or `RUNNING` process
has a working directory: `exit` closes every file and drops the cwd before
the slot becomes a zombie. -/
theorem idle_holds_nothing (fs : FsState) {s : Sys} (reach : (system fs).Reachable s) :
    (∀ q, (s.proc q).state = .unused ∨ (s.proc q).state = .zombie →
      (∀ fd, (s.proc q).ofile fd = none) ∧ (s.proc q).cwd = none) ∧
      ∀ q, s.runs q = true → (s.proc q).cwd.isSome := by
  have sound := (sound_invariant fs).holds reach
  refine ⟨fun q idle => sound.idle q ?_, sound.working⟩
  rcases idle with state | state <;> simp [Sys.runs, state]

/-- The exited child of `pipedState` is a zombie holding nothing, and
`initproc` keeps its working directory. -/
theorem idle_holds_nothing_piped :
    (pipedState.proc ⟨1, one_lt_nproc⟩).state = .zombie ∧
      (∀ fd, (pipedState.proc ⟨1, one_lt_nproc⟩).ofile fd = none) ∧ (pipedState.proc ⟨1, one_lt_nproc⟩).cwd = none ∧
      (pipedState.proc ⟨0, nproc_pos⟩).cwd.isSome := by
  obtain ⟨idle, working⟩ := idle_holds_nothing (Mkfs.booted Mkfs.rooted) pipedState_reachable
  have zombie : (pipedState.proc ⟨1, one_lt_nproc⟩).state = .zombie := by rfl
  obtain ⟨files, cwd⟩ := idle ⟨1, one_lt_nproc⟩ (.inr zombie)
  exact ⟨zombie, files, cwd, working ⟨0, nproc_pos⟩ (by rfl)⟩

end Xv6.Files
