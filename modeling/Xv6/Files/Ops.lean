import Xv6.Files.Count

/-! The operations of `file.c` and `pipe.c` on the counts: `filealloc` and
`filedup` hand the call a reference, `fileclose` takes one back, and the last
one closes the file's end of its pipe, freeing the pipe with its last end, or
puts the file's inode; `pipealloc` opens both ends of a fresh pipe. Each keeps
`Refs` and `Pipes`, and `fileclose` of a file the call holds never stops. -/

namespace Xv6.Files

open Xv6.Lib Xv6.Fs

theorem File.pipedOn_iff {file : File} {pi : Nat} {w : Bool} :
    file.pipedOn pi w = true ↔ 0 < file.ref ∧ file.type = .pipe ∧ file.pipe = pi ∧ file.writable = w := by
  simp [File.pipedOn, and_assoc]

/-- The file as the last `fileclose` leaves it. -/
def File.cleared (file : File) : File :=
  { file with ref := 0, type := .none }

theorem File.pipedOn_cleared {file : File} (pi : Nat) (w : Bool) : file.cleared.pipedOn pi w = false := by
  simp [File.cleared, File.pipedOn]

namespace Sys

variable {s t : Sys} {f g f0 f1 : Fin nfile} {file : File} {pi : Nat} {w : Bool}
  {hf : Multiset (Fin nfile)} {hi : Multiset (Fin ninode)}

/-! ### `filealloc` and `filedup` -/

theorem filealloc_some (got : s.filealloc = (some f, t)) :
    (s.file f).ref = 0 ∧ t = s.setFile f { s.file f with ref := 1 } := by
  unfold filealloc at got
  split at got
  · rename_i g found
    simp only [Prod.mk.injEq, Option.some.injEq] at got
    obtain ⟨rfl, rfl⟩ := got
    have free := List.find?_some found
    simp only [beq_iff_eq] at free
    exact ⟨free, rfl⟩
  · simp at got

theorem filealloc_none (got : s.filealloc = (none, t)) : t = s := by
  unfold filealloc at got
  split at got
  · simp at got
  · simp only [Prod.mk.injEq, true_and] at got
    exact got.symm

theorem Refs.filealloc (refs : s.Refs hf hi) (free : (s.file f).ref = 0) :
    (s.setFile f { s.file f with ref := 1 }).Refs (f ::ₘ hf) hi := by
  have counted := refs.files f
  have none := refs.closed f free
  refine refs.setRef ?_ (fun g other => Multiset.count_cons_of_ne other hf) ?_ (fun _ => none)
  · rw [Multiset.count_cons_self]
    omega
  · intro i
    simp [File.holds, none, free]

theorem Pipes.filealloc (pipes : s.Pipes) (refs : s.Refs hf hi) (free : (s.file f).ref = 0) :
    (s.setFile f { s.file f with ref := 1 }).Pipes := by
  have none := refs.closed f free
  exact pipes.setFile fun pi w => by
    rw [pipedOn_of_type (by simp [none]), pipedOn_of_type (by simp [none])]

theorem filedup_ok (held : 0 < (s.file f).ref) :
    s.filedup f = .ok (s.setFile f { s.file f with ref := (s.file f).ref + 1 }) := by
  rw [filedup, if_neg (by omega)]

theorem Refs.filedup (refs : s.Refs hf hi) (held : 0 < (s.file f).ref) :
    (s.setFile f { s.file f with ref := (s.file f).ref + 1 }).Refs (f ::ₘ hf) hi := by
  have counted := refs.files f
  refine refs.setRef ?_ (fun g other => Multiset.count_cons_of_ne other hf) ?_ (fun zero => by omega)
  · rw [Multiset.count_cons_self]
    omega
  · intro i
    simp [File.holds, held]

theorem Pipes.filedup (pipes : s.Pipes) (held : 0 < (s.file f).ref) :
    (s.setFile f { s.file f with ref := (s.file f).ref + 1 }).Pipes :=
  pipes.setFile fun pi w => by simp [File.pipedOn, held]

/-! ### `fileclose` -/

theorem fileclose_shared (shared : 1 < (s.file f).ref) :
    s.fileclose f = .ok (s.setFile f { s.file f with ref := (s.file f).ref - 1 }) := by
  rw [fileclose, if_neg (by omega), if_pos (by omega)]

theorem Refs.fileclose_shared (refs : s.Refs (f ::ₘ hf) hi) (shared : 1 < (s.file f).ref) :
    (s.setFile f { s.file f with ref := (s.file f).ref - 1 }).Refs hf hi := by
  have counted := refs.files f
  rw [Multiset.count_cons_self] at counted
  refine refs.setRef (by omega) (fun g other => (Multiset.count_cons_of_ne other hf).symm) ?_ (fun zero => by omega)
  intro i
  simp [File.holds, show 0 < (s.file f).ref - 1 by omega, show 0 < (s.file f).ref by omega]

theorem Pipes.fileclose_shared (pipes : s.Pipes) (shared : 1 < (s.file f).ref) :
    (s.setFile f { s.file f with ref := (s.file f).ref - 1 }).Pipes :=
  pipes.setFile fun pi w => by
    simp [File.pipedOn, show 0 < (s.file f).ref - 1 by omega, show 0 < (s.file f).ref by omega]

theorem Refs.fileclose_last (refs : s.Refs (f ::ₘ hf) hi) (last : (s.file f).ref = 1) {hi' : Multiset (Fin ninode)}
    (holders : ∀ i, hi'.count i = hi.count i + (if (s.file f).holds i then 1 else 0)) :
    (s.setFile f ((s.file f).cleared)).Refs hf hi' := by
  have counted := refs.files f
  rw [Multiset.count_cons_self] at counted
  refine refs.setFile ?_ (fun g other => (Multiset.count_cons_of_ne other hf).symm) (fun i => ?_) (fun _ => rfl)
  · show 0 = _
    omega
  · simp [File.cleared, File.holds, holders i]

theorem Refs.fileclose_inode (refs : s.Refs (f ::ₘ hf) hi) (last : (s.file f).ref = 1)
    (holding : (s.file f).type = .inode ∨ (s.file f).type = .device) :
    ((s.setFile f ((s.file f).cleared)).iput (s.file f).ip).Refs hf hi := by
  refine Refs.iput (refs.fileclose_last last fun i => ?_)
  by_cases here : i = (s.file f).ip
  · subst here
    rcases holding with kind | kind <;> simp [File.holds, kind, last]
  · rw [Multiset.count_cons_of_ne here]
    simp [File.holds, Ne.symm here]

theorem piped_close (g : Fin nfile) (pi : Nat) (w : Bool) :
    (s.setFile f ((s.file f).cleared)).piped g pi w = (s.piped g pi w && g != f) := by
  rw [piped_setFile]
  by_cases here : g = f
  · simp [here, File.pipedOn_cleared]
  · simp [here]

theorem endOpen_close (pipes : s.Pipes) (on : s.piped f pi w) (pi' : Nat) (w' : Bool) :
    (s.setFile f ((s.file f).cleared)).endOpen pi' w' = (s.endOpen pi' w' && !(pi' == pi && w' == w)) := by
  have onFile := File.pipedOn_iff.mp on
  by_cases same : pi' = pi ∧ w' = w
  · obtain ⟨rfl, rfl⟩ := same
    simp only [endOpen, piped_close, beq_self_eq_true, Bool.and_self, Bool.not_true, Bool.and_false,
      decide_eq_false_iff_not, not_exists, Bool.and_eq_true, bne_iff_ne, ne_eq, not_and, not_not]
    exact fun g other => pipes.unique g f pi' w' other on
  · have notF : ∀ g, s.piped g pi' w' = true → g ≠ f := by
      rintro g other rfl
      have otherFile := File.pipedOn_iff.mp other
      exact same ⟨otherFile.2.2.1.symm.trans onFile.2.2.1, otherFile.2.2.2.symm.trans onFile.2.2.2⟩
    have kept : (pi' == pi && w' == w) = false := by
      simpa using fun samePi => fun sameW => same ⟨samePi, sameW⟩
    rw [kept, Bool.not_false, Bool.and_true]
    simp only [endOpen, piped_close, Bool.and_eq_true, bne_iff_ne, ne_eq, decide_eq_decide]
    constructor
    · rintro ⟨g, other, -⟩
      exact ⟨g, other⟩
    · rintro ⟨g, other⟩
      exact ⟨g, other, notF g other⟩

theorem pipeclose_close (pipes : s.Pipes) (on : s.piped f pi w) :
    (s.setFile f ((s.file f).cleared)).pipeclose pi w =
      .ok ((s.setFile f ((s.file f).cleared)).setPipe pi ((s.setFile f ((s.file f).cleared)).pipeOf pi)) := by
  have wasOpen : s.endOpen pi w = true := decide_eq_true ⟨f, on⟩
  have table : (s.setFile f ((s.file f).cleared)).pipes pi =
      some { readopen := s.endOpen pi false, writeopen := s.endOpen pi true } := by
    rw [setFile_pipes, pipes.table pi, pipeOf]
    cases w <;> simp [wasOpen]
  unfold pipeclose pipeOf
  rw [table, endOpen_close pipes on, endOpen_close pipes on]
  cases w <;> cases s.endOpen pi false <;> cases s.endOpen pi true <;> simp_all

theorem Pipes.pipeclose_close (pipes : s.Pipes) (on : s.piped f pi w) :
    ((s.setFile f (s.file f).cleared).setPipe pi ((s.setFile f (s.file f).cleared).pipeOf pi)).Pipes := by
  refine Pipes.setPipe (fun pi' other => ?_) (fun g g' pi' w' first second => ?_)
  · rw [setFile_pipes, pipes.table pi']
    refine (pipeOf_congr fun w' => ?_).symm
    rw [endOpen_close pipes on]
    simp [other]
  · rw [piped_close] at first second
    simp only [Bool.and_eq_true] at first second
    exact pipes.unique g g' pi' w' first.1 second.1

theorem fileclose_ok (refs : s.Refs (f ::ₘ hf) hi) (pipes : s.Pipes) :
    ∃ t, s.fileclose f = .ok t ∧ t.Refs hf hi ∧ t.Pipes ∧ t.proc = s.proc := by
  have counted := refs.files f
  rw [Multiset.count_cons_self] at counted
  by_cases shared : 1 < (s.file f).ref
  · exact ⟨_, fileclose_shared shared, refs.fileclose_shared shared, pipes.fileclose_shared shared, rfl⟩
  have last : (s.file f).ref = 1 := by omega
  have unpiped : (s.file f).type ≠ .pipe → ∀ pi w, (s.file f).cleared.pipedOn pi w = (s.file f).pipedOn pi w :=
    fun other pi w => by rw [File.pipedOn_cleared, pipedOn_of_type other]
  rw [fileclose, if_neg (by omega), if_neg (by omega)]
  cases kind : (s.file f).type with
  | none =>
    have unheld : ∀ i, hi.count i = hi.count i + (if (s.file f).holds i then 1 else 0) := by
      simp [File.holds, kind]
    exact ⟨_, rfl, refs.fileclose_last last unheld, pipes.setFile (unpiped (by simp [kind])), rfl⟩
  | pipe =>
    have unheld : ∀ i, hi.count i = hi.count i + (if (s.file f).holds i then 1 else 0) := by
      simp [File.holds, kind]
    have on : s.piped f (s.file f).pipe (s.file f).writable := by simp [piped, File.pipedOn, kind, last]
    exact ⟨_, pipeclose_close pipes on, (refs.fileclose_last last unheld).congr rfl rfl rfl,
      pipes.pipeclose_close on, rfl⟩
  | inode =>
    exact ⟨_, rfl, refs.fileclose_inode last (.inl kind), (pipes.setFile (unpiped (by simp [kind]))).congr rfl rfl, rfl⟩
  | device =>
    exact ⟨_, rfl, refs.fileclose_inode last (.inr kind), (pipes.setFile (unpiped (by simp [kind]))).congr rfl rfl, rfl⟩

/-! ### The file table does not read the processes -/

section Frame

variable {q : Fin nproc} {proc : Proc}

theorem setFile_setProc : (s.setProc q proc).setFile f file = (s.setFile f file).setProc q proc := rfl

theorem setPipe_setProc {pipe : Option Pipe} : (s.setProc q proc).setPipe pi pipe = (s.setPipe pi pipe).setProc q proc := rfl

theorem iput_setProc {i : Fin ninode} : (s.setProc q proc).iput i = (s.iput i).setProc q proc := rfl

theorem pipeclose_setProc : (s.setProc q proc).pipeclose pi w = (s.pipeclose pi w).map (·.setProc q proc) := by
  unfold pipeclose
  dsimp only [setProc_pipes]
  split
  · rfl
  · split_ifs <;> rfl

theorem fileclose_setProc : (s.setProc q proc).fileclose f = (s.fileclose f).map (·.setProc q proc) := by
  unfold fileclose
  dsimp only [setProc_file]
  split_ifs
  · rfl
  · rfl
  · split
    · rw [setFile_setProc, pipeclose_setProc]
    all_goals rfl

theorem pipeclose_proc (closed : s.pipeclose pi w = .ok t) : t.proc = s.proc := by
  unfold pipeclose at closed
  split at closed
  · cases closed
  · cases w <;> simp only [Bool.false_eq_true, ↓reduceIte] at closed <;> split at closed <;>
      (cases closed; rfl)

theorem fileclose_proc (closed : s.fileclose f = .ok t) : t.proc = s.proc := by
  unfold fileclose at closed
  dsimp only at closed
  split at closed
  · cases closed
  split at closed
  · cases closed
    rfl
  split at closed
  · exact pipeclose_proc (s := s.setFile f _) closed
  all_goals
    cases closed
    rfl

end Frame

/-! ### `pipealloc` -/

theorem Refs.retype (refs : s.Refs hf hi) (ref : file.ref = (s.file f).ref) (opened : 0 < file.ref)
    (before : ∀ i, (s.file f).holds i = false) (after : ∀ i, file.holds i = false) :
    (s.setFile f file).Refs hf hi :=
  refs.setFile (by rw [ref]; exact refs.files f) (fun _ _ => rfl) (fun i => by rw [before, after])
    (fun zero => absurd opened (by omega))

theorem Pipes.openEnds (pipes : s.Pipes) (fresh : s.pipes pi = none) (distinct : f0 ≠ f1) {file0 file1 : File}
    (off0 : ∀ pi w, (s.file f0).pipedOn pi w = false) (off1 : ∀ pi w, (s.file f1).pipedOn pi w = false)
    (reader : ∀ pi' w', file0.pipedOn pi' w' = (pi == pi' && !w'))
    (writer : ∀ pi' w', file1.pipedOn pi' w' = (pi == pi' && w')) :
    (((s.setPipe pi (some { readopen := true, writeopen := true })).setFile f0 file0).setFile f1 file1).Pipes := by
  have empty : ∀ g w', s.piped g pi w' = false := by
    intro g w'
    have table := pipes.table pi
    rw [fresh, pipeOf] at table
    have shut : s.endOpen pi w' = false := by
      cases w' <;> revert table <;> cases s.endOpen pi false <;> cases s.endOpen pi true <;> simp
    simp only [endOpen, decide_eq_false_iff_not, not_exists, Bool.not_eq_true] at shut
    exact shut g
  have onEnds : ∀ g pi' w', (((s.setPipe pi (some { readopen := true, writeopen := true })).setFile f0 file0).setFile
      f1 file1).piped g pi' w' =
      if g = f1 then (pi == pi' && w') else if g = f0 then (pi == pi' && !w') else s.piped g pi' w' := by
    intro g pi' w'
    rw [piped_setFile, piped_setFile, piped_setPipe, reader, writer]
  have away : ∀ pi', pi' ≠ pi → ∀ g w', (((s.setPipe pi (some { readopen := true, writeopen := true })).setFile
      f0 file0).setFile f1 file1).piped g pi' w' = s.piped g pi' w' := by
    intro pi' other g w'
    rw [onEnds]
    split_ifs with atWriter atReader
    · subst atWriter
      simp [Ne.symm other, piped, off1]
    · subst atReader
      simp [Ne.symm other, piped, off0]
    · rfl
  constructor
  · intro pi'
    by_cases here : pi' = pi
    · subst here
      have onEnd : ∀ w', (((s.setPipe pi' (some { readopen := true, writeopen := true })).setFile f0 file0).setFile
          f1 file1).endOpen pi' w' = true := by
        intro w'
        refine decide_eq_true ?_
        cases w'
        · exact ⟨f0, by simp [onEnds, distinct]⟩
        · exact ⟨f1, by simp [onEnds]⟩
      rw [setFile_pipes, setFile_pipes, setPipe_pipes, Function.update_self, pipeOf, onEnd false, onEnd true]
      rfl
    · rw [setFile_pipes, setFile_pipes, setPipe_pipes, Function.update_of_ne here, pipes.table pi']
      exact (pipeOf_congr fun w' => endOpen_congr (away pi' here · w')).symm
  · intro g g' pi' w' first second
    by_cases here : pi' = pi
    · subst here
      rw [onEnds] at first second
      cases w' <;> split_ifs at first second <;> simp_all
    · rw [away pi' here] at first second
      exact pipes.unique g g' pi' w' first second

theorem pipealloc_ok (refs : s.Refs hf hi) (pipes : s.Pipes) {page : Option Nat}
    (fresh : page.all fun pi => (s.pipes pi).isNone) :
    ∃ files t, s.pipealloc page = .ok (files, t) ∧ t.Pipes ∧ t.proc = s.proc ∧
      t.Refs (match files with | some (f0, f1) => f0 ::ₘ f1 ::ₘ hf | none => hf) hi := by
  unfold pipealloc
  split
  · rename_i s1 first
    have same := filealloc_none first
    subst s1
    exact ⟨none, s, rfl, pipes, rfl, refs⟩
  rename_i f0 s1 first
  obtain ⟨free0, rfl⟩ := filealloc_some first
  have refs1 := refs.filealloc free0
  have pipes1 := pipes.filealloc refs free0
  split
  · rename_i s2 second
    obtain rfl := filealloc_none second
    obtain ⟨t, closed, refs', pipes', proc'⟩ := fileclose_ok refs1 pipes1
    refine ⟨none, t, ?_, pipes', proc', refs'⟩
    rw [closed]
    rfl
  rename_i f1 s2 second
  obtain ⟨free1, rfl⟩ := filealloc_some second
  have refs2 := refs1.filealloc free1
  have pipes2 := pipes1.filealloc refs1 free1
  have distinct : f0 ≠ f1 := by
    rintro rfl
    simp at free1
  have free1' : (s.file f1).ref = 0 := by simpa [Ne.symm distinct] using free1
  rw [Multiset.cons_swap] at refs2
  split
  · obtain ⟨t, closed, refs', pipes', proc'⟩ := fileclose_ok refs2 pipes2
    obtain ⟨u, closed', refs'', pipes'', proc''⟩ := fileclose_ok refs' pipes'
    refine ⟨none, u, ?_, pipes'', proc''.trans proc', refs''⟩
    rw [closed]
    show (t.fileclose f1 >>= fun s => pure (none, s)) = _
    rw [closed']
    rfl
  rename_i pi
  have unused : s.pipes pi = none := by simpa using fresh
  have none0 : (s.file f0).type = .none := refs.closed f0 free0
  have none1 : (s.file f1).type = .none := refs.closed f1 free1'
  refine ⟨some (f0, f1), _, rfl, pipes2.openEnds unused distinct ?_ ?_ ?_ ?_, rfl, ?_⟩
  · intro pi w
    simp [File.pipedOn, none0, distinct]
  · intro pi w
    simp [File.pipedOn, none1, Ne.symm distinct]
  · intro pi' w'
    cases w' <;> simp [File.pipedOn, distinct]
  · intro pi' w'
    cases w' <;> simp [File.pipedOn, Ne.symm distinct]
  · refine Refs.retype (f := f1) (Refs.retype (f := f0) ?_ ?_ ?_ ?_ ?_) ?_ ?_ ?_ ?_
    · exact refs2.congr rfl rfl rfl
    all_goals simp [File.holds, none0, none1, distinct, Ne.symm distinct]

/-! ### `fdalloc` and `argfd` -/

theorem fdalloc_some {p : Fin nproc} {fd : Fin nofile} (got : s.fdalloc p f = (some fd, t)) :
    (s.proc p).ofile fd = none ∧ t = s.setOfile p fd (some f) := by
  unfold fdalloc at got
  split at got
  · rename_i slot found
    simp only [Prod.mk.injEq, Option.some.injEq] at got
    obtain ⟨rfl, rfl⟩ := got
    have free := List.find?_some found
    simp only [beq_iff_eq] at free
    exact ⟨free, rfl⟩
  · simp at got

theorem fdalloc_none {p : Fin nproc} (got : s.fdalloc p f = (none, t)) : t = s := by
  unfold fdalloc at got
  split at got
  · simp at got
  · simp only [Prod.mk.injEq, true_and] at got
    exact got.symm

theorem argfd_some {p : Fin nproc} {n : Int} {fd : Fin nofile} (got : s.argfd p n = some (fd, f)) :
    (s.proc p).ofile fd = some f := by
  unfold argfd at got
  split at got
  · obtain ⟨g, slot, same⟩ := Option.map_eq_some_iff.mp got
    simp only [Prod.mk.injEq] at same
    obtain ⟨rfl, rfl⟩ := same
    exact slot
  · cases got

end Sys

end Xv6.Files
