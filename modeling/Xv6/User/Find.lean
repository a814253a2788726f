import Xv6.Fs.Path
import Xv6.Printf
import Xv6.Param

/-! `find` of `find.c`: `main`, `ls` and `fmtname`. The file system is seen
through `open`, `fstat`, `read` of directory entries and `stat`: a tree of
directories, files and devices, in which a path is looked up as `namex` looks
it up, element by element as `skipelem` takes them apart. Every `printf` of
`find` prints one line ending in a newline, and the output is the list of
those lines, on standard output and on standard error. Each `open` takes a
descriptor, and `ls` keeps its own open while it reads the directory and
recurses; `stat` opens and closes one, so both fail when none is free. The
system-wide file table is taken to have room. -/

namespace Xv6.User

open Xv6.Fs

/-- A file as `find` meets it: a regular file with its inode number and size,
a device, or a directory with its entries other than "." and "..". -/
inductive Node where
  | file (ino : UInt32) (size : UInt64)
  | device (ino : UInt32)
  | dir (entries : List (List UInt8 × Node))

def Node.isDir : Node → Bool
  | .dir _ => true
  | _ => false

/-- The current directory and those above it, the parent first and the root
last. -/
structure World where
  cwd : Node
  up : List Node

def World.root (w : World) : Node := w.up.getLast?.getD w.cwd

/-- The bytes of a text of `find.c`. -/
def bytes (s : String) : List UInt8 := s.toList.map fun c => c.toNat.toUInt8

/-- The names "." and "..". -/
def dot : List UInt8 := [46]

def dotdot : List UInt8 := [46, 46]

/-- `namex` over the elements of a path from `trail`, the directory it starts
in followed by those above it: "." stays, ".." goes up (the root's ".." is
the root), and another name is looked up among the entries on its first
`DIRSIZ` bytes, as `dirlookup` compares names. -/
def walk : List Node → List (List UInt8) → Option Node
  | [], _ => none
  | here :: _, [] => some here
  | here :: up, elem :: rest =>
    match here with
    | .dir entries =>
      if elem.take dirsiz = dot then walk (here :: up) rest
      else if elem.take dirsiz = dotdot then walk (if up = [] then [here] else up) rest
      else match entries.find? fun e => decide (e.1.take dirsiz = elem.take dirsiz) with
        | some e => walk (e.2 :: here :: up) rest
        | none => none
    | _ => none

/-- `namei(path)`: from the root for a path that starts with '/', and from the
current directory otherwise. -/
def World.resolve (w : World) (path : List UInt8) : Option Node :=
  walk (if path.head? = some slash then [w.root] else w.cwd :: w.up) (segments path)

/-- What `find` prints: the lines on standard output and on standard error. -/
structure Output where
  out : List (List UInt8)
  err : List (List UInt8)

/-- `fmtname(path)` with its static buffer `fmtbuf`: the part of `path` after
its last '/', returned itself when it has `DIRSIZ` bytes or more, and
otherwise copied over the front of `fmtbuf` without a NUL, so that the string
at `fmtbuf` runs on into what a longer earlier name left there. -/
def fmtname (fmtbuf path : List UInt8) : List UInt8 × List UInt8 :=
  let p := (path.reverse.takeWhile (· != slash)).reverse
  if p.length ≥ dirsiz then (p, fmtbuf)
  else
    let fmtbuf := p ++ fmtbuf.drop p.length
    (fmtbuf.takeWhile (· != 0), fmtbuf)

/-- The characters of a conversion of `printf`, as bytes. -/
def toBytes (cs : List Char) : List UInt8 := cs.map fun c => c.toNat.toUInt8

/-- `printf("%s %d %d %l\n", fmtname(path), st.type, st.ino, st.size)` of a
file, `T_FILE` being 2; `st.ino` is a `uint` read as an `int`. -/
def fileLine (name : List UInt8) (ino : UInt32) (size : UInt64) : List UInt8 :=
  name ++ 32 :: toBytes (printint 2 .dec true) ++ 32 :: toBytes (printint ino.toInt32 .dec true) ++
    32 :: toBytes (printint size.toUInt32.toInt32 .dec false)

def cannotOpen (path : List UInt8) : List UInt8 := bytes "ls: cannot open " ++ path

def cannotStat (path : List UInt8) : List UInt8 := bytes "ls: cannot stat " ++ path

/-- The loop of `ls` over the names of the entries of the directory at `path`,
"." and ".." first: `buf` is `path`, a '/' and the name; a directory whose
name does not start with '.' is passed to `recurse`, which is `ls` with the
descriptor this `ls` holds taken, and another entry called `filename` is
printed. -/
def lsLoop (recurse : List UInt8 → List UInt8 → List UInt8 → Output × List UInt8) (free : Nat) (w : World)
    (path filename : List UInt8) : List (List UInt8) → Output → List UInt8 → Output × List UInt8
  | [], o, fmtbuf => (o, fmtbuf)
  | p :: names, o, fmtbuf =>
    let buf := path ++ slash :: p
    match (if free = 0 then none else w.resolve buf) with
    | none => lsLoop recurse free w path filename names ⟨o.out ++ [cannotStat buf], o.err⟩ fmtbuf
    | some node =>
      if node.isDir ∧ p.head? ≠ some 46 then
        let r := recurse fmtbuf p filename
        lsLoop recurse free w path filename names ⟨o.out ++ r.1.out, o.err ++ r.1.err⟩ r.2
      else if p = filename then
        lsLoop recurse free w path filename names ⟨o.out ++ [bytes "./" ++ buf], o.err⟩ fmtbuf
      else lsLoop recurse free w path filename names o fmtbuf

/-- `ls(path, filename)` with `free` descriptors free and `fmtbuf` the static
buffer of `fmtname`: what it prints, and the buffer after it. A device is
printed nothing for. -/
def ls : Nat → World → List UInt8 → List UInt8 → List UInt8 → Output × List UInt8
  | 0, _, fmtbuf, path, _ => (⟨[], [cannotOpen path]⟩, fmtbuf)
  | free + 1, w, fmtbuf, path, filename =>
    match w.resolve path with
    | none => (⟨[], [cannotOpen path]⟩, fmtbuf)
    | some (.file ino size) =>
      let r := fmtname fmtbuf path
      (⟨[fileLine r.1 ino size], []⟩, r.2)
    | some (.device _) => (⟨[], []⟩, fmtbuf)
    | some (.dir entries) =>
      if path.length + 1 + dirsiz + 1 > 512 then (⟨[bytes "ls: path too long"], []⟩, fmtbuf)
      else lsLoop (ls free w) free w path filename (dot :: dotdot :: entries.map fun e => e.1.take dirsiz)
        ⟨[], []⟩ fmtbuf

/-- `main(argc, argv)` of `find.c`. The shell leaves descriptors 0, 1 and 2
open, so `NOFILE - 3` are free, and the static buffer starts zeroed. -/
def main (w : World) (argv : List (List UInt8)) : Output :=
  match argv with
  | [_, path, filename] => (ls (nofile - 3) w (List.replicate (dirsiz + 1) 0) path filename).1
  | _ => ⟨[bytes "Usage: find . b"], []⟩

/-! ### Where the slashes of a printed line are

`ls` is called on the bare name of an entry, and it prints its matches as
`"./"` and then the path it was called on, a '/' and the entry's name. So a
match at the top is printed with a "./" too many, and none below the second
level is reached from the top. -/

/-- Every name in a tree is free of '/', as the names `skipelem` gives are. -/
inductive Node.SlashFree : Node → Prop
  | file {ino : UInt32} {size : UInt64} : Node.SlashFree (.file ino size)
  | device {ino : UInt32} : Node.SlashFree (.device ino)
  | dir {entries : List (List UInt8 × Node)} :
      (∀ e ∈ entries, slash ∉ e.1) → (∀ e ∈ entries, Node.SlashFree e.2) → Node.SlashFree (.dir entries)

def World.SlashFree (w : World) : Prop := ∀ n ∈ w.cwd :: w.up, n.SlashFree

/-- A line that starts with "./" goes on with one '/' between two parts free
of '/'. -/
def OneDeep (line : List UInt8) : Prop :=
  line.take 2 = bytes "./" → ∃ q n, line = bytes "./" ++ q ++ slash :: n ∧ slash ∉ q ∧ slash ∉ n

theorem bytes_dot_slash : bytes "./" = [46, 47] := by decide

theorem walk_slashFree (elems : List (List UInt8)) :
    ∀ (trail : List Node) {node : Node}, (∀ n ∈ trail, n.SlashFree) → walk trail elems = some node → node.SlashFree := by
  induction elems with
  | nil =>
    intro trail node free found
    cases trail with
    | nil => simp [walk] at found
    | cons here up =>
      simp only [walk, Option.some.injEq] at found
      exact found ▸ free here List.mem_cons_self
  | cons elem rest ih =>
    intro trail node free found
    cases trail with
    | nil => simp [walk] at found
    | cons here up =>
      cases here with
      | dir entries =>
        have here_free := free _ List.mem_cons_self
        simp only [walk] at found
        by_cases isDot : elem.take dirsiz = dot
        · rw [if_pos isDot] at found
          exact ih _ free found
        rw [if_neg isDot] at found
        by_cases isDotdot : elem.take dirsiz = dotdot
        · rw [if_pos isDotdot] at found
          refine ih _ (fun n mem => ?_) found
          by_cases root : up = []
          · rw [if_pos root, List.mem_singleton] at mem
            exact mem ▸ here_free
          · rw [if_neg root] at mem
            exact free n (List.mem_cons_of_mem _ mem)
        rw [if_neg isDotdot] at found
        split at found
        · next e looked =>
          have child_free : e.2.SlashFree := by
            cases here_free with
            | dir _ children => exact children e (List.mem_of_find?_eq_some looked)
          refine ih _ (fun n mem => ?_) found
          rcases List.mem_cons.mp mem with rfl | above
          · exact child_free
          · exact free n above
        · simp at found
      | file => simp [walk] at found
      | device => simp [walk] at found

theorem World.resolve_slashFree {w : World} (wf : w.SlashFree) {path : List UInt8} {node : Node}
    (found : w.resolve path = some node) : node.SlashFree := by
  refine walk_slashFree _ _ (fun n mem => ?_) found
  split at mem
  · simp only [List.mem_singleton] at mem
    subst mem
    unfold World.root
    cases last : w.up.getLast? with
    | none => exact wf _ List.mem_cons_self
    | some r => exact wf _ (List.mem_cons_of_mem _ (List.mem_of_getLast? last))
  · exact wf n mem

theorem fmtname_slashFree {fmtbuf : List UInt8} (path : List UInt8) (free : slash ∉ fmtbuf) :
    slash ∉ (fmtname fmtbuf path).1 ∧ slash ∉ (fmtname fmtbuf path).2 := by
  have last : slash ∉ (path.reverse.takeWhile (· != slash)).reverse := by
    intro mem
    simpa using List.mem_takeWhile_imp (List.mem_reverse.mp mem)
  unfold fmtname
  dsimp only
  split
  · exact ⟨last, free⟩
  · have copied : slash ∉ (path.reverse.takeWhile (· != slash)).reverse ++
        fmtbuf.drop (path.reverse.takeWhile (· != slash)).reverse.length := by
      simp only [List.mem_append, not_or]
      exact ⟨last, fun mem => free (List.mem_of_mem_drop mem)⟩
    exact ⟨fun mem => copied ((List.takeWhile_sublist _).subset mem), copied⟩

theorem oneDeep_of_take {line : List UInt8} (other : line.take 2 ≠ bytes "./") : OneDeep line :=
  fun start => absurd start other

theorem fileLine_oneDeep {name : List UInt8} (free : slash ∉ name) (ino : UInt32) (size : UInt64) :
    OneDeep (fileLine name ino size) := by
  apply oneDeep_of_take
  rw [bytes_dot_slash, fileLine]
  match name, free with
  | [], _ => simp
  | [a], _ => simp
  | a :: b :: rest, free =>
    intro start
    simp only [List.cons_append, List.take_succ_cons, List.take_zero, List.cons.injEq] at start
    exact free (start.2.1 ▸ List.mem_cons_of_mem _ List.mem_cons_self)

theorem cannotStat_oneDeep (path : List UInt8) : OneDeep (cannotStat path) := by
  apply oneDeep_of_take
  rw [cannotStat, List.take_append_of_le_length (by decide)]
  decide

theorem match_oneDeep {path p : List UInt8} (pathFree : slash ∉ path) (nameFree : slash ∉ p) :
    OneDeep (bytes "./" ++ (path ++ slash :: p)) :=
  fun _ => ⟨path, p, by rw [List.append_assoc], pathFree, nameFree⟩

/-- What `ls` keeps: every line it prints is one deep, and the buffer of
`fmtname` has no '/'. -/
def Keeps (r : Output × List UInt8) : Prop := (∀ line ∈ r.1.out, OneDeep line) ∧ slash ∉ r.2

theorem keeps_append {o : Output} {fmtbuf : List UInt8} {lines : List (List UInt8)} (before : Keeps (o, fmtbuf))
    (deep : ∀ line ∈ lines, OneDeep line) (err : List (List UInt8)) :
    Keeps (⟨o.out ++ lines, err⟩, fmtbuf) := by
  refine ⟨fun line mem => ?_, before.2⟩
  rcases List.mem_append.mp mem with old | new
  · exact before.1 line old
  · exact deep line new

theorem lsLoop_keeps {recurse : List UInt8 → List UInt8 → List UInt8 → Output × List UInt8}
    {filename : List UInt8} (inner : ∀ fmtbuf p, slash ∉ fmtbuf → slash ∉ p → Keeps (recurse fmtbuf p filename))
    (free : Nat) (w : World) {path : List UInt8} (pathFree : slash ∉ path) (names : List (List UInt8)) :
    ∀ (o : Output) (fmtbuf : List UInt8), (∀ p ∈ names, slash ∉ p) → Keeps (o, fmtbuf) →
      Keeps (lsLoop recurse free w path filename names o fmtbuf) := by
  induction names with
  | nil => exact fun o fmtbuf _ before => before
  | cons p names ih =>
    intro o fmtbuf namesFree before
    have nameFree := namesFree p List.mem_cons_self
    have restFree : ∀ q ∈ names, slash ∉ q := fun q mem => namesFree q (List.mem_cons_of_mem _ mem)
    simp only [lsLoop]
    split
    · exact ih _ _ restFree (keeps_append before (by simpa using cannotStat_oneDeep _) _)
    · split_ifs
      · have r := inner fmtbuf p before.2 nameFree
        exact ih _ _ restFree
          (keeps_append (show Keeps (o, (recurse fmtbuf p filename).2) from ⟨before.1, r.2⟩) r.1 _)
      · exact ih _ _ restFree (keeps_append before (by simpa using match_oneDeep pathFree nameFree) _)
      · exact ih _ _ restFree before

theorem ls_keeps {filename : List UInt8} (free : Nat) : ∀ (w : World) (fmtbuf path : List UInt8),
    w.SlashFree → slash ∉ fmtbuf → slash ∉ path → Keeps (ls free w fmtbuf path filename) := by
  induction free with
  | zero => exact fun _ _ _ _ bufFree _ => ⟨by simp [ls], bufFree⟩
  | succ free ih =>
    intro w fmtbuf path wf bufFree pathFree
    simp only [ls]
    split
    · exact ⟨by simp, bufFree⟩
    · obtain ⟨nameFree, bufFree'⟩ := fmtname_slashFree path bufFree
      exact ⟨by simpa using fileLine_oneDeep nameFree _ _, bufFree'⟩
    · exact ⟨by simp, bufFree⟩
    · next entries found =>
      split
      · refine ⟨fun line mem => ?_, bufFree⟩
        simp only [List.mem_singleton] at mem
        exact oneDeep_of_take (mem ▸ by decide)
      · have entriesFree : ∀ e ∈ entries, slash ∉ e.1 := by
          cases w.resolve_slashFree wf found with
          | dir names _ => exact names
        refine lsLoop_keeps (fun fb p fbFree pFree => ih w fb p wf fbFree pFree) _ w pathFree _ _ _
          (fun p mem => ?_) ⟨by simp, bufFree⟩
        simp only [List.mem_cons, List.mem_map] at mem
        rcases mem with rfl | rfl | ⟨e, mem, rfl⟩
        · decide
        · decide
        · exact fun inside => entriesFree e mem (List.mem_of_mem_take inside)

theorem main_oneDeep (w : World) (wf : w.SlashFree) (target : List UInt8) :
    ∀ line ∈ (main w [bytes "find", bytes ".", target]).out, OneDeep line :=
  (ls_keeps _ w _ _ wf (by decide) (by decide)).1

theorem find_misses_top_and_deep (w : World) (wf : w.SlashFree) (target : List UInt8) :
    (∀ x, slash ∉ x → bytes "./" ++ x ∉ (main w [bytes "find", bytes ".", target]).out) ∧
      ∀ a b x, slash ∉ a → slash ∉ b → slash ∉ x →
        bytes "./" ++ (a ++ slash :: b ++ slash :: x) ∉ (main w [bytes "find", bytes ".", target]).out := by
  have start : ∀ rest : List UInt8, (bytes "./" ++ rest).take 2 = bytes "./" := by
    intro rest
    rw [bytes_dot_slash]
    rfl
  constructor
  · intro x xFree printed
    obtain ⟨q, n, same, -, -⟩ := main_oneDeep w wf target _ printed (start x)
    simp only [List.append_assoc, List.append_cancel_left_eq] at same
    exact xFree (same ▸ List.mem_append_right q List.mem_cons_self)
  · intro a b x aFree bFree xFree printed
    obtain ⟨q, n, same, qFree, nFree⟩ := main_oneDeep w wf target _ printed (start _)
    simp only [List.append_assoc, List.append_cancel_left_eq] at same
    have counts := congrArg (List.count slash) same
    simp [List.count_append, List.count_eq_zero_of_not_mem, aFree, bFree, xFree, qFree, nFree] at counts

theorem find_misses_top_v :
    World.SlashFree ⟨.dir [(bytes "v", .file 5 3)], []⟩ ∧
      bytes "./" ++ bytes "v" ∉ (main ⟨.dir [(bytes "v", .file 5 3)], []⟩ [bytes "find", bytes ".", bytes "v"]).out ∧
      (main ⟨.dir [(bytes "v", .file 5 3)], []⟩ [bytes "find", bytes ".", bytes "v"]).out = [bytes "././v"] := by
  have wf : World.SlashFree ⟨.dir [(bytes "v", .file 5 3)], []⟩ := by
    intro n mem
    simp only [List.mem_cons, List.not_mem_nil, or_false] at mem
    subst mem
    refine .dir (fun e mem => ?_) (fun e mem => ?_)
    · simp only [List.mem_singleton] at mem
      subst mem
      decide
    · simp only [List.mem_singleton] at mem
      subst mem
      exact .file
  exact ⟨wf, (find_misses_top_and_deep _ wf (bytes "v")).1 (bytes "v") (by decide), by decide⟩

end Xv6.User
