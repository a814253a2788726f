import Xv6.Shell.Sh

/-! The parser of `nsh.c`, over the same command trees as `sh.c`'s. Its
`gettoken` ends a word only at whitespace, `parseredir` takes at most one
redirection after each word, and `parsecmd` recurses through `parsepipe` for
the stages after a `|`. Nothing in it panics; the fuel plays the part it plays
for `sh`. -/

namespace Xv6.Shell

namespace Nsh

/-- `WHITECHARS`. -/
def whitechars : List Char := ['\t', '\n', ' ']

/-- `MAX_ARGV_LEN`: the `argv` and `eargv` slots of an `execcmd`. -/
def maxArgvLen : Nat := 10

/-- `gettoken(ps, es, &q, &eq)`: `'|'`, `'<'` or `'>'`, `'a'` for anything
else up to the next whitespace, NUL at the end. -/
def gettoken (s : List Char) : Char × List Char × List Char × List Char :=
  let q := s.dropWhile (· ∈ whitechars)
  let (ret, eq) : Char × List Char := match q with
    | [] => ('\x00', [])
    | c :: rest =>
      if c ∈ ['|', '<', '>'] then (c, rest)
      else ('a', q.dropWhile (· ∉ whitechars))
  (ret, q, eq, eq.dropWhile (· ∈ whitechars))

/-- `peek(ps, es, toks)`. -/
def peek (s : List Char) (toks : List Char) : List Char × Bool :=
  let s := s.dropWhile (· ∈ whitechars)
  (s, match s with
    | c :: _ => decide (c ∈ toks)
    | [] => false)

/-- `parseredir(cmd, ps, es)`: one redirection, if one stands at `s`; its file
is the next token, whatever its kind. -/
def parseredir (s : List Char) : Option Redirection × List Char :=
  let (s, more) := peek s ['<', '>']
  if !more then (none, s)
  else
    let (tok, _, _, s) := gettoken s
    let (fd, mode) := if tok == '<' then (0, oRdonly) else (1, oWronly ||| oCreate)
    let (_, q, eq, s) := gettoken s
    (some (word q eq, mode, fd), s)

/-- The loop of `parsecmd`: each token that is not `|` goes to the next `argv`
slot, and a redirection may follow it. -/
def parseWords : Nat → List (List Char) → List Redirection → List Char →
    Option (List (List Char) × List Redirection × List Char)
  | 0, _, _, _ => none
  | fuel + 1, argv, redirs, s =>
    let (s, bar) := peek s ['|']
    if bar then some (argv, redirs, s)
    else
      let (tok, q, eq, s) := gettoken s
      if tok == '\x00' then some (argv, redirs, s)
      else
        let (redir, s) := parseredir s
        parseWords fuel (argv ++ [word q eq]) (redirs ++ redir.toList) s

mutual

/-- `parsecmd(s)`, with the fuel of the model. -/
def parsecmd : Nat → List Char → Option Cmd
  | 0, _ => none
  | fuel + 1, s => do
    let (argv, redirs, s) ← parseWords fuel [] [] s
    let ret := wrap (.exec argv) redirs
    let (s, bar) := peek s ['|']
    if bar then
      let (_, _, _, s) := gettoken s
      parsepipe fuel ret s
    else return ret

/-- `parsepipe(cmd, s)`: `cmd` piped into the command of the rest. -/
def parsepipe : Nat → Cmd → List Char → Option Cmd
  | 0, _, _ => none
  | fuel + 1, cmd, s => (parsecmd fuel s).map (.pipe cmd)

end

/-- `main`'s `parsecmd(buf)` on a line. -/
def parseLine (line : List Char) : Option Cmd :=
  parsecmd (4 * (line.length + 1)) line

/-- Every `execcmd` of `cmd` wrote its words and the terminating `0` within its
`MAX_ARGV_LEN` slots. -/
def InSlots : Cmd → Prop
  | .exec argv => argv.length < maxArgvLen
  | .redir cmd _ _ _ => InSlots cmd
  | .pipe left right => InSlots left ∧ InSlots right
  | .list left right => InSlots left ∧ InSlots right
  | .back cmd => InSlots cmd

end Nsh

/-- Two redirections after one word: `sh` wraps the command in both, while
`nsh` takes the first and leaves `>` and the second file as words. -/
theorem nsh_splits_two_redirections :
    Sh.parsecmd "cat < a > b".toList =
        .ok (.redir (.redir (.exec ["cat".toList]) "a".toList oRdonly 0) "b".toList (oWronly ||| oCreate) 1) ∧
      Nsh.parseLine "cat < a > b".toList =
        some (.redir (.exec ["cat".toList, ">".toList, "b".toList]) "a".toList oRdonly 0) ∧
      (Cmd.redir (.redir (.exec ["cat".toList]) "a".toList oRdonly 0) "b".toList (oWronly ||| oCreate) 1).pipeline ≠
        (Cmd.redir (.exec ["cat".toList, ">".toList, "b".toList]) "a".toList oRdonly 0).pipeline :=
  ⟨by decide, by decide, by decide⟩

end Xv6.Shell
