import Mathlib

/-! The parser of `sh.c`: `gettoken`, `peek` and the recursive descent from
`parsecmd` down to `parseredirs`. A pointer `s` into the line is the suffix of
the line from `s` to `es`, so `*s` is its head, or the NUL at `es`. A counted
string `q`..`eq` is the word between two suffixes; `nulterminate` writes a NUL
at each `eq`, which never lies inside another word, so the word is what the
command sees. The descent runs on fuel: each call and each pass of a loop
spends one unit, and a `panic` is an error with its message. -/

namespace Xv6.Shell

/-- `O_RDONLY`, `O_WRONLY` and `O_CREATE` of `fcntl.h`. -/
def oRdonly : Nat := 0x000

def oWronly : Nat := 0x001

def oCreate : Nat := 0x200

/-- The parsed command, `struct cmd` and its five kinds. -/
inductive Cmd where
  | exec (argv : List (List Char))
  | redir (cmd : Cmd) (file : List Char) (mode : Nat) (fd : Nat)
  | pipe (left right : Cmd)
  | list (left right : Cmd)
  | back (cmd : Cmd)
  deriving DecidableEq, Repr

/-- A redirection: its file, mode and fd. -/
abbrev Redirection := List Char × Nat × Nat

/-- `cmd` under `redircmd` for each redirection, the first innermost. -/
def wrap (cmd : Cmd) (redirs : List Redirection) : Cmd :=
  redirs.foldl (fun c r => .redir c r.1 r.2.1 r.2.2) cmd

/-- The word from the suffix `q` to the suffix `eq`. -/
def word (q eq : List Char) : List Char :=
  q.take (q.length - eq.length)

/-- One stage of a pipeline, as the two shells' trees agree on it: its words, and its
redirections as `(fd, mode, file)` in the order `redircmd` wrapped them. -/
structure Stage where
  argv : List (List Char)
  redirs : List (Nat × Nat × List Char)
  deriving DecidableEq, Repr

/-- The stage a command without `|`, `;` or `&` is. -/
def Cmd.stage : Cmd → Option Stage
  | .exec argv => some ⟨argv, []⟩
  | .redir cmd file mode fd => cmd.stage.map fun st => ⟨st.argv, st.redirs ++ [(fd, mode, file)]⟩
  | _ => none

/-- The right-nested pipeline of stages. -/
def Cmd.pipeline : Cmd → Option (List Stage)
  | .pipe left right => do
    let first ← left.stage
    let rest ← right.pipeline
    return first :: rest
  | cmd => cmd.stage.map ([·])

namespace Sh

/-- `whitespace` and `symbols`. -/
def whitespace : List Char := [' ', '\t', '\r', '\n', '\x0B']

def symbols : List Char := ['<', '|', '>', '&', ';', '(', ')']

/-- `MAXARGS`. -/
def maxargs : Nat := 10

/-- `gettoken(ps, es, &q, &eq)`: the token's kind (`'a'` for a word, `'+'` for
`>>`, NUL at the end), where it starts and ends, and `*ps` after the whitespace
that follows it. -/
def gettoken (s : List Char) : Char × List Char × List Char × List Char :=
  let q := s.dropWhile (· ∈ whitespace)
  let (ret, eq) : Char × List Char := match q with
    | [] => ('\x00', [])
    | c :: rest =>
      if c ∈ ['|', '(', ')', ';', '&', '<'] then (c, rest)
      else if c = '>' then
        match rest with
        | '>' :: rest' => ('+', rest')
        | _ => ('>', rest)
      else ('a', q.dropWhile fun c => c ∉ whitespace ∧ c ∉ symbols)
  (ret, q, eq, eq.dropWhile (· ∈ whitespace))

/-- `peek(ps, es, toks)`: `*ps` after the whitespace, and whether a character
of `toks` stands there. -/
def peek (s : List Char) (toks : List Char) : List Char × Bool :=
  let s := s.dropWhile (· ∈ whitespace)
  (s, match s with
    | c :: _ => decide (c ∈ toks)
    | [] => false)

/-- `parseredirs`: the redirections from `s`, appended to `redirs`. -/
def parseredirs : Nat → List Redirection → List Char → Except String (List Redirection × List Char)
  | 0, _, _ => .error "fuel"
  | fuel + 1, redirs, s =>
    let (s, more) := peek s ['<', '>']
    if !more then .ok (redirs, s)
    else
      let (tok, _, _, s) := gettoken s
      let (kind, q, eq, s) := gettoken s
      if kind != 'a' then .error "missing file for redirection"
      else
        let redirs := match tok with
          | '<' => redirs ++ [(word q eq, oRdonly, 0)]
          | '>' => redirs ++ [(word q eq, oWronly ||| oCreate, 1)]
          | '+' => redirs ++ [(word q eq, oWronly ||| oCreate, 1)]
          | _ => redirs
        parseredirs fuel redirs s

mutual

/-- `parseline`: a pipeline, each `&` after it, and a `;` with the line after it. -/
def parseline : Nat → List Char → Except String (Cmd × List Char)
  | 0, _ => .error "fuel"
  | fuel + 1, s => do
    let (cmd, s) ← parsepipe fuel s
    let (cmd, s) ← backs fuel cmd s
    let (s, semi) := peek s [';']
    if semi then
      let (_, _, _, s) := gettoken s
      let (rest, s) ← parseline fuel s
      return (.list cmd rest, s)
    return (cmd, s)

/-- `parsepipe`: a command, and a `|` with the pipeline after it. -/
def parsepipe : Nat → List Char → Except String (Cmd × List Char)
  | 0, _ => .error "fuel"
  | fuel + 1, s => do
    let (cmd, s) ← parseexec fuel s
    let (s, bar) := peek s ['|']
    if bar then
      let (_, _, _, s) := gettoken s
      let (rest, s) ← parsepipe fuel s
      return (.pipe cmd rest, s)
    return (cmd, s)

/-- `parseblock`: a parenthesized line and the redirections after it. -/
def parseblock : Nat → List Char → Except String (Cmd × List Char)
  | 0, _ => .error "fuel"
  | fuel + 1, s => do
    let (s, paren) := peek s ['(']
    if !paren then throw "parseblock"
    let (_, _, _, s) := gettoken s
    let (cmd, s) ← parseline fuel s
    let (s, close) := peek s [')']
    if !close then throw "syntax - missing )"
    let (_, _, _, s) := gettoken s
    let (redirs, s) ← parseredirs fuel [] s
    return (wrap cmd redirs, s)

/-- `parseexec`: a block, or the words of a command with the redirections
before and between them, all of which wrap the one `execcmd`. -/
def parseexec : Nat → List Char → Except String (Cmd × List Char)
  | 0, _ => .error "fuel"
  | fuel + 1, s => do
    let (s', paren) := peek s ['(']
    if paren then return ← parseblock fuel s'
    let (redirs, s) ← parseredirs fuel [] s'
    let (argv, redirs, s) ← execWords fuel [] redirs s
    return (wrap (.exec argv) redirs, s)

/-- The loop of `parseexec` over the words. -/
def execWords : Nat → List (List Char) → List Redirection → List Char →
    Except String (List (List Char) × List Redirection × List Char)
  | 0, _, _, _ => .error "fuel"
  | fuel + 1, argv, redirs, s => do
    let (s, stop) := peek s ['|', ')', '&', ';']
    if stop then return (argv, redirs, s)
    let (tok, q, eq, s) := gettoken s
    if tok == '\x00' then return (argv, redirs, s)
    if tok != 'a' then throw "syntax"
    let argv := argv ++ [word q eq]
    if argv.length ≥ maxargs then throw "too many args"
    let (redirs, s) ← parseredirs fuel redirs s
    execWords fuel argv redirs s

/-- The loop of `parseline` over the `&`s. -/
def backs : Nat → Cmd → List Char → Except String (Cmd × List Char)
  | 0, _, _ => .error "fuel"
  | fuel + 1, cmd, s =>
    let (s, amp) := peek s ['&']
    if amp then
      let (_, _, _, s) := gettoken s
      backs fuel (.back cmd) s
    else .ok (cmd, s)

end

/-- `parsecmd(s)`: the command of the whole line, or the `panic` of a line
with leftovers. -/
def parsecmd (line : List Char) : Except String Cmd := do
  let (cmd, s) ← parseline (4 * (line.length + 1)) line
  let (s, _) := peek s []
  if s != [] then throw "syntax"
  return cmd

end Sh

end Xv6.Shell

