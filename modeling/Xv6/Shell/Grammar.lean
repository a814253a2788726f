import Mathlib
import Xv6.Lib.Meets
import Xv6.Shell.Sh

/-! The language `sh.c`'s parser accepts, stated over the tokens of a reference
lexer: whitespace separates tokens, each of `<|>&;()` is a token of one
character except that `>>` is one token, and every other maximal run of
characters is a word. The grammar is

  line := pipe '&'* (';' line)?      pipe := exec ('|' pipe)?
  exec := '(' line ')' redir* | redir* (word redir*)*    redir := ('<' | '>' | '>>') word

with at most `MAXARGS - 1` words in an exec, and each derivation carries the
tree the parser builds for it. `gettoken` and `peek` read the line's tokens one
at a time, so every parsing function consumes a sequence of tokens; the three
results are that what a function consumes is derived, that a derivation is
consumed, and that the fuel never runs out on a line. -/

namespace Xv6.Shell

open Xv6.Lib

/-- A token of the reference lexer. -/
inductive Token where
  | word (w : List Char)
  | sym (c : Char)
  | append
  deriving DecidableEq, Repr

/-- The token `gettoken` reports as kind `kind`, the word being `w`: none at the end. -/
def Token.ofKind (kind : Char) (w : List Char) : Option Token :=
  if kind = '\x00' then none
  else if kind = 'a' then some (.word w)
  else if kind = '+' then some .append
  else some (.sym kind)

/-- The mode and descriptor `parseredirs` gives a redirection operator. -/
def Token.redirection : Token → Option (Nat × Nat)
  | .sym '<' => some (oRdonly, 0)
  | .sym '>' => some (oWronly ||| oCreate, 1)
  | .append => some (oWronly ||| oCreate, 1)
  | _ => none

namespace Sh

/-- A character of a word: neither whitespace nor a symbol. -/
def wordChar (c : Char) : Bool := decide (c ∉ whitespace ∧ c ∉ symbols)

/-- The reference lexer. -/
def lex : List Char → List Token
  | [] => []
  | c :: s =>
    if c ∈ whitespace then lex s
    else if c = '>' ∧ s.head? = some '>' then .append :: lex s.tail
    else if c ∈ symbols then .sym c :: lex s
    else .word (c :: s.takeWhile wordChar) :: lex (s.dropWhile wordChar)
termination_by s => s.length
decreasing_by
  all_goals simp only [List.length_cons]
  · omega
  · rw [List.length_tail]
    omega
  · omega
  · have := List.length_dropWhile_le wordChar s
    omega

/-- Whether the first token is one of the symbols `toks`, `>>` counting as `>`. -/
def opens (toks : List Char) : List Token → Bool
  | .sym c :: _ => decide (c ∈ toks)
  | .append :: _ => decide ('>' ∈ toks)
  | _ => false

/-- `redir*`, with the redirections in source order. -/
inductive Redirs : List Token → List Redirection → Prop
  | nil : Redirs [] []
  | cons {t : Token} {mode fd : Nat} {w : List Char} {ts : List Token} {rs : List Redirection} :
      t.redirection = some (mode, fd) → Redirs ts rs → Redirs (t :: .word w :: ts) ((w, mode, fd) :: rs)

/-- `(word redir*)*`: the words, and every redirection after one of them. -/
inductive Words : List Token → List (List Char) → List Redirection → Prop
  | nil : Words [] [] []
  | cons {w : List Char} {ts us : List Token} {rs rs' : List Redirection} {ws : List (List Char)} :
      Redirs ts rs → Words us ws rs' → Words (.word w :: ts ++ us) (w :: ws) (rs ++ rs')

mutual

/-- `line := pipe '&'* (';' line)?` and its tree. -/
inductive Line : List Token → Cmd → Prop
  | last {ts : List Token} {c : Cmd} (n : Nat) : Pipe ts c → Line (ts ++ List.replicate n (.sym '&')) (Cmd.back^[n] c)
  | list {ts us : List Token} {c d : Cmd} (n : Nat) : Pipe ts c → Line us d →
      Line (ts ++ List.replicate n (.sym '&') ++ .sym ';' :: us) (.list (Cmd.back^[n] c) d)

/-- `pipe := exec ('|' pipe)?` and its tree. -/
inductive Pipe : List Token → Cmd → Prop
  | one {ts : List Token} {c : Cmd} : Exec ts c → Pipe ts c
  | cons {ts us : List Token} {c d : Cmd} : Exec ts c → Pipe us d → Pipe (ts ++ .sym '|' :: us) (.pipe c d)

/-- `exec := '(' line ')' redir* | redir* (word redir*)*` and its tree, with at
most `MAXARGS - 1` words. -/
inductive Exec : List Token → Cmd → Prop
  | block {ts us : List Token} {c : Cmd} {rs : List Redirection} :
      Line ts c → Redirs us rs → Exec (.sym '(' :: ts ++ .sym ')' :: us) (wrap c rs)
  | simple {ts us : List Token} {rs rs' : List Redirection} {ws : List (List Char)} :
      Redirs ts rs → Words us ws rs' → ws.length < maxargs → Exec (ts ++ us) (wrap (.exec ws) (rs ++ rs'))

end

/-- The messages of the parser's `panic`s. -/
def panics : List String :=
  ["missing file for redirection", "parseblock", "syntax - missing )", "syntax", "too many args"]

section Lexer

variable {s s' q eq : List Char} {c kind : Char}

theorem lex_nil : lex [] = [] := by
  rw [lex]

theorem lex_cons (c : Char) (s : List Char) :
    lex (c :: s) =
      if c ∈ whitespace then lex s
      else if c = '>' ∧ s.head? = some '>' then .append :: lex s.tail
      else if c ∈ symbols then .sym c :: lex s
      else .word (c :: s.takeWhile wordChar) :: lex (s.dropWhile wordChar) := by
  rw [lex]

theorem lex_cons_of_whitespace (space : c ∈ whitespace) : lex (c :: s) = lex s := by
  rw [lex_cons, if_pos space]

@[simp] theorem lex_dropWhile (s : List Char) : lex (s.dropWhile (· ∈ whitespace)) = lex s := by
  induction s with
  | nil => rfl
  | cons c s ih =>
    by_cases space : c ∈ whitespace
    · rw [List.dropWhile_cons_of_pos (by simpa using space), ih, lex_cons_of_whitespace space]
    · rw [List.dropWhile_cons_of_neg (by simpa using space)]

theorem lex_eq_nil_iff : lex s = [] ↔ s.dropWhile (· ∈ whitespace) = [] := by
  induction s with
  | nil => simp [lex_nil]
  | cons c s ih =>
    by_cases space : c ∈ whitespace
    · rw [List.dropWhile_cons_of_pos (by simpa using space), lex_cons_of_whitespace space, ih]
    · rw [List.dropWhile_cons_of_neg (by simpa using space), lex_cons, if_neg space]
      simp only [reduceCtorEq, iff_false]
      split_ifs <;> simp

theorem not_of_dropWhile_eq_cons {p : Char → Bool} {rest : List Char} (dropped : s.dropWhile p = c :: rest) :
    p c = false := by
  have := List.head_dropWhile_not p (l := s) (by simp [dropped])
  simpa [dropped] using this

theorem word_dropWhile (p : Char → Bool) (q : List Char) : word q (q.dropWhile p) = q.takeWhile p := by
  have whole := List.takeWhile_append_dropWhile (p := p) (l := q)
  have len : q.length - (q.dropWhile p).length = (q.takeWhile p).length := by
    rw [← whole, List.length_append]
    simp
  rw [word, len]
  calc q.take (q.takeWhile p).length = (q.takeWhile p ++ q.dropWhile p).take (q.takeWhile p).length := by
        rw [whole]
    _ = q.takeWhile p := List.take_left

theorem gettoken_spec (h : gettoken s = (kind, q, eq, s')) :
    lex s = (Token.ofKind kind (word q eq)).toList ++ lex s' ∧ s'.length ≤ s.length ∧
      (kind = '\x00' → s' = []) ∧ (kind ≠ '\x00' → s'.length < s.length) := by
  have shorter := List.length_dropWhile_le (· ∈ whitespace) s
  have head : ∀ c rest, s.dropWhile (· ∈ whitespace) = c :: rest → c ∉ whitespace := fun c rest dropped => by
    simpa using not_of_dropWhile_eq_cons dropped
  rw [← lex_dropWhile s]
  unfold gettoken at h
  generalize s.dropWhile (· ∈ whitespace) = q0 at h head shorter
  cases q0 with
  | nil =>
    simp only [Prod.mk.injEq] at h
    obtain ⟨rfl, rfl, rfl, rfl⟩ := h
    simp [Token.ofKind, lex_nil]
  | cons c rest =>
    have notSpace := head c rest rfl
    have restShort := List.length_dropWhile_le (· ∈ whitespace) rest
    simp only [List.length_cons] at shorter
    simp only at h
    split_ifs at h with isSym isGt
    · simp only [Prod.mk.injEq] at h
      obtain ⟨rfl, rfl, rfl, rfl⟩ := h
      have other : c ≠ '\x00' ∧ c ≠ 'a' ∧ c ≠ '+' ∧ c ≠ '>' ∧ c ∈ symbols := by
        simp only [List.mem_cons, List.not_mem_nil, or_false] at isSym
        rcases isSym with rfl | rfl | rfl | rfl | rfl | rfl <;> decide
      rw [lex_cons, if_neg notSpace, if_neg fun h => other.2.2.2.1 h.1, if_pos other.2.2.2.2, Token.ofKind,
        if_neg other.1, if_neg other.2.1, if_neg other.2.2.1, lex_dropWhile]
      exact ⟨rfl, by omega, fun h => absurd h other.1, fun _ => by omega⟩
    · subst isGt
      split at h
      · next rest' =>
        simp only [Prod.mk.injEq] at h
        obtain ⟨rfl, rfl, rfl, rfl⟩ := h
        rw [lex_cons, if_neg notSpace, if_pos ⟨rfl, rfl⟩, lex_dropWhile]
        have := List.length_dropWhile_le (· ∈ whitespace) rest'
        simp only [List.length_cons] at shorter ⊢
        exact ⟨by simp [Token.ofKind], by omega, fun h => absurd h (by decide), fun _ => by omega⟩
      · next single =>
        simp only [Prod.mk.injEq] at h
        obtain ⟨rfl, rfl, rfl, rfl⟩ := h
        have noSecond : rest.head? ≠ some '>' := by
          cases rest with
          | nil => simp
          | cons d rest' =>
            simp only [List.head?_cons, ne_eq, Option.some.injEq]
            rintro rfl
            exact single rest' rfl
        rw [lex_cons, if_neg notSpace, if_neg fun h => noSecond h.2, if_pos (by decide), lex_dropWhile]
        exact ⟨by simp [Token.ofKind], by omega, fun h => absurd h (by decide), fun _ => by omega⟩
    · simp only [Prod.mk.injEq] at h
      obtain ⟨rfl, rfl, rfl, rfl⟩ := h
      have notSym : c ∉ symbols := by
        simp only [symbols, List.mem_cons, List.not_mem_nil, or_false] at isSym ⊢
        tauto
      have isWord : wordChar c = true := by simp [wordChar, notSpace, notSym]
      have dropped := List.length_dropWhile_le wordChar rest
      rw [show (fun c => decide (c ∉ whitespace ∧ c ∉ symbols)) = wordChar from rfl, word_dropWhile,
        List.takeWhile_cons_of_pos isWord, List.dropWhile_cons_of_pos isWord, lex_cons, if_neg notSpace,
        if_neg fun h => isGt h.1, if_neg notSym, lex_dropWhile]
      have wordLen := List.length_dropWhile_le (· ∈ whitespace) (rest.dropWhile wordChar)
      exact ⟨by simp [Token.ofKind], by omega, fun h => absurd h (by decide), fun _ => by omega⟩

theorem peek_eq {toks : List Char} (within : ∀ c ∈ toks, c ∈ symbols) (s : List Char) :
    peek s toks = (s.dropWhile (· ∈ whitespace), opens toks (lex s)) := by
  have head : ∀ c rest, s.dropWhile (· ∈ whitespace) = c :: rest → c ∉ whitespace := fun c rest dropped => by
    simpa using not_of_dropWhile_eq_cons dropped
  rw [← lex_dropWhile s, peek]
  generalize s.dropWhile (· ∈ whitespace) = q0 at head
  cases q0 with
  | nil => simp [lex_nil, opens]
  | cons c rest =>
    have notSpace := head c rest rfl
    simp only [Prod.mk.injEq, true_and]
    rw [lex_cons, if_neg notSpace]
    split_ifs with gt sym
    · rw [opens, gt.1]
    · rfl
    · simp only [opens, decide_eq_false_iff_not]
      exact fun mem => sym (within c mem)

theorem ofKind_eq_none {w : List Char} : Token.ofKind kind w = none ↔ kind = '\x00' := by
  delta Token.ofKind
  split_ifs <;> simp_all

theorem ofKind_eq_sym {w : List Char} (h : Token.ofKind kind w = some (.sym c)) : kind = c := by
  delta Token.ofKind at h
  split_ifs at h <;> simp_all

theorem ofKind_eq_append {w : List Char} (h : Token.ofKind kind w = some .append) : kind = '+' := by
  delta Token.ofKind at h
  split_ifs at h <;> simp_all

theorem ofKind_eq_word {w v : List Char} (h : Token.ofKind kind w = some (.word v)) : kind = 'a' ∧ v = w := by
  delta Token.ofKind at h
  split_ifs at h <;> simp_all

theorem gettoken_head {t : Token} {rest : List Token} (h : gettoken s = (kind, q, eq, s'))
    (first : lex s = t :: rest) : Token.ofKind kind (word q eq) = some t ∧ lex s' = rest ∧ s'.length < s.length := by
  obtain ⟨lexed, -, atEnd, shorter⟩ := gettoken_spec h
  cases reported : Token.ofKind kind (word q eq) with
  | none =>
    have nul := ofKind_eq_none.mp reported
    rw [reported, atEnd nul] at lexed
    simp [lex_nil] at lexed
    simp [lexed] at first
  | some t' =>
    rw [reported, first] at lexed
    simp only [Option.toList_some, List.cons_append, List.nil_append, List.cons.injEq] at lexed
    exact ⟨by rw [lexed.1], lexed.2.symm, shorter (fun nul => by simp [ofKind_eq_none.mpr nul] at reported)⟩

end Lexer

/-! ## What the parser consumes is derived -/

/-- A parsing function stopped: the fuel ran out, or it panicked. -/
def aborts (e : String) : Prop := e = "fuel" ∨ e ∈ panics

/-- A parsing function's result from `s`: what it leaves is a suffix of `s`,
and the tokens it consumed derive its value. -/
def Consumed {α : Type} (derives : List Token → α → Prop) (s : List Char) : α × List Char → Prop
  | (a, r) => r.length ≤ s.length ∧ ∃ ts, lex s = ts ++ lex r ∧ derives ts a

section Sound

variable {s : List Char}

theorem Consumed.intro {α : Type} {derives : List Token → α → Prop} {a : α} {r : List Char}
    (shorter : r.length ≤ s.length) (ts : List Token) (lexed : lex s = ts ++ lex r) (derived : derives ts a) :
    Consumed derives s (a, r) :=
  ⟨shorter, ts, lexed, derived⟩

theorem opens_redirection {ts : List Token} (h : opens ['<', '>'] ts = true) :
    ∃ t rest, ts = t :: rest ∧ (t = .sym '<' ∨ t = .sym '>' ∨ t = .append) := by
  match ts, h with
  | .sym c :: rest, h =>
    simp only [opens, List.mem_cons, List.not_mem_nil, or_false, decide_eq_true_eq] at h
    rcases h with rfl | rfl
    · exact ⟨_, rest, rfl, .inl rfl⟩
    · exact ⟨_, rest, rfl, .inr (.inl rfl)⟩
  | .append :: rest, _ => exact ⟨_, rest, rfl, .inr (.inr rfl)⟩

theorem Consumed.redirection {s' : List Char} {t : Token} {w : List Char} {mode fd : Nat} {redirs : List Redirection}
    {x : Except String (List Redirection × List Char)} (red : t.redirection = some (mode, fd))
    (lexed : lex s = t :: .word w :: lex s') (shorter : s'.length < s.length)
    (rest : Meets aborts (Consumed (fun ts rs' => ∃ rs, Redirs ts rs ∧ rs' = (redirs ++ [(w, mode, fd)]) ++ rs) s') x) :
    Meets aborts (Consumed (fun ts rs' => ∃ rs, Redirs ts rs ∧ rs' = redirs ++ rs) s) x := by
  refine rest.mono ?_
  rintro ⟨rs', r⟩ ⟨len, ts, lexR, rs, redirsTs, rfl⟩
  exact ⟨by omega, t :: .word w :: ts, by rw [lexed, lexR]; rfl, (w, mode, fd) :: rs, .cons red redirsTs, by simp⟩

/-- What `parseredirs` after `redirs` consumes: redirections, added to `redirs`. -/
def Redirected (redirs : List Redirection) : List Char → List Redirection × List Char → Prop :=
  Consumed fun ts rs' => ∃ rs, Redirs ts rs ∧ rs' = redirs ++ rs

theorem parseredirs_sound : ∀ F (redirs : List Redirection) (s : List Char),
    Meets aborts (Redirected redirs s) (parseredirs F redirs s)
  | 0, _, _ => .inl rfl
  | F + 1, redirs, s => by
    rw [parseredirs, peek_eq (by simp [symbols]) s]
    dsimp only
    cases more : opens ['<', '>'] (lex s) with
    | false => exact ⟨List.length_dropWhile_le _ _, [], by simp, [], .nil, by simp⟩
    | true =>
      obtain ⟨t, rest, first, kinds⟩ := opens_redirection more
      rcases h1 : gettoken (s.dropWhile (· ∈ whitespace)) with ⟨tok, q1, eq1, s1⟩
      rcases h2 : gettoken s1 with ⟨kind, q, eq, s2⟩
      obtain ⟨reported, lex1, short1⟩ := gettoken_head h1 (by rw [lex_dropWhile, first])
      have short0 := List.length_dropWhile_le (· ∈ whitespace) s
      simp only [Bool.not_true, Bool.false_eq_true, if_false]
      split_ifs with notWord
      · exact .inr (by simp [panics])
      · have isWord : kind = 'a' := by simpa using notWord
        obtain ⟨lex2, short2, -, -⟩ := gettoken_spec h2
        rw [isWord, Token.ofKind, if_neg (by decide), if_pos rfl] at lex2
        have lexed : lex s = t :: .word (word q eq) :: lex s2 := by rw [first, ← lex1, lex2]; rfl
        rcases kinds with rfl | rfl | rfl
        · rw [ofKind_eq_sym reported]
          exact Consumed.redirection rfl lexed (by omega) (parseredirs_sound F _ s2)
        · rw [ofKind_eq_sym reported]
          exact Consumed.redirection rfl lexed (by omega) (parseredirs_sound F _ s2)
        · rw [ofKind_eq_append reported]
          exact Consumed.redirection rfl lexed (by omega) (parseredirs_sound F _ s2)

theorem opens_single {c : Char} (notGt : c ≠ '>') {ts : List Token} (h : opens [c] ts = true) :
    ∃ rest, ts = .sym c :: rest := by
  match ts, h with
  | .sym d :: rest, h =>
    simp only [opens, List.mem_cons, List.not_mem_nil, or_false, decide_eq_true_eq] at h
    exact ⟨rest, by rw [h]⟩
  | .append :: rest, h =>
    simp only [opens, List.mem_cons, List.not_mem_nil, or_false, decide_eq_true_eq] at h
    exact absurd h.symm notGt

theorem gettoken_symbol {c kind : Char} {q eq s' : List Char} (notGt : c ≠ '>')
    (seen : opens [c] (lex s) = true) (h : gettoken (s.dropWhile (· ∈ whitespace)) = (kind, q, eq, s')) :
    ∃ rest, lex s = .sym c :: rest ∧ lex s' = rest ∧ s'.length < s.length := by
  obtain ⟨rest, first⟩ := opens_single notGt seen
  obtain ⟨-, lexed, shorter⟩ := gettoken_head h (by rw [lex_dropWhile, first])
  exact ⟨rest, first, lexed, Nat.lt_of_lt_of_le shorter (List.length_dropWhile_le _ _)⟩

/-- What `backs` from `cmd` consumes: `n` ampersands, and `cmd` under `n` `backcmd`s. -/
def Backed (cmd : Cmd) : List Char → Cmd × List Char → Prop :=
  Consumed fun ts c => ∃ n, ts = List.replicate n (.sym '&') ∧ c = Cmd.back^[n] cmd

theorem backs_sound_step {F : Nat} (rest : ∀ cmd s, Meets aborts (Backed cmd s) (backs F cmd s)) (cmd : Cmd)
    (s : List Char) : Meets aborts (Backed cmd s) (backs (F + 1) cmd s) := by
  rw [backs, peek_eq (by simp [symbols]) s]
  dsimp only
  cases amp : opens ['&'] (lex s) with
  | false => exact ⟨List.length_dropWhile_le _ _, [], by simp, 0, rfl, rfl⟩
  | true =>
    rcases h1 : gettoken (s.dropWhile (· ∈ whitespace)) with ⟨kind, q, eq, s1⟩
    obtain ⟨rest', first, lex1, short1⟩ := gettoken_symbol (by decide) amp h1
    rw [if_pos rfl]
    refine (rest (.back cmd) s1).mono ?_
    rintro ⟨c', r⟩ ⟨len, _, lexR, n, rfl, rfl⟩
    refine ⟨by omega, List.replicate (n + 1) (.sym '&'), ?_, n + 1, rfl, Function.iterate_succ_apply _ _ _⟩
    rw [first, ← lex1, lexR, List.replicate_succ]
    rfl

/-- What `execWords` after `argv` and `redirs` consumes: words, each with the
redirections after it, added to the two lists, and fewer than `MAXARGS` words. -/
def WordsFrom (argv : List (List Char)) (redirs : List Redirection) (s : List Char) :
    List (List Char) × List Redirection × List Char → Prop
  | (argv', redirs', r) => r.length ≤ s.length ∧ ∃ us ws rs, lex s = us ++ lex r ∧ Words us ws rs ∧
      argv' = argv ++ ws ∧ redirs' = redirs ++ rs ∧ argv'.length < maxargs

theorem execWords_sound_step {F : Nat}
    (rest : ∀ argv redirs s, argv.length < maxargs → Meets aborts (WordsFrom argv redirs s) (execWords F argv redirs s))
    (argv : List (List Char)) (redirs : List Redirection) (s : List Char) (few : argv.length < maxargs) :
    Meets aborts (WordsFrom argv redirs s) (execWords (F + 1) argv redirs s) := by
  have short0 := List.length_dropWhile_le (· ∈ whitespace) s
  rw [execWords, peek_eq (by simp [symbols]) s]
  dsimp only
  cases stop : opens ['|', ')', '&', ';'] (lex s) with
  | true => exact ⟨short0, [], [], [], by simp, .nil, by simp, by simp, few⟩
  | false =>
    rcases h1 : gettoken (s.dropWhile (· ∈ whitespace)) with ⟨tok, q, eq, s1⟩
    obtain ⟨lex1, len1, atEnd, short1⟩ := gettoken_spec h1
    rw [lex_dropWhile] at lex1
    simp only [Bool.false_eq_true, if_false]
    split_ifs with nul notWord tooMany
    · have nul : tok = '\x00' := by simpa using nul
      rw [ofKind_eq_none.mpr nul] at lex1
      exact ⟨by omega, [], [], [], by simpa using lex1, .nil, by simp, by simp, few⟩
    · exact meets_bind (meets_throw (.inr (by simp [panics])))
    · exact meets_bind (meets_throw (.inr (by simp [panics])))
    · exact meets_bind (meets_throw (.inr (by simp [panics])))
    · have isWord : tok = 'a' := by simpa using notWord
      rw [isWord, Token.ofKind, if_neg (by decide), if_pos rfl] at lex1
      have more : (argv ++ [word q eq]).length < maxargs := Nat.lt_of_not_le (by assumption)
      apply meets_bind
      refine (parseredirs_sound F redirs s1).mono ?_
      rintro ⟨rs1, s2⟩ ⟨len2, ts, lex2, rs, redirsTs, rfl⟩
      refine (rest _ _ s2 more).mono ?_
      rintro ⟨argv', redirs', r⟩ ⟨len3, us, ws, rs', lex3, words, rfl, rfl, few'⟩
      refine ⟨by omega, .word (word q eq) :: ts ++ us, word q eq :: ws, rs ++ rs', ?_, .cons redirsTs words,
        by simp, by simp, few'⟩
      rw [lex1, lex2, lex3]
      simp

theorem parseblock_sound_step {F : Nat} (line : ∀ s, Meets aborts (Consumed Line s) (parseline F s))
    (s : List Char) : Meets aborts (Consumed Exec s) (parseblock (F + 1) s) := by
  rw [parseblock, peek_eq (by simp [symbols]) s]
  dsimp only
  cases paren : opens ['('] (lex s) with
  | false => exact meets_bind (meets_throw (.inr (by simp [panics])))
  | true =>
    rcases h1 : gettoken (s.dropWhile (· ∈ whitespace)) with ⟨kind1, q1, eq1, s1⟩
    obtain ⟨_, first1, lex1, short1⟩ := gettoken_symbol (by decide) paren h1
    simp only [Bool.not_true, Bool.false_eq_true, if_false]
    apply meets_bind
    refine (line s1).mono ?_
    rintro ⟨c2, s2⟩ ⟨len2, ts2, lex2, line2⟩
    dsimp only
    rw [peek_eq (by simp [symbols]) s2]
    dsimp only
    cases close : opens [')'] (lex s2) with
    | false => exact meets_bind (meets_throw (.inr (by simp [panics])))
    | true =>
      rcases h3 : gettoken (s2.dropWhile (· ∈ whitespace)) with ⟨kind3, q3, eq3, s3⟩
      obtain ⟨_, first3, lex3, short3⟩ := gettoken_symbol (by decide) close h3
      simp only [Bool.not_true, Bool.false_eq_true, if_false]
      apply meets_bind
      refine (parseredirs_sound F [] s3).mono ?_
      rintro ⟨rs4, s4⟩ ⟨len4, ts4, lex4, rs, redirs4, rfl⟩
      dsimp only
      refine Consumed.intro (by omega) (.sym '(' :: ts2 ++ .sym ')' :: ts4) ?_ (.block line2 redirs4)
      rw [first1, ← lex1, lex2, first3, ← lex3, lex4]
      simp

theorem parseexec_sound_step {F : Nat} (block : ∀ s, Meets aborts (Consumed Exec s) (parseblock F s))
    (words : ∀ argv redirs s, argv.length < maxargs → Meets aborts (WordsFrom argv redirs s) (execWords F argv redirs s))
    (s : List Char) : Meets aborts (Consumed Exec s) (parseexec (F + 1) s) := by
  have short0 := List.length_dropWhile_le (· ∈ whitespace) s
  rw [parseexec, peek_eq (by simp [symbols]) s]
  dsimp only
  cases paren : opens ['('] (lex s) with
  | true =>
    simp only [if_true]
    refine (block _).mono ?_
    rintro ⟨c, r⟩ ⟨len, ts, lexR, exec⟩
    exact ⟨by omega, ts, by rw [← lex_dropWhile s, lexR], exec⟩
  | false =>
    simp only [Bool.false_eq_true, if_false]
    apply meets_bind
    refine (parseredirs_sound F [] _).mono ?_
    rintro ⟨rs1, s1⟩ ⟨len1, ts1, lex1, rs, redirs1, rfl⟩
    apply meets_bind
    refine (words [] _ s1 (by decide)).mono ?_
    rintro ⟨argv, redirs', r⟩ ⟨len2, us, ws, rs', lex2, words2, rfl, rfl, few⟩
    dsimp only
    exact Consumed.intro (by omega) (ts1 ++ us) (by rw [← lex_dropWhile s, lex1, lex2, List.append_assoc])
      (by simpa using Exec.simple redirs1 words2 (by simpa using few))

theorem parsepipe_sound_step {F : Nat} (exec : ∀ s, Meets aborts (Consumed Exec s) (parseexec F s))
    (pipe : ∀ s, Meets aborts (Consumed Pipe s) (parsepipe F s))
    (s : List Char) : Meets aborts (Consumed Pipe s) (parsepipe (F + 1) s) := by
  rw [parsepipe]
  apply meets_bind
  refine (exec s).mono ?_
  rintro ⟨c1, s1⟩ ⟨len1, ts1, lex1, exec1⟩
  dsimp only
  rw [peek_eq (by simp [symbols]) s1]
  dsimp only
  have short1 := List.length_dropWhile_le (· ∈ whitespace) s1
  cases bar : opens ['|'] (lex s1) with
  | false =>
    simp only [Bool.false_eq_true, if_false]
    exact ⟨by omega, ts1, by rw [lex1, lex_dropWhile], .one exec1⟩
  | true =>
    rcases h2 : gettoken (s1.dropWhile (· ∈ whitespace)) with ⟨kind2, q2, eq2, s2⟩
    obtain ⟨_, first2, lex2, short2⟩ := gettoken_symbol (by decide) bar h2
    simp only [if_true]
    apply meets_bind
    refine (pipe s2).mono ?_
    rintro ⟨c3, s3⟩ ⟨len3, ts3, lex3, pipe3⟩
    dsimp only
    refine Consumed.intro (by omega) (ts1 ++ .sym '|' :: ts3) ?_ (.cons exec1 pipe3)
    rw [lex1, first2, ← lex2, lex3]
    simp

theorem parseline_sound_step {F : Nat} (pipe : ∀ s, Meets aborts (Consumed Pipe s) (parsepipe F s))
    (backed : ∀ cmd s, Meets aborts (Backed cmd s) (backs F cmd s))
    (line : ∀ s, Meets aborts (Consumed Line s) (parseline F s))
    (s : List Char) : Meets aborts (Consumed Line s) (parseline (F + 1) s) := by
  rw [parseline]
  apply meets_bind
  refine (pipe s).mono ?_
  rintro ⟨c1, s1⟩ ⟨len1, ts1, lex1, pipe1⟩
  apply meets_bind
  refine (backed c1 s1).mono ?_
  rintro ⟨c2, s2⟩ ⟨len2, _, lex2, n, rfl, rfl⟩
  dsimp only
  rw [peek_eq (by simp [symbols]) s2]
  dsimp only
  have short2 := List.length_dropWhile_le (· ∈ whitespace) s2
  cases semi : opens [';'] (lex s2) with
  | false =>
    simp only [Bool.false_eq_true, if_false]
    exact ⟨by omega, ts1 ++ List.replicate n (.sym '&'), by rw [lex1, lex2, lex_dropWhile, List.append_assoc],
      .last n pipe1⟩
  | true =>
    rcases h3 : gettoken (s2.dropWhile (· ∈ whitespace)) with ⟨kind3, q3, eq3, s3⟩
    obtain ⟨_, first3, lex3, short3⟩ := gettoken_symbol (by decide) semi h3
    simp only [if_true]
    apply meets_bind
    refine (line s3).mono ?_
    rintro ⟨c4, s4⟩ ⟨len4, ts4, lex4, line4⟩
    dsimp only
    refine Consumed.intro (by omega) (ts1 ++ List.replicate n (.sym '&') ++ .sym ';' :: ts4) ?_ (.list n pipe1 line4)
    rw [lex1, lex2, first3, ← lex3, lex4]
    simp

theorem parse_sound : ∀ F,
    (∀ s, Meets aborts (Consumed Line s) (parseline F s)) ∧
    (∀ s, Meets aborts (Consumed Pipe s) (parsepipe F s)) ∧
    (∀ s, Meets aborts (Consumed Exec s) (parseexec F s)) ∧
    (∀ s, Meets aborts (Consumed Exec s) (parseblock F s)) ∧
    (∀ argv redirs s, argv.length < maxargs → Meets aborts (WordsFrom argv redirs s) (execWords F argv redirs s)) ∧
    (∀ cmd s, Meets aborts (Backed cmd s) (backs F cmd s))
  | 0 => by
    refine ⟨fun s => ?_, fun s => ?_, fun s => ?_, fun s => ?_, fun argv redirs s _ => ?_, fun cmd s => ?_⟩
    · rw [parseline]; exact .inl rfl
    · rw [parsepipe]; exact .inl rfl
    · rw [parseexec]; exact .inl rfl
    · rw [parseblock]; exact .inl rfl
    · rw [execWords]; exact .inl rfl
    · rw [backs]; exact .inl rfl
  | F + 1 => by
    obtain ⟨line, pipe, exec, block, words, backed⟩ := parse_sound F
    exact ⟨parseline_sound_step pipe backed line, parsepipe_sound_step exec pipe, parseexec_sound_step block words,
      parseblock_sound_step line, execWords_sound_step words, backs_sound_step backed⟩

end Sound

/-! ## A derivation is consumed -/

/-- What may follow a phrase: the end of the line, or one of the symbols `toks`. -/
def Ends (toks : List Char) (rest : List Token) : Prop := rest = [] ∨ opens toks rest = true

/-- The symbols that end an exec, a pipe and a line. -/
def execEnds : List Char := ['|', ')', '&', ';']

def pipeEnds : List Char := [')', '&', ';']

section Complete

variable {s : List Char} {rest : List Token}

theorem redirection_cases {t : Token} {mode fd : Nat} (red : t.redirection = some (mode, fd)) :
    (t = .sym '<' ∧ mode = oRdonly ∧ fd = 0) ∨ (t = .sym '>' ∧ mode = oWronly ||| oCreate ∧ fd = 1) ∨
      (t = .append ∧ mode = oWronly ||| oCreate ∧ fd = 1) := by
  unfold Token.redirection at red
  split at red <;> simp_all

theorem Ends.no_redirection (ends : Ends execEnds rest) : opens ['<', '>'] rest = false := by
  rcases ends with rfl | ends
  · rfl
  · match rest, ends with
    | .sym c :: _, ends =>
      simp only [opens, execEnds, List.mem_cons, List.not_mem_nil, or_false, decide_eq_true_eq] at ends ⊢
      rcases ends with rfl | rfl | rfl | rfl <;> decide

theorem Words.no_redirection {us : List Token} {ws : List (List Char)} {rs : List Redirection}
    (words : Words us ws rs) (ends : Ends execEnds rest) : opens ['<', '>'] (us ++ rest) = false := by
  cases words with
  | nil => exact ends.no_redirection
  | cons => rfl

theorem parseredirs_complete {ts : List Token} {rs : List Redirection} (derived : Redirs ts rs) :
    ∀ F redirs s, lex s = ts ++ rest → opens ['<', '>'] rest = false →
      Meets (· = "fuel") (fun p => p.1 = redirs ++ rs ∧ lex p.2 = rest) (parseredirs F redirs s) := by
  induction derived with
  | nil =>
    rintro (_ | F) redirs s lexed stops
    · rfl
    · rw [parseredirs, peek_eq (by simp [symbols]) s]
      dsimp only
      rw [lexed, List.nil_append, stops]
      exact ⟨by simp, by rw [lex_dropWhile, lexed, List.nil_append]⟩
  | @cons t mode fd w ts' rs' red derived' ih =>
    rintro (_ | F) redirs s lexed stops
    · rfl
    · rw [parseredirs, peek_eq (by simp [symbols]) s]
      dsimp only
      have opened : opens ['<', '>'] (lex s) = true := by
        rw [lexed]
        rcases redirection_cases red with ⟨rfl, -⟩ | ⟨rfl, -⟩ | ⟨rfl, -⟩ <;> rfl
      rw [opened]
      simp only [Bool.not_true, Bool.false_eq_true, if_false]
      rcases h1 : gettoken (s.dropWhile (· ∈ whitespace)) with ⟨tok, q1, eq1, s1⟩
      obtain ⟨reported, lex1, -⟩ := gettoken_head h1 (by rw [lex_dropWhile, lexed]; rfl)
      rcases h2 : gettoken s1 with ⟨kind, q, eq, s2⟩
      obtain ⟨isWord, lex2, -⟩ := gettoken_head h2 lex1
      obtain ⟨rfl, rfl⟩ := ofKind_eq_word isWord
      simp only [bne_self_eq_false, Bool.false_eq_true, if_false]
      rcases redirection_cases red with ⟨rfl, rfl, rfl⟩ | ⟨rfl, rfl, rfl⟩ | ⟨rfl, rfl, rfl⟩
      · rw [ofKind_eq_sym reported]
        exact (ih F _ s2 lex2 stops).mono fun p ⟨rs'', lexR⟩ => ⟨by simp [rs''], lexR⟩
      · rw [ofKind_eq_sym reported]
        exact (ih F _ s2 lex2 stops).mono fun p ⟨rs'', lexR⟩ => ⟨by simp [rs''], lexR⟩
      · rw [ofKind_eq_append reported]
        exact (ih F _ s2 lex2 stops).mono fun p ⟨rs'', lexR⟩ => ⟨by simp [rs''], lexR⟩

theorem Ends.mono {toks toks' : List Char} (ends : Ends toks rest) (sub : ∀ c ∈ toks, c ∈ toks') : Ends toks' rest := by
  rcases ends with rfl | ends
  · exact .inl rfl
  · refine .inr ?_
    match rest, ends with
    | .sym c :: _, ends =>
      simp only [opens, decide_eq_true_eq] at ends ⊢
      exact sub c ends
    | .append :: _, ends =>
      simp only [opens, decide_eq_true_eq] at ends ⊢
      exact sub '>' ends

theorem Ends.opens_false {toks toks' : List Char} (ends : Ends toks rest) (apart : ∀ c ∈ toks, c ∉ toks')
    (noGt : '>' ∉ toks') : opens toks' rest = false := by
  rcases ends with rfl | ends
  · rfl
  · match rest, ends with
    | .sym c :: _, ends =>
      simp only [opens, decide_eq_true_eq, decide_eq_false_iff_not] at ends ⊢
      exact apart c ends
    | .append :: _, _ =>
      simp only [opens, decide_eq_false_iff_not]
      exact noGt

theorem backs_complete (n : Nat) : ∀ F cmd s, lex s = List.replicate n (.sym '&') ++ rest →
    opens ['&'] rest = false →
      Meets (· = "fuel") (fun p => p.1 = Cmd.back^[n] cmd ∧ lex p.2 = rest) (backs F cmd s) := by
  induction n with
  | zero =>
    rintro (_ | F) cmd s lexed stops
    · rfl
    · rw [backs, peek_eq (by simp [symbols]) s]
      dsimp only
      rw [lexed, List.replicate_zero, List.nil_append, stops]
      exact ⟨rfl, by rw [lex_dropWhile, lexed, List.replicate_zero, List.nil_append]⟩
  | succ n ih =>
    rintro (_ | F) cmd s lexed stops
    · rfl
    · have amp : opens ['&'] (lex s) = true := by rw [lexed, List.replicate_succ]; rfl
      rw [backs, peek_eq (by simp [symbols]) s]
      dsimp only
      rw [amp, if_pos rfl]
      rcases h1 : gettoken (s.dropWhile (· ∈ whitespace)) with ⟨kind, q, eq, s1⟩
      obtain ⟨-, lex1, -⟩ := gettoken_head h1 (by rw [lex_dropWhile, lexed, List.replicate_succ]; rfl)
      exact (ih F (.back cmd) s1 lex1 stops).mono fun p ⟨backed, lexR⟩ =>
        ⟨by rw [backed, Function.iterate_succ_apply], lexR⟩

theorem execWords_complete {us : List Token} {ws : List (List Char)} {rs : List Redirection} (derived : Words us ws rs)
    (ends : Ends execEnds rest) : ∀ F argv redirs s, lex s = us ++ rest → (argv ++ ws).length < maxargs →
      Meets (· = "fuel") (fun p => p.1 = argv ++ ws ∧ p.2.1 = redirs ++ rs ∧ lex p.2.2 = rest)
        (execWords F argv redirs s) := by
  induction derived with
  | nil =>
    rintro (_ | F) argv redirs s lexed few
    · rfl
    · rw [execWords, peek_eq (by simp [symbols]) s]
      dsimp only
      rw [lexed, List.nil_append]
      rcases ends with rfl | stops
      · rcases h1 : gettoken (s.dropWhile (· ∈ whitespace)) with ⟨tok, q, eq, s1⟩
        obtain ⟨lex1, -, atEnd, -⟩ := gettoken_spec h1
        rw [lex_dropWhile, lexed, List.nil_append] at lex1
        have nul : tok = '\x00' := by
          cases reported : Token.ofKind tok (word q eq) with
          | none => exact ofKind_eq_none.mp reported
          | some t => simp [reported] at lex1
        simp only [opens, Bool.false_eq_true, if_false, nul, beq_self_eq_true, if_true]
        exact ⟨by simp, by simp, by rw [atEnd nul]; simp [lex_nil]⟩
      · rw [show opens ['|', ')', '&', ';'] rest = true from stops, if_pos rfl]
        exact ⟨by simp, by simp, by rw [lex_dropWhile, lexed, List.nil_append]⟩
  | @cons w ts us' rs1 rs2 ws' redirs1 words2 ih =>
    rintro (_ | F) argv redirs s lexed few
    · rfl
    · rw [execWords, peek_eq (by simp [symbols]) s]
      dsimp only
      rw [lexed]
      simp only [List.cons_append, opens, Bool.false_eq_true, if_false]
      rcases h1 : gettoken (s.dropWhile (· ∈ whitespace)) with ⟨tok, q, eq, s1⟩
      obtain ⟨isWord, lex1, -⟩ := gettoken_head h1 (by rw [lex_dropWhile, lexed]; rfl)
      obtain ⟨rfl, rfl⟩ := ofKind_eq_word isWord
      have more : (argv ++ [word q eq]).length < maxargs := by simp at few ⊢; omega
      simp only [show (('a' : Char) == '\x00') = false from rfl, bne_self_eq_false, Bool.false_eq_true, if_false,
        ge_iff_le, Nat.not_le.mpr more]
      apply meets_bind
      refine (parseredirs_complete redirs1 F redirs s1 (by rw [lex1]; exact List.append_assoc ts us' rest)
        (words2.no_redirection ends)).mono ?_
      rintro ⟨rs', s2⟩ ⟨rfl, lex2⟩
      refine (ih F (argv ++ [word q eq]) (redirs ++ rs1) s2 lex2 (by simpa using few)).mono ?_
      rintro ⟨argv', redirs', r⟩ ⟨rfl, rfl, lexR⟩
      exact ⟨by simp, by simp, lexR⟩

/-- A parsing function's result: the tree `c`, and the tokens `rest` left. -/
def Returns (c : Cmd) (rest : List Token) (p : Cmd × List Char) : Prop := p.1 = c ∧ lex p.2 = rest

theorem Ends.amps (n : Nat) (ends : Ends pipeEnds rest) : Ends pipeEnds (List.replicate n (.sym '&') ++ rest) := by
  cases n with
  | zero => simpa using ends
  | succ n => exact .inr rfl

theorem simple_opens_paren {ts us : List Token} {rs rs' : List Redirection} {ws : List (List Char)}
    (redirs : Redirs ts rs) (words : Words us ws rs') (ends : Ends execEnds rest) :
    opens ['('] (ts ++ us ++ rest) = false := by
  cases redirs with
  | nil =>
    cases words with
    | nil => exact ends.opens_false (by simp [execEnds]) (by simp)
    | cons => rfl
  | cons red =>
    rcases redirection_cases red with ⟨rfl, -⟩ | ⟨rfl, -⟩ | ⟨rfl, -⟩ <;> rfl

theorem parseblock_complete_step {F : Nat}
    (line : ∀ ts c s rest, Line ts c → lex s = ts ++ rest → Ends [')'] rest →
      Meets (· = "fuel") (Returns c rest) (parseline F s))
    {ts us : List Token} {c : Cmd} {rs : List Redirection} (line1 : Line ts c) (redirs1 : Redirs us rs) (s : List Char)
    (lexed : lex s = .sym '(' :: ts ++ .sym ')' :: us ++ rest) (ends : Ends execEnds rest) :
    Meets (· = "fuel") (Returns (wrap c rs) rest) (parseblock (F + 1) s) := by
  rw [parseblock, peek_eq (by simp [symbols]) s]
  dsimp only
  rw [show opens ['('] (lex s) = true by rw [lexed]; rfl]
  simp only [Bool.not_true, Bool.false_eq_true, if_false]
  rcases h1 : gettoken (s.dropWhile (· ∈ whitespace)) with ⟨kind1, q1, eq1, s1⟩
  obtain ⟨-, lex1, -⟩ := gettoken_head h1 (by rw [lex_dropWhile, lexed]; rfl)
  apply meets_bind
  refine (line ts c s1 (.sym ')' :: us ++ rest) line1 (by rw [lex1]; simp) (.inr rfl)).mono ?_
  rintro ⟨c2, s2⟩ ⟨rfl, lex2⟩
  dsimp only
  rw [peek_eq (by simp [symbols]) s2]
  dsimp only
  rw [show opens [')'] (lex s2) = true by rw [lex2]; rfl]
  simp only [Bool.not_true, Bool.false_eq_true, if_false]
  rcases h3 : gettoken (s2.dropWhile (· ∈ whitespace)) with ⟨kind3, q3, eq3, s3⟩
  obtain ⟨-, lex3, -⟩ := gettoken_head h3 (by rw [lex_dropWhile, lex2]; rfl)
  apply meets_bind
  refine (parseredirs_complete redirs1 F [] s3 lex3 ends.no_redirection).mono ?_
  rintro ⟨rs', s4⟩ ⟨rfl, lex4⟩
  exact ⟨by simp, lex4⟩

theorem parseexec_complete_step {F : Nat}
    (block : ∀ ts us c rs s rest, Line ts c → Redirs us rs → lex s = .sym '(' :: ts ++ .sym ')' :: us ++ rest →
      Ends execEnds rest → Meets (· = "fuel") (Returns (wrap c rs) rest) (parseblock F s))
    {ts : List Token} {c : Cmd} (exec : Exec ts c) (s : List Char) (lexed : lex s = ts ++ rest)
    (ends : Ends execEnds rest) : Meets (· = "fuel") (Returns c rest) (parseexec (F + 1) s) := by
  rw [parseexec, peek_eq (by simp [symbols]) s]
  dsimp only
  cases exec with
  | block line1 redirs1 =>
    rw [show opens ['('] (lex s) = true by rw [lexed]; rfl, if_pos rfl]
    exact block _ _ _ _ _ rest line1 redirs1 (by rw [lex_dropWhile, lexed]) ends
  | @simple ts us rs rs' ws redirs1 words2 few =>
    rw [show opens ['('] (lex s) = false by rw [lexed]; exact simple_opens_paren redirs1 words2 ends]
    simp only [Bool.false_eq_true, if_false]
    apply meets_bind
    refine (parseredirs_complete redirs1 F [] _ (by rw [lex_dropWhile, lexed, List.append_assoc])
      (words2.no_redirection ends)).mono ?_
    rintro ⟨rs1, s1⟩ ⟨rfl, lex1⟩
    apply meets_bind
    refine (execWords_complete words2 ends F [] _ s1 lex1 (by simpa using few)).mono ?_
    rintro ⟨argv, redirs', r⟩ ⟨rfl, rfl, lexR⟩
    exact ⟨by simp, lexR⟩

theorem parsepipe_complete_step {F : Nat}
    (exec : ∀ ts c s rest, Exec ts c → lex s = ts ++ rest → Ends execEnds rest →
      Meets (· = "fuel") (Returns c rest) (parseexec F s))
    (pipe : ∀ ts c s rest, Pipe ts c → lex s = ts ++ rest → Ends pipeEnds rest →
      Meets (· = "fuel") (Returns c rest) (parsepipe F s))
    {ts : List Token} {c : Cmd} (derived : Pipe ts c) (s : List Char) (lexed : lex s = ts ++ rest)
    (ends : Ends pipeEnds rest) : Meets (· = "fuel") (Returns c rest) (parsepipe (F + 1) s) := by
  rw [parsepipe]
  cases derived with
  | one exec1 =>
    apply meets_bind
    refine (exec _ c s rest exec1 lexed (ends.mono (by simp [pipeEnds, execEnds]))).mono ?_
    rintro ⟨c1, s1⟩ ⟨rfl, lex1⟩
    dsimp only
    rw [peek_eq (by simp [symbols]) s1]
    dsimp only
    rw [lex1, ends.opens_false (by simp [pipeEnds]) (by simp)]
    exact ⟨rfl, by rw [lex_dropWhile, lex1]⟩
  | @cons ts us c d exec1 pipe2 =>
    apply meets_bind
    refine (exec ts c s (.sym '|' :: us ++ rest) exec1 (by rw [lexed]; simp) (.inr rfl)).mono ?_
    rintro ⟨c1, s1⟩ ⟨rfl, lex1⟩
    dsimp only
    rw [peek_eq (by simp [symbols]) s1]
    dsimp only
    rw [show opens ['|'] (lex s1) = true by rw [lex1]; rfl, if_pos rfl]
    rcases h2 : gettoken (s1.dropWhile (· ∈ whitespace)) with ⟨kind2, q2, eq2, s2⟩
    obtain ⟨-, lex2, -⟩ := gettoken_head h2 (by rw [lex_dropWhile, lex1]; rfl)
    apply meets_bind
    refine (pipe us d s2 rest pipe2 lex2 ends).mono ?_
    rintro ⟨c3, s3⟩ ⟨rfl, lex3⟩
    exact ⟨rfl, lex3⟩

theorem parseline_complete_step {F : Nat}
    (pipe : ∀ ts c s rest, Pipe ts c → lex s = ts ++ rest → Ends pipeEnds rest →
      Meets (· = "fuel") (Returns c rest) (parsepipe F s))
    (line : ∀ ts c s rest, Line ts c → lex s = ts ++ rest → Ends [')'] rest →
      Meets (· = "fuel") (Returns c rest) (parseline F s))
    {ts : List Token} {c : Cmd} (derived : Line ts c) (s : List Char) (lexed : lex s = ts ++ rest)
    (ends : Ends [')'] rest) : Meets (· = "fuel") (Returns c rest) (parseline (F + 1) s) := by
  rw [parseline]
  cases derived with
  | @last ts c n pipe1 =>
    apply meets_bind
    refine (pipe ts c s _ pipe1 (by rw [lexed, List.append_assoc])
      (Ends.amps n (ends.mono (by simp [pipeEnds])))).mono ?_
    rintro ⟨c1, s1⟩ ⟨rfl, lex1⟩
    apply meets_bind
    refine (backs_complete n F c1 s1 lex1 (ends.opens_false (by simp) (by simp))).mono ?_
    rintro ⟨c2, s2⟩ ⟨rfl, lex2⟩
    dsimp only
    rw [peek_eq (by simp [symbols]) s2]
    dsimp only
    rw [lex2, ends.opens_false (by simp) (by simp)]
    exact ⟨rfl, by rw [lex_dropWhile, lex2]⟩
  | @list ts us c d n pipe1 line2 =>
    apply meets_bind
    refine (pipe ts c s (List.replicate n (.sym '&') ++ (.sym ';' :: (us ++ rest))) pipe1 (by rw [lexed]; simp)
      (Ends.amps n (.inr rfl))).mono ?_
    rintro ⟨c1, s1⟩ ⟨rfl, lex1⟩
    apply meets_bind
    refine (backs_complete n F c1 s1 lex1 rfl).mono ?_
    rintro ⟨c2, s2⟩ ⟨rfl, lex2⟩
    dsimp only
    rw [peek_eq (by simp [symbols]) s2]
    dsimp only
    rw [show opens [';'] (lex s2) = true by rw [lex2]; rfl, if_pos rfl]
    rcases h3 : gettoken (s2.dropWhile (· ∈ whitespace)) with ⟨kind3, q3, eq3, s3⟩
    obtain ⟨-, lex3, -⟩ := gettoken_head h3 (by rw [lex_dropWhile, lex2])
    apply meets_bind
    refine (line us d s3 rest line2 lex3 ends).mono ?_
    rintro ⟨c4, s4⟩ ⟨rfl, lex4⟩
    exact ⟨rfl, lex4⟩

theorem parse_complete : ∀ F,
    (∀ ts c s rest, Line ts c → lex s = ts ++ rest → Ends [')'] rest →
      Meets (· = "fuel") (Returns c rest) (parseline F s)) ∧
    (∀ ts c s rest, Pipe ts c → lex s = ts ++ rest → Ends pipeEnds rest →
      Meets (· = "fuel") (Returns c rest) (parsepipe F s)) ∧
    (∀ ts c s rest, Exec ts c → lex s = ts ++ rest → Ends execEnds rest →
      Meets (· = "fuel") (Returns c rest) (parseexec F s)) ∧
    (∀ ts us c rs s rest, Line ts c → Redirs us rs → lex s = .sym '(' :: ts ++ .sym ')' :: us ++ rest →
      Ends execEnds rest → Meets (· = "fuel") (Returns (wrap c rs) rest) (parseblock F s))
  | 0 => by
    refine ⟨fun _ _ s _ _ _ _ => ?_, fun _ _ s _ _ _ _ => ?_, fun _ _ s _ _ _ _ => ?_, fun _ _ _ _ s _ _ _ _ _ => ?_⟩
    · rw [parseline]; rfl
    · rw [parsepipe]; rfl
    · rw [parseexec]; rfl
    · rw [parseblock]; rfl
  | F + 1 => by
    obtain ⟨line, pipe, exec, block⟩ := parse_complete F
    exact ⟨fun _ _ s _ derived lexed ends => parseline_complete_step pipe line derived s lexed ends,
      fun _ _ s _ derived lexed ends => parsepipe_complete_step exec pipe derived s lexed ends,
      fun _ _ s _ derived lexed ends => parseexec_complete_step block derived s lexed ends,
      fun _ _ _ _ s _ line1 redirs1 lexed ends => parseblock_complete_step line line1 redirs1 s lexed ends⟩

end Complete

/-! ## The fuel never runs out -/

section Total

/-- A result that leaves no more of the line than there was. -/
def Shorter {α : Type} (s : List Char) (p : α × List Char) : Prop := p.2.length ≤ s.length

theorem gettoken_shorter {s s' q eq : List Char} {kind : Char} {toks : List Char}
    (seen : opens toks (lex s) = true) (h : gettoken (s.dropWhile (· ∈ whitespace)) = (kind, q, eq, s')) :
    s'.length < s.length := by
  cases lexed : lex s with
  | nil => simp [lexed, opens] at seen
  | cons t rest =>
    obtain ⟨-, -, shorter⟩ := gettoken_head h (by rw [lex_dropWhile, lexed])
    exact Nat.lt_of_lt_of_le shorter (List.length_dropWhile_le _ _)

theorem parseredirs_total : ∀ F redirs (s : List Char), s.length < F →
    Meets (· ≠ "fuel") (Shorter s) (parseredirs F redirs s)
  | 0, _, _, enough => absurd enough (Nat.not_lt_zero _)
  | F + 1, redirs, s, enough => by
    rw [parseredirs, peek_eq (by simp [symbols]) s]
    dsimp only
    cases more : opens ['<', '>'] (lex s) with
    | false => exact List.length_dropWhile_le _ _
    | true =>
      simp only [Bool.not_true, Bool.false_eq_true, if_false]
      rcases h1 : gettoken (s.dropWhile (· ∈ whitespace)) with ⟨tok, q1, eq1, s1⟩
      have short1 := gettoken_shorter more h1
      rcases h2 : gettoken s1 with ⟨kind, q, eq, s2⟩
      obtain ⟨-, short2, -, -⟩ := gettoken_spec h2
      dsimp only
      split_ifs
      · exact (by decide : "missing file for redirection" ≠ "fuel")
      · exact (parseredirs_total F _ s2 (by omega)).mono fun p shorter => Nat.le_trans shorter (by omega)

theorem backs_total : ∀ F cmd (s : List Char), s.length < F → Meets (· ≠ "fuel") (Shorter s) (backs F cmd s)
  | 0, _, _, enough => absurd enough (Nat.not_lt_zero _)
  | F + 1, cmd, s, enough => by
    rw [backs, peek_eq (by simp [symbols]) s]
    dsimp only
    cases amp : opens ['&'] (lex s) with
    | false => exact List.length_dropWhile_le _ _
    | true =>
      rcases h1 : gettoken (s.dropWhile (· ∈ whitespace)) with ⟨kind, q, eq, s1⟩
      have short1 := gettoken_shorter amp h1
      rw [if_pos rfl]
      exact (backs_total F _ s1 (by omega)).mono fun p shorter => Nat.le_trans shorter (by omega)

theorem execWords_total : ∀ F argv redirs (s : List Char), s.length < F →
    Meets (· ≠ "fuel") (fun p => p.2.2.length ≤ s.length) (execWords F argv redirs s)
  | 0, _, _, _, enough => absurd enough (Nat.not_lt_zero _)
  | F + 1, argv, redirs, s, enough => by
    have short0 := List.length_dropWhile_le (· ∈ whitespace) s
    rw [execWords, peek_eq (by simp [symbols]) s]
    dsimp only
    cases stop : opens ['|', ')', '&', ';'] (lex s) with
    | true => exact short0
    | false =>
      rcases h1 : gettoken (s.dropWhile (· ∈ whitespace)) with ⟨tok, q, eq, s1⟩
      obtain ⟨-, len1, -, short1⟩ := gettoken_spec h1
      simp only [Bool.false_eq_true, if_false]
      split_ifs with nul notWord tooMany
      · show s1.length ≤ s.length
        omega
      · exact meets_bind (meets_throw (by decide))
      · exact meets_bind (meets_throw (by decide))
      · exact meets_bind (meets_throw (by decide))
      · have notNul : tok ≠ '\x00' := fun h => nul (by simp [h])
        have := short1 notNul
        apply meets_bind
        refine (parseredirs_total F redirs s1 (by omega)).mono ?_
        rintro ⟨rs, s2⟩ shorter2
        exact (execWords_total F _ rs s2 (by simp only [Shorter] at shorter2; omega)).mono
          fun p shorter => by simp only [Shorter] at shorter2; omega

theorem parseblock_total_step {F : Nat}
    (line : ∀ s : List Char, 4 * s.length + 4 ≤ F → Meets (· ≠ "fuel") (Shorter s) (parseline F s))
    (s : List Char) (enough : 4 * s.length + 1 ≤ F + 1) : Meets (· ≠ "fuel") (Shorter s) (parseblock (F + 1) s) := by
  rw [parseblock, peek_eq (by simp [symbols]) s]
  dsimp only
  cases paren : opens ['('] (lex s) with
  | false => exact meets_bind (meets_throw (by decide))
  | true =>
    rcases h1 : gettoken (s.dropWhile (· ∈ whitespace)) with ⟨kind1, q1, eq1, s1⟩
    have short1 := gettoken_shorter paren h1
    simp only [Bool.not_true, Bool.false_eq_true, if_false]
    apply meets_bind
    refine (line s1 (by omega)).mono ?_
    rintro ⟨c2, s2⟩ shorter2
    simp only [Shorter] at shorter2
    rw [peek_eq (by simp [symbols]) s2]
    dsimp only
    cases close : opens [')'] (lex s2) with
    | false => exact meets_bind (meets_throw (by decide))
    | true =>
      rcases h3 : gettoken (s2.dropWhile (· ∈ whitespace)) with ⟨kind3, q3, eq3, s3⟩
      have short3 := gettoken_shorter close h3
      simp only [Bool.not_true, Bool.false_eq_true, if_false]
      apply meets_bind
      refine (parseredirs_total F [] s3 (by omega)).mono ?_
      rintro ⟨rs, s4⟩ shorter4
      exact meets_pure (show s4.length ≤ s.length by simp only [Shorter] at shorter4; omega)

theorem parseexec_total_step {F : Nat}
    (block : ∀ s : List Char, 4 * s.length + 1 ≤ F → Meets (· ≠ "fuel") (Shorter s) (parseblock F s))
    (s : List Char) (enough : 4 * s.length + 2 ≤ F + 1) : Meets (· ≠ "fuel") (Shorter s) (parseexec (F + 1) s) := by
  have short0 := List.length_dropWhile_le (· ∈ whitespace) s
  rw [parseexec, peek_eq (by simp [symbols]) s]
  dsimp only
  cases paren : opens ['('] (lex s) with
  | true =>
    rw [if_pos rfl]
    exact (block _ (by omega)).mono fun p shorter => Nat.le_trans shorter short0
  | false =>
    simp only [Bool.false_eq_true, if_false]
    apply meets_bind
    refine (parseredirs_total F [] _ (by omega)).mono ?_
    rintro ⟨rs, s1⟩ shorter1
    simp only [Shorter] at shorter1
    apply meets_bind
    refine (execWords_total F [] rs s1 (by omega)).mono ?_
    rintro ⟨argv, redirs, r⟩ shorter2
    exact meets_pure (show r.length ≤ s.length by dsimp only at shorter2; omega)

theorem parsepipe_total_step {F : Nat}
    (exec : ∀ s : List Char, 4 * s.length + 2 ≤ F → Meets (· ≠ "fuel") (Shorter s) (parseexec F s))
    (pipe : ∀ s : List Char, 4 * s.length + 3 ≤ F → Meets (· ≠ "fuel") (Shorter s) (parsepipe F s))
    (s : List Char) (enough : 4 * s.length + 3 ≤ F + 1) : Meets (· ≠ "fuel") (Shorter s) (parsepipe (F + 1) s) := by
  rw [parsepipe]
  apply meets_bind
  refine (exec s (by omega)).mono ?_
  rintro ⟨c1, s1⟩ shorter1
  simp only [Shorter] at shorter1
  dsimp only
  rw [peek_eq (by simp [symbols]) s1]
  dsimp only
  have short1 := List.length_dropWhile_le (· ∈ whitespace) s1
  cases bar : opens ['|'] (lex s1) with
  | false =>
    simp only [Bool.false_eq_true, if_false]
    exact meets_pure (show (_ : List Char).length ≤ s.length by dsimp only; omega)
  | true =>
    rcases h2 : gettoken (s1.dropWhile (· ∈ whitespace)) with ⟨kind2, q2, eq2, s2⟩
    have short2 := gettoken_shorter bar h2
    rw [if_pos rfl]
    apply meets_bind
    refine (pipe s2 (by omega)).mono ?_
    rintro ⟨c3, s3⟩ shorter3
    exact meets_pure (show s3.length ≤ s.length by simp only [Shorter] at shorter3; omega)

theorem parseline_total_step {F : Nat}
    (pipe : ∀ s : List Char, 4 * s.length + 3 ≤ F → Meets (· ≠ "fuel") (Shorter s) (parsepipe F s))
    (line : ∀ s : List Char, 4 * s.length + 4 ≤ F → Meets (· ≠ "fuel") (Shorter s) (parseline F s))
    (s : List Char) (enough : 4 * s.length + 4 ≤ F + 1) : Meets (· ≠ "fuel") (Shorter s) (parseline (F + 1) s) := by
  rw [parseline]
  apply meets_bind
  refine (pipe s (by omega)).mono ?_
  rintro ⟨c1, s1⟩ shorter1
  simp only [Shorter] at shorter1
  apply meets_bind
  refine (backs_total F c1 s1 (by omega)).mono ?_
  rintro ⟨c2, s2⟩ shorter2
  simp only [Shorter] at shorter2
  dsimp only
  rw [peek_eq (by simp [symbols]) s2]
  dsimp only
  have short2 := List.length_dropWhile_le (· ∈ whitespace) s2
  cases semi : opens [';'] (lex s2) with
  | false =>
    simp only [Bool.false_eq_true, if_false]
    exact meets_pure (show (_ : List Char).length ≤ s.length by dsimp only; omega)
  | true =>
    rcases h3 : gettoken (s2.dropWhile (· ∈ whitespace)) with ⟨kind3, q3, eq3, s3⟩
    have short3 := gettoken_shorter semi h3
    rw [if_pos rfl]
    apply meets_bind
    refine (line s3 (by omega)).mono ?_
    rintro ⟨c4, s4⟩ shorter4
    exact meets_pure (show s4.length ≤ s.length by simp only [Shorter] at shorter4; omega)

theorem parse_total : ∀ F,
    (∀ s : List Char, 4 * s.length + 4 ≤ F → Meets (· ≠ "fuel") (Shorter s) (parseline F s)) ∧
    (∀ s : List Char, 4 * s.length + 3 ≤ F → Meets (· ≠ "fuel") (Shorter s) (parsepipe F s)) ∧
    (∀ s : List Char, 4 * s.length + 2 ≤ F → Meets (· ≠ "fuel") (Shorter s) (parseexec F s)) ∧
    (∀ s : List Char, 4 * s.length + 1 ≤ F → Meets (· ≠ "fuel") (Shorter s) (parseblock F s))
  | 0 => ⟨fun _ h => absurd h (by omega), fun _ h => absurd h (by omega), fun _ h => absurd h (by omega),
      fun _ h => absurd h (by omega)⟩
  | F + 1 => by
    obtain ⟨line, pipe, exec, block⟩ := parse_total F
    exact ⟨parseline_total_step pipe line, parsepipe_total_step exec pipe, parseexec_total_step block,
      parseblock_total_step line⟩

end Total

/-- `parsecmd` on any line: the fuel never runs out, every failure is one of
the parser's `panic`s, and it returns a tree exactly when the line's tokens
derive `line` with that tree. -/
theorem parsecmd_accepts_grammar (line : List Char) :
    (∀ e, parsecmd line = .error e → e ∈ panics) ∧ ∀ cmd, parsecmd line = .ok cmd ↔ Line (lex line) cmd := by
  have sound := (parse_sound (4 * (line.length + 1))).1 line
  have total := (parse_total (4 * (line.length + 1))).1 line (by omega)
  have complete := fun cmd (derived : Line (lex line) cmd) =>
    (parse_complete (4 * (line.length + 1))).1 _ cmd line [] derived (by simp) (.inl rfl)
  unfold parsecmd
  cases parsed : parseline (4 * (line.length + 1)) line with
  | error e =>
    rw [parsed] at sound total complete
    dsimp only [bind, Except.bind]
    refine ⟨fun e' failed => ?_, fun cmd => ⟨fun returned => (nomatch returned), fun derived => ?_⟩⟩
    · cases failed
      exact sound.resolve_left total
    · exact absurd (complete cmd derived) total
  | ok result =>
    obtain ⟨c, r⟩ := result
    rw [parsed] at sound complete
    obtain ⟨-, ts, lexed, derived⟩ := sound
    dsimp only [bind, Except.bind]
    rw [peek_eq (by simp) r]
    dsimp only
    by_cases ended : r.dropWhile (· ∈ whitespace) = []
    · have nothing : lex r = [] := lex_eq_nil_iff.mpr ended
      rw [nothing, List.append_nil] at lexed
      subst lexed
      simp only [ended, bne_self_eq_false, Bool.false_eq_true, if_false]
      refine ⟨fun e failed => (nomatch failed), fun cmd => ⟨fun returned => ?_, fun derived' => ?_⟩⟩
      · cases returned
        exact derived
      · have same : c = cmd := (complete cmd derived').1
        rw [same]
        rfl
    · simp only [bne_iff_ne, ne_eq, ended, not_false_eq_true, if_true]
      refine ⟨fun e failed => ?_, fun cmd => ⟨fun returned => (nomatch returned), fun derived' => ?_⟩⟩
      · cases failed
        simp [panics]
      · exact absurd (lex_eq_nil_iff.mp (complete cmd derived').2) ended

end Sh

end Xv6.Shell
