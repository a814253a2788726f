import Mathlib

/-! `grep` of `grep.c`: the matcher `match`, `matchhere` and `matchstar` of
Kernighan and Pike, and the loop that reads the input into a buffer and
prints the lines that match. A C string is the list of its characters before
the NUL, so `*text == '\0'` is the empty list. What the matcher does is said
by reading the pattern as a list of atoms, each one character perhaps
starred, with a final unstarred `$` as the end of the text; a word matches
the atoms when it splits into one piece per atom. -/

namespace Xv6.User

/-! ### The matcher -/

mutual

/-- `matchhere(re, text)`: `re` matches at the start of `text`. -/
def matchhere : List Char → List Char → Bool
  | [], _ => true
  | c :: '*' :: re, text => matchstar c re text
  | ['$'], text => text.isEmpty
  | c :: re, t :: text => (c == '.' || c == t) && matchhere re text
  | _ :: _, [] => false
termination_by re text => (re.length, text.length)

/-- `matchstar(c, re, text)`: `c*re` matches at the start of `text`; the
loop tries `re` after each of the characters `c` matches, fewest first. -/
def matchstar (c : Char) (re : List Char) : List Char → Bool
  | [] => matchhere re []
  | t :: rest => matchhere re (t :: rest) || ((t == c || c == '.') && matchstar c re rest)
termination_by text => (re.length + 1, text.length)

end

/-- The loop of `match`: `re` at each position of `text`, the end included. -/
def matchLoop (re : List Char) : List Char → Bool
  | [] => matchhere re []
  | t :: rest => matchhere re (t :: rest) || matchLoop re rest

/-- `match(re, text)`: a leading `^` ties the match to the start of the text. -/
def matchRe : List Char → List Char → Bool
  | '^' :: re, text => matchhere re text
  | re, text => matchLoop re text

/-! ### What the matcher matches -/

/-- One atom of a pattern: a character, or a character starred. -/
inductive Atom where
  | one (c : Char)
  | star (c : Char)
  deriving DecidableEq

/-- The text character `t` is one the pattern character `c` stands for: `.`
any, every other character itself. -/
def accepts (c t : Char) : Bool :=
  c == '.' || c == t

/-- The pattern read left to right as atoms: a character followed by `*` is
starred, a final unstarred `$` is no atom, and every other character,
`*`, `^` and `$` among them, stands for itself. -/
def atomsOf : List Char → List Atom
  | [] => []
  | c :: '*' :: re => .star c :: atomsOf re
  | ['$'] => []
  | c :: re => .one c :: atomsOf re

/-- The pattern ends with an unstarred `$`: the match must reach the end. -/
def anchoredEnd : List Char → Bool
  | [] => false
  | _ :: '*' :: re => anchoredEnd re
  | ['$'] => true
  | _ :: re => anchoredEnd re

/-- The pattern without the `^` that ties it to the start of the text. -/
def unanchored : List Char → List Char
  | '^' :: re => re
  | re => re

/-- `Consumes as text rest`: the atoms `as` match a prefix of `text`, one
character or (for a starred atom) any number of them each, leaving `rest`. -/
inductive Consumes : List Atom → List Char → List Char → Prop
  | nil (text : List Char) : Consumes [] text text
  | one {c t : Char} {as : List Atom} {text rest : List Char} :
      accepts c t = true → Consumes as text rest → Consumes (.one c :: as) (t :: text) rest
  | skip {c : Char} {as : List Atom} {text rest : List Char} :
      Consumes as text rest → Consumes (.star c :: as) text rest
  | more {c t : Char} {as : List Atom} {text rest : List Char} :
      accepts c t = true → Consumes (.star c :: as) text rest → Consumes (.star c :: as) (t :: text) rest

/-- The word `w` matches the atoms `as` as a whole. -/
def Matches (as : List Atom) (w : List Char) : Prop :=
  Consumes as w []

/-- The pattern `re` matches at the start of `text`: its atoms match a
prefix, which reaches the end if `re` ends with `$`. -/
def MatchesAt (re text : List Char) : Prop :=
  ∃ rest, Consumes (atomsOf re) text rest ∧ (anchoredEnd re = true → rest = [])

/-! ### The matcher meets its specification -/

section Spec

variable {c t : Char} {as : List Atom} {text rest : List Char}

theorem consumes_nil_iff : Consumes [] text rest ↔ rest = text := by
  constructor
  · rintro ⟨⟩
    rfl
  · rintro rfl
    exact .nil _

theorem consumes_one_iff :
    Consumes (.one c :: as) text rest ↔ ∃ t text', text = t :: text' ∧ accepts c t = true ∧ Consumes as text' rest := by
  constructor
  · rintro (_ | ⟨first, after⟩)
    exact ⟨_, _, rfl, first, after⟩
  · rintro ⟨t, text', rfl, first, after⟩
    exact .one first after

theorem consumes_star_iff :
    Consumes (.star c :: as) text rest ↔
      Consumes as text rest ∨ ∃ t text', text = t :: text' ∧ accepts c t = true ∧ Consumes (.star c :: as) text' rest := by
  constructor
  · rintro (_ | _ | ⟨after⟩ | ⟨first, after⟩)
    · exact .inl after
    · exact .inr ⟨_, _, rfl, first, after⟩
  · rintro (after | ⟨t, text', rfl, first, after⟩)
    · exact .skip after
    · exact .more first after

theorem matchhere_one {re : List Char} (notStar : re.head? ≠ some '*') (notEnd : ¬ (c = '$' ∧ re = [])) :
    matchhere (c :: re) text = match text with
      | t :: text => accepts c t && matchhere re text
      | [] => false := by
  cases re with
  | nil =>
    have notDollar : c ≠ '$' := fun same => notEnd ⟨same, rfl⟩
    cases text <;> simp [matchhere, accepts, notDollar]
  | cons d re =>
    have notStar' : d ≠ '*' := fun same => notStar (by simp [same])
    cases text <;> simp [matchhere, accepts, notStar']

theorem atomsOf_one {re : List Char} (notStar : re.head? ≠ some '*') (notEnd : ¬ (c = '$' ∧ re = [])) :
    atomsOf (c :: re) = .one c :: atomsOf re := by
  cases re with
  | nil =>
    have notDollar : c ≠ '$' := fun same => notEnd ⟨same, rfl⟩
    simp [atomsOf, notDollar]
  | cons d re =>
    have notStar' : d ≠ '*' := fun same => notStar (by simp [same])
    simp [atomsOf, notStar']

theorem anchoredEnd_one {re : List Char} (notStar : re.head? ≠ some '*') (notEnd : ¬ (c = '$' ∧ re = [])) :
    anchoredEnd (c :: re) = anchoredEnd re := by
  cases re with
  | nil =>
    have notDollar : c ≠ '$' := fun same => notEnd ⟨same, rfl⟩
    simp [anchoredEnd, notDollar]
  | cons d re =>
    have notStar' : d ≠ '*' := fun same => notStar (by simp [same])
    simp [anchoredEnd, notStar']

theorem atomsOf_star {re : List Char} : atomsOf (c :: '*' :: re) = .star c :: atomsOf re := rfl

theorem anchoredEnd_star {re : List Char} : anchoredEnd (c :: '*' :: re) = anchoredEnd re := rfl

theorem matchstar_iff {re : List Char} (here : ∀ text, matchhere re text = true ↔ MatchesAt re text) :
    ∀ text, matchstar c re text = true ↔ MatchesAt (c :: '*' :: re) text
  | [] => by
    rw [matchstar, here]
    simp only [MatchesAt, atomsOf_star, anchoredEnd_star]
    constructor
    · rintro ⟨rest, after, ends⟩
      exact ⟨rest, .skip after, ends⟩
    · rintro ⟨rest, consumed, ends⟩
      rcases consumes_star_iff.mp consumed with after | ⟨t, text', empty, _⟩
      · exact ⟨rest, after, ends⟩
      · cases empty
  | t :: text => by
    have accepted : (t == c || c == '.') = accepts c t := by
      rw [accepts, Bool.or_comm, @BEq.comm _ _ _ t c]
    rw [matchstar, Bool.or_eq_true, here, accepted, Bool.and_eq_true, matchstar_iff here text]
    simp only [MatchesAt, atomsOf_star, anchoredEnd_star]
    constructor
    · rintro (⟨rest, after, ends⟩ | ⟨accept, rest, after, ends⟩)
      · exact ⟨rest, .skip after, ends⟩
      · exact ⟨rest, .more accept after, ends⟩
    · rintro ⟨rest, consumed, ends⟩
      rcases consumes_star_iff.mp consumed with after | ⟨t', text', same, accept, after⟩
      · exact .inl ⟨rest, after, ends⟩
      · obtain ⟨rfl, rfl⟩ := List.cons.inj same
        exact .inr ⟨accept, rest, after, ends⟩

theorem matchhere_iff_one {re : List Char} (notStar : re.head? ≠ some '*') (notEnd : ¬ (c = '$' ∧ re = []))
    (here : ∀ text, matchhere re text = true ↔ MatchesAt re text) :
    matchhere (c :: re) text = true ↔ MatchesAt (c :: re) text := by
  rw [matchhere_one notStar notEnd]
  simp only [MatchesAt, atomsOf_one notStar notEnd, anchoredEnd_one notStar notEnd, consumes_one_iff]
  cases text with
  | nil => simp
  | cons t text =>
    rw [Bool.and_eq_true, here]
    constructor
    · rintro ⟨accept, rest, after, ends⟩
      exact ⟨rest, ⟨t, text, rfl, accept, after⟩, ends⟩
    · rintro ⟨rest, ⟨t', text', same, accept, after⟩, ends⟩
      obtain ⟨rfl, rfl⟩ := List.cons.inj same
      exact ⟨accept, rest, after, ends⟩

theorem matchhere_iff : ∀ re text, matchhere re text = true ↔ MatchesAt re text
  | [], text => by
    rw [matchhere]
    simp [MatchesAt, show atomsOf [] = [] from rfl, show anchoredEnd [] = false from rfl, consumes_nil_iff]
  | [c], text => by
    by_cases dollar : c = '$'
    case pos =>
      subst dollar
      rw [matchhere]
      simp only [MatchesAt, show atomsOf ['$'] = [] from rfl, show anchoredEnd ['$'] = true from rfl,
        consumes_nil_iff, forall_const]
      cases text <;> simp
    exact matchhere_iff_one (by simp) (by simp [dollar]) (matchhere_iff [])
  | c :: d :: re, text => by
    by_cases star : d = '*'
    case pos =>
      subst star
      rw [matchhere]
      exact matchstar_iff (matchhere_iff re) text
    exact matchhere_iff_one (by simp [star]) (by simp) (matchhere_iff (d :: re))

theorem matchLoop_iff {re : List Char} :
    ∀ text, matchLoop re text = true ↔ ∃ pre suf, text = pre ++ suf ∧ MatchesAt re suf
  | [] => by
    rw [matchLoop, matchhere_iff]
    simp
  | t :: text => by
    rw [matchLoop, Bool.or_eq_true, matchhere_iff, matchLoop_iff text]
    constructor
    · rintro (here | ⟨pre, suf, rfl, here⟩)
      · exact ⟨[], t :: text, rfl, here⟩
      · exact ⟨t :: pre, suf, rfl, here⟩
    · rintro ⟨pre, suf, split, here⟩
      cases pre with
      | nil =>
        rw [List.nil_append] at split
        exact .inl (split ▸ here)
      | cons t' pre =>
        obtain ⟨rfl, rfl⟩ := List.cons.inj split
        exact .inr ⟨pre, suf, rfl, here⟩

theorem matchRe_iff (re text : List Char) :
    matchRe re text = true ↔
      ∃ pre suf, text = pre ++ suf ∧ (re.head? = some '^' → pre = []) ∧ MatchesAt (unanchored re) suf := by
  cases re with
  | nil =>
    have loop : matchRe [] text = matchLoop [] text := by
      simp [matchRe]
    rw [loop, matchLoop_iff]
    simp [unanchored]
  | cons c re =>
    by_cases caret : c = '^'
    case pos =>
      subst caret
      rw [matchRe, matchhere_iff]
      simp [unanchored]
    have notCaret : (c :: re).head? ≠ some '^' := by simp [caret]
    have loop : matchRe (c :: re) text = matchLoop (c :: re) text := by
      simp [matchRe, caret]
    have same : unanchored (c :: re) = c :: re := by
      simp [unanchored, caret]
    rw [loop, matchLoop_iff, same]
    simp [caret]

theorem Consumes.append {as : List Atom} {text rest : List Char} (consumed : Consumes as text rest)
    (more : List Char) : Consumes as (text ++ more) (rest ++ more) := by
  induction consumed with
  | nil text => exact .nil _
  | one accept _ ih => exact .one accept ih
  | skip _ ih => exact .skip ih
  | more accept _ ih => exact .more accept ih

theorem Consumes.split {as : List Atom} {text rest : List Char} (consumed : Consumes as text rest) :
    ∃ w, text = w ++ rest ∧ Matches as w := by
  induction consumed with
  | nil text => exact ⟨[], rfl, .nil []⟩
  | one accept _ ih =>
    obtain ⟨w, rfl, word⟩ := ih
    exact ⟨_ :: w, rfl, .one accept word⟩
  | skip _ ih =>
    obtain ⟨w, rfl, word⟩ := ih
    exact ⟨w, rfl, .skip word⟩
  | more accept _ ih =>
    obtain ⟨w, rfl, word⟩ := ih
    exact ⟨_ :: w, rfl, .more accept word⟩

end Spec

/-- `match(re, text)` returns `1` exactly when some substring `text[i..j)`
matches the pattern read as atoms: from `i = 0` if the pattern starts with
`^`, and up to `j = strlen(text)` if it ends with an unstarred `$`. -/
theorem match_finds_substring (re text : List Char) :
    matchRe re text = true ↔
      ∃ i j, i ≤ j ∧ j ≤ text.length ∧ (re.head? = some '^' → i = 0) ∧
        Matches (atomsOf (unanchored re)) ((text.drop i).take (j - i)) ∧
        (anchoredEnd (unanchored re) = true → j = text.length) := by
  rw [matchRe_iff]
  constructor
  · rintro ⟨pre, suf, rfl, first, rest, consumed, ends⟩
    obtain ⟨w, rfl, word⟩ := consumed.split
    refine ⟨pre.length, pre.length + w.length, by omega, by simp, fun caret => by simp [first caret], ?_,
      fun anchored => by simp [ends anchored]⟩
    simpa using word
  · rintro ⟨i, j, ordered, within, first, word, ends⟩
    have split : text.drop i = (text.drop i).take (j - i) ++ text.drop j := by
      conv => lhs; rw [← List.take_append_drop (j - i) (text.drop i)]
      rw [List.drop_drop, Nat.add_sub_cancel' ordered]
    refine ⟨text.take i, text.drop i, (List.take_append_drop i text).symm,
      fun caret => by simp [first caret], text.drop j, ?_, fun anchored => by simp [ends anchored]⟩
    rw [split]
    simpa using word.append (text.drop j)

/-! ### The line loop of `grep` -/

/-- `strchr(s, c)` on the NUL-terminated string `s`: the index of the first
`c` before the NUL. -/
def strchr : List Char → Char → Option Nat
  | [], _ => none
  | x :: s, c => if x = '\x00' then none else if x = c then some 0 else (strchr s c).map (· + 1)

/-- `read(fd, buf, n)` on input that arrives in pieces, as from a pipe: at
most `n` bytes of the first piece, and `0` bytes for `n = 0` or at the end. -/
def read : List (List Char) → Nat → List Char × List (List Char)
  | [], _ => ([], [])
  | piece :: rest, n => if piece.length ≤ n then (piece, rest) else (piece.take n, piece.drop n :: rest)

theorem read_nil (n : Nat) : read [] n = ([], []) := rfl

theorem read_cons (piece : List Char) (rest : List (List Char)) (n : Nat) :
    read (piece :: rest) n = if piece.length ≤ n then (piece, rest) else (piece.take n, piece.drop n :: rest) :=
  rfl

/-- The inner loop of `grep` over `buf[p..m)`: each line that ends in the
buffer is written with its newline if it matches, and the rest is returned. -/
def scanLines (pattern : List Char) : Nat → List Char → List Char × List Char
  | 0, buf => ([], buf)
  | fuel + 1, buf =>
    match strchr buf '\n' with
    | none => ([], buf)
    | some q =>
      let line := buf.take q
      let written := if matchRe pattern line then line ++ ['\n'] else []
      let (more, rest) := scanLines pattern fuel (buf.drop (q + 1))
      (written ++ more, rest)

/-- The outer loop of `grep`: `pending` is `buf[0..m)`, the start of a line
the reads so far have not ended. -/
def grepLoop (pattern : List Char) : Nat → List Char → List (List Char) → List Char →
    List Char × List (List Char)
  | 0, _, input, out => (out, input)
  | fuel + 1, pending, input, out =>
    let (got, input) := read input (1024 - pending.length - 1)
    if got.length > 0 then
      let buf := pending ++ got
      let (written, rest) := scanLines pattern (buf.length + 1) buf
      grepLoop pattern fuel rest input (out ++ written)
    else (out, input)

/-- `grep(pattern, fd)` on the input `fd` delivers: what it writes, and what
it leaves unread. -/
def grep (pattern : List Char) (input : List (List Char)) : List Char × List (List Char) :=
  grepLoop pattern (input.flatten.length + 1) [] input []

section Loop

variable {pattern : List Char}

theorem strchr_eq_none {c : Char} : ∀ {s : List Char}, c ∉ s → strchr s c = none
  | [], _ => rfl
  | x :: s, absent => by
    have other : x ≠ c := fun same => absent (same ▸ List.mem_cons_self ..)
    have rest : c ∉ s := fun member => absent (List.mem_cons_of_mem x member)
    simp [strchr, other, strchr_eq_none rest]

theorem read_flatten (input : List (List Char)) (n : Nat) :
    (read input n).1 ++ (read input n).2.flatten = input.flatten := by
  cases input with
  | nil => rfl
  | cons piece rest =>
    rw [read_cons]
    split
    · rfl
    · rw [List.flatten_cons, ← List.append_assoc, List.take_append_drop, List.flatten_cons]

theorem read_length_le (input : List (List Char)) (n : Nat) : (read input n).1.length ≤ n := by
  cases input with
  | nil => simp [read_nil]
  | cons piece rest =>
    rw [read_cons]
    split
    · assumption
    · simp

theorem read_pos {input : List (List Char)} {n : Nat} (pieces : ∀ piece ∈ input, piece ≠ [])
    (more : input ≠ []) (asked : 0 < n) : 0 < (read input n).1.length := by
  cases input with
  | nil => exact absurd rfl more
  | cons piece rest =>
    have nonempty : 0 < piece.length := List.length_pos_iff.mpr (pieces piece (List.mem_cons_self ..))
    rw [read_cons]
    split <;> simp <;> omega

theorem read_pieces {input : List (List Char)} {n : Nat} (pieces : ∀ piece ∈ input, piece ≠ []) :
    ∀ piece ∈ (read input n).2, piece ≠ [] := by
  cases input with
  | nil => simp [read_nil]
  | cons piece rest =>
    rw [read_cons]
    split
    · exact fun p member => pieces p (List.mem_cons_of_mem _ member)
    · rename_i longer
      intro p member
      rcases List.mem_cons.mp member with rfl | member
      · simp only [ne_eq, List.drop_eq_nil_iff]
        omega
      · exact pieces p (List.mem_cons_of_mem _ member)

theorem grepLoop_long {total : List Char} (unended : '\n' ∉ total.take 1023) (long : 1023 < total.length) :
    ∀ fuel (pending : List Char) (input : List (List Char)) (out : List Char),
      pending ++ input.flatten = total → pending.length ≤ 1023 → (∀ piece ∈ input, piece ≠ []) →
      1023 - pending.length < fuel →
      (grepLoop pattern fuel pending input out).1 = out ∧
        (grepLoop pattern fuel pending input out).2.flatten = total.drop 1023 := by
  intro fuel
  induction fuel with
  | zero => exact fun _ _ _ _ _ _ short => absurd short (Nat.not_lt_zero _)
  | succ fuel ih =>
    intro pending input out whole within pieces enough
    have more : input ≠ [] := by
      rintro rfl
      rw [List.flatten_nil, List.append_nil] at whole
      subst whole
      omega
    rw [grepLoop]
    rcases hread : read input (1024 - pending.length - 1) with ⟨got, left⟩
    have parts := read_flatten input (1024 - pending.length - 1)
    have short := read_length_le input (1024 - pending.length - 1)
    rw [hread] at parts short
    dsimp only at parts short ⊢
    by_cases full : pending.length = 1023
    case pos =>
      have nothing : got.length = 0 := by omega
      rw [if_neg (by omega)]
      refine ⟨rfl, ?_⟩
      rw [← whole, List.drop_left' full, ← parts, List.length_eq_zero_iff.mp nothing, List.nil_append]
    have some : 0 < got.length := by
      have := read_pos (n := 1024 - pending.length - 1) pieces more (by omega)
      rwa [hread] at this
    rw [if_pos some]
    have absent : '\n' ∉ pending ++ got := by
      intro found
      apply unended
      rw [← whole, ← parts, ← List.append_assoc, List.take_append,
        List.take_of_length_le (by simp; omega)]
      exact List.mem_append_left _ found
    have leftPieces : ∀ piece ∈ left, piece ≠ [] := by
      have := read_pieces (n := 1024 - pending.length - 1) pieces
      rwa [hread] at this
    rw [scanLines, strchr_eq_none absent]
    dsimp only
    rw [List.append_nil]
    exact ih (pending ++ got) left out (by rw [List.append_assoc, parts, whole]) (by simp; omega)
      leftPieces (by simp; omega)

end Loop

/-- A line of `1023` characters or more fills `buf` before its newline comes,
and the next read asks for `sizeof(buf) - m - 1 = 0` bytes, which `grep`
takes for the end of the input: it writes nothing, for that line or any line
after it, and leaves all but the first `1023` characters unread. -/
theorem grep_stops_at_long_line (pattern : List Char) (input : List (List Char))
    (pieces : ∀ piece ∈ input, piece ≠ []) (long : 1023 < input.flatten.length)
    (unended : '\n' ∉ input.flatten.take 1023) :
    (grep pattern input).1 = [] ∧ (grep pattern input).2.flatten = input.flatten.drop 1023 :=
  grepLoop_long unended long _ [] input [] rfl (Nat.zero_le _) pieces (by omega)

/-- One line of `1023` characters `a`, with its newline. -/
def wideLine : List Char :=
  List.replicate 1023 'a' ++ ['\n']

theorem grep_stops_at_long_line_wide :
    (∀ piece ∈ [wideLine], piece ≠ []) ∧ 1023 < [wideLine].flatten.length ∧
      '\n' ∉ [wideLine].flatten.take 1023 ∧ matchRe [] (List.replicate 1023 'a') = true ∧
      (grep [] [wideLine]).1 = [] ∧ (grep [] [wideLine]).2.flatten = [wideLine].flatten.drop 1023 := by
  have pieces : ∀ piece ∈ [wideLine], piece ≠ [] := by
    intro piece member
    rw [List.mem_singleton] at member
    subst member
    simp only [wideLine, ne_eq, List.append_eq_nil_iff, reduceCtorEq, and_false, not_false_eq_true]
  have length : [wideLine].flatten.length = 1024 := by
    simp only [wideLine, List.flatten_cons, List.flatten_nil, List.append_nil, List.length_append,
      List.length_replicate, List.length_cons, List.length_nil]
  have long : 1023 < [wideLine].flatten.length := by
    rw [length]
    omega
  have unended : '\n' ∉ [wideLine].flatten.take 1023 := by
    simp only [wideLine, List.flatten_cons, List.flatten_nil, List.append_nil]
    rw [List.take_append_of_le_length (by rw [List.length_replicate]), List.take_of_length_le
      (by rw [List.length_replicate]), List.mem_replicate]
    decide
  have every : matchRe [] (List.replicate 1023 'a') = true := by
    rw [show List.replicate 1023 'a' = 'a' :: List.replicate 1022 'a' from rfl]
    simp only [matchRe, matchLoop, matchhere, Bool.true_or]
  exact ⟨pieces, long, unended, every, grep_stops_at_long_line [] [wideLine] pieces long unended⟩

end Xv6.User
