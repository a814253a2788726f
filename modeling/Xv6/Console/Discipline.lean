import Xv6.Console.Console
import Xv6.Lib.Counter

/-! The line discipline of the console. The ring holds two lists: the bytes
committed to readers, from `r` to `w`, and the line being edited, from `w` to
`e`; together never more than `INPUT_BUF`, so no byte of either is overwritten
however the indices wrap. `consoleintr` edits these lists as `edit` says, and a
reader takes the committed bytes from the front. Over every run, the bytes
committed are the bytes readers took followed by those still in the ring. A
read that fails to copy a byte has still taken it. -/

namespace Xv6

open Xv6.Lib

section Ring

variable {buf : Fin inputBuf → UInt8} {i : UInt32}

theorem add_one_add_ofNat (m : Nat) : i + 1 + UInt32.ofNat m = i + UInt32.ofNat (m + 1) := by
  apply UInt32.toNat_inj.mp
  simp only [UInt32.toNat_add, UInt32.toNat_ofNat', UInt32.toNat_one]
  omega

theorem add_ofNat_gap (x y : UInt32) : y + UInt32.ofNat (x - y).toNat = x := by
  apply UInt32.toNat_inj.mp
  simp only [UInt32.toNat_add, UInt32.toNat_ofNat', UInt32.toNat_sub]
  have := x.toNat_lt
  have := y.toNat_lt
  omega

@[simp] theorem segment_length (n : Nat) : (segment buf i n).length = n := by
  induction n generalizing i with
  | zero => rfl
  | succ n ih => simp [segment, ih]

theorem segment_append (a b : Nat) :
    segment buf i (a + b) = segment buf i a ++ segment buf (i + UInt32.ofNat a) b := by
  induction a generalizing i with
  | zero => simp [segment]
  | succ a ih =>
    rw [Nat.succ_add, segment, segment, ih, List.cons_append, add_one_add_ofNat]

theorem segment_concat (n : Nat) :
    segment buf i (n + 1) = segment buf i n ++ [buf (bufSlot (i + UInt32.ofNat n))] := by
  rw [segment_append]
  rfl

theorem segment_update {n : Nat} {k : Fin inputBuf} {c : UInt8}
    (away : ∀ m < n, bufSlot (i + UInt32.ofNat m) ≠ k) :
    segment (Function.update buf k c) i n = segment buf i n := by
  induction n generalizing i with
  | zero => rfl
  | succ n ih =>
    have first := away 0 (Nat.succ_pos n)
    rw [show UInt32.ofNat 0 = 0 from rfl, UInt32.add_zero] at first
    rw [segment, segment, Function.update_of_ne first, ih fun m short => ?_]
    rw [add_one_add_ofNat]
    exact away (m + 1) (by omega)

theorem bufSlot_add_ne {m n : Nat} (lt : m < n) (small : n < inputBuf) :
    bufSlot (i + UInt32.ofNat m) ≠ bufSlot (i + UInt32.ofNat n) := by
  intro same
  have residues := congrArg Fin.val same
  simp only [bufSlot] at residues
  rw [toNat_add_ofNat_mod (by decide), toNat_add_ofNat_mod (by decide)] at residues
  unfold inputBuf at small residues
  omega

end Ring

/-- What a typed byte does to the committed bytes and the line being edited:
`^U` erases the line, backspace its last byte, and any byte but NUL joins the
line while fewer than `INPUT_BUF` bytes are held, `'\r'` as `'\n'`. -/
def edit (pending line : List UInt8) (c : UInt8) : List UInt8 × List UInt8 :=
  if c = ctrlP then (pending, line)
  else if c = ctrlU then (pending, [])
  else if c = ctrlH ∨ c = delete then (pending, line.dropLast)
  else if c ≠ 0 ∧ pending.length + line.length < inputBuf then
    let c := if c = carriageReturn then newline else c
    if c = newline ∨ c = ctrlD ∨ pending.length + line.length + 1 = inputBuf then
      (pending ++ (line ++ [c]), [])
    else (pending, line ++ [c])
  else (pending, line)

/-- What a reader does with the committed bytes, `consoleread`'s loop with the
ring as a list: how many bytes it takes out of the ring, and where it stops. -/
def takeLine (dst : Nat → Bool) (target : Int) : List UInt8 → Int → List UInt8 → Nat × ConsPc
  | [], n, got => (0, if n > 0 then .reading dst target n got else .returned (target - n) got)
  | c :: rest, n, got =>
    if n > 0 then
      if c = ctrlD then (if n < target then 0 else 1, .returned (target - n) got)
      else if !dst got.length then (1, .returned (target - n) got)
      else if c = newline then (1, .returned (target - (n - 1)) (got ++ [c]))
      else
        let next := takeLine dst target rest (n - 1) (got ++ [c])
        (next.1 + 1, next.2)
    else (0, .returned (target - n) got)

/-- The bytes a reader has copied. -/
def ConsPc.got : ConsPc → List UInt8
  | .idle => []
  | .reading _ _ _ got | .returned _ got => got

theorem newline_ne_ctrlD : newline ≠ ctrlD := by decide

theorem takeLine_le (dst : Nat → Bool) (target : Int) : ∀ (pending : List UInt8) (n : Int) (got : List UInt8),
    (takeLine dst target pending n got).1 ≤ pending.length
  | [], n, got => by simp [takeLine]
  | c :: rest, n, got => by
    have ih := takeLine_le dst target rest (n - 1) (got ++ [c])
    simp only [takeLine]
    split_ifs <;> simp
    omega

section Read

variable {dst : Nat → Bool} {target : Int}

theorem takeLine_copies (copies : ∀ i, dst i = true) :
    ∀ (pending : List UInt8) (n : Int) (got : List UInt8),
      (takeLine dst target pending n got).2.got =
        got ++ (pending.take (takeLine dst target pending n got).1).filter (· != ctrlD)
  | [], n, got => by
    by_cases wants : n > 0 <;> simp [takeLine, ConsPc.got, wants]
  | c :: rest, n, got => by
    have ih := takeLine_copies copies rest (n - 1) (got ++ [c])
    by_cases wants : n > 0
    case neg => simp [takeLine, ConsPc.got, wants]
    by_cases eof : c = ctrlD
    · by_cases first : n < target <;> simp [takeLine, ConsPc.got, wants, eof, first]
    by_cases ends : c = newline
    · simp [takeLine, ConsPc.got, wants, copies, ends, newline_ne_ctrlD]
    · simp only [takeLine, wants, eof, copies, ends, if_true, if_false, Bool.not_true,
        Bool.false_eq_true]
      rw [ih, List.take_succ_cons, List.filter_cons_of_pos (by simpa using eof)]
      simp

end Read

namespace Cons

variable {cons : Cons} {c : UInt8}

/-- The bytes committed to readers and not yet read, from `r` to `w`. -/
def pending (cons : Cons) : List UInt8 :=
  segment cons.buf cons.r (cons.w - cons.r).toNat

/-- The line being edited, from `w` to `e`. -/
def line (cons : Cons) : List UInt8 :=
  segment cons.buf cons.w (cons.e - cons.w).toNat

/-- The ring as `consoleintr` and `consoleread` keep it. -/
structure Wf (cons : Cons) : Prop where
  /-- `r <= w <= e`, as differences modulo `2^32`. -/
  ordered : (cons.e - cons.r).toNat = (cons.w - cons.r).toNat + (cons.e - cons.w).toNat
  /-- `e <= r + INPUT_BUF`. -/
  within : (cons.e - cons.r).toNat ≤ inputBuf
  /-- A newline or a `^D` would have committed the line. -/
  noNewline : newline ∉ cons.line
  noEof : ctrlD ∉ cons.line

theorem killLine_eq : ∀ (fuel : Nat) (cons : Cons), (cons.e - cons.w).toNat = fuel →
    newline ∉ cons.line → killLine fuel cons = { cons with e := cons.w }
  | 0, cons, gap, _ => by
    have same : cons.e = cons.w := gap_eq_zero_iff.mp gap
    rw [killLine]
    cases cons
    simp only at same ⊢
    rw [same]
  | fuel + 1, cons, gap, clean => by
    have moved : cons.e ≠ cons.w := fun same => by rw [same, gap_self] at gap; cases gap
    have last : cons.w + UInt32.ofNat fuel = cons.e - 1 := by
      apply UInt32.toNat_inj.mp
      simp only [UInt32.toNat_add, UInt32.toNat_sub, UInt32.toNat_ofNat', UInt32.toNat_one] at gap ⊢
      have := cons.w.toNat_lt
      have := cons.e.toNat_lt
      omega
    have split : cons.line = segment cons.buf cons.w fuel ++ [cons.buf (bufSlot (cons.e - 1))] := by
      rw [line, gap, segment_concat, last]
    have kept : cons.buf (bufSlot (cons.e - 1)) ≠ newline := fun stop => clean (by simp [split, stop])
    rw [killLine, if_pos (by simp [moved, kept])]
    refine killLine_eq fuel _ (gap_pred moved ▸ by omega) fun inside => clean ?_
    rw [split]
    exact List.mem_append_left _ (by rwa [line, gap_pred moved, gap] at inside)

theorem Wf.line_length (wf : cons.Wf) : cons.pending.length + cons.line.length = (cons.e - cons.r).toNat := by
  simp [pending, line, wf.ordered]

theorem room_iff : cons.e - cons.r < UInt32.ofNat inputBuf ↔ (cons.e - cons.r).toNat < inputBuf := by
  rw [UInt32.lt_iff_toNat_lt, UInt32.toNat_ofNat']
  rfl

theorem slot_away (wf : cons.Wf) (room : (cons.e - cons.r).toNat < inputBuf) {i : UInt32}
    (from_ : i = cons.r ∨ i = cons.w) :
    ∀ m < (cons.e - i).toNat, bufSlot (i + UInt32.ofNat m) ≠ bufSlot cons.e := by
  intro m short
  have ahead : (cons.e - i).toNat < inputBuf := by
    have := wf.ordered
    rcases from_ with rfl | rfl <;> omega
  rw [← add_ofNat_gap cons.e i]
  exact bufSlot_add_ne short ahead

section Store

variable (wf : cons.Wf) (room : (cons.e - cons.r).toNat < inputBuf) (x : UInt8)
include wf room

theorem store_pending :
    segment (Function.update cons.buf (bufSlot cons.e) x) cons.r (cons.w - cons.r).toNat = cons.pending :=
  segment_update fun m short => slot_away wf room (.inl rfl) m (by have := wf.ordered; omega)

theorem store_line :
    segment (Function.update cons.buf (bufSlot cons.e) x) cons.w (cons.e + 1 - cons.w).toNat =
      cons.line ++ [x] := by
  have short : (cons.e - cons.w).toNat + 1 < 2 ^ 32 := by
    have := wf.ordered
    unfold inputBuf at room
    omega
  rw [gap_succ short, segment_concat, add_ofNat_gap, Function.update_self,
    segment_update (slot_away wf room (.inr rfl))]
  rfl

end Store

/-- `cons'` is `cons` after `consoleintr(c)`: well formed, the read index where
it was, the ring edited as `edit` says, and the committed bytes extended by
those from the old `w` to the new one. -/
structure Edits (cons cons' : Cons) (c : UInt8) : Prop where
  wf : cons'.Wf
  r : cons'.r = cons.r
  edited : (cons'.pending, cons'.line) = edit cons.pending cons.line c
  commits : cons'.pending = cons.pending ++ segment cons'.buf cons.w (cons'.w - cons.w).toNat

theorem Edits.refl (wf : cons.Wf) (same : edit cons.pending cons.line c = (cons.pending, cons.line)) :
    Edits cons cons c where
  wf := wf
  r := rfl
  edited := same.symm
  commits := by simp [segment]

theorem Edits.erase (wf : cons.Wf) {e' : UInt32} {n : Nat} (gap : (cons.e - cons.w).toNat = (e' - cons.w).toNat + n)
    (same : edit cons.pending cons.line c = (cons.pending, cons.line.take (e' - cons.w).toNat)) :
    Edits cons { cons with e := e' } c := by
  have ordered := wf.ordered
  have split : cons.line = segment cons.buf cons.w (e' - cons.w).toNat ++
      segment cons.buf (cons.w + UInt32.ofNat (e' - cons.w).toNat) n := by
    rw [line, gap, segment_append]
  have prefix_ : ({ cons with e := e' } : Cons).line = cons.line.take (e' - cons.w).toNat := by
    rw [split, List.take_left' (segment_length _)]
    rfl
  have span : (e' - cons.r).toNat = (cons.w - cons.r).toNat + (e' - cons.w).toNat := by
    have within := wf.within
    unfold inputBuf at within
    rw [gap_add (y := cons.w) (by omega)]
    omega
  have within : (e' - cons.r).toNat ≤ inputBuf := by
    have := wf.within
    omega
  refine ⟨⟨span, within, fun inside => wf.noNewline ?_, fun inside => wf.noEof ?_⟩,
    rfl, by rw [same, prefix_]; rfl, by simp [pending, segment]⟩
  · rw [prefix_] at inside
    exact List.mem_of_mem_take inside
  · rw [prefix_] at inside
    exact List.mem_of_mem_take inside

section Store

variable (wf : cons.Wf) (room : (cons.e - cons.r).toNat < inputBuf) {x : UInt8}
include wf room

theorem store_gaps :
    (cons.e + 1 - cons.r).toNat = (cons.e - cons.r).toNat + 1 ∧
      (cons.e + 1 - cons.w).toNat = (cons.e - cons.w).toNat + 1 := by
  have ordered := wf.ordered
  unfold inputBuf at room
  exact ⟨gap_succ (by omega), gap_succ (by omega)⟩

theorem Edits.append (newlineNe : x ≠ newline) (eofNe : x ≠ ctrlD)
    (same : edit cons.pending cons.line c = (cons.pending, cons.line ++ [x])) :
    Edits cons { cons with buf := Function.update cons.buf (bufSlot cons.e) x, e := cons.e + 1 } c := by
  obtain ⟨fromR, fromW⟩ := store_gaps wf room
  have ordered := wf.ordered
  have line' : ({ cons with buf := Function.update cons.buf (bufSlot cons.e) x, e := cons.e + 1 } : Cons).line =
      cons.line ++ [x] := store_line wf room x
  have pending' : ({ cons with buf := Function.update cons.buf (bufSlot cons.e) x, e := cons.e + 1 } : Cons).pending =
      cons.pending := store_pending wf room x
  refine ⟨⟨by simp only; omega, by simp only; omega, ?_, ?_⟩, rfl, by rw [line', pending', same], ?_⟩
  · rw [line']
    simp [wf.noNewline, Ne.symm newlineNe]
  · rw [line']
    simp [wf.noEof, Ne.symm eofNe]
  · simp [pending', segment]

theorem Edits.commit (same : edit cons.pending cons.line c = (cons.pending ++ (cons.line ++ [x]), [])) :
    Edits cons { cons with buf := Function.update cons.buf (bufSlot cons.e) x, e := cons.e + 1, w := cons.e + 1 } c := by
  obtain ⟨fromR, fromW⟩ := store_gaps wf room
  have ordered := wf.ordered
  have grown : segment (Function.update cons.buf (bufSlot cons.e) x) cons.r (cons.e + 1 - cons.r).toNat =
      cons.pending ++ (cons.line ++ [x]) := by
    rw [show (cons.e + 1 - cons.r).toNat = (cons.w - cons.r).toNat + (cons.e + 1 - cons.w).toNat by omega,
      segment_append, add_ofNat_gap, store_pending wf room x, store_line wf room x]
  refine ⟨⟨by simp only [gap_self]; omega, by simp only; omega, by simp [line, segment],
    by simp [line, segment]⟩, rfl, ?_, ?_⟩
  · rw [same]
    simp only [pending, line, gap_self]
    rw [grown]
    rfl
  · simp only [pending]
    rw [grown, store_line wf room x]
    rfl

end Store

theorem full_iff (wf : cons.Wf) :
    cons.e + 1 = cons.r + UInt32.ofNat inputBuf ↔ cons.pending.length + cons.line.length + 1 = inputBuf := by
  rw [wf.line_length, ← UInt32.toNat_inj]
  simp only [UInt32.toNat_add, UInt32.toNat_sub, UInt32.toNat_ofNat', UInt32.toNat_one]
  have := cons.e.toNat_lt
  have := cons.r.toNat_lt
  unfold inputBuf
  omega

theorem consoleintr_edits (wf : cons.Wf) (c : UInt8) : Edits cons (cons.consoleintr c) c := by
  have lengths := wf.line_length
  by_cases p : c = ctrlP
  · subst p
    rw [show cons.consoleintr ctrlP = cons by simp [consoleintr]]
    exact Edits.refl wf (by simp [edit])
  by_cases u : c = ctrlU
  · subst u
    rw [show cons.consoleintr ctrlU = killLine (cons.e - cons.w).toNat cons by
      simp [consoleintr, show ctrlU ≠ ctrlP by decide], killLine_eq _ _ rfl wf.noNewline]
    exact Edits.erase wf (by rw [gap_self, Nat.zero_add]) (by simp [edit, show ctrlU ≠ ctrlP by decide])
  by_cases erase : c = ctrlH ∨ c = delete
  · have rest : edit cons.pending cons.line c = (cons.pending, cons.line.dropLast) := by
      simp [edit, p, u, erase]
    by_cases moved : cons.e = cons.w
    · rw [show cons.consoleintr c = cons by simp [consoleintr, p, u, erase, moved]]
      have empty : cons.line = [] := by simp [line, moved, segment]
      exact Edits.refl wf (by rw [rest, empty]; rfl)
    · rw [show cons.consoleintr c = { cons with e := cons.e - 1 } by simp [consoleintr, p, u, erase, moved]]
      have notZero : (cons.e - cons.w).toNat ≠ 0 := fun zero => moved (gap_eq_zero_iff.mp zero)
      refine Edits.erase wf (n := 1) (by rw [gap_pred moved]; omega) ?_
      rw [rest, List.dropLast_eq_take, gap_pred moved]
      simp [line]
  by_cases keep : c ≠ 0 ∧ (cons.e - cons.r).toNat < inputBuf
  · obtain ⟨nonzero, room⟩ := keep
    have erase' : ¬ (c = ctrlH ∨ c = delete) := erase
    simp only [not_or] at erase'
    generalize stored : (if c = carriageReturn then newline else c) = x
    have rest : edit cons.pending cons.line c = if x = newline ∨ x = ctrlD ∨
        cons.pending.length + cons.line.length + 1 = inputBuf then (cons.pending ++ (cons.line ++ [x]), [])
        else (cons.pending, cons.line ++ [x]) := by
      simp only [edit, p, u, erase, if_false, lengths, stored]
      rw [if_pos ⟨nonzero, room⟩]
    by_cases commit : x = newline ∨ x = ctrlD ∨ cons.pending.length + cons.line.length + 1 = inputBuf
    · have intr : cons.consoleintr c = { cons with
          buf := Function.update cons.buf (bufSlot cons.e) x, e := cons.e + 1, w := cons.e + 1 } := by
        rw [← full_iff wf] at commit
        rcases commit with hit | hit | hit <;>
          simp [consoleintr, p, u, erase'.1, erase'.2, nonzero, room_iff.mpr room, stored, hit]
      rw [intr]
      exact Edits.commit wf room (by rw [rest, if_pos commit])
    · have intr : cons.consoleintr c = { cons with
          buf := Function.update cons.buf (bufSlot cons.e) x, e := cons.e + 1 } := by
        rw [← full_iff wf] at commit
        simp only [not_or] at commit
        simp [consoleintr, p, u, erase'.1, erase'.2, nonzero, room_iff.mpr room, stored, commit]
      rw [← full_iff wf] at commit
      simp only [not_or] at commit
      rw [intr]
      exact Edits.append wf room commit.1 commit.2.1
        (by rw [rest, if_neg (by rw [← full_iff wf]; simp [commit])])
  · have rest : edit cons.pending cons.line c = (cons.pending, cons.line) := by
      simp only [edit, p, u, erase, if_false, lengths]
      rw [if_neg keep]
    rw [show cons.consoleintr c = cons by
      simp only [not_and_or, not_not, not_lt] at keep
      rcases keep with zero | full
      · subst zero
        simp [consoleintr, p, u, erase]
      · simp [consoleintr, p, u, erase, room_iff, Nat.not_lt.mpr full]]
    exact Edits.refl wf rest

theorem Wf.consume (wf : cons.Wf) {k : Nat} (few : k ≤ cons.pending.length) :
    ({ cons with r := cons.r + UInt32.ofNat k } : Cons).Wf ∧
      ({ cons with r := cons.r + UInt32.ofNat k } : Cons).pending = cons.pending.drop k ∧
      segment cons.buf cons.r (cons.r + UInt32.ofNat k - cons.r).toNat = cons.pending.take k := by
  have ordered := wf.ordered
  have within := wf.within
  simp only [pending, segment_length] at few
  unfold inputBuf at within
  have fromW := gap_advance (x := cons.w) few
  have fromE := gap_advance (x := cons.e) (show k ≤ (cons.e - cons.r).toNat by omega)
  have split : segment cons.buf cons.r _ = _ := segment_append k ((cons.w - cons.r).toNat - k)
  rw [Nat.add_sub_cancel' few] at split
  refine ⟨⟨?_, ?_, wf.noNewline, wf.noEof⟩, ?_, ?_⟩
  · simp only [fromW, fromE]
    omega
  · simp only [fromE, inputBuf]
    omega
  · simp only [pending, fromW, split]
    simp
  · rw [gap_add_ofNat (by omega), pending, split]
    simp

theorem pending_eq_nil_iff : cons.pending = [] ↔ cons.r = cons.w := by
  rw [← List.length_eq_zero_iff, pending, segment_length, gap_eq_zero_iff, eq_comm]

theorem pending_of_ne (ne : cons.r ≠ cons.w) :
    cons.pending = cons.buf (bufSlot cons.r) :: ({ cons with r := cons.r + 1 } : Cons).pending := by
  have nonzero : (cons.w - cons.r).toNat ≠ 0 := fun zero => ne (gap_eq_zero_iff.mp zero).symm
  have gap : (cons.w - cons.r).toNat = (cons.w - (cons.r + 1)).toNat + 1 := by
    rw [gap_succ_right (Ne.symm ne)]
    omega
  rw [pending, gap, segment]
  rfl

end Cons

theorem readLoop_take (dst : Nat → Bool) (target : Int) :
    ∀ (fuel : Nat) (cons : Cons) (n : Int) (got : List UInt8), cons.pending.length < fuel →
      readLoop dst target fuel cons n got =
        some ({ cons with r := cons.r + UInt32.ofNat (takeLine dst target cons.pending n got).1 },
          (takeLine dst target cons.pending n got).2)
  | 0, _, _, _, enough => absurd enough (Nat.not_lt_zero _)
  | fuel + 1, cons, n, got, enough => by
    by_cases wants : n > 0
    case neg =>
      have stop : takeLine dst target cons.pending n got = (0, .returned (target - n) got) := by
        cases cons.pending <;> simp [takeLine, wants]
      simp [readLoop, wants, stop]
    have zero : UInt32.ofNat 0 = 0 := rfl
    have one : UInt32.ofNat 1 = 1 := rfl
    by_cases empty : cons.r = cons.w
    · have nil := Cons.pending_eq_nil_iff.mpr empty
      simp [readLoop, wants, nil, takeLine, zero, beq_iff_eq.mpr empty]
    have front := Cons.pending_of_ne empty
    rw [front] at enough ⊢
    have ih := readLoop_take dst target fuel { cons with r := cons.r + 1 } (n - 1)
      (got ++ [cons.buf (bufSlot cons.r)]) (by simpa using enough)
    by_cases eof : cons.buf (bufSlot cons.r) = ctrlD
    · by_cases first : n < target
      · simp [readLoop, wants, empty, eof, first, takeLine, zero]
      · simp [readLoop, wants, empty, eof, first, takeLine, one]
    by_cases fails : dst got.length = false
    · simp [readLoop, wants, empty, eof, fails, takeLine, one]
    by_cases ends : cons.buf (bufSlot cons.r) = newline
    · simp [readLoop, wants, empty, fails, ends, takeLine, newline_ne_ctrlD]
    · simp [readLoop, wants, empty, eof, fails, ends, takeLine, ih, add_one_add_ofNat]

namespace ConsSys

variable {P : Type} [DecidableEq P] {s t : ConsSys P} {p : P}

theorem step_run {dst : Nat → Bool} {target n : Int} {got : List UInt8} (wf : s.cons.Wf)
    (reading : s.pc p = .reading dst target n got) :
    (system P).step s (.run p) = some (.running
      { cons := { s.cons with r := s.cons.r + UInt32.ofNat (takeLine dst target s.cons.pending n got).1 }
        pc := Function.update s.pc p (takeLine dst target s.cons.pending n got).2
        committed := s.committed
        taken := s.taken ++ s.cons.pending.take (takeLine dst target s.cons.pending n got).1 }) := by
  have took := (wf.consume (takeLine_le dst target s.cons.pending n got)).2.2
  have enough : s.cons.pending.length < (s.cons.w - s.cons.r).toNat + 1 := by
    simp [Cons.pending]
  simp only [system, step, reading, readLoop_take dst target _ s.cons n got enough, Option.map_some]
  rw [took]

/-- The invariant of the console over every run: the ring is well formed, and
the bytes committed so far are those readers took followed by those still in
the ring. -/
structure Inv (s : ConsSys P) : Prop where
  wf : s.cons.Wf
  history : s.committed = s.taken ++ s.cons.pending

theorem invariant : (system P).Invariant Inv where
  init := by
    refine ⟨⟨?_, ?_, ?_, ?_⟩, ?_⟩ <;> simp [system, Cons.line, Cons.pending, segment, inputBuf]
  step := by
    intro s t event inv step
    cases event with
    | consoleintr c =>
      simp only [system, ConsSys.step, Option.some.injEq, Outcome.running.injEq] at step
      subst step
      have edits := Cons.consoleintr_edits inv.wf c
      exact ⟨edits.wf, by rw [edits.commits, inv.history, List.append_assoc]⟩
    | consoleread p dst n =>
      simp only [system, ConsSys.step] at step
      split_ifs at step
      cases step
      exact ⟨inv.wf, inv.history⟩
    | run p =>
      cases reading : s.pc p with
      | reading dst target n got =>
        rw [step_run inv.wf reading] at step
        cases step
        obtain ⟨wf, rest, _⟩ := inv.wf.consume (takeLine_le dst target s.cons.pending n got)
        exact ⟨wf, by rw [rest, inv.history, List.append_assoc, List.take_append_drop]⟩
      | idle | returned =>
        simp [system, ConsSys.step, reading] at step

/-- In every state the console reaches, `r <= w <= e <= r + INPUT_BUF` as
differences modulo `2^32`, the line being edited holds no newline and no `^D`,
and the bytes `consoleintr` committed are those readers took out of the ring
followed by those still in it. -/
theorem console_ring_wf {s : ConsSys P} (reach : (system P).Reachable s) :
    (s.cons.e - s.cons.r).toNat = (s.cons.w - s.cons.r).toNat + (s.cons.e - s.cons.w).toNat ∧
      (s.cons.e - s.cons.r).toNat ≤ inputBuf ∧ newline ∉ s.cons.line ∧ ctrlD ∉ s.cons.line ∧
      s.committed = s.taken ++ s.cons.pending := by
  have inv := invariant.holds reach
  exact ⟨inv.wf.ordered, inv.wf.within, inv.wf.noNewline, inv.wf.noEof, inv.history⟩

/-- After the line `a\n` is typed, the ring holds it, committed and not yet
taken. -/
theorem console_ring_wf_afterLine :
    ∃ s, (system Unit).runFrom (system Unit).init [.consoleintr 97, .consoleintr 10] = some (.running s) ∧
      (s.cons.e - s.cons.r).toNat = (s.cons.w - s.cons.r).toNat + (s.cons.e - s.cons.w).toNat ∧
      (s.cons.e - s.cons.r).toNat ≤ inputBuf ∧ s.committed = s.taken ++ s.cons.pending ∧
      s.cons.pending = [97, 10] := by
  obtain ⟨s, typed, pending⟩ : ∃ s,
      (system Unit).runFrom (system Unit).init [.consoleintr 97, .consoleintr 10] = some (.running s) ∧
        s.cons.pending = [97, 10] :=
    ⟨_, rfl, rfl⟩
  obtain ⟨ordered, within, -, -, history⟩ :=
    console_ring_wf (System.runFrom_reachable System.Reachable.init _ typed)
  exact ⟨s, typed, ordered, within, history, pending⟩

/-- A reader whose copy of its first byte fails returns `0`, as at the end of
the input, yet has taken that byte out of the ring: a committed byte that no
read returns. -/
theorem consoleread_drops_byte (reach : (system P).Reachable s) (idle : (s.pc p).isIdle)
    {c : UInt8} {rest : List UInt8} (front : s.cons.pending = c :: rest) (notEof : c ≠ ctrlD)
    (dst : Nat → Bool) (fails : dst 0 = false) (n : Int) (wants : 0 < n) :
    ∃ t, (system P).runFrom s [.consoleread p dst n, .run p] = some (.running t) ∧
      t.pc p = .returned 0 [] ∧ t.committed = s.committed ∧ t.taken = s.taken ++ [c] ∧
      t.cons.pending = rest := by
  have inv := invariant.holds reach
  have start : (system P).step s (.consoleread p dst n) =
      some (.running { s with pc := Function.update s.pc p (.reading dst n n []) }) := by
    simp [system, step, idle]
  have take : takeLine dst n s.cons.pending n [] = (1, .returned 0 []) := by
    simp [takeLine, front, wants, notEof, fails]
  have ran := step_run (s := { s with pc := Function.update s.pc p (.reading dst n n []) }) (p := p)
    inv.wf (show _ = ConsPc.reading dst n n [] by simp)
  dsimp only at ran
  rw [take] at ran
  obtain ⟨_, rest', _⟩ := inv.wf.consume (k := 1) (by simp [front])
  simp only [System.runFrom, start, ran, Option.some.injEq, Outcome.running.injEq, exists_eq_left']
  refine ⟨by simp, trivial, by simp [front], ?_⟩
  rw [rest', front]
  rfl

theorem consoleread_drops_byte_afterLine :
    ∃ t, (system Unit).runFrom (system Unit).init
        [.consoleintr 97, .consoleintr 10, .consoleread () (fun _ => false) 8, .run ()] =
          some (.running t) ∧
      t.pc () = .returned 0 [] ∧ t.committed = [97, 10] ∧ t.taken = [97] ∧ t.cons.pending = [10] := by
  obtain ⟨s, typed, idle, front, committed, taken⟩ : ∃ s,
      (system Unit).runFrom (system Unit).init [.consoleintr 97, .consoleintr 10] = some (.running s) ∧
        (s.pc ()).isIdle ∧ s.cons.pending = [97, 10] ∧ s.committed = [97, 10] ∧ s.taken = [] :=
    ⟨_, rfl, rfl, by decide, rfl, rfl⟩
  obtain ⟨t, ran, pc, same, took, rest⟩ := consoleread_drops_byte
    (System.runFrom_reachable System.Reachable.init _ typed) idle front (by decide)
    (fun _ => false) rfl 8 (by decide)
  refine ⟨t, ?_, pc, by rw [same, committed], by rw [took, taken]; rfl, rest⟩
  rw [show [ConsEvent.consoleintr 97, .consoleintr 10, .consoleread () (fun _ => false) 8, .run ()] =
      [.consoleintr 97, .consoleintr 10] ++ [.consoleread () (fun _ => false) 8, .run ()] from rfl,
    System.runFrom_append typed]
  exact ran

end ConsSys

end Xv6
