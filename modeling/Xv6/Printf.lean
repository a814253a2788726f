import Mathlib

/-! The number conversions of `printf`: `printint`, `printptr` and `printf` of
the kernel's `printf.c`, which hand characters to `consputc`, and
`printint`, `printptr` and `vprintf` of the user library's `printf.c`, which
`putc` them to a file descriptor. Both `printint`s put the digits of a number
in a buffer from the least significant one and print the buffer backwards;
both `printptr`s print the top hexadecimal digit of a shifting word sixteen
times. Characters are bytes. The variadic arguments are a list of values of
the types the caller passed; a `va_arg` of another type, or past the last
argument, is undefined, and the model gives `none` for it. -/

namespace Xv6

/-- A base `printint` is called with: at least 2, so that its loop ends. -/
structure Base where
  val : Nat
  two_le : 2 ≤ val

theorem two_le_ten : 2 ≤ 10 := by decide

theorem two_le_sixteen : 2 ≤ 16 := by decide

def Base.dec : Base := ⟨10, two_le_ten⟩

def Base.hex : Base := ⟨16, two_le_sixteen⟩

theorem Base.div_lt (base : Base) {x : Nat} (more : x / base.val ≠ 0) : x / base.val < x :=
  Nat.div_lt_self (Nat.pos_of_ne_zero fun zero => more (by simp [zero])) (by have := base.two_le; omega)

/-- `do { buf[i++] = digits[x % base]; } while((x /= base) != 0);`: the
characters put in `buf`, the least significant digit first. -/
def fillDigits (digits : List Char) (base : Base) (x : Nat) : List Char :=
  digits.getD (x % base.val) '?' ::
    if more : x / base.val = 0 then []
    else
      have := base.div_lt more
      fillDigits digits base (x / base.val)
termination_by x

/-- `printint(xx, base, sign)` with the digit characters `digits`: `x` is
`-xx` as an `uint` when `sign` is set and `xx` is negative, and then a '-'
follows the digits in `buf`; otherwise `x` is `xx` as an `uint`. -/
def printintWith (digits : List Char) (xx : Int32) (base : Base) (sign : Bool) : List Char :=
  let neg := sign && decide (xx < 0)
  let x : UInt32 := if neg then (-xx).toUInt32 else xx.toUInt32
  (fillDigits digits base x.toNat ++ if neg then ['-'] else []).reverse

/-- `for (i = 0; i < n; i++, x <<= 4) putc(digits[x >> 60]);` -/
def ptrDigits (digits : List Char) : Nat → UInt64 → List Char
  | 0, _ => []
  | n + 1, x => digits.getD (x >>> 60).toNat '?' :: ptrDigits digits n (x <<< 4)

/-- `printptr(x)` with the digit characters `digits`: "0x" and
`sizeof(uint64) * 2` digits. -/
def printptrWith (digits : List Char) (x : UInt64) : List Char :=
  '0' :: 'x' :: ptrDigits digits 16 x

/-- A variadic argument, of the type its caller passed: `int`, `uint`,
`uint64` or `char*`, whose `none` is the null pointer. -/
inductive Arg where
  | int (v : Int32)
  | uint (v : UInt32)
  | u64 (v : UInt64)
  | str (s : Option (List Char))

def Arg.asInt : Arg → Option Int32
  | .int v => some v
  | _ => none

def Arg.asUInt : Arg → Option UInt32
  | .uint v => some v
  | _ => none

def Arg.asU64 : Arg → Option UInt64
  | .u64 v => some v
  | _ => none

def Arg.asStr : Arg → Option (Option (List Char))
  | .str s => some s
  | _ => none

/-- `va_arg(ap, T)`: the next argument and those after it, when the next one
has the type `read` accepts. -/
def vaArg {α : Type} (read : Arg → Option α) : List Arg → Option (α × List Arg)
  | [] => none
  | a :: args => (read a).map fun v => (v, args)

/-- A `%s` argument: the string, or "(null)" for the null pointer. -/
def strArg (s : Option (List Char)) : List Char := s.getD "(null)".toList

/-- `digits` of the kernel's `printf.c`. -/
def digits : List Char := "0123456789abcdef".toList

def printint (xx : Int32) (base : Base) (sign : Bool) : List Char := printintWith digits xx base sign

def printptr (x : UInt64) : List Char := printptrWith digits x

/-- The `switch` of the kernel's `printf` on the character after a '%'. -/
def conversion (c : Char) (args : List Arg) : Option (List Char × List Arg) :=
  if c = 'd' then (vaArg Arg.asInt args).map fun r => (printint r.1 .dec true, r.2)
  else if c = 'x' then (vaArg Arg.asInt args).map fun r => (printint r.1 .hex true, r.2)
  else if c = 'p' then (vaArg Arg.asU64 args).map fun r => (printptr r.1, r.2)
  else if c = 's' then (vaArg Arg.asStr args).map fun r => (strArg r.1, r.2)
  else if c = '%' then some (['%'], args)
  else some (['%', c], args)

/-- `printf(fmt, ...)` of the kernel, inside its lock: what it hands to
`consputc`. A '%' at the end of `fmt` ends it. -/
def printf : List Char → List Arg → Option (List Char)
  | [], _ => some []
  | c :: fmt, args =>
    if c ≠ '%' then (c :: ·) <$> printf fmt args
    else match fmt with
      | [] => some []
      | c :: fmt => (conversion c args).bind fun r => (r.1 ++ ·) <$> printf fmt r.2

namespace User

/-- `digits` of the user library's `printf.c`. -/
def digits : List Char := "0123456789ABCDEF".toList

def printint (xx : Int32) (base : Base) (sgn : Bool) : List Char := printintWith digits xx base sgn

def printptr (x : UInt64) : List Char := printptrWith digits x

/-- What `vprintf` does with the character after a '%'. `%l` hands its
`uint64` to the `int` parameter of `printint`, which keeps its low 32 bits. -/
def conversion (c : Char) (args : List Arg) : Option (List Char × List Arg) :=
  if c = 'd' then (vaArg Arg.asInt args).map fun r => (printint r.1 .dec true, r.2)
  else if c = 'l' then (vaArg Arg.asU64 args).map fun r => (printint r.1.toUInt32.toInt32 .dec false, r.2)
  else if c = 'x' then (vaArg Arg.asInt args).map fun r => (printint r.1 .hex false, r.2)
  else if c = 'p' then (vaArg Arg.asU64 args).map fun r => (printptr r.1, r.2)
  else if c = 's' then (vaArg Arg.asStr args).map fun r => (strArg r.1, r.2)
  else if c = 'c' then (vaArg Arg.asUInt args).map fun r => ([Char.ofNat (r.1.toNat % 256)], r.2)
  else if c = '%' then some (['%'], args)
  else some (['%', c], args)

/-- The loop of `vprintf` from `state`, which is `'%'` (here `true`) after a
'%' and 0 otherwise. -/
def vprintfLoop : List Char → Bool → List Arg → Option (List Char)
  | [], _, _ => some []
  | c :: fmt, false, args => if c = '%' then vprintfLoop fmt true args else (c :: ·) <$> vprintfLoop fmt false args
  | c :: fmt, true, args => (conversion c args).bind fun r => (r.1 ++ ·) <$> vprintfLoop fmt false r.2

/-- `vprintf(fd, fmt, ap)`: what it writes to `fd`. -/
def vprintf (fmt : List Char) (args : List Arg) : Option (List Char) := vprintfLoop fmt false args

end User

/-! ### What the conversions print -/

/-- `v` in decimal, after a '-' when it is negative. -/
def signedDecimal (v : Int32) : List Char :=
  (if v < 0 then ['-'] else []) ++ Nat.toDigits 10 v.toInt.natAbs

/-- The sixteen hexadecimal digits of a 64-bit word, the most significant
first, each written by `f` of its digit character. -/
def hex16 (f : Char → Char) (x : UInt64) : List Char :=
  (List.range 16).map fun k => f (Nat.digitChar (x.toNat / 16 ^ (15 - k) % 16))

section Digits

variable {digits : List Char} {f : Char → Char} {base : Base}

theorem fillDigits_eq (agree : ∀ d < base.val, digits.getD d '?' = f (Nat.digitChar d)) (x : Nat) :
    fillDigits digits base x = ((Nat.toDigits base.val x).map f).reverse := by
  have two := base.two_le
  induction x using Nat.strong_induction_on with
  | _ x ih =>
    have low : x % base.val < base.val := Nat.mod_lt x (by omega)
    rw [fillDigits]
    by_cases last : x / base.val = 0
    · have small : x < base.val := by
        rcases Nat.div_eq_zero_iff.mp last with zero | below
        · omega
        · exact below
      rw [dif_pos last, Nat.toDigits_of_lt_base small, Nat.mod_eq_of_lt small, agree x small]
      rfl
    · rw [dif_neg last, ih _ (base.div_lt last)]
      have split : Nat.toDigits base.val x =
          Nat.toDigits base.val (x / base.val) ++ [Nat.digitChar (x % base.val)] := by
        rw [← Nat.toDigits_of_lt_base low,
          Nat.toDigits_append_toDigits (by omega) (Nat.pos_of_ne_zero last) low, Nat.div_add_mod]
      rw [split, List.map_append, List.reverse_append, agree _ low]
      rfl

theorem mem_fillDigits {c : Char} (x : Nat) (mem : c ∈ fillDigits digits base x) :
    ∃ d < base.val, c = digits.getD d '?' := by
  have two := base.two_le
  induction x using Nat.strong_induction_on with
  | _ x ih =>
    rw [fillDigits] at mem
    rcases List.mem_cons.mp mem with here | later
    · exact ⟨_, Nat.mod_lt x (by omega), here⟩
    · split at later
      · simp at later
      · next more => exact ih _ (base.div_lt more) later

theorem printintWith_eq (agree : ∀ d < base.val, digits.getD d '?' = f (Nat.digitChar d))
    (xx : Int32) (sign : Bool) :
    printintWith digits xx base sign =
      (if sign && decide (xx < 0) then ['-'] else []) ++
        (Nat.toDigits base.val (if sign && decide (xx < 0) then (-xx).toUInt32 else xx.toUInt32).toNat).map f := by
  unfold printintWith
  dsimp only
  rw [fillDigits_eq agree]
  split <;> simp

theorem toUInt32_toNat_of_nonneg (v : Int32) (nonneg : ¬ v < 0) : v.toUInt32.toNat = v.toInt.natAbs := by
  rw [Int32.lt_iff_toInt_lt, Int32.toInt_zero] at nonneg
  have cond := BitVec.toInt_eq_toNat_cond v.toBitVec
  rw [Int32.toInt_toBitVec] at cond
  rw [← UInt32.toNat_toBitVec, Int32.toBitVec_toUInt32]
  split at cond <;> omega

theorem neg_toUInt32_toNat_of_neg (v : Int32) (neg : v < 0) : (-v).toUInt32.toNat = v.toInt.natAbs := by
  rw [Int32.lt_iff_toInt_lt, Int32.toInt_zero] at neg
  have cond := BitVec.toInt_eq_toNat_cond v.toBitVec
  rw [Int32.toInt_toBitVec] at cond
  have bound := v.toBitVec.isLt
  rw [Int32.toUInt32_neg, UInt32.toNat_neg, ← UInt32.toNat_toBitVec, Int32.toBitVec_toUInt32]
  split at cond <;> simp [UInt32.size] <;> omega

theorem printintWith_signed (agree : ∀ d < base.val, digits.getD d '?' = f (Nat.digitChar d)) (xx : Int32) :
    printintWith digits xx base true =
      (if xx < 0 then ['-'] else []) ++ (Nat.toDigits base.val xx.toInt.natAbs).map f := by
  rw [printintWith_eq agree]
  by_cases neg : xx < 0
  · have flag : (true && decide (xx < 0)) = true := by simp [neg]
    rw [flag, if_pos rfl, if_pos rfl, if_pos neg, neg_toUInt32_toNat_of_neg xx neg]
  · simp [neg, toUInt32_toNat_of_nonneg xx neg]

theorem printintWith_unsigned (agree : ∀ d < base.val, digits.getD d '?' = f (Nat.digitChar d)) (xx : Int32) :
    printintWith digits xx base false = (Nat.toDigits base.val xx.toUInt32.toNat).map f := by
  simp [printintWith_eq agree]

theorem ptrDigits_eq (n : Nat) : ∀ x : UInt64,
    ptrDigits digits n x = (List.range n).map fun k => digits.getD (x.toNat * 16 ^ k % 2 ^ 64 / 2 ^ 60) '?' := by
  induction n with
  | zero => intro x; rfl
  | succ n ih =>
    intro x
    rw [ptrDigits, ih, List.range_succ_eq_map, List.map_cons, List.map_map]
    congr 1
    · simp [UInt64.toNat_shiftRight, Nat.shiftRight_eq_div_pow, Nat.mod_eq_of_lt x.toNat_lt]
    · apply List.map_congr_left
      intro k _
      have shifted : (x <<< 4).toNat = x.toNat * 16 % 2 ^ 64 := by
        simp [UInt64.toNat_shiftLeft, Nat.shiftLeft_eq]
      simp only [Function.comp_apply, shifted, Nat.mod_mul_mod, pow_succ, Nat.mul_assoc, Nat.mul_comm 16]

theorem shifted_top (a k : Nat) (hk : k < 16) : a * 16 ^ k % 2 ^ 64 / 2 ^ 60 = a / 16 ^ (15 - k) % 16 := by
  have word : (2 : Nat) ^ 64 = 2 ^ 60 * 16 := by norm_num
  have top : (2 : Nat) ^ 60 = 16 ^ (15 - k) * 16 ^ k := by
    rw [← pow_add, show 15 - k + k = 15 by omega]
    norm_num
  rw [word, Nat.mod_mul_right_div_self, top, Nat.mul_div_mul_right _ _ (by positivity)]

theorem printptrWith_eq (agree : ∀ d < 16, digits.getD d '?' = f (Nat.digitChar d)) (x : UInt64) :
    printptrWith digits x = '0' :: 'x' :: hex16 f x := by
  rw [printptrWith, ptrDigits_eq, hex16]
  congr 2
  apply List.map_congr_left
  intro k mem
  rw [shifted_top _ _ (List.mem_range.mp mem), agree _ (Nat.mod_lt _ (by decide))]

end Digits

/-! ### The kernel's `printf` -/

theorem digits_agree (base : Base) (within : base.val ≤ 16) :
    ∀ d < base.val, digits.getD d '?' = id (Nat.digitChar d) := by
  have table : ∀ d < 16, digits.getD d '?' = Nat.digitChar d := by decide
  exact fun d below => table d (by omega)

theorem printint_signed (base : Base) (within : base.val ≤ 16) (xx : Int32) :
    printint xx base true = (if xx < 0 then ['-'] else []) ++ Nat.toDigits base.val xx.toInt.natAbs := by
  rw [printint, printintWith_signed (digits_agree base within), List.map_id]

theorem printint_dec (v : Int32) : printint v .dec true = signedDecimal v :=
  printint_signed Base.dec (by decide) v

theorem printint_hex (v : Int32) :
    printint v .hex true = (if v < 0 then ['-'] else []) ++ Nat.toDigits 16 v.toInt.natAbs :=
  printint_signed Base.hex (by decide) v

theorem printf_percent (c : Char) (fmt : List Char) (args : List Arg) :
    printf ('%' :: c :: fmt) args = (conversion c args).bind fun r => (r.1 ++ ·) <$> printf fmt r.2 := by
  conv_lhs => unfold printf
  rw [if_neg (not_not.mpr rfl)]

theorem printf_x (v : Int32) (fmt : List Char) (args : List Arg) :
    printf ('%' :: 'x' :: fmt) (.int v :: args) =
      (((if v < 0 then ['-'] else []) ++ Nat.toDigits 16 v.toInt.natAbs) ++ ·) <$> printf fmt args := by
  simp [printf_percent, conversion, vaArg, Arg.asInt, printint_hex]

theorem minus_not_mem_toDigits (n : Nat) : '-' ∉ Nat.toDigits 16 n := by
  have same : fillDigits digits Base.hex n = ((Nat.toDigits 16 n).map id).reverse :=
    fillDigits_eq (digits_agree Base.hex (by decide)) n
  rw [List.map_id] at same
  intro mem
  rw [← List.mem_reverse, ← same] at mem
  obtain ⟨d, below, minus⟩ := mem_fillDigits n mem
  have table : ∀ d < 16, digits.getD d '?' ≠ '-' := by decide
  exact table d below minus.symm

/-! ### The user library's `vprintf` -/

namespace User

theorem digits_agree (base : Base) (within : base.val ≤ 16) :
    ∀ d < base.val, digits.getD d '?' = (Nat.digitChar d).toUpper := by
  have table : ∀ d < 16, digits.getD d '?' = (Nat.digitChar d).toUpper := by decide
  exact fun d below => table d (by omega)

theorem digits_agree_dec : ∀ d < Base.dec.val, digits.getD d '?' = id (Nat.digitChar d) := by decide

theorem printint_dec (v : Int32) : printint v .dec true = signedDecimal v := by
  rw [printint, printintWith_signed digits_agree_dec, List.map_id]
  rfl

theorem printint_dec_unsigned (v : Int32) : printint v .dec false = Nat.toDigits 10 v.toUInt32.toNat := by
  rw [printint, printintWith_unsigned digits_agree_dec, List.map_id]
  rfl

theorem printint_hex_unsigned (v : Int32) :
    printint v .hex false = (Nat.toDigits 16 v.toUInt32.toNat).map Char.toUpper :=
  printintWith_unsigned (digits_agree Base.hex (by decide)) v

theorem vprintf_percent (c : Char) (fmt : List Char) (args : List Arg) :
    vprintf ('%' :: c :: fmt) args = (conversion c args).bind fun r => (r.1 ++ ·) <$> vprintf fmt r.2 := by
  rw [vprintf, vprintfLoop, if_pos rfl, vprintfLoop]
  rfl

theorem vprintf_l (v : UInt64) (fmt : List Char) (args : List Arg) :
    vprintf ('%' :: 'l' :: fmt) (.u64 v :: args) = (Nat.toDigits 10 (v.toNat % 2 ^ 32) ++ ·) <$> vprintf fmt args := by
  simp [vprintf_percent, conversion, vaArg, Arg.asU64, printint_dec_unsigned]

end User

theorem printf_hex_signed_long_truncated :
    (∀ (v : Int32) (fmt : List Char) (args : List Arg), v < 0 →
      printf ('%' :: 'x' :: fmt) (.int v :: args) = (('-' :: Nat.toDigits 16 v.toInt.natAbs) ++ ·) <$> printf fmt args ∧
        '-' ∉ Nat.toDigits 16 v.toUInt32.toNat) ∧
    (∀ (v : UInt64) (fmt : List Char) (args : List Arg), 2 ^ 32 ≤ v.toNat →
      User.vprintf ('%' :: 'l' :: fmt) (.u64 v :: args) =
          (Nat.toDigits 10 (v.toNat % 2 ^ 32) ++ ·) <$> User.vprintf fmt args ∧
        Nat.toDigits 10 (v.toNat % 2 ^ 32) ≠ Nat.toDigits 10 v.toNat) := by
  refine ⟨fun v fmt args neg => ⟨?_, minus_not_mem_toDigits _⟩, fun v fmt args big => ⟨User.vprintf_l v fmt args, ?_⟩⟩
  · simp [printf_x, neg]
  · intro same
    have read := congrArg (fun ds => Nat.ofDigitChars 10 ds 0) same
    simp only [Nat.ofDigitChars_toDigits (by decide : 1 < 10) (le_refl 10)] at read
    have below := Nat.mod_lt v.toNat (by positivity : 0 < 2 ^ 32)
    omega

theorem printf_hex_minus_one_long_four_gib :
    (-1 : Int32) < 0 ∧ printf ['%', 'x'] [.int (-1)] = some ['-', '1'] ∧
      2 ^ 32 ≤ (2 ^ 32 : UInt64).toNat ∧ User.vprintf ['%', 'l'] [.u64 (2 ^ 32)] = some ['0'] := by
  have negative : (-1 : Int32) < 0 := by decide
  have big : 2 ^ 32 ≤ (2 ^ 32 : UInt64).toNat := by decide
  refine ⟨negative, ?_, big, ?_⟩
  · rw [(printf_hex_signed_long_truncated.1 (-1) [] [] negative).1]
    decide
  · rw [(printf_hex_signed_long_truncated.2 (2 ^ 32) [] [] big).1]
    decide

end Xv6
