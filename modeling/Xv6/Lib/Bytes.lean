import Mathlib

/-! Byte-addressed memories and what programs store in them: little-endian
numbers of a few bytes, copies of byte ranges and filled ranges. A decoded
number depends only on its own bytes, so a store outside them leaves it, and a
number decodes to what was stored, modulo its width. -/

namespace Xv6.Lib

/-- A byte-addressed memory. -/
abbrev Mem := Nat → UInt8

variable {m m' : Mem} {off off' w w' v i k : Nat}

/-- The `w`-byte little-endian number at `off`. -/
def getLE (m : Mem) (off : Nat) : Nat → Nat
  | 0 => 0
  | w + 1 => (m off).toNat + 256 * getLE m (off + 1) w

theorem getLE_succ (m : Mem) (off w : Nat) : getLE m off (w + 1) = (m off).toNat + 256 * getLE m (off + 1) w := rfl

/-- Stores the `w` low bytes of `v` at `off`, least significant first. -/
def setLE (m : Mem) (off : Nat) : Nat → Nat → Mem
  | 0, _ => m
  | w + 1, v => setLE (Function.update m off (UInt8.ofNat v)) (off + 1) w (v / 256)

theorem setLE_succ (m : Mem) (off w v : Nat) :
    setLE m off (w + 1) v = setLE (Function.update m off (UInt8.ofNat v)) (off + 1) w (v / 256) := rfl

/-- Stores `f 0, ..., f (n - 1)` as `w`-byte numbers one after another from `off`. -/
def setArray (m : Mem) (off w : Nat) (f : Nat → Nat) : Nat → Mem
  | 0 => m
  | n + 1 => setLE (setArray m off w f n) (off + w * n) w (f n)

theorem setArray_succ (m : Mem) (off w n : Nat) (f : Nat → Nat) :
    setArray m off w f (n + 1) = setLE (setArray m off w f n) (off + w * n) w (f n) := rfl

/-- `memmove(dst + doff, src + soff, n)`. -/
def copyBytes (dst : Mem) (doff : Nat) (src : Mem) (soff n : Nat) : Mem :=
  fun i => if doff ≤ i ∧ i < doff + n then src (soff + (i - doff)) else dst i

/-- `memset(m + off, c, n)`. -/
def fillBytes (m : Mem) (off n : Nat) (c : UInt8) : Mem :=
  fun i => if off ≤ i ∧ i < off + n then c else m i

/-- The `n` bytes from `off`. -/
def bytesAt (m : Mem) (off n : Nat) : List UInt8 :=
  (List.range n).map fun i => m (off + i)

theorem getLE_lt : ∀ w off, getLE m off w < 256 ^ w
  | 0, _ => Nat.one_pos
  | w + 1, off => by
    have byte := (m off).toNat_lt
    have rest := getLE_lt w (off + 1)
    rw [getLE_succ, Nat.pow_succ]
    omega

theorem getLE_congr : ∀ w off, (∀ i, off ≤ i → i < off + w → m i = m' i) → getLE m off w = getLE m' off w
  | 0, _, _ => rfl
  | w + 1, off, same => by
    rw [getLE_succ, getLE_succ, same off (Nat.le_refl _) (by omega),
      getLE_congr w (off + 1) fun i low high => same i (by omega) (by omega)]

theorem setLE_outside : ∀ (m : Mem) w off v, (i < off ∨ off + w ≤ i) → setLE m off w v i = m i
  | _, 0, _, _, _ => rfl
  | m, w + 1, off, v, outside => by
    rw [setLE_succ, setLE_outside _ w (off + 1) (v / 256) (by omega), Function.update_of_ne (by omega)]

theorem getLE_setLE : ∀ (m : Mem) w off v, getLE (setLE m off w v) off w = v % 256 ^ w
  | _, 0, _, v => by
    rw [Nat.pow_zero, Nat.mod_one]
    rfl
  | m, w + 1, off, v => by
    rw [setLE_succ, getLE_succ, setLE_outside _ w (off + 1) (v / 256) (.inl (Nat.lt_succ_self off)),
      Function.update_self, getLE_setLE _ w (off + 1) (v / 256), UInt8.toNat_ofNat']
    rw [show 256 ^ (w + 1) = 256 * 256 ^ w by rw [Nat.pow_succ, Nat.mul_comm], Nat.mod_mul]

theorem getLE_setLE_of_disjoint (apart : off + w ≤ off' ∨ off' + w' ≤ off) :
    getLE (setLE m off' w' v) off w = getLE m off w :=
  getLE_congr w off fun _ low high => setLE_outside m w' off' v (by omega)

theorem getLE_of_lt {v : Nat} (small : v < 256 ^ w) : getLE (setLE m off w v) off w = v := by
  rw [getLE_setLE m w off v, Nat.mod_eq_of_lt small]

theorem setArray_outside (f : Nat → Nat) : ∀ n, (i < off ∨ off + w * n ≤ i) → setArray m off w f n i = m i
  | 0, _ => rfl
  | n + 1, outside => by
    have wider : w * n ≤ w * (n + 1) := Nat.mul_le_mul_left w (Nat.le_succ n)
    rw [setArray_succ, setLE_outside _ w (off + w * n) (f n) (by rw [Nat.mul_succ] at outside; omega),
      setArray_outside f n (by omega)]

theorem getLE_setArray (f : Nat → Nat) : ∀ n, k < n → getLE (setArray m off w f n) (off + w * k) w = f k % 256 ^ w
  | 0, short => absurd short (Nat.not_lt_zero k)
  | n + 1, short => by
    rw [setArray_succ]
    by_cases last : k = n
    · subst last
      exact getLE_setLE _ w _ (f k)
    · have before : w * k + w ≤ w * n := by
        rw [← Nat.mul_succ]
        exact Nat.mul_le_mul_left w (by omega)
      rw [getLE_setLE_of_disjoint (.inl (by omega)), getLE_setArray f n (by omega)]

theorem getLE_setArray_of_disjoint {f : Nat → Nat} {n : Nat} (apart : off + w ≤ off' ∨ off' + w' * n ≤ off) :
    getLE (setArray m off' w' f n) off w = getLE m off w :=
  getLE_congr w off fun _ low high => setArray_outside f n (by omega)

theorem copyBytes_inside (inside : off ≤ i ∧ i < off + w) (src : Mem) (soff : Nat) :
    copyBytes m off src soff w i = src (soff + (i - off)) := if_pos inside

theorem copyBytes_outside (outside : i < off ∨ off + w ≤ i) (src : Mem) (soff : Nat) :
    copyBytes m off src soff w i = m i := if_neg (by omega)

theorem fillBytes_inside (inside : off ≤ i ∧ i < off + w) (c : UInt8) : fillBytes m off w c i = c :=
  if_pos inside

theorem fillBytes_outside (outside : i < off ∨ off + w ≤ i) (c : UInt8) : fillBytes m off w c i = m i :=
  if_neg (by omega)

theorem getLE_zero : ∀ w off, (∀ i, off ≤ i → i < off + w → m i = 0) → getLE m off w = 0
  | 0, _, _ => rfl
  | w + 1, off, zero => by
    rw [getLE_succ, zero off (Nat.le_refl _) (by omega),
      getLE_zero w (off + 1) fun i low high => zero i (by omega) (by omega)]
    rfl

@[simp] theorem bytesAt_length : (bytesAt m off w).length = w := by
  simp [bytesAt]

theorem bytesAt_congr (same : ∀ i, off ≤ i → i < off + w → m i = m' i) : bytesAt m off w = bytesAt m' off w := by
  simp only [bytesAt, List.map_inj_left, List.mem_range]
  intro i below
  exact same (off + i) (Nat.le_add_right _ _) (by omega)

theorem bytesAt_getD (inside : i < w) : (bytesAt m off w).getD i 0 = m (off + i) := by
  simp [bytesAt, inside]

theorem getLE_shift : ∀ w off, getLE (fun j => m (off' + j)) off w = getLE m (off' + off) w
  | 0, _ => rfl
  | w + 1, off => by
    rw [getLE_succ, getLE_succ, getLE_shift w (off + 1), Nat.add_assoc]

theorem bytesAt_shift : bytesAt (fun j => m (off' + j)) off w = bytesAt m (off' + off) w := by
  simp only [bytesAt, Nat.add_assoc]

/-! C strings: a string of bytes none of which is NUL, then the NUL. A copy of
one string to another place is byte-wise, so it reads back where it was written
and leaves every byte outside it. -/

/-- Stores the bytes `l` from `off`. -/
def writeList (m : Mem) (off : Nat) (l : List UInt8) : Mem :=
  fun i => if off ≤ i ∧ i < off + l.length then l.getD (i - off) 0 else m i

/-- `strcpy(m + dst, s)` of a string the program holds: its bytes, then the NUL. -/
def storeStr (m : Mem) (dst : Nat) (s : List UInt8) : Mem :=
  writeList m dst (s ++ [0])

/-- `strcpy(m + dst, m + src)`, byte by byte up to and including the NUL; the
fuel `n` bounds the string. -/
def strcpy (m : Mem) (dst src : Nat) : Nat → Mem
  | 0 => m
  | n + 1 =>
    let m' := Function.update m dst (m src)
    if m src = 0 then m' else strcpy m' (dst + 1) (src + 1) n

/-- The string at `off` up to its NUL, if the NUL is among the first `n` bytes
(`copyinstr` with `max = n`). -/
def cstrAt (m : Mem) (off : Nat) : Nat → Option (List UInt8)
  | 0 => none
  | n + 1 => if m off = 0 then some [] else (cstrAt m (off + 1) n).map (m off :: ·)

/-- The C string `s` at `off`: its bytes, none NUL, then the NUL. -/
structure CStr (m : Mem) (off : Nat) (s : List UInt8) : Prop where
  bytes : ∀ i (h : i < s.length), m (off + i) = s[i]
  nul : m (off + s.length) = 0
  nz : (0 : UInt8) ∉ s

variable {l : List UInt8} {s : List UInt8} {n : Nat}

theorem writeList_inside (inside : off ≤ i ∧ i < off + l.length) : writeList m off l i = l.getD (i - off) 0 :=
  if_pos inside

theorem writeList_outside (outside : i < off ∨ off + l.length ≤ i) : writeList m off l i = m i :=
  if_neg (by omega)

@[simp] theorem writeList_nil : writeList m off [] = m := by
  funext i
  exact writeList_outside (by simp; omega)

theorem writeList_cons (b : UInt8) :
    writeList m off (b :: l) = writeList (Function.update m off b) (off + 1) l := by
  funext i
  by_cases here : i = off
  · subst here
    rw [writeList_inside (by simp), writeList_outside (by omega), Function.update_self]
    simp
  · by_cases inside : off + 1 ≤ i ∧ i < off + 1 + l.length
    · rw [writeList_inside (by simp; omega), writeList_inside inside,
        show i - off = (i - (off + 1)) + 1 by omega, List.getD_cons_succ]
    · rw [writeList_outside (by simp; omega), writeList_outside (by omega), Function.update_of_ne here]

theorem writeList_concat (b : UInt8) :
    writeList m off (l ++ [b]) = Function.update (writeList m off l) (off + l.length) b := by
  funext i
  by_cases last : i = off + l.length
  · subst last
    rw [writeList_inside (by simp), Function.update_self]
    simp
  · rw [Function.update_of_ne last]
    by_cases inside : off ≤ i ∧ i < off + l.length
    · rw [writeList_inside (by simp; omega), writeList_inside inside, List.getD_append _ _ _ _ (by omega)]
    · rw [writeList_outside (by simp; omega), writeList_outside (by omega)]

theorem writeList_append_same (same : m (off + l.length) = 0) :
    writeList m off (l ++ [0]) = writeList m off l := by
  rw [writeList_concat, ← same, ← writeList_outside (m := m) (l := l) (Or.inr (Nat.le_refl _)),
    Function.update_eq_self]

theorem CStr.congr (str : CStr m off s) (same : ∀ i ≤ s.length, m' (off + i) = m (off + i)) :
    CStr m' off s where
  bytes i h := (same i h.le).trans (str.bytes i h)
  nul := (same _ (Nat.le_refl _)).trans str.nul
  nz := str.nz

theorem CStr.tail {b : UInt8} (str : CStr m off (b :: s)) : m off = b ∧ CStr m (off + 1) s where
  left := str.bytes 0 (by simp)
  right :=
    { bytes := fun i h => by
        rw [Nat.add_assoc, Nat.add_comm 1 i]
        exact str.bytes (i + 1) (by simp; omega)
      nul := by
        rw [Nat.add_assoc, Nat.add_comm 1]
        exact str.nul
      nz := fun mem => str.nz (List.mem_cons_of_mem b mem) }

theorem storeStr_cstr (nz : (0 : UInt8) ∉ s) : CStr (storeStr m off s) off s where
  bytes i h := by
    rw [storeStr, writeList_inside (by simp; omega), Nat.add_sub_cancel_left,
      List.getD_append _ _ _ _ h, List.getD_eq_getElem]
  nul := by
    rw [storeStr, writeList_inside (by simp), Nat.add_sub_cancel_left]
    simp
  nz := nz

theorem storeStr_outside (outside : i < off ∨ off + s.length < i) : storeStr m off s i = m i :=
  writeList_outside (by simp; omega)

theorem cstrAt_of_cstr : ∀ {s : List UInt8} {off n : Nat}, CStr m off s → s.length < n → cstrAt m off n = some s
  | [], _, n + 1, str, _ => by
    rw [cstrAt, if_pos (by simpa using str.nul)]
  | b :: s, off, n + 1, str, short => by
    obtain ⟨first, rest⟩ := str.tail
    have nonzero : m off ≠ 0 := fun zero => str.nz (by simp [← first, zero])
    rw [cstrAt, if_neg nonzero, cstrAt_of_cstr rest (by simp at short; omega), first]
    rfl

theorem strcpy_of_cstr : ∀ {s : List UInt8} {m : Mem} {dst src n : Nat}, CStr m src s → s.length < n →
    (dst + s.length < src ∨ src + s.length < dst) → strcpy m dst src n = storeStr m dst s
  | [], m, dst, src, n + 1, str, _, _ => by
    have nul : m src = 0 := by simpa using str.nul
    rw [strcpy, if_pos nul, nul, storeStr, List.nil_append, writeList_cons]
    funext i
    rw [writeList_outside (by simp; omega)]
  | b :: s, m, dst, src, n + 1, str, short, apart => by
    obtain ⟨first, rest⟩ := str.tail
    have nonzero : m src ≠ 0 := fun zero => str.nz (by simp [← first, zero])
    have kept : CStr (Function.update m dst (m src)) (src + 1) s :=
      rest.congr fun i _ => Function.update_of_ne (by simp at apart; omega) _ _
    rw [strcpy, if_neg nonzero, strcpy_of_cstr kept (by simp at short; omega) (by simp at apart; omega),
      storeStr, storeStr, List.cons_append, writeList_cons, first]

end Xv6.Lib
