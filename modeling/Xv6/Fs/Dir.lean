import Mathlib
import Xv6.Fs.Content
import Xv6.Fs.Frame
import Xv6.Fs.Room
import Xv6.Lib.Entries
import Xv6.Mkfs.Mkfs

/-! Directories of `fs.c`: `dirlookup` and `dirlink` on the bytes `readi` and
`writei` give of a directory. A directory whose size is a whole number of
entries is a table of `struct dirent`s (`dirents`): an entry is free when its
`inum` is `0`, and one in use is found under what `namecmp` compares of its
name (`nameKey`), at most `DIRSIZ` bytes up to a NUL. `dirlookup` is the
table's lookup, `iget` of the first entry in use under the name, and
`dirlink`, after `dirlookup` found the name absent, puts the new entry in the
first free entry or past the last. -/

namespace Xv6.Fs

open Xv6.Lib

/-- What `namecmp` compares of a name. -/
def nameKey (name : List UInt8) : List UInt8 :=
  strnKey name dirsiz

theorem namecmp_eq_zero_iff (s t : List UInt8) : namecmp s t = 0 ↔ nameKey s = nameKey t :=
  strncmp_eq_zero_iff s t dirsiz

theorem nameKey_strncpy (name : List UInt8) : nameKey (strncpy name dirsiz) = nameKey name :=
  ((namecmp_eq_zero_iff name _).mp (strncmp_strncpy name dirsiz)).symm

/-- An entry is free when its `inum` is `0`. -/
def Dirent.free (de : Dirent) : Bool :=
  de.inum == 0

/-- What `dirlookup` finds an entry in use under. -/
def Dirent.key (de : Dirent) : List UInt8 :=
  nameKey de.name

/-- The entries of a directory whose bytes are `c`, one for every whole
`sizeof(struct dirent)` bytes. -/
def dirents (c : List UInt8) : List Dirent :=
  (List.range (c.length / direntSize)).map fun e => Dirent.read (fun j => c.getD j 0) (e * direntSize)

/-- The entry `dirlink(dp, name, inum)` writes. -/
def linked (name : List UInt8) (inum : Nat) : Dirent :=
  { inum, name := strncpy name dirsiz }

/-- The panics of `dirlink` on a directory whose size is a whole number of
entries and leaves room for one more: `iget`'s, when the name is there and
the inode cache is full, and those of `writei`. -/
def DirPanic (e : String) : Prop :=
  e = "iget: no inodes" ∨ WritePanic e

namespace FsState

/-- The loop of `dirlink` over the entries from `off`: the offset of the
first free entry, or where the loop ends. -/
def dirlinkLoop : Nat → FsState → Fin ninode → Nat → Except String (Nat × FsState)
  | 0, _, _, _ => .error "fuel"
  | fuel + 1, s, dp, off =>
    if off < (s.icache dp).din.size then do
      let (bytes, s) ← s.readi dp off direntSize
      match bytes with
      | some bytes =>
        if bytes.length ≠ direntSize then .error "dirlink read"
        else if (Dirent.read (fun j => bytes.getD j 0) 0).inum = 0 then .ok (off, s)
        else dirlinkLoop fuel s dp (off + direntSize)
      | none => .error "dirlink read"
    else .ok (off, s)

/-- `dirlink(dp, name, inum)`: `-1` when `dirlookup` finds the name, and
otherwise `0`, with `{inum, name}` written at the first free entry or at the
end, the name as `strncpy` copies it and the number as the `ushort` keeps it. -/
def dirlink (s : FsState) (dp : Fin ninode) (name : List UInt8) (inum : Nat) : Except String (Int × FsState) := do
  let (found, s) ← s.dirlookup dp name
  match found with
  | some (ip, _) => return (-1, s.iput ip)
  | none =>
    let (off, s) ← s.dirlinkLoop ((s.icache dp).din.size / direntSize + 2) dp 0
    let de := Mkfs.direntBytes inum (strncpy name dirsiz)
    let (r, s) ← s.writei dp (fun k => de[k]?) off direntSize
    if r ≠ direntSize then .error "dirlink" else return (0, s)

end FsState

/-! ### A directory's bytes as its entries -/

section Table

variable {c data : List UInt8} {e k : Nat}

@[simp] theorem length_dirents : (dirents c).length = c.length / direntSize := by
  simp [dirents]

theorem getElem_dirents (inside : e < (dirents c).length) :
    (dirents c)[e] = Dirent.read (fun j => c.getD j 0) (e * direntSize) := by
  simp [dirents]

theorem Dirent.read_shift (m : Mem) (o : Nat) : Dirent.read (fun j => m (o + j)) 0 = Dirent.read m o := by
  simp only [Dirent.read, getLE_shift, bytesAt_shift, Nat.add_zero]

theorem Dirent.read_chunk (c : List UInt8) (o : Nat) :
    Dirent.read (fun j => ((c.drop o).take direntSize).getD j 0) 0 = Dirent.read (fun j => c.getD j 0) o := by
  rw [← Dirent.read_shift (fun j => c.getD j 0) o]
  apply Dirent.read_congr
  intro i _ below
  simp [List.getD_eq_getElem?_getD, show i < direntSize by omega]

theorem Dirent.read_direntBytes (inum : Nat) {name : List UInt8} (fourteen : name.length = dirsiz) :
    Dirent.read (fun j => (Mkfs.direntBytes inum name).getD j 0) 0 = { inum := inum % 65536, name } := by
  rw [← Dirent.read_copy (fun _ => 0) 0 inum fourteen]
  apply Dirent.read_congr
  intro i _ below
  rw [copyBytes_inside ⟨Nat.zero_le i, below⟩, Nat.sub_zero, Nat.zero_add, Mkfs.direntBytes]

theorem dirents_drop (inside : e < c.length / direntSize) :
    (dirents c).drop e = Dirent.read (fun j => c.getD j 0) (e * direntSize) :: (dirents c).drop (e + 1) := by
  rw [List.drop_eq_getElem_cons (by rw [length_dirents]; exact inside)]
  simp [dirents]

theorem entry_inside_iff {n : Nat} (whole : n % direntSize = 0) : e < n / direntSize ↔ e * direntSize < n := by
  simp only [direntSize] at whole ⊢
  omega

theorem dirents_drop_end (past : c.length / direntSize ≤ e) : (dirents c).drop e = [] :=
  List.drop_eq_nil_of_le (by rw [length_dirents]; exact past)

theorem getD_splice_outside (start : k ≤ c.length) {i : Nat} (outside : i < k ∨ k + data.length ≤ i) :
    (c.take k ++ data ++ c.drop (k + data.length)).getD i 0 = c.getD i 0 := by
  rcases outside with before | after
  · rw [List.getD_eq_getElem?_getD, List.getD_eq_getElem?_getD, List.append_assoc,
      List.getElem?_append_left (by simp; omega), List.getElem?_take_of_lt before]
  · rw [List.getD_eq_getElem?_getD, List.getD_eq_getElem?_getD, List.getElem?_append_right (by simp; omega),
      List.getElem?_drop]
    congr 2
    simp only [List.length_append, List.length_take]
    omega

theorem getD_splice_inside (start : k ≤ c.length) {i : Nat} (inside : k ≤ i ∧ i < k + data.length) :
    (c.take k ++ data ++ c.drop (k + data.length)).getD i 0 = data.getD (i - k) 0 := by
  have front : (c.take k).length = k := by simp; omega
  rw [List.getD_eq_getElem?_getD, List.getD_eq_getElem?_getD, List.getElem?_append_left (by simp; omega),
    List.getElem?_append_right (by omega), front]

theorem dirents_splice (whole : c.length % direntSize = 0) (slot : k ≤ c.length / direntSize)
    (sixteen : data.length = direntSize) :
    dirents (c.take (k * direntSize) ++ data ++ c.drop (k * direntSize + direntSize)) =
      if k < c.length / direntSize then (dirents c).set k (Dirent.read (fun j => data.getD j 0) 0)
      else dirents c ++ [Dirent.read (fun j => data.getD j 0) 0] := by
  have start : k * direntSize ≤ c.length := by
    simp only [direntSize] at whole slot ⊢
    omega
  rw [show k * direntSize + direntSize = k * direntSize + data.length by rw [sixteen]]
  set c' := c.take (k * direntSize) ++ data ++ c.drop (k * direntSize + data.length) with spliced
  have entry : ∀ e, Dirent.read (fun j => c'.getD j 0) (e * direntSize) =
      if e = k then Dirent.read (fun j => data.getD j 0) 0 else Dirent.read (fun j => c.getD j 0) (e * direntSize) := by
    intro e
    split
    · rename_i here
      subst here
      rw [← Dirent.read_shift (fun j => c'.getD j 0)]
      apply Dirent.read_congr
      intro i _ below
      rw [spliced, getD_splice_inside start ⟨by omega, by rw [sixteen]; omega⟩, Nat.add_sub_cancel_left]
    · rename_i other
      apply Dirent.read_congr
      intro i low high
      rw [spliced, getD_splice_outside start]
      rw [sixteen]
      rcases Nat.lt_or_gt_of_ne other with before | after
      · have := Nat.mul_le_mul_right direntSize (show e + 1 ≤ k by omega)
        simp only [direntSize] at this low high ⊢
        omega
      · have := Nat.mul_le_mul_right direntSize (show k + 1 ≤ e by omega)
        simp only [direntSize] at this low high ⊢
        omega
  have size : c'.length / direntSize = if k < c.length / direntSize then c.length / direntSize
      else c.length / direntSize + 1 := by
    simp only [spliced, List.length_append, List.length_take, List.length_drop, sixteen]
    by_cases full : k < c.length / direntSize
    · rw [if_pos full]
      simp only [direntSize] at start whole full ⊢
      omega
    · rw [if_neg full]
      simp only [direntSize] at start whole slot full ⊢
      omega
  by_cases full : k < c.length / direntSize
  · rw [if_pos full]
    apply List.ext_getElem
    · rw [length_dirents, size, if_pos full, List.length_set, length_dirents]
    · intro e inside _
      rw [getElem_dirents, entry, List.getElem_set]
      by_cases here : e = k
      · simp [here]
      · rw [if_neg here, if_neg (Ne.symm here), getElem_dirents]
  · rw [if_neg full]
    have last : k = c.length / direntSize := by omega
    apply List.ext_getElem
    · rw [length_dirents, size, if_neg full, List.length_append, length_dirents, List.length_singleton]
    · intro e inside _
      rw [getElem_dirents, entry]
      rw [length_dirents, size, if_neg full] at inside
      by_cases here : e = k
      · rw [if_pos here, List.getElem_append_right (by rw [length_dirents]; omega)]
        simp [here, last]
      · rw [if_neg here, List.getElem_append_left (by rw [length_dirents]; omega), getElem_dirents]

end Table

/-- The spare disk with a directory of two entries in block `46`, the first
data block: `.` for itself, inode `1`, and `a` for inode `2`. -/
def dirDisk : FsState :=
  { spareDisk with
    blocks := Function.update spareDisk.blocks 46 fun j =>
      (Mkfs.direntBytes 1 (Mkfs.dot ++ List.replicate 13 0) ++
        Mkfs.direntBytes 2 ([97] ++ List.replicate 13 0)).getD j 0
    icache := fun i =>
      if i.val = 0 then
        { dev := 1, inum := 1, ref := 1, valid := true,
          din := { Dinode.zero with type := tDir, size := 32, addrs := fun k => if k = 0 then 46 else 0 } }
      else spareDisk.icache i }

theorem dirDisk_owns : dirDisk.Owns ⟨0, ninode_pos⟩ := by
  have marks : ∀ b < 64, dirDisk.Marked b := fun _ => spareDisk_marks (s := dirDisk) rfl rfl
  exact FsState.owns_of_one_block (by decide) rfl (marks 46 (by decide)) (by decide) (by decide)
    (fun c below _ => marks c (Nat.lt_trans below (by decide))) (by decide) (by decide)

theorem dirDisk_room : dirDisk.Room 7 2 :=
  spareDisk_room.congr rfl rfl fun c inDisk =>
    Function.update_of_ne (FsState.bblock_ne_of_data (s := spareDisk) (x := 46) (by decide) c inDisk) _ _

/-! ### `dirlookup` and `dirlink` on the entries -/

namespace FsState

variable {s : FsState} {dp : Fin ninode}

theorem Owns.readi_entry (owns : s.Owns dp) (whole : (s.icache dp).din.size % direntSize = 0) {e : Nat}
    (inside : e < (s.icache dp).din.size / direntSize) :
    s.readi dp (e * direntSize) direntSize =
        pure (some (((s.content dp).drop (e * direntSize)).take direntSize), s) ∧
      (((s.content dp).drop (e * direntSize)).take direntSize).length = direntSize := by
  have fits := owns.fits
  simp only [maxfile, ndirect, nindirect, bsize, direntSize] at fits whole inside ⊢
  constructor
  · rw [owns.readi, if_pos ⟨by omega, by omega⟩]
    rfl
  · simp only [List.length_take, List.length_drop, length_content]
    omega

theorem Owns.dirLoop_eq (owns : s.Owns dp) (whole : (s.icache dp).din.size % direntSize = 0) (name : List UInt8) :
    ∀ fuel e, e ≤ (s.icache dp).din.size / direntSize → (s.icache dp).din.size / direntSize < e + fuel →
      s.dirLoop fuel dp name (e * direntSize) =
        match Entries.lookup Dirent.free Dirent.key ((dirents (s.content dp)).drop e) (nameKey name) with
        | some found => do
          let (ip, s') ← s.iget (s.icache dp).dev found.2.inum
          pure (some (ip, (e + found.1) * direntSize), s')
        | none => .ok (none, s) := by
  intro fuel
  induction fuel with
  | zero => intro e low high; omega
  | succ fuel ih =>
    intro e low high
    rw [dirLoop]
    by_cases inside : e < (s.icache dp).din.size / direntSize
    case neg =>
      have past : ¬ e * direntSize < (s.icache dp).din.size := mt (entry_inside_iff whole).mpr inside
      rw [if_neg past, dirents_drop_end (by rw [length_content]; omega)]
      rfl
    obtain ⟨read, sixteen⟩ := owns.readi_entry whole inside
    have off : e * direntSize < (s.icache dp).din.size := (entry_inside_iff whole).mp inside
    rw [if_pos off, read, pure_bind]
    dsimp only
    rw [if_neg (by rw [sixteen]; exact not_not.mpr rfl), Dirent.read_chunk,
      dirents_drop (by rw [length_content]; exact inside), Entries.lookup]
    set de := Dirent.read (fun j => (s.content dp).getD j 0) (e * direntSize)
    have skip : ¬(Dirent.free de = false ∧ Dirent.key de = nameKey name) →
        s.dirLoop fuel dp name (e * direntSize + direntSize) =
          match (if Dirent.free de = false ∧ Dirent.key de = nameKey name then some (0, de)
            else (Entries.lookup Dirent.free Dirent.key ((dirents (s.content dp)).drop (e + 1)) (nameKey name)).map
              fun found => (found.1 + 1, found.2)) with
          | some found => do
            let (ip, s') ← s.iget (s.icache dp).dev found.2.inum
            pure (some (ip, (e + found.1) * direntSize), s')
          | none => .ok (none, s) := by
      intro miss
      rw [if_neg miss, ← Nat.succ_mul, ih (e + 1) (by omega) (by omega)]
      cases Entries.lookup Dirent.free Dirent.key ((dirents (s.content dp)).drop (e + 1)) (nameKey name) with
      | none => rfl
      | some found => simp only [Option.map_some, show e + (found.1 + 1) = e + 1 + found.1 by omega]
    by_cases empty : de.inum = 0
    · rw [if_pos empty]
      exact skip (by simp [Dirent.free, empty])
    rw [if_neg empty]
    by_cases same : namecmp name de.name = 0
    · have hit : Dirent.free de = false ∧ Dirent.key de = nameKey name := by
        simp [Dirent.free, empty, Dirent.key, ((namecmp_eq_zero_iff _ _).mp same).symm]
      rw [if_pos same, if_pos hit]
      rfl
    · rw [if_neg same]
      exact skip fun hit => same ((namecmp_eq_zero_iff _ _).mpr hit.2.symm)

theorem Owns.dirLoop_start (owns : s.Owns dp) (whole : (s.icache dp).din.size % direntSize = 0)
    (name : List UInt8) :
    s.dirLoop ((s.icache dp).din.size / direntSize + 2) dp name 0 =
      match Entries.lookup Dirent.free Dirent.key (dirents (s.content dp)) (nameKey name) with
      | some found => do
        let (ip, s') ← s.iget (s.icache dp).dev found.2.inum
        pure (some (ip, found.1 * direntSize), s')
      | none => .ok (none, s) := by
  have loop := owns.dirLoop_eq whole name ((s.icache dp).din.size / direntSize + 2) 0 (Nat.zero_le _) (by omega)
  simp only [Nat.zero_mul, Nat.zero_add, List.drop_zero] at loop
  exact loop

theorem dirlookup_of_dir (dir : (s.icache dp).din.type = tDir) (name : List UInt8) :
    s.dirlookup dp name = s.dirLoop ((s.icache dp).din.size / direntSize + 2) dp name 0 := by
  rw [dirlookup, if_neg (by rw [dir]; exact not_not.mpr rfl)]

/-- `dirlookup` on a directory of whole entries is the lookup of its
entries: `iget` of the first entry in use whose name `namecmp` finds equal
to `name`, with the entry's offset, or nothing with the state as it was. It
never panics with `"dirlookup read"`. -/
theorem Owns.dirlookup_eq (owns : s.Owns dp) (dir : (s.icache dp).din.type = tDir)
    (whole : (s.icache dp).din.size % direntSize = 0) (name : List UInt8) :
    s.dirlookup dp name =
      match Entries.lookup Dirent.free Dirent.key (dirents (s.content dp)) (nameKey name) with
      | some found => do
        let (ip, s') ← s.iget (s.icache dp).dev found.2.inum
        pure (some (ip, found.1 * direntSize), s')
      | none => .ok (none, s) := by
  rw [dirlookup_of_dir dir]
  exact owns.dirLoop_start whole name

theorem dirlookup_eq_dirDisk :
    dirDisk.Owns ⟨0, ninode_pos⟩ ∧ (dirDisk.icache ⟨0, ninode_pos⟩).din.type = tDir ∧
      (dirDisk.icache ⟨0, ninode_pos⟩).din.size % direntSize = 0 ∧
      dirDisk.dirlookup ⟨0, ninode_pos⟩ [97] =
        (match Entries.lookup Dirent.free Dirent.key (dirents (dirDisk.content ⟨0, ninode_pos⟩)) (nameKey [97]) with
          | some found => do
            let (ip, s') ← dirDisk.iget (dirDisk.icache ⟨0, ninode_pos⟩).dev found.2.inum
            pure (some (ip, found.1 * direntSize), s')
          | none => .ok (none, dirDisk)) ∧
      Entries.lookup Dirent.free Dirent.key (dirents (dirDisk.content ⟨0, ninode_pos⟩)) (nameKey [97]) =
        some (1, { inum := 2, name := [97] ++ List.replicate 13 0 }) :=
  ⟨dirDisk_owns, rfl, rfl, Owns.dirlookup_eq dirDisk_owns rfl rfl [97], by decide⟩

theorem Owns.dirlinkLoop_eq (owns : s.Owns dp) (whole : (s.icache dp).din.size % direntSize = 0) :
    ∀ fuel e, e ≤ (s.icache dp).din.size / direntSize → (s.icache dp).din.size / direntSize < e + fuel →
      s.dirlinkLoop fuel dp (e * direntSize) =
        .ok ((e + Entries.slot Dirent.free ((dirents (s.content dp)).drop e)) * direntSize, s) := by
  intro fuel
  induction fuel with
  | zero => intro e low high; omega
  | succ fuel ih =>
    intro e low high
    rw [dirlinkLoop]
    by_cases inside : e < (s.icache dp).din.size / direntSize
    case neg =>
      have past : ¬ e * direntSize < (s.icache dp).din.size := mt (entry_inside_iff whole).mpr inside
      rw [if_neg past, dirents_drop_end (by rw [length_content]; omega)]
      rfl
    obtain ⟨read, sixteen⟩ := owns.readi_entry whole inside
    have off : e * direntSize < (s.icache dp).din.size := (entry_inside_iff whole).mp inside
    rw [if_pos off, read, pure_bind]
    dsimp only
    rw [if_neg (by rw [sixteen]; exact not_not.mpr rfl), Dirent.read_chunk,
      dirents_drop (by rw [length_content]; exact inside), Entries.slot]
    set de := Dirent.read (fun j => (s.content dp).getD j 0) (e * direntSize)
    by_cases empty : de.inum = 0
    · rw [if_pos empty, if_pos (by simp [Dirent.free, empty])]
      rfl
    · rw [if_neg empty, if_neg (by simp [Dirent.free, empty]), ← Nat.succ_mul, ih (e + 1) (by omega) (by omega)]
      congr 3
      omega

theorem Owns.dirlinkLoop_start (owns : s.Owns dp) (whole : (s.icache dp).din.size % direntSize = 0) :
    s.dirlinkLoop ((s.icache dp).din.size / direntSize + 2) dp 0 =
      .ok (Entries.slot Dirent.free (dirents (s.content dp)) * direntSize, s) := by
  have loop := owns.dirlinkLoop_eq whole ((s.icache dp).din.size / direntSize + 2) 0 (Nat.zero_le _) (by omega)
  simp only [Nat.zero_mul, Nat.zero_add, List.drop_zero] at loop
  exact loop

/-- Where `dirlink` writes the new entry: its 16 bytes at the first free
entry or at the end, within `MAXFILE` blocks and in one block. -/
theorem entry_placed (whole : (s.icache dp).din.size % direntSize = 0)
    (room : (s.icache dp).din.size + direntSize ≤ maxfile * bsize) (name : List UInt8) (inum : Nat) :
    (Mkfs.direntBytes inum (strncpy name dirsiz)).length = direntSize ∧
      Entries.slot Dirent.free (dirents (s.content dp)) ≤ (s.icache dp).din.size / direntSize ∧
      Entries.slot Dirent.free (dirents (s.content dp)) * direntSize ≤ (s.icache dp).din.size ∧
      Entries.slot Dirent.free (dirents (s.content dp)) * direntSize +
        (Mkfs.direntBytes inum (strncpy name dirsiz)).length ≤ maxfile * bsize ∧
      blocksTouched (Entries.slot Dirent.free (dirents (s.content dp)) * direntSize)
        (Mkfs.direntBytes inum (strncpy name dirsiz)).length = 1 := by
  have sixteen : (Mkfs.direntBytes inum (strncpy name dirsiz)).length = direntSize := by
    simp [Mkfs.direntBytes, direntSize, dirsiz]
  have slot : Entries.slot Dirent.free (dirents (s.content dp)) ≤ (s.icache dp).din.size / direntSize := by
    have : Entries.slot Dirent.free (dirents (s.content dp)) ≤ (dirents (s.content dp)).length :=
      Entries.slot_le _
    rwa [length_dirents, length_content] at this
  refine ⟨sixteen, slot, ?_, ?_, ?_⟩
  · simp only [direntSize] at slot whole ⊢
    omega
  · rw [sixteen]
    simp only [direntSize] at slot whole room ⊢
    omega
  · rw [sixteen, blocksTouched, if_neg (by decide)]
    simp only [direntSize, bsize]
    omega

theorem iput_idup {i : Fin ninode} (positive : 0 < (s.icache i).ref) : (s.idup i).iput i = s := by
  simp [iput, idup, setInode, Nat.pos_iff_ne_zero.mp positive]

theorem iget_iput {j : Fin ninode} (held : 1 ≤ (s.icache j).ref) {dev inum : Nat} {ip : Fin ninode}
    {s' : FsState} (got : s.iget dev inum = .ok (ip, s')) :
    (s'.iput ip).icache j = s.icache j ∧ (s'.iput ip).blocks = s.blocks := by
  unfold iget at got
  cases cached : (List.finRange ninode).find? fun i =>
      decide (0 < (s.icache i).ref) && (s.icache i).dev == dev && (s.icache i).inum == inum with
  | some i =>
    have holds := List.find?_some cached
    simp only [Bool.and_eq_true, decide_eq_true_eq, beq_iff_eq] at holds
    rw [cached] at got
    simp only [Except.ok.injEq, Prod.mk.injEq] at got
    obtain ⟨rfl, rfl⟩ := got
    rw [show s.setInode i { s.icache i with ref := (s.icache i).ref + 1 } = s.idup i from rfl,
      iput_idup holds.1.1]
    exact ⟨rfl, rfl⟩
  | none =>
    rw [cached] at got
    cases free : (List.finRange ninode).find? fun i => (s.icache i).ref == 0 with
    | some i =>
      have zero := List.find?_some free
      simp only [beq_iff_eq] at zero
      rw [free] at got
      simp only [Except.ok.injEq, Prod.mk.injEq] at got
      obtain ⟨rfl, rfl⟩ := got
      have other : j ≠ i := fun same => by rw [same] at held; omega
      exact ⟨by simp [iput, setInode, Function.update_of_ne other], rfl⟩
    | none =>
      rw [free] at got
      cases got

theorem Owns.dirlink_put (owns : s.Owns dp) (dir : (s.icache dp).din.type = tDir)
    (whole : (s.icache dp).din.size % direntSize = 0) (held : 1 ≤ (s.icache dp).ref)
    (room : (s.icache dp).din.size + direntSize ≤ maxfile * bsize) (name : List UInt8) {inum : Nat}
    (short : inum < 2 ^ 16) :
    Meets DirPanic (fun r =>
      (Entries.lookup Dirent.free Dirent.key (dirents (s.content dp)) (nameKey name) ≠ none ∧
        r.1 = -1 ∧ r.2.blocks = s.blocks ∧ r.2.icache dp = s.icache dp) ∨
      (Entries.lookup Dirent.free Dirent.key (dirents (s.content dp)) (nameKey name) = none ∧
        r.1 = 0 ∧ r.2.Owns dp ∧ (r.2.icache dp).unsized = (s.icache dp).unsized ∧
        (r.2.icache dp).din.size % direntSize = 0 ∧
        dirents (r.2.content dp) = Entries.put Dirent.free (dirents (s.content dp)) (linked name inum)))
      (s.dirlink dp name inum) := by
  unfold dirlink
  rw [dirlookup_of_dir dir, owns.dirLoop_start whole name]
  cases found : Entries.lookup Dirent.free Dirent.key (dirents (s.content dp)) (nameKey name) with
  | some f =>
    apply meets_bind
    dsimp only
    apply meets_bind
    cases got : s.iget (s.icache dp).dev f.2.inum with
    | error e => exact (Or.inl (iget_eq_error got) : DirPanic e)
    | ok g =>
      obtain ⟨ip, s1⟩ := g
      obtain ⟨icache, blocks⟩ := iget_iput held got
      exact meets_ok (meets_pure (meets_pure (Or.inl ⟨by simp, rfl, blocks, icache⟩)))
  | none =>
    apply meets_bind_ok rfl
    dsimp only
    apply meets_bind_ok (owns.dirlinkLoop_start whole)
    dsimp only
    obtain ⟨sixteen, slot, start, inRange, -⟩ := entry_placed (s := s) whole room name inum
    have write := (owns.meets_writei (fun _ _ => rfl) start inRange).and (frame_writei dp _ _ _)
    rw [sixteen] at write
    apply meets_bind
    refine (write.widen fun e stop => Or.inr stop).mono fun r after => ?_
    obtain ⟨r, s2⟩ := r
    obtain ⟨⟨count, written⟩, frame⟩ := after
    dsimp only at count written frame ⊢
    rw [count, if_neg (not_not.mpr rfl)]
    apply meets_pure
    refine Or.inr ⟨rfl, rfl, written.owns, frame.icache dp, ?_, ?_⟩
    · have size := written.size start
      rw [sixteen] at size
      rw [size]
      simp only [direntSize] at whole ⊢
      omega
    · rw [written.content, sixteen, dirents_splice (by rwa [length_content]) (by rwa [length_content]) sixteen,
        Entries.put_eq, length_dirents, length_content,
        Dirent.read_direntBytes inum (strncpy_length name dirsiz), Nat.mod_eq_of_lt (by simpa using short)]
      rfl

/-- With room for the write of one entry and a free inode-cache entry, `dirlink` returns. -/
theorem Owns.dirlink_returns (owns : s.Owns dp) (dir : (s.icache dp).din.type = tDir)
    (whole : (s.icache dp).din.size % direntSize = 0)
    (fits : (s.icache dp).din.size + direntSize ≤ maxfile * bsize) (name : List UInt8) (inum : Nat)
    (room : s.Room 7 2) (unused : ∃ j, (s.icache j).ref = 0) :
    Meets (fun _ => False) (fun _ => True) (s.dirlink dp name inum) := by
  unfold dirlink
  rw [dirlookup_of_dir dir, owns.dirLoop_start whole name]
  cases found : Entries.lookup Dirent.free Dirent.key (dirents (s.content dp)) (nameKey name) with
  | some f =>
    apply meets_bind
    dsimp only
    apply meets_bind
    cases got : s.iget (s.icache dp).dev f.2.inum with
    | error e =>
      obtain ⟨j, free⟩ := unused
      have full := iget_full_iff.mp (by rw [got, iget_eq_error got])
      exact absurd (full j).1 (by omega)
    | ok g => exact meets_ok (meets_pure (meets_pure trivial))
  | none =>
    apply meets_bind_ok rfl
    dsimp only
    apply meets_bind_ok (owns.dirlinkLoop_start whole)
    dsimp only
    obtain ⟨sixteen, -, start, inRange, oneBlock⟩ := entry_placed (s := s) whole fits name inum
    have write := (owns.room_writei (w := 0) (a := 0) (fun _ _ => rfl) start inRange
      (by rw [oneBlock]; exact room)).and (owns.meets_writei (fun _ _ => rfl) start inRange)
    rw [sixteen] at write
    apply meets_bind
    refine write.mono fun r after => ?_
    rw [after.2.1, if_neg (not_not.mpr rfl)]
    exact meets_pure trivial

theorem key_linked (name : List UInt8) (inum : Nat) : Dirent.key (linked name inum) = nameKey name :=
  nameKey_strncpy name

/-- `dirlink(dp, name, inum)` on a directory of whole entries with room for
one more, for a number `0 < inum < 2^16`: it returns `-1` when an entry in
use is found under the name, with the disk and `dp` as they were. Otherwise
it returns `0`, the directory keeps its invariant and whole entries, and
`dirlookup` of every name finds what it found before, except that a name
`namecmp` finds equal to `name` now finds the inode numbered `inum` at the
new entry: the first free entry, or the end of the directory. It stops only
with the panic of `iget` or those of `writei`, and it returns inside a
transaction with room in the log and on the disk for the write of one entry
and a free entry in the inode cache. -/
theorem dirlink_dirlookup (owns : s.Owns dp) (dir : (s.icache dp).din.type = tDir)
    (whole : (s.icache dp).din.size % direntSize = 0) (held : 1 ≤ (s.icache dp).ref)
    (room : (s.icache dp).din.size + direntSize ≤ maxfile * bsize) (name : List UInt8) {inum : Nat}
    (used : 0 < inum) (short : inum < 2 ^ 16) :
    Meets DirPanic (fun r =>
      (r.1 = -1 ∧ Entries.lookup Dirent.free Dirent.key (dirents (s.content dp)) (nameKey name) ≠ none ∧
        r.2.blocks = s.blocks ∧ r.2.icache dp = s.icache dp) ∨
      (r.1 = 0 ∧ Entries.lookup Dirent.free Dirent.key (dirents (s.content dp)) (nameKey name) = none ∧
        r.2.Owns dp ∧ (r.2.icache dp).din.size % direntSize = 0 ∧
        ∀ t, r.2.dirlookup dp t =
          if nameKey name = nameKey t then do
            let (ip, s') ← r.2.iget (s.icache dp).dev inum
            pure (some (ip, Entries.slot Dirent.free (dirents (s.content dp)) * direntSize), s')
          else
            match Entries.lookup Dirent.free Dirent.key (dirents (s.content dp)) (nameKey t) with
            | some found => do
              let (ip, s') ← r.2.iget (s.icache dp).dev found.2.inum
              pure (some (ip, found.1 * direntSize), s')
            | none => .ok (none, r.2)))
      (s.dirlink dp name inum) ∧
    (s.Room 7 2 → (∃ j, (s.icache j).ref = 0) → ∃ r, s.dirlink dp name inum = .ok r) := by
  refine ⟨(owns.dirlink_put dir whole held room name short).mono fun r after => ?_, fun space unused => ?_⟩
  case refine_2 =>
    obtain ⟨r, linked, -⟩ := (owns.dirlink_returns dir whole room name inum space unused).returns
    exact ⟨r, linked⟩
  rcases after with ⟨found, refused, blocks, icache⟩ | ⟨fresh, linked0, owns', unsized, whole', table⟩
  · exact .inl ⟨refused, found, blocks, icache⟩
  refine .inr ⟨linked0, fresh, owns', whole', fun t => ?_⟩
  have dir' : (r.2.icache dp).din.type = tDir := by
    rw [← dir]
    exact congrArg (fun ip => ip.din.type) unsized
  have dev' : (r.2.icache dp).dev = (s.icache dp).dev := congrArg (fun ip => ip.dev) unsized
  have inUse : Dirent.free (linked name inum) = false := by
    simp [Dirent.free, linked, Nat.pos_iff_ne_zero.mp used]
  rw [dirlookup_of_dir dir', owns'.dirLoop_start whole' t, table,
    Entries.lookup_put (by rwa [key_linked]) inUse, key_linked, dev']
  by_cases same : nameKey name = nameKey t
  · rw [if_pos same, if_pos same]
    rfl
  · rw [if_neg same, if_neg same]

theorem dirlink_dirlookup_dirDisk :
    dirDisk.Owns ⟨0, ninode_pos⟩ ∧ (dirDisk.icache ⟨0, ninode_pos⟩).din.type = tDir ∧
      (dirDisk.icache ⟨0, ninode_pos⟩).din.size % direntSize = 0 ∧ 1 ≤ (dirDisk.icache ⟨0, ninode_pos⟩).ref ∧
      (dirDisk.icache ⟨0, ninode_pos⟩).din.size + direntSize ≤ maxfile * bsize ∧ 0 < 3 ∧ 3 < 2 ^ 16 ∧
      dirDisk.Room 7 2 ∧ (∃ j, (dirDisk.icache j).ref = 0) ∧
      ∃ r, dirDisk.dirlink ⟨0, ninode_pos⟩ [98] 3 = .ok r ∧ r.1 = 0 := by
  have unused : ∃ j, (dirDisk.icache j).ref = 0 := ⟨⟨1, by decide⟩, rfl⟩
  obtain ⟨meets, returns⟩ :=
    dirlink_dirlookup dirDisk_owns rfl rfl (le_refl 1) (by decide) [98] (show 0 < 3 by decide)
      (show 3 < 2 ^ 16 by decide)
  obtain ⟨r, linked⟩ := returns dirDisk_room unused
  have fresh : Entries.lookup Dirent.free Dirent.key (dirents (dirDisk.content ⟨0, ninode_pos⟩)) (nameKey [98]) =
      none := by decide
  rcases meets.of_ok linked with ⟨-, found, -⟩ | ⟨zero, -⟩
  · exact absurd fresh found
  · exact ⟨dirDisk_owns, rfl, rfl, le_refl 1, by decide, by decide, by decide, dirDisk_room, unused, r, linked, zero⟩

end FsState

end Xv6.Fs
