import Xv6.Vm.Copy
import Xv6.Vm.FreeWalk

/-! `exec` of `exec.c`, on the content of the file it runs: the ELF header and
program headers as `readi` reads them, `loadseg`, the two stack pages, the
argument strings and their pointers pushed on the stack, and the commit to the
new image. Every failure after `proc_pagetable` goes to `bad:`, which frees the
new page table with the user memory below the `sz` it then has. The inode is
read whole: the model is given its content, and `namei` finding no file. -/

namespace Xv6.Vm

/-- `ELF_MAGIC`: `"\x7FELF"` in little endian. -/
def elfMagic : UInt32 := 0x464C457F

/-- `ELF_PROG_LOAD`. -/
def elfProgLoad : UInt32 := 1

/-- `readi(ip, 0, dst, off, n)` on an inode whose content is `data`, its `size`
the length: the bytes it copies to `dst`, none for `-1`. -/
def readi (data : List UInt8) (off n : UInt32) : Option (List UInt8) :=
  if off.toNat > data.length ∨ off + n < off then none
  else
    let n := if off.toNat + n.toNat > data.length then data.length - off.toNat else n.toNat
    some ((data.drop off.toNat).take n)

/-- The number that the `n` bytes at `off` hold, least significant first. -/
def leNat (bytes : List UInt8) (off n : Nat) : Nat :=
  ((bytes.drop off).take n).foldr (fun b acc => b.toNat + 256 * acc) 0

/-- The fields of `struct elfhdr` that `exec` reads. -/
structure ElfHdr where
  magic : UInt32
  entry : UInt64
  phoff : UInt64
  phnum : UInt16
  deriving DecidableEq, Repr

/-- `struct elfhdr` from its 64 bytes. -/
def ElfHdr.parse (bytes : List UInt8) : ElfHdr where
  magic := (leNat bytes 0 4).toUInt32
  entry := (leNat bytes 24 8).toUInt64
  phoff := (leNat bytes 32 8).toUInt64
  phnum := (leNat bytes 56 2).toUInt16

/-- The fields of `struct proghdr` that `exec` reads. -/
structure ProgHdr where
  type : UInt32
  off : UInt64
  vaddr : UInt64
  filesz : UInt64
  memsz : UInt64
  deriving DecidableEq, Repr

/-- `struct proghdr` from its 56 bytes. -/
def ProgHdr.parse (bytes : List UInt8) : ProgHdr where
  type := (leNat bytes 0 4).toUInt32
  off := (leNat bytes 8 8).toUInt64
  vaddr := (leNat bytes 16 8).toUInt64
  filesz := (leNat bytes 32 8).toUInt64
  memsz := (leNat bytes 40 8).toUInt64

/-- `uvmclear`: clears `PTE_U` of the entry for `va`, which must exist. -/
def uvmclear (k : Kmem) (pagetable va : UInt64) : Except String Kmem := do
  let (pte, _) ← walk k pagetable va false
  let some (page, i) := pte | throw "uvmclear"
  return k.write page i (k.mem page i &&& ~~~pteU)

/-- The passes of `loadseg`'s loop from `i`: each reads the part of the segment
in one page into the page `walkaddr` finds for it. -/
def loadsegLoop (pagetable va : UInt64) (data : List UInt8) (offset sz : UInt32) :
    Nat → Kmem → UInt32 → Except String (Int × Kmem)
  | 0, k, _ => .ok (0, k)
  | fuel + 1, k, i =>
    if i < sz then do
      let pa ← walkaddr k pagetable (va + i.toUInt64)
      if pa == 0 then throw "loadseg: address should exist"
      let n : UInt32 := if sz - i < 4096 then sz - i else 4096
      match readi data (offset + i) n with
      | none => return (-1, k)
      | some bytes =>
        let k := k.writeBytes pa bytes
        if bytes.length != n.toNat then return (-1, k)
        loadsegLoop pagetable va data offset sz fuel k (i + 4096)
    else .ok (0, k)

/-- `loadseg(pagetable, va, ip, offset, sz)`: reads the `sz` bytes at `offset`
of the file into the pages mapped from `va`; `0`, or `-1` when the file is too
short. -/
def loadseg (k : Kmem) (pagetable va : UInt64) (data : List UInt8) (offset sz : UInt32) :
    Except String (Int × Kmem) :=
  if va % pgSize != 0 then .error "loadseg: va must be page aligned"
  else loadsegLoop pagetable va data offset sz ((sz.toNat + 4095) / 4096) k 0

/-- Where `exec` stands after a stage: going on with the size `sz`, or at
`bad:` with the size `sz` then has. -/
inductive Stage where
  | next (sz : UInt64)
  | bad (sz : UInt64)
  deriving DecidableEq, Repr

/-- The passes of `exec`'s loop over the program headers, from the one at the
`int` offset `off`: each loadable segment is allocated with `uvmalloc` and
read in with `loadseg`. -/
def execSegments (data : List UInt8) (pagetable : UInt64) :
    Nat → Kmem → UInt32 → UInt64 → Except String (Stage × Kmem)
  | 0, k, _, sz => .ok (.next sz, k)
  | fuel + 1, k, off, sz =>
    match readi data off 56 with
    | none => .ok (.bad sz, k)
    | some bytes =>
      if bytes.length != 56 then .ok (.bad sz, k)
      else
        let ph := ProgHdr.parse bytes
        if ph.type != elfProgLoad then execSegments data pagetable fuel k (off + 56) sz
        else if ph.memsz < ph.filesz then .ok (.bad sz, k)
        else if ph.vaddr + ph.memsz < ph.vaddr then .ok (.bad sz, k)
        else do
          let (sz, k) ← uvmalloc k pagetable sz (ph.vaddr + ph.memsz)
          if sz == 0 then return (.bad sz, k)
          if ph.vaddr % pgSize != 0 then return (.bad sz, k)
          let (r, k) ← loadseg k pagetable ph.vaddr data ph.off.toUInt32 ph.filesz.toUInt32
          if r < 0 then return (.bad sz, k)
          execSegments data pagetable fuel k (off + 56) sz

/-- `exec`'s loop that pushes the argument strings, from argument `argc`:
each is copied with its NUL below `sp`, rounded down to 16, and its address
goes to `ustack`; none at `bad:`. -/
def pushArgs (pagetable stackbase : UInt64) : List (List UInt8) → Nat → Kmem → UInt64 → List UInt64 →
    Except String (Option (UInt64 × List UInt64) × Kmem)
  | [], _, k, sp, ustack => .ok (some (sp, ustack), k)
  | arg :: argv, argc, k, sp, ustack =>
    if argc ≥ maxarg then .ok (none, k)
    else
      let sp := sp - (arg.length.toUInt64 + 1)
      let sp := sp - sp % 16
      if sp < stackbase then .ok (none, k)
      else do
        let (r, k) ← copyout k pagetable sp (arg ++ [0])
        if r < 0 then return (none, k)
        pushArgs pagetable stackbase argv (argc + 1) k sp (ustack ++ [sp])

/-- The eight bytes of a `uint64`, least significant first. -/
def wordBytes (w : UInt64) : List UInt8 :=
  (List.range 8).map fun j => (w >>> (8 * j).toUInt64).toUInt8

/-- The words of `struct trapframe` that `exec` sets. -/
def tfEpc : Fin 512 := ⟨3, by decide⟩

def tfSp : Fin 512 := ⟨6, by decide⟩

def tfA1 : Fin 512 := ⟨15, by decide⟩

namespace Kernel

/-- `exec`'s `bad:` once the new page table exists: it frees the table and the
user memory below `sz`, and `exec` returns `-1`. -/
def execBad (s : Kernel) (k : Kmem) (pagetable sz : UInt64) : Except String (Int × Kernel) := do
  let k ← if pagetable != 0 then procFreepagetable k pagetable sz else pure k
  return (-1, { s with kmem := k })

/-- The part of `exec` after the program is loaded: two stack pages, the
lower one without `PTE_U` as a guard; the argument strings and the array of
pointers to them; and the commit, which frees the old image. -/
def execStack (s : Kernel) (p : Fin nproc) (pagetable entry : UInt64) (argv : List (List UInt8))
    (k : Kmem) (sz : UInt64) : Except String (Int × Kernel) := do
  let oldsz := (s.proc p).sz
  let sz := pgRoundUp sz
  let (sz, k) ← uvmalloc k pagetable sz (sz + 2 * pgSize)
  if sz == 0 then return (← s.execBad k pagetable sz)
  let k ← uvmclear k pagetable (sz - 2 * pgSize)
  let sp := sz
  let stackbase := sp - pgSize
  let (pushed, k) ← pushArgs pagetable stackbase argv 0 k sp []
  let some (sp, ustack) := pushed | s.execBad k pagetable sz
  let argc := ustack.length
  let sp := sp - (argc.toUInt64 + 1) * 8
  let sp := sp - sp % 16
  if sp < stackbase then return (← s.execBad k pagetable sz)
  let (r, k) ← copyout k pagetable sp ((ustack ++ [0]).flatMap wordBytes)
  if r < 0 then return (← s.execBad k pagetable sz)
  let tf := (s.proc p).tf
  let k := k.write tf tfA1 sp
  let oldpagetable := (s.proc p).pagetable
  let k := (k.write tf tfEpc entry).write tf tfSp sp
  let k ← procFreepagetable k oldpagetable oldsz
  return (argc, { s.setProc p { s.proc p with pagetable := pagetable, sz := sz } with kmem := k })

/-- `exec(path, argv)` by process `p`: `image` is the content of the file
`namei(path)` finds, none when it finds none, and `argv` the argument strings
without their NULs. The number of arguments, or `-1`. -/
def exec (s : Kernel) (p : Fin nproc) (image : Option (List UInt8)) (argv : List (List UInt8)) :
    Except String (Int × Kernel) := do
  let some data := image | return (-1, s)
  let some hdr := readi data 0 64 | return (-1, s)
  if hdr.length != 64 then return (-1, s)
  let elf := ElfHdr.parse hdr
  if elf.magic != elfMagic then return (-1, s)
  let (pagetable, k) ← procPagetable s.kmem s.trampolinePa (s.proc p).tf
  if pagetable == 0 then return (-1, { s with kmem := k })
  let (stage, k) ← execSegments data pagetable elf.phnum.toNat k elf.phoff.toUInt32 0
  match stage with
  | .bad sz => s.execBad k pagetable sz
  | .next sz => s.execStack p pagetable elf.entry argv k sz

/-- A program of `124` bytes whose one loadable segment says it lies at file
offset `2^32`, past the end of the file: the ELF header (entry `0`, program
headers from `64`, one of them), the program header (`filesz` and `memsz`
`4` at `vaddr` `0`), and four bytes of code. -/
def wrapImage : List UInt8 :=
  [0x7F, 0x45, 0x4C, 0x46] ++ List.replicate 28 0 ++
  [64, 0, 0, 0, 0, 0, 0, 0] ++ List.replicate 16 0 ++ [1, 0] ++ List.replicate 6 0 ++
  [1, 0, 0, 0, 0, 0, 0, 0] ++ [0, 0, 0, 0, 1, 0, 0, 0] ++ List.replicate 16 0 ++
  [4, 0, 0, 0, 0, 0, 0, 0] ++ [4, 0, 0, 0, 0, 0, 0, 0] ++ List.replicate 8 0 ++
  [0x13, 0, 0, 0]

/-- `exec` passes the segment's 64-bit file offset to `loadseg`'s `uint`, so
the segment at offset `2^32` is read from offset `0`, inside the file: `exec`
of `wrapImage` by the running process of `runningParent 17` returns its
`argc`, `0`, where a segment outside the file should give `-1`, and the new
image holds the file's first byte, `0x7F`, at address `0`. -/
theorem exec_loads_past_file :
    wrapImage.length = 124 ∧
      ((runningParent 17).exec ⟨0, nproc_pos⟩ (some wrapImage) []).toOption.map
        (fun r => (r.1, r.2.kmem.readByte (r.2.kmem.userPa (r.2.proc ⟨0, nproc_pos⟩).pagetable 0))) =
        some (0, 0x7F) := by
  decide +kernel

end Kernel

end Xv6.Vm
