import Mathlib
import Xv6.Fs.Inode
import Xv6.Lib.Meets

/-! What `bmap`, `writei` and the calls under them leave as it was, whether
they return or stop: the superblock, every cached inode but its block
addresses and size, and the log but its header. A caller that holds an inode
across `writei` relies on it: a directory stays a directory, a reference and
the valid copy stay, and so does `begin_op`'s count of operations under way. -/

namespace Xv6.Fs

open Xv6.Lib

/-- A cached inode with its block addresses and size cleared: what `writei`
may change of it is gone. -/
def Inode.unsized (ip : Inode) : Inode :=
  { ip with din := { ip.din with addrs := fun _ => 0, size := 0 } }

namespace FsState

/-- `s'` keeps of `s` what `writei` keeps. -/
structure Frame (s s' : FsState) : Prop where
  sb : s'.sb = s.sb
  icache : ∀ j, (s'.icache j).unsized = (s.icache j).unsized
  log : { s'.log with lh := [] } = { s.log with lh := [] }

variable {s s' s'' : FsState}

theorem Frame.refl : Frame s s := ⟨rfl, fun _ => rfl, rfl⟩

theorem Frame.trans (first : Frame s s') (second : Frame s' s'') : Frame s s'' :=
  ⟨second.sb.trans first.sb, fun j => (second.icache j).trans (first.icache j), second.log.trans first.log⟩

theorem Frame.type (frame : Frame s s') (j : Fin ninode) : (s'.icache j).din.type = (s.icache j).din.type :=
  congrArg (fun ip => ip.din.type) (frame.icache j)

theorem Frame.dev (frame : Frame s s') (j : Fin ninode) : (s'.icache j).dev = (s.icache j).dev :=
  congrArg (fun ip => ip.dev) (frame.icache j)

theorem Frame.ref (frame : Frame s s') (j : Fin ninode) : (s'.icache j).ref = (s.icache j).ref :=
  congrArg (fun ip => ip.ref) (frame.icache j)

theorem Frame.valid (frame : Frame s s') (j : Fin ninode) : (s'.icache j).valid = (s.icache j).valid :=
  congrArg (fun ip => ip.valid) (frame.icache j)

theorem Frame.outstanding (frame : Frame s s') : s'.log.outstanding = s.log.outstanding :=
  congrArg (fun log => log.outstanding) frame.log

theorem Frame.committing (frame : Frame s s') : s'.log.committing = s.log.committing :=
  congrArg (fun log => log.committing) frame.log

theorem Frame.logSize (frame : Frame s s') : s'.log.size = s.log.size :=
  congrArg (fun log => log.size) frame.log

theorem frame_bind {α β : Type} {x : Except String α} {f : α → Except String β} {g : α → FsState}
    {h : β → FsState} (first : Meets (fun _ => True) (fun a => Frame s (g a)) x)
    (rest : ∀ a, Meets (fun _ => True) (fun b => Frame (g a) (h b)) (f a)) :
    Meets (fun _ => True) (fun b => Frame s (h b)) (x >>= f) :=
  meets_bind (first.mono fun a frame => (rest a).mono fun _ frame' => frame.trans frame')

theorem frame_setBlock (b : Nat) (blk : Block) : Frame s (s.setBlock b blk) := ⟨rfl, fun _ => rfl, rfl⟩

theorem frame_setInode {i : Fin ninode} {ip : Inode} (same : ip.unsized = (s.icache i).unsized) :
    Frame s (s.setInode i ip) := by
  refine ⟨rfl, fun j => ?_, rfl⟩
  by_cases here : j = i
  · subst here
    simp only [setInode, Function.update_self]
    exact same
  · simp only [setInode, Function.update_of_ne here]

theorem frame_setAddr (i : Fin ninode) (k addr : Nat) : Frame s (s.setAddr i k addr) :=
  frame_setInode rfl

theorem frame_setSize (i : Fin ninode) (size : Nat) : Frame s (s.setSize i size) :=
  frame_setInode rfl

theorem frame_logWrite (b : Nat) : Meets (fun _ => True) (Frame s) (s.logWrite b) := by
  unfold logWrite
  cases logged : s.log.logWrite b with
  | error e => trivial
  | ok log =>
    obtain ⟨-, -, -, rfl⟩ := Log.logWrite_eq_ok logged
    exact ⟨rfl, fun _ => rfl, rfl⟩

theorem frame_setBlock_logWrite (b : Nat) (blk : Block) (l : Nat) :
    Meets (fun _ => True) (Frame s) ((s.setBlock b blk).logWrite l) :=
  (frame_logWrite l).mono fun _ logged => (frame_setBlock b blk).trans logged

theorem frame_bzero (bno : Nat) : Meets (fun _ => True) (Frame s) (s.bzero bno) :=
  frame_setBlock_logWrite bno _ bno

theorem frame_ballocLoop : ∀ fuel b, Meets (fun _ => True) (fun r => Frame s r.2) (s.ballocLoop fuel b) := by
  intro fuel
  induction fuel with
  | zero => exact fun _ => trivial
  | succ fuel ih =>
    intro b
    rw [ballocLoop]
    split
    · dsimp only
      split
      · refine frame_bind (g := id) (frame_setBlock_logWrite _ _ _)
          fun s1 => frame_bind (g := id) (frame_bzero _) fun s2 => ?_
        exact Frame.refl
      · exact ih _
    · trivial

theorem frame_balloc : Meets (fun _ => True) (fun r => Frame s r.2) s.balloc :=
  frame_ballocLoop _ _

theorem frame_bmapEntry (ind k : Nat) :
    Meets (fun _ => True) (fun r => Frame s r.2)
      (if getLE (s.blocks ind) (4 * k) 4 = 0 then do
          let r ← s.balloc
          let s' ← (r.2.setBlock ind (setLE (r.2.blocks ind) (4 * k) 4 r.1)).logWrite ind
          pure (r.1, s')
        else .ok (getLE (s.blocks ind) (4 * k) 4, s)) := by
  split
  · refine frame_bind frame_balloc fun r => frame_bind (g := id) ?_ fun _ => Frame.refl
    exact frame_setBlock_logWrite _ _ _
  · exact Frame.refl

theorem frame_bmap (i : Fin ninode) (bn : Nat) : Meets (fun _ => True) (fun r => Frame s r.2) (s.bmap i bn) := by
  unfold bmap
  split
  · dsimp only
    split
    · refine frame_bind frame_balloc fun r => ?_
      obtain ⟨addr, s1⟩ := r
      exact frame_setAddr i bn addr
    · exact Frame.refl
  · dsimp only
    split
    · split
      · exact frame_bind frame_balloc fun r =>
          frame_bind (g := fun r : Nat × FsState => r.2) (frame_setAddr i ndirect r.1) fun r' =>
            frame_bmapEntry r'.1 _
      · exact frame_bind (g := fun r : Nat × FsState => r.2) Frame.refl fun r' => frame_bmapEntry r'.1 _
    · trivial

theorem frame_writeLoop (src : Nat → Option UInt8) (i : Fin ninode) :
    ∀ fuel (s : FsState) tot off n, Meets (fun _ => True) (fun r => Frame s r.2) (s.writeLoop src fuel i tot off n) := by
  intro fuel
  induction fuel with
  | zero => exact fun _ _ _ _ => trivial
  | succ fuel ih =>
    intro s tot off n
    rw [writeLoop]
    split
    · refine frame_bind (frame_bmap i _) fun r => ?_
      obtain ⟨addr, s1⟩ := r
      dsimp only
      split
      · exact frame_setBlock _ _
      · refine frame_bind (g := id) (frame_setBlock_logWrite _ _ _)
          fun s' => ih s' _ _ n
    · exact Frame.refl

theorem frame_iupdate (i : Fin ninode) : Meets (fun _ => True) (Frame s) (s.iupdate i) :=
  frame_setBlock_logWrite _ _ _

theorem frame_writei (i : Fin ninode) (src : Nat → Option UInt8) (off n : Nat) :
    Meets (fun _ => True) (fun r => Frame s r.2) (s.writei i src off n) := by
  unfold writei
  split
  · exact Frame.refl
  · split
    · exact Frame.refl
    · refine frame_bind (frame_writeLoop src i _ s 0 off n) fun r => ?_
      obtain ⟨off', s1⟩ := r
      dsimp only
      split
      · refine frame_bind (g := id) ?_ fun _ => Frame.refl
        split
        · exact (frame_iupdate i).mono fun _ stored => (frame_setSize i _).trans stored
        · exact frame_iupdate i
      · exact Frame.refl

end FsState

end Xv6.Fs
