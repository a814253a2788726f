import Xv6.Param
import Xv6.Lib.Run
import Xv6.Lib.Procs
import Xv6.Lib.Crash
import Xv6.Lib.Counter
import Xv6.Lib.Ring
import Xv6.Fs.Log
import Xv6.Fs.GroupCommit
import Xv6.Fs.LogDisk
import Xv6.Fs.Bio
import Xv6.Fs.BioInv
import Xv6.Fs.Recover
import Xv6.Pipe.Pipe
import Xv6.Pipe.Fifo
import Xv6.Vm.Riscv
import Xv6.Vm.Vm
import Xv6.Vm.Proc
import Xv6.Lib.Radix
import Xv6.Vm.PageTable
import Xv6.Vm.Map
import Xv6.Vm.Grow
import Xv6.Vm.Sbrk
import Xv6.Vm.Fork
import Xv6.Vm.FreeWalk
import Xv6.Vm.PageMap
import Xv6.Vm.Copy
import Xv6.Vm.Exec
import Xv6.Vm.ExecSafe
import Xv6.Shell.Nsh
import Xv6.Shell.Grammar
import Xv6.Buddy.Buddy
import Xv6.Buddy.Init
import Xv6.Lib.Dyadic
import Xv6.Buddy.Tree
import Xv6.Buddy.Calls
import Xv6.Buddy.Runs
import Xv6.Console.Console
import Xv6.Console.Discipline
import Xv6.Lifecycle.Table
import Xv6.Lifecycle.Invariant
import Xv6.Lifecycle.Pids
import Xv6.Lib.Bytes
import Xv6.String
import Xv6.Memmove
import Xv6.Spinlock
import Xv6.Printf
import Xv6.Fs.Layout
import Xv6.Fs.Path
import Xv6.Fs.Inode
import Xv6.Fs.Alloc
import Xv6.Mkfs.Mkfs
import Xv6.Fs.Format
import Xv6.Mkfs.Image
import Xv6.Mkfs.Main
import Xv6.Fs.Mount
import Xv6.Mkfs.Boot
import Xv6.Files.Files
import Xv6.Files.Count
import Xv6.Files.Ops
import Xv6.Fs.Content
import Xv6.Fs.Room
import Xv6.Files.Rw
import Xv6.Lib.Meets
import Xv6.Files.Calls
import Xv6.Pipe.Report
import Xv6.User.Umalloc
import Xv6.User.Grep
import Xv6.User.Xargs
import Xv6.User.Find
import Xv6.Virtio
import Xv6.Lib.Owners
import Xv6.Sched.Machine
import Xv6.Sched.Coherent
import Xv6.Sched.Steps
import Xv6.Sched.Safety
import Xv6.Lib.Slots
import Xv6.Shell.Run
import Xv6.Lib.Entries
import Xv6.Fs.Frame
import Xv6.Fs.Dir
