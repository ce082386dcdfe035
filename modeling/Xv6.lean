import Xv6.Sched.Steps
import Xv6.Sched.Stacks
import Xv6.Sched.Wakeup
import Xv6.Sched.Wait
import Xv6.Sched.Sequential
import Xv6.Sched.Reap
import Xv6.Sched.Pids
import Xv6.Sched.Allocpid
import Xv6.Sched.Kill
import Xv6.Signal.Pending
import Xv6.Signal.Frames
import Xv6.Signal.Sigret
import Xv6.Signal.Delivery
import Xv6.Signal.Stop
import Xv6.Signal.UserStack
import Xv6.Signal.Sigaction
import Xv6.Signal.ForkedHandler
import Xv6.Signal.Dispositions
import Xv6.Signal.Encodings
import Xv6.File.Pipe
import Xv6.File.PipeSleepers
import Xv6.File.PipeStream
import Xv6.File.ReferenceCounts
import Xv6.File.SharedWrite
import Xv6.Driver.IdeRefinement
import Xv6.Driver.LineDiscipline
import Xv6.Fs.BcacheCoherence
import Xv6.Fs.LogReservation
import Xv6.Fs.InodeRefs
import Xv6.Fs.FileContents
import Xv6.Fs.MkfsLookup
import Xv6.Shell.Strings
import Xv6.Sched.CliDiscipline
import Xv6.Signal.Lockstep
import Xv6.Sched.KilledSleepers
import Xv6.Syscall.Arguments
import Xv6.Machine.Loop
import Xv6.Machine.Pool
import Xv6.Vm.Layout
import Xv6.Vm.PageTables
import Xv6.Vm.Spaces
import Xv6.Vm.Mapping
import Xv6.Vm.UserMemory
import Xv6.Vm.Growproc
import Xv6.Vm.KernelMap
import Xv6.Vm.CopyUvm
import Xv6.Vm.CopyOut
import Xv6.Vm.Exec
import Xv6.Vm.ArgumentStack
import Xv6.Vm.ExecAtomic
import Xv6.Fs.DirectoryMap
import Xv6.Grep.Chunks
import Xv6.Lib.Memmove
import Xv6.Driver.Mp
import Xv6.Vm.Translation
import Xv6.Vm.Isolation
import Xv6.Machine.Blocks
import Xv6.Umalloc.Allocator
import Xv6.Umalloc.Heap
