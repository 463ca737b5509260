import MonkeyOS.Lib.Run
import MonkeyOS.Lib.BitArray
import MonkeyOS.Lib.Range
import MonkeyOS.Lib.Bytes
import MonkeyOS.Lib.Slice
import MonkeyOS.Lib.Chain
import MonkeyOS.Lib.Vectored
import MonkeyOS.Basic
import MonkeyOS.Runtime.Frame
import MonkeyOS.Runtime.FrameRun
import MonkeyOS.Runtime.Heap
import MonkeyOS.Runtime.FrameZero
import MonkeyOS.Runtime.FrameFit
import MonkeyOS.Runtime.HeapGap
import MonkeyOS.Mem.MemSet
import MonkeyOS.Mem.Fault
import MonkeyOS.Mem.Mmap
import MonkeyOS.Mem.Fork
import MonkeyOS.Mem.CowRun
import MonkeyOS.Mem.Brk
import MonkeyOS.Mem.SharedMemory
import MonkeyOS.Mem.Overlap
import MonkeyOS.Mem.FrameAlloc
import MonkeyOS.Mem.WriteBack
import MonkeyOS.Mem.UserMem
import MonkeyOS.Mem.FaultMiss
import MonkeyOS.Mem.MmapFail
import MonkeyOS.Mem.PageAlign
import MonkeyOS.Mem.CloneTid
import MonkeyOS.Fs.RamFile
import MonkeyOS.Fs.RamFileAlloc
import MonkeyOS.Fs.RamDir
import MonkeyOS.Fs.Pipe
import MonkeyOS.Fs.Mount
import MonkeyOS.Fs.Poll
import MonkeyOS.Fs.Getdents
import MonkeyOS.Fs.Pselect
import MonkeyOS.Fs.File
import MonkeyOS.Fs.Readv
import MonkeyOS.Fs.Epoll
import MonkeyOS.Fs.PipeWrite
import MonkeyOS.Fs.Sendfile
import MonkeyOS.Fs.Ext4Path
import MonkeyOS.Net.Socket
import MonkeyOS.Ipc.MessageQueue
import MonkeyOS.Ipc.Msgrcv
import MonkeyOS.Task.FutexRun
import MonkeyOS.Task.Exit
import MonkeyOS.Task.Entry
import MonkeyOS.Task.ElfFile
import MonkeyOS.Task.Exec
import MonkeyOS.Task.FdRun
import MonkeyOS.Task.FutexFifo
import MonkeyOS.Task.SignalRun
import MonkeyOS.Task.SignalKept
import MonkeyOS.Task.SigKill
import MonkeyOS.Task.SigMask
import MonkeyOS.Task.Executor
import MonkeyOS.Task.Wait
import MonkeyOS.Task.FutexRequeue
import MonkeyOS.Task.SignalDrain
import MonkeyOS.Task.SignalContext
import MonkeyOS.Task.ExecStack
import MonkeyOS.Task.ExecImage
import MonkeyOS.Task.ExecSearch
import MonkeyOS.Task.ExecPanic
import MonkeyOS.Task.SigNum
import MonkeyOS.Task.Itimer
import MonkeyOS.Task.FdCreate
import MonkeyOS.Driver.Dma
import MonkeyOS.Lib.Radix
import MonkeyOS.Mem.PageEntry
import MonkeyOS.Mem.PageTree
import MonkeyOS.Mem.VmRun
import MonkeyOS.Net.Loopback
import MonkeyOS.Net.LoopbackSocket
