import Xv6.Lib.Replay
import Xv6.Lib.Mask
import Xv6.Lib.Prog
import Xv6.Lib.Slots
import Xv6.Lib.Ring
import Xv6.Lib.DList
import Xv6.Lib.Bytes
import Xv6.Libc.Memmove
import Xv6.Libc.Printint
import Xv6.Log.Defs
import Xv6.Log.Machine
import Xv6.Log.Recovery
import Xv6.Log.Crash
import Xv6.Log.Atomic
import Xv6.Log.Admission
import Xv6.Log.Absorb
import Xv6.Kernel.Defs
import Xv6.Kernel.Mmu
import Xv6.Kernel.Vm
import Xv6.Kernel.File
import Xv6.Kernel.Uvm
import Xv6.Kernel.Space
import Xv6.Kernel.Shrink
import Xv6.Kernel.Grow
import Xv6.Kernel.Pipe
import Xv6.Kernel.Bio
import Xv6.Fs.Block
import Xv6.Fs.Inode
import Xv6.Fs.Content
import Xv6.Fs.Owned
import Xv6.Fs.ReadWrite
import Xv6.Fs.Path
import Xv6.Mmap.Inv
import Xv6.Kernel.Trap
import Xv6.Mmap.FindNext
import Xv6.Mmap.DoMmap
import Xv6.Mmap.DoMunmap
import Xv6.Proc.Fork
import Xv6.Mmap.Syscall
import Xv6.Proc.Exit
import Xv6.System.Run
import Xv6.System.Tree
import Xv6.System.Pipes
import Xv6.System.Bcache
import Xv6.System.Args
import Xv6.Kernel.Console
import Xv6.System.Console
import Xv6.Lib.SRing
import Xv6.Libc.Umalloc
import Xv6.Libc.Heap
import Xv6.Libc.Malloc
import Xv6.System.Heap
