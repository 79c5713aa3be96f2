import Tanix.Lib.Run
import Tanix.Ipc.SendReceive
import Tanix.Ipc.Waits
import Tanix.Ipc.Machine
import Tanix.Ipc.ExactlyOnce
import Tanix.Mem.Frame
import Tanix.Mem.Descriptor
import Tanix.Mem.PageTable
import Tanix.Sched.Lifecycle
import Tanix.Server
import Tanix.Kernel.State
import Tanix.Kernel.Syscall
import Tanix.Mem.VmFault
import Tanix.Kernel.Step
import Tanix.Sched.Sound
import Tanix.Sched.Moves
import Tanix.Kernel.Effects
import Tanix.Kernel.Scheduled
import Tanix.Kernel.Exclusive
import Tanix.Kernel.Boot
import Tanix.Kernel.Absorbing
import Tanix.Kernel.Current
import Tanix.Kernel.Reaped
import Tanix.Kernel.Running
import Tanix.Kernel.Fairness
import Tanix.Kernel.Stable
import Tanix.Kernel.Orphans
import Tanix.Kernel.Reclaim
import Tanix.Kernel.Registry
import Tanix.Mem.Taken
import Tanix.Kernel.Ledger
import Tanix.Lib.Forest
import Tanix.Mem.Mapping
import Tanix.Net.Buf
import Tanix.Net.Frame
import Tanix.Net.Tcp
import Tanix.Net.Stack
import Tanix.Net.Socket
import Tanix.Net.Acknowledge
import Tanix.Net.Receive
import Tanix.Net.Stream
import Tanix.Net.Connection
import Tanix.Lib.Gives
import Tanix.Net.Checksum
import Tanix.Net.Build
import Tanix.Net.Table
import Tanix.Net.Demux
import Tanix.Net.Survive
import Tanix.Mem.Allocator
import Tanix.Lib.Forever
import Tanix.Lib.Line
import Tanix.Ipc.Starvation
import Tanix.Kernel.Sleep
import Tanix.Lib.Spin
import Tanix.Kernel.Lock
import Tanix.Lib.Bytes
import Tanix.Mem.Access
import Tanix.Mem.DemandPaging
import Tanix.Lib.Ring
import Tanix.Virtio.Queue
import Tanix.Lib.Memory
import Tanix.Monitor.Cipher
import Tanix.Monitor.Services
import Tanix.Monitor.Seal
import Tanix.Lib.Slots
import Tanix.Monitor.Storage
import Tanix.Monitor.Secrecy
import Tanix.Vm.Loader
import Tanix.Vm.Host
import Tanix.Vm.LoadSafety
import Tanix.Vm.Tenants
import Tanix.Fs.Chains
import Tanix.Fs.Contents
import Tanix.Fs.Write
import Tanix.Fs.Files
import Tanix.Fs.Persist
import Tanix.Fs.Returns
import Tanix.Fs.Root
import Tanix.Drv.Pci
import Tanix.Ipc.Channel
import Tanix.Virtio.Replies
import Tanix.Virtio.Transmit
import Tanix.Drv.Vring
import Tanix.Drv.Nic
import Tanix.Display.Input
import Tanix.Drv.Blk
import Tanix.Lib.Extents
import Tanix.Lib.Segment
import Tanix.Sys.Heap
import Tanix.Sys.HeapSafe
import Tanix.Wm.Server
import Tanix.Wm.Drag
import Tanix.Wm.Order
import Tanix.Wm.Route
import Tanix.Display.Draw
import Tanix.Wm.Composite
import Tanix.Wm.Repaint
import Tanix.Lib.Best
import Tanix.Lib.DeviceTree
import Tanix.Arch.Fdt
import Tanix.Arch.Acpi
import Tanix.Lib.Pool
import Tanix.Hv.Backend
import Tanix.Hv.Revoke
import Tanix.Hv.Bells
import Tanix.Display.Queue
import Tanix.Sched.Argmin
import Tanix.Mem.FirstFit
import Tanix.Mem.Reserve
import Tanix.Net.Handshake
import Tanix.Net.Segments
