import Navilnux.Base.Memory
import Navilnux.Base.Layout
import Navilnux.Base.Run
import Navilnux.Message.Basic
import Navilnux.Message.Theorems.Slot
import Navilnux.Message.Objects
import Navilnux.Message.Theorems.Mutex
import Navilnux.Base.Mailbox
import Navilnux.Message.Theorems.Mailbox
import Navilnux.Base.Permits
import Navilnux.Clib.Basic
import Navilnux.Message.Theorems.Region
import Navilnux.Message.Theorems.Semaphore
import Navilnux.Clib.Theorems.Semaphore
import Navilnux.Base.FirstFit
import Navilnux.Heap.Basic
import Navilnux.Heap.Tiles
import Navilnux.Heap.Theorems.Malloc
import Navilnux.Heap.Theorems.FirstFit
import Navilnux.Heap.Walk
import Navilnux.Heap.System
import Navilnux.Heap.Theorems.Integrity
import Navilnux.Heap.Theorems.Refusal
import Navilnux.Heap.Theorems.Walk
import Navilnux.Heap.Theorems.Aligned
import Navilnux.Heap.Theorems.Limit
import Navilnux.Base.Arm
import Navilnux.Task.Basic
import Navilnux.Task.View
import Navilnux.Heap.Theorems.Pool
import Navilnux.Task.Theorems.Scheduler
import Navilnux.Task.Theorems.Create
import Navilnux.Task.Theorems.OnlyCreated
import Navilnux.Entry.Basic
import Navilnux.Entry.Context
import Navilnux.Entry.Machine
import Navilnux.Entry.Simulation
import Navilnux.Entry.Boot
import Navilnux.Base.RoundRobin
import Navilnux.Entry.Theorems.Preemption
import Navilnux.Entry.Theorems.RoundRobin
import Navilnux.Entry.Theorems.Yield
import Navilnux.Entry.Returns
import Navilnux.Chap16.Basic
import Navilnux.Chap16.Boot
import Navilnux.Chap16.Theorems.Running
import Navilnux.Chap16.Message
import Navilnux.Chap16.Theorems.Mutex
import Navilnux.Chap16.Driver
import Navilnux.Chap16.Theorems.Dispatch
import Navilnux.Chap16.Mydrv
import Navilnux.Chap16.Theorems.Mydrv
import Navilnux.Clib.Sleep
import Navilnux.Driver.Basic
import Navilnux.Driver.Theorems.Slot
import Navilnux.Driver.Theorems.UseCount
import Navilnux.Clib.Theorems.Sleep
import Navilnux.Chap16.Memory
import Navilnux.Chap16.Theorems.Separate
import Navilnux.Entry.Syscall
import Navilnux.Entry.Theorems.Syscall
import Navilnux.Boot.Basic
import Navilnux.Boot.Theorems.Dispatch
import Navilnux.Boot.Theorems.Drivers
import Navilnux.Clib.Theorems.Receive
import Navilnux.Heap.Theorems.Footprint
import Navilnux.Service.Table
import Navilnux.Service.Holds
import Navilnux.Service.Machine
import Navilnux.Service.Simulation
import Navilnux.Service.Boot
import Navilnux.Service.Runs
import Navilnux.Service.Theorems.Refines
import Navilnux.Service.Theorems.Mutex
import Navilnux.Service.Theorems.Resume
import Navilnux.Base.LongDivision
import Navilnux.Lib1funcs.Basic
import Navilnux.Lib1funcs.Loops
import Navilnux.Lib1funcs.Theorems.Quotient
import Navilnux.Lib1funcs.Theorems.Remainder
import Navilnux.Lib1funcs.Theorems.Scheduler
import Navilnux.Base.Bytes
import Navilnux.Stdio.Basic
import Navilnux.Stdio.Format
import Navilnux.Stdio.Directive
import Navilnux.Stdio.Writer
import Navilnux.Stdio.Convert
import Navilnux.Stdio.Reads
import Navilnux.Stdio.Theorems.Vsprintf
import Navilnux.Stdio.Theorems.Arguments
import Navilnux.Stdio.Strtoul
import Navilnux.Stdio.Theorems.RoundTrip
