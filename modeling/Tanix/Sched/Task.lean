/-
# `Tanix.Sched.Task` — the task control block and the scheduler's table

The data of `kernel/src/sched/mod.rs` and `kernel/src/sched/task.rs`: task
states, messages, parked and staged sends, the task control block, and the
fixed array of 32 slots that is the run queue.

Slot and CPU indices are `Fin 32` and `Fin 4`, the sizes of the two static
arrays, so an index out of range cannot be written.  Task ids are the code's
`u32`, receive filters its `i32`; the casts between the two (`me as i32`,
`filter as u32`) keep the bits, as they do in the code.

Of a saved register file only what decides the kernel's behaviour is kept: the
page-table root and the place where the context continues (`Resume`).  Stack
pointers and callee-saved registers are carried along by the switch and read
by nobody else.
-/
import Tanix.Lib.Index
import Mathlib.Data.Fintype.Basic
import Mathlib.Data.List.FinRange

namespace Tanix

/-! ## Sizes -/

/-- `MAX_TASKS` -/
abbrev maxTasks : Nat := 32

/-- `smp::MAX_CPUS` -/
abbrev maxCpus : Nat := 4

/-- `IDLE_SLOT_BASE`: CPU `n` idles in slot `idleSlotBase + n - 1`. -/
abbrev idleSlotBase : Nat := 16

abbrev Slot := Fin maxTasks

abbrev Cpu := Fin maxCpus

/-! ## States, messages, regions -/

inductive TaskState where
  | ready
  | running
  | blocked
  | zombie
  deriving DecidableEq, Repr

/-- A fixed-size IPC message; `src` is stamped by the kernel. -/
structure Message where
  src : UInt32
  mtype : UInt32
  data : Vector UInt32 8
  deriving DecidableEq, Repr

/-- `M_ANY`: the receive filter that accepts every sender. -/
def mAny : Int32 := -1

/-- A sender parked in a receiver's queue, its message held by value. -/
structure PendingSend where
  src : UInt32
  msg : Message
  deriving DecidableEq, Repr

/-- A message staged on its sender because the receiver's queue was full. -/
structure StagedSend where
  dst : UInt32
  src : UInt32
  msg : Message
  deriving DecidableEq, Repr

/-- `REGION_NONE`, `REGION_STACK`, `REGION_DEMAND` -/
inductive RegionKind where
  | none
  | stack
  | demand
  deriving DecidableEq, Repr

structure TaskRegion where
  kind : RegionKind
  base : Nat
  pages : Nat
  deriving DecidableEq, Repr

/-- `TaskRegion::none` -/
def TaskRegion.empty : TaskRegion := ⟨.none, 0, 0⟩

/-! ## Saved contexts -/

/-- Where a saved context continues once it is restored. -/
inductive Resume where
  /-- never saved: the zeroed context of a fresh idle slot -/
  | zeroed
  /-- first entry of a spawned task at EL0 -/
  | entry
  /-- in `sys_send` after `switch_away`: the send returns 0 -/
  | send
  /-- in `sys_receive` after `switch_away`: returns the `src` field of the buffer -/
  | receive (out : Nat)
  /-- in `sys_sleep` after `switch_away`: clears the deadline, returns 0 -/
  | sleep
  /-- in the syscall tail after a wakeup preemption: hands over the result -/
  | tail (result : UInt64)
  /-- in `yield_cpu` -/
  | yielded
  /-- in `irq_handler`, interrupted at EL0 -/
  | irqUser
  /-- in `irq_handler`, interrupted in the `SYS_WAIT_IRQ` loop -/
  | irqWait (irq : UInt32)
  /-- in `irq_handler`, interrupted in the idle loop of CPU `own` -/
  | irqIdle (own : Cpu)
  /-- in the idle loop of CPU `own`, at the `continue` -/
  | idleLoop (own : Cpu)
  /-- in `enter`: `kmain` goes on and halts -/
  | bootEnter
  /-- after a switch that must never come back (`unreachable!`) -/
  | dead
  deriving DecidableEq, Repr

/-- A context of a user task, not of the boot or an idle loop. -/
def Resume.isUser : Resume → Bool
  | .entry | .send | .receive _ | .sleep | .tail _ | .yielded | .irqUser | .irqWait _ | .dead =>
    true
  | .zeroed | .irqIdle _ | .idleLoop _ | .bootEnter => false

structure Context where
  pc : Resume
  ttbr0 : Nat
  deriving DecidableEq, Repr

/-! ## The task control block -/

/-- `MAX_PENDING_SENDERS` -/
abbrev maxPendingSenders : Nat := 2

/-- `TASK_REGIONS` -/
abbrev taskRegions : Nat := 6

structure Task where
  id : UInt32
  state : TaskState
  ctx : Context
  name : String
  /-- root of the task's own tables, 0 for contexts on the kernel table -/
  ttbr0 : Nat
  /-- 0 is the highest priority -/
  priority : UInt8
  cpuAffinity : Option Cpu
  recvBlocked : Bool
  recvFilter : Int32
  recvBuf : Nat
  pendingSenders : Fin maxPendingSenders → Option PendingSend
  sendFullWait : Option StagedSend
  irqWait : Option UInt32
  /-- tick at which `SYS_SLEEP` ends, 0 when not sleeping -/
  sleepDeadline : Nat
  imageBase : Nat
  imageEnd : Nat
  regions : Fin taskRegions → TaskRegion

/-- Replace the saved context. -/
def Task.saveCtx (ctx : Context) (t : Task) : Task :=
  { t with ctx := ctx }

/-- `PRIO_IDLE` -/
def prioIdle : UInt8 := 255

/-- `PRIO_NORMAL` -/
def prioNormal : UInt8 := 128

/-- `Task::idle`: the boot context in slot 0. -/
def Task.idle : Task where
  id := 0
  state := .running
  ctx := ⟨.zeroed, 0⟩
  name := "idle"
  ttbr0 := 0
  priority := prioIdle
  cpuAffinity := some 0
  recvBlocked := false
  recvFilter := mAny
  recvBuf := 0
  pendingSenders := fun _ => none
  sendFullWait := none
  irqWait := none
  sleepDeadline := 0
  imageBase := 0
  imageEnd := 0
  regions := fun _ => .empty

/-- `Task::new`, with the context that the caller puts in right after. -/
def Task.new (id : UInt32) (name : String) (ctx : Context) : Task :=
  { Task.idle with
    id := id
    state := .ready
    ctx := ctx
    name := name
    priority := prioNormal
    cpuAffinity := none }

/-! ## The table -/

structure Scheduler where
  tasks : Slot → Option Task
  nextId : UInt32
  /-- slot most recently woken, consumed by the syscall tail -/
  woken : Option Slot

attribute [ext] Task Scheduler

instance : DecidableEq Task := fun _ _ => decidable_of_iff _ Task.ext_iff.symm

instance : DecidableEq Scheduler := fun _ _ => decidable_of_iff _ Scheduler.ext_iff.symm

/-- `Scheduler::new` -/
def Scheduler.new : Scheduler where
  tasks := fun i => if i = 0 then some Task.idle else none
  nextId := 1
  woken := none

/-- `smp::idle_slot`: slot 0 for CPU 0, a slot of its own for each secondary. -/
def idleSlot (cpu : Cpu) : Slot :=
  if cpu = 0 then 0
  else ⟨idleSlotBase + cpu.val - 1, by
    have hlt : cpu.val < 4 := cpu.isLt
    show 16 + cpu.val - 1 < 32
    omega⟩

end Tanix
