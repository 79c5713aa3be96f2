/-
# `Tanix.Kernel.Syscall` — the system calls

`kernel/src/ipc/syscall.rs`.  `decode` is the dispatcher's table: syscall number
and arguments to a `Call`, with the code's casts.  What the kernel reads through
a user pointer (a message, a name) and what the EL3 monitor answers come from a
`UserMem`, about which nothing is assumed: user pointers are taken to be valid.

The memory calls are in `Tanix.Mem.Calls`.  `perform` runs a call under the lock and
ends in the syscall tail: `reschedule` unless the call has switched away.
-/
import Tanix.Kernel.State
import Tanix.Mem.Calls

namespace Tanix

inductive Call where
  | send (dst : UInt32) (msg : Message)
  | receive (filter : Int32) (out : Nat)
  | spawn (name : Option String)
  | who (name : Option String)
  | exitTask (pid : UInt32)
  | exit
  | allocFrames (pages : UInt32)
  | freeFrames (base : UInt64) (pages : UInt32)
  | log
  | waitIrq (irq : UInt32)
  | yield
  | shareFrames (base : UInt64) (pages task : UInt32)
  | unshareFrames (base : UInt64) (pages task : UInt32)
  | sleep (ms : UInt32)
  | exec (name : Option String)
  | mapDevice (phys pages : UInt64)
  | irqPending (irq : UInt32)
  | cacheSync
  | mapDemand (va pages : UInt64)
  | mapCow (phys : UInt64) (pages task : UInt32)
  | mapCap (idx : UInt64)
  /-- the secure services, with the monitor's answer -/
  | secure (result : UInt64)
  | unknown (nr : UInt64)
  deriving DecidableEq

/-- What the caller's pointers hold. -/
structure UserMem where
  message : UInt64 → Message
  /-- `read_cstr`: `none` when too long or not UTF-8 -/
  cstr : UInt64 → Option String
  monitor : UInt64 → UInt64 → UInt64 → UInt64

/-- The dispatch table of `tanix_syscall`. -/
def decode (u : UserMem) (nr a0 a1 a2 : UInt64) : Call :=
  match nr with
  | 0 => .send a0.toUInt32 (u.message a1)
  | 1 => .receive a0.toUInt32.toInt32 a1.toNat
  | 2 => .spawn (u.cstr a0)
  | 3 => .who (u.cstr a0)
  | 4 => .exitTask a0.toUInt32
  | 5 => .exit
  | 6 => .allocFrames a0.toUInt32
  | 7 => .freeFrames a0 a1.toUInt32
  | 8 => .log
  | 9 => .waitIrq a0.toUInt32
  | 10 => .yield
  | 11 => .shareFrames a0 a1.toUInt32 a2.toUInt32
  | 12 => .unshareFrames a0 a1.toUInt32 a2.toUInt32
  | 13 => .sleep a0.toUInt32
  | 14 => .exec (u.cstr a0)
  | 15 => .mapDevice a0 a1
  | 16 => .irqPending a0.toUInt32
  | 17 => .cacheSync
  | 18 | 19 | 20 | 21 | 22 | 23 => .secure (u.monitor a0 a1 a2)
  | 24 => .mapDemand a0 a1
  | 25 => .mapCow a0 a1.toUInt32 a2.toUInt32
  | 26 => .mapCap a0
  | other => .unknown other

/-! ## Tasks -/

namespace Kernel

variable (b : Board) (k : Kernel) (c : Cpu)

/-- `kill_task_locked`, called on CPU `c`: `none` when there is no such task. -/
def killTaskLocked (id : UInt32) : Except Panic (Option Kernel) :=
  match k.sched.taskIdx id with
  | none => .ok none
  | some i =>
    let victimTtbr0 := k.sched.ttbr0At i
    if victimTtbr0 ≠ 0 ∧ id ≠ k.sched.idAt (k.cur c) then
      match k.ram.freeTaskTables b.kernelL0 victimTtbr0 with
      | .error e => .error e
      | .ok ram => .ok (some { k with sched := k.sched.modify i (·.killed true), ram := ram })
    else .ok (some { k with sched := k.sched.modify i (·.killed false) })

/-- The first task of this name that is not a Zombie. -/
def liveByName (s : Scheduler) (name : String) : Option Task :=
  (List.finRange maxTasks).findSome? fun i =>
    (s.tasks i).bind fun t => if t.name == name && t.state != .zombie then some t else none

/-- `sys_exit_task` -/
def sysExitTask (pid : UInt32) :
    Except Panic (Kernel × Int32) := do
  match ← k.killTaskLocked b c pid with
  | none => return (k, -3)
  | some k => return (k, 0)

/-- `spawn_by_name_locked`, with the result as the calls return it. -/
def spawnByName (name : String) : Except Panic (Kernel × Int32) := do
  let (sched, ram, r) ← b.spawnByNameLocked k.sched k.ram name
  match r with
  | .ok id => return ({ k with sched := sched, ram := ram }, id.toInt32)
  | .error e => return ({ k with sched := sched, ram := ram }, e)

/-- `sys_spawn` -/
def sysSpawn (name : Option String) : Except Panic (Kernel × Int32) :=
  match name with
  | none => .ok (k, -5)
  | some s => k.spawnByName b s

/-- The part of `sys_exec` that retires a live instance. -/
def retire (name : String) : Except Panic Kernel := do
  match liveByName k.sched name with
  | none => return k
  | some t =>
    match ← k.killTaskLocked b c t.id with
    | none => return k
    | some k => return k

/-- `sys_exec` -/
def sysExec (name : Option String) :
    Except Panic (Kernel × Int32) := do
  match name with
  | none => return (k, -5)
  | some s =>
    let k ← k.retire b c s
    k.spawnByName b s

/-- `sys_who` -/
def sysWho (s : Scheduler) (name : Option String) : Int32 :=
  match name with
  | none => -1
  | some n => ((liveByName s n).map fun t => t.id.toInt32).getD (-1)

/-- `sys_map_demand` -/
def sysMapDemand (s : Scheduler) (me : Slot) (va pages : UInt64) :
    Except Panic (Scheduler × Int32) := do
  if s.ttbr0At me = 0 then return (s, -5)
  else if va.toNat % pageSize ≠ 0 then return (s, -12)
  else if pages = 0 ∨ 512 < pages then return (s, -12)
  else if va < 0x100000000 then return (s, -12)
  else
    match ← s.pushRegionAt me .demand va.toNat pages.toNat with
    | none => return (s, -12)
    | some s => return (s, 0)

/-- `sys_sleep`, up to `switch_away` -/
def sleepDeadline (ms : UInt32) : Nat :=
  min (k.ticks + max 1 (min ms.toNat 60000)) (2 ^ 64 - 1)

def irqInRange (irq : UInt32) : Bool :=
  decide (16 ≤ irq) && decide (irq ≤ 1019)

/-! ## The dispatcher -/

/-- The tail of a call that did not switch away. -/
def tail (k : Kernel) (c : Cpu) (x : UInt64) : Outcome :=
  (k.reply c x).reschedule c (.tail x)

/-- The rest of `sys_send` and `sys_receive`: back to the caller, or `switch_away`. -/
def afterIpc (o : IpcOut) (pc : Resume) : Outcome :=
  let k := { k with sched := o.sched, bufs := Ipc.writeOut k.bufs o.handed }
  match o.ret with
  | some r => k.tail c (ofI32 r)
  | none => k.switchAway c pc

/-- The memory calls: the new memory and the result. -/
def memoryCall : Call → Option (Except Panic (Ram × UInt64))
  | .allocFrames pages => some (k.ram.sysAllocFrames (k.sched.ttbr0At (k.cur c)) pages)
  | .freeFrames base pages =>
    some ((k.ram.sysFreeFrames (k.sched.ttbr0At (k.cur c)) base pages).map fun (r, x) =>
      (r, ofI32 x))
  | .shareFrames base pages task =>
    some ((k.ram.sysShareFrames ((k.sched.taskById task).map (·.ttbr0)) base pages).map
      fun (r, x) => (r, ofI32 x))
  | .unshareFrames base pages task =>
    some ((k.ram.sysUnshareFrames ((k.sched.taskById task).map (·.ttbr0)) base pages).map
      fun (r, x) => (r, ofI32 x))
  | .mapDevice phys pages =>
    some ((k.ram.sysMapDevice b (k.sched.nameAt (k.cur c)) (k.sched.ttbr0At (k.cur c)) phys
      pages).map fun (r, x) => (r, ofI32 x))
  | .mapCow phys pages task =>
    some ((k.ram.sysMapCow ((k.sched.taskById task).map (·.ttbr0)) phys pages).map
      fun (r, x) => (r, ofI32 x))
  | .mapCap idx =>
    some (k.ram.sysMapCap b (k.sched.nameAt (k.cur c)) (k.sched.ttbr0At (k.cur c)) idx)
  | _ => none

/-- `tanix_syscall`, for the call of the task current on CPU `c`. -/
def perform (call : Call) : Except Panic Outcome := do
  let me := k.cur c
  match call with
  | .waitIrq irq =>
    if !irqInRange irq then return .stay (k.reply c (ofI32 (-10)))
    else if k.pending irq then
      return .stay ({ k with pending := Function.update k.pending irq false }.reply c 0)
    else
      return .stay ({ k with sched := k.sched.modify me (Task.setIrqWait (some irq)) }.setMode c
        (.waitIrq irq))
  | .yield => return (k.reply c 0).yieldCpu c
  | .send dst msg => return k.afterIpc c (sysSend k.sched me dst msg) .send
  | .receive filter out =>
    return k.afterIpc c (sysReceive k.sched me filter out) (.receive out)
  | .spawn name =>
    let (k, r) ← k.sysSpawn b name
    return k.tail c (ofI32 r)
  | .exec name =>
    let (k, r) ← k.sysExec b c name
    return k.tail c (ofI32 r)
  | .who name => return k.tail c (ofI32 (sysWho k.sched name))
  | .exitTask pid =>
    let (k, r) ← k.sysExitTask b c pid
    return k.tail c (ofI32 r)
  | .exit => return k.exitCurrent c
  | .sleep ms =>
    let k := { k with sched := k.sched.modify me (Task.sleepUntil (k.sleepDeadline ms)) }
    return k.switchAway c .sleep
  | .mapDemand va pages =>
    let (sched, r) ← sysMapDemand k.sched me va pages
    return { k with sched := sched }.tail c (ofI32 r)
  | .irqPending irq =>
    if !irqInRange irq then return k.tail c (ofI32 (-10))
    else if k.pending irq then
      return { k with pending := Function.update k.pending irq false }.tail c 1
    else return k.tail c 0
  | .cacheSync | .log | .unknown _ => return k.tail c 0
  | .secure result => return k.tail c result
  | .allocFrames _ | .freeFrames _ _ | .shareFrames _ _ _ | .unshareFrames _ _ _
  | .mapDevice _ _ | .mapCow _ _ _ | .mapCap _ =>
    match k.memoryCall b c call with
    | none => return k.tail c 0
    | some r =>
      let (ram, x) ← r
      return { k with ram := ram }.tail c x

/-- `tanix_syscall` -/
def tanixSyscall (u : UserMem) (k : Kernel) (c : Cpu) (nr a0 a1 a2 : UInt64) :
    Except Panic Outcome :=
  k.perform b c (decode u nr a0 a1 a2)

end Kernel

end Tanix
