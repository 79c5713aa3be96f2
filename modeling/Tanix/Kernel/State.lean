/-
# `Tanix.Kernel.State` — the kernel's state and its scheduling decisions

The whole kernel: the task table, the CPUs, physical memory, the tick counter
and the pending device interrupts.  A CPU is in one of these modes:

    boot         CPU 0 in `kmain`, about to call `enter`
    user         EL0 code of its current task
    waitIrq      the unmasked wait loop of `sys_wait_irq`
    idle own     the loop of `secondary_enter`
    halted       `kmain` after `enter` came back, interrupts masked for good
    restoring f  between the two halves of `context_switch_unlock`: the lock is
                 released, the context of slot `f` is saved, and the registers
                 and TTBR0 of `f` are still those on the CPU

Everything between taking `SCHED_LOCK` and releasing it is one step.  A
scheduling function either stays or decides to switch; a decision keeps the
table as it is at that moment (`Outcome.switch`), just before the chosen task is
set Running, and `switchTo` carries it out.  Loading the chosen context is a
step of its own, because the lock is free by then.
-/
import Tanix.Ipc.Machine
import Tanix.Server

namespace Tanix

inductive Mode where
  | boot
  | user
  | waitIrq (irq : UInt32)
  | idle (own : Cpu)
  | halted
  | restoring (frm : Slot)
  deriving DecidableEq

structure CpuState where
  current : Slot
  mode : Mode
  /-- the root in TTBR0_EL1 -/
  ttbr0 : Nat
  /-- the last syscall result handed to EL0 -/
  x0 : UInt64

structure Kernel where
  sched : Scheduler
  cpus : Cpu → CpuState
  ram : Ram
  /-- `TICKS` -/
  ticks : Nat
  /-- the pending bits of `irq.rs` -/
  pending : UInt32 → Bool
  /-- message buffers in the tasks' own memory -/
  bufs : Slot → Nat → Message

/-- What a critical section comes to. -/
inductive Outcome where
  | stay (k : Kernel)
  | switch (k : Kernel) (frm next : Slot) (pc : Resume)

namespace Kernel

variable (k : Kernel) (c : Cpu)

def cur : Slot :=
  (k.cpus c).current

def setCpu (s : CpuState) : Kernel :=
  { k with cpus := Function.update k.cpus c s }

def setMode (m : Mode) : Kernel :=
  k.setCpu c { k.cpus c with mode := m }

/-- Leave the kernel with a syscall result. -/
def reply (x : UInt64) : Kernel :=
  k.setCpu c { k.cpus c with x0 := x, mode := .user }

/-- The lock-held half of `context_switch_unlock`: save `frm`, install `next`. -/
def switchTo (frm next : Slot) (pc : Resume) : Kernel :=
  { k with
    sched := (k.sched.modify frm (Task.saveCtx ⟨pc, (k.cpus c).ttbr0⟩)).setState next .running
    cpus := Function.update k.cpus c
      { k.cpus c with current := next, mode := .restoring frm } }

def apply : Outcome → Kernel
  | .stay k => k
  | .switch k frm next pc => k.switchTo c frm next pc

/-! ## Scheduling decisions -/

/-- `switch_away` -/
def switchAway (pc : Resume) : Outcome :=
  .switch k (k.cur c) (k.sched.pickNext c (k.cur c)) pc

/-- `switch_best` -/
def switchBest (strict : Bool) (pc : Resume) : Outcome :=
  let cur := k.cur c
  if cur = 0 then .stay k
  else if !k.sched.stateIs cur .running then .stay k
  else
    let next := if strict then k.sched.pickNext c cur else k.sched.pickNextRr c cur cur
    if next = cur ∨ next = 0 then .stay k
    else if strict ∧ k.sched.prioAt cur ≤ k.sched.prioAt next then .stay k
    else .switch { k with sched := k.sched.setState cur .ready } cur next pc

/-- `tick_preempt` -/
def tickPreempt (fromEl0 : Bool) (pc : Resume) : Outcome :=
  let cur := k.cur c
  let idle := idleSlot c
  let woke := (k.sched.wakeSleepers k.ticks).2
  let k := { k with sched := (k.sched.wakeSleepers k.ticks).1 }
  let next := k.sched.pickNext c cur
  if k.sched.stateIs cur .zombie then
    -- a task killed while it ran is left here, if anything else can run
    if next ≠ cur ∧ next ≠ idle then .switch k cur next pc else .stay k
  else if cur = idle then
    if woke ∧ next ≠ idle then .switch k cur next pc else .stay k
  else if !fromEl0 then .stay k
  else k.switchBest c false pc

/-- `yield_cpu` -/
def yieldCpu : Outcome :=
  k.switchBest c true .yielded

/-- `reschedule`: run the task the syscall has woken, if it is strictly better. -/
def reschedule (pc : Resume) : Outcome :=
  match k.sched.woken with
  | none => .stay k
  | some w =>
    let k := { k with sched := k.sched.takeWoken }
    let cur := k.cur c
    if cur = idleSlot c then .stay k
    else if k.sched.prioAt cur ≤ k.sched.prioAt w then .stay k
    else .switch { k with sched := k.sched.setState cur .ready } cur w pc

/-- `exit_current` -/
def exitCurrent : Outcome :=
  { k with sched := k.sched.setState (k.cur c) .zombie }.switchAway c .dead

/-- `kill_faulting_task` -/
def killFaultingTask : Outcome :=
  { k with sched := k.sched.modify (k.cur c) Task.faulted }.switchAway c .dead

/-- `enter`, on CPU 0: `kmain` goes on to halt when there is nothing to run. -/
def enter : Outcome :=
  let next := k.sched.pickNext 0 (k.cur 0)
  if next = idleSlot 0 then .stay (k.setMode 0 .halted)
  else .switch k (idleSlot 0) next .bootEnter

/-- One turn of the loop of `secondary_enter`. -/
def idleTurn (own : Cpu) : Outcome :=
  let next := k.sched.pickNext own (k.cur c)
  if next = idleSlot own then .stay k
  else .switch { k with sched := k.sched.setState (idleSlot own) .ready } (idleSlot own) next
    (.idleLoop own)

/-! ## Restoring a context -/

/-- `r as u64` for a signed 32-bit result -/
def ofI32 (r : Int32) : UInt64 :=
  r.toInt64.toUInt64

/-- The second half of `context_switch_unlock`, and the code of the resumed context up to the
point where it is back at EL0, in a loop with interrupts on, or halted. -/
def restore : Except Panic Kernel :=
  match k.sched.tasks (k.cur c) with
  | none => .error .resumedZeroed
  | some t =>
    let k := k.setCpu c { k.cpus c with ttbr0 := t.ctx.ttbr0 }
    match t.ctx.pc with
    | .zeroed => .error .resumedZeroed
    | .dead => .error .resumedDead
    | .entry | .irqUser => .ok (k.setMode c .user)
    | .send | .yielded => .ok (k.reply c 0)
    | .receive out => .ok (k.reply c (ofI32 (k.bufs (k.cur c) out).src.toInt32))
    | .sleep =>
      .ok ({ k with sched := k.sched.modify (k.cur c) Task.clearDeadline }.reply c 0)
    | .tail result => .ok (k.reply c result)
    | .irqWait irq => .ok (k.setMode c (.waitIrq irq))
    | .irqIdle own | .idleLoop own => .ok (k.setMode c (.idle own))
    | .bootEnter => .ok (k.setMode c .halted)

end Kernel

end Tanix
