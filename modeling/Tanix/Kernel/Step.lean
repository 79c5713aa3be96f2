/-
# `Tanix.Kernel.Step` — what can happen next

The events of the machine, each on one CPU.  Which event comes next is up to the
environment: the user programs (any call, any fault, at any time), the timer,
the devices, and the order in which the CPUs get the lock.

    enter            CPU 0 leaves `kmain`
    idle c           a turn of the idle loop of a secondary
    tick c           the timer interrupt, where interrupts are on
    syscall c call   the current task of `c` traps with this call
    abort c far esr  a data abort at EL0: repaired, or the task dies
    fault c          any other exception at EL0
    irq c n          device interrupt `n` is recorded
    wake c           the wait loop of `sys_wait_irq` sees its interrupt
    restore c        the second half of a context switch

`critical` is the critical section of an event, up to the decision to stay or to
switch; `Step` carries the decision out.  A panic has no next state.
-/
import Tanix.Kernel.Syscall
import Tanix.Mem.VmFault
import Tanix.Lib.Run

namespace Tanix

inductive Event where
  | enter
  | idle (c : Cpu)
  | tick (c : Cpu)
  | syscall (c : Cpu) (call : Call)
  | abort (c : Cpu) (far esr : Nat)
  | fault (c : Cpu)
  | irq (c : Cpu) (n : UInt32)
  | wake (c : Cpu)
  | restore (c : Cpu)

/-- The CPU an event happens on. -/
def Event.cpu : Event → Cpu
  | .enter => 0
  | .idle c | .tick c | .syscall c _ | .abort c _ _ | .fault c | .irq c _ | .wake c
  | .restore c => c

namespace Kernel

/-- The context a tick interrupts, where interrupts are on. -/
def interrupted : Mode → Option Resume
  | .user => some .irqUser
  | .waitIrq irq => some (.irqWait irq)
  | .idle own => some (.irqIdle own)
  | .boot | .halted | .restoring _ => none

/-- The data-abort path of `sync_handler` for EL0. -/
def dataAbort (b : Board) (k : Kernel) (c : Cpu) (far esr : Nat) : Except Panic Outcome := do
  let me := k.cur c
  let (ram, handled) ← k.ram.resolveUserFault b.zeroPage (k.sched.ttbr0At me)
    (k.sched.regionsAt me) far esr
  if handled then return .stay { k with ram := ram }
  else return { k with ram := ram }.killFaultingTask c

/-- The critical section of an event, where the event can happen. -/
def critical (b : Board) (k : Kernel) : Event → Option (Except Panic Outcome)
  | .enter => if (k.cpus 0).mode = .boot then some (.ok k.enter) else none
  | .idle c =>
    match (k.cpus c).mode with
    | .idle own => some (.ok (k.idleTurn c own))
    | _ => none
  | .tick c =>
    match interrupted (k.cpus c).mode with
    | some pc =>
      some (.ok ({ k with ticks := k.ticks + 1 }.tickPreempt c ((k.cpus c).mode == Mode.user) pc))
    | none => none
  | .syscall c call => if (k.cpus c).mode = .user then some (k.perform b c call) else none
  | .abort c far esr => if (k.cpus c).mode = .user then some (k.dataAbort b c far esr) else none
  | .fault c => if (k.cpus c).mode = .user then some (.ok (k.killFaultingTask c)) else none
  | .irq c n =>
    if (interrupted (k.cpus c).mode).isSome ∧ irqInRange n then
      some (.ok (.stay { k with pending := Function.update k.pending n true }))
    else none
  | .wake c =>
    match (k.cpus c).mode with
    | .waitIrq irq =>
      if k.pending irq then
        some (.ok (.stay ({ k with
          pending := Function.update k.pending irq false
          sched := k.sched.modify (k.cur c) (Task.setIrqWait none) }.reply c 0)))
      else none
    | _ => none
  | .restore c =>
    match (k.cpus c).mode with
    | .restoring _ => some ((k.restore c).map Outcome.stay)
    | _ => none

/-- One step of the machine. -/
def Step (b : Board) (k : Kernel) (e : Event) (k' : Kernel) : Prop :=
  ∃ o, k.critical b e = some (.ok o) ∧ k' = apply e.cpu o

/-- The step as a function; `none` where the event cannot happen or the kernel panics. -/
def next (b : Board) (k : Kernel) (e : Event) : Option Kernel :=
  match k.critical b e with
  | some (.ok o) => some (apply e.cpu o)
  | _ => none

theorem step_iff_next {b : Board} {k k' : Kernel} {e : Event} :
    Step b k e k' ↔ k.next b e = some k' := by
  unfold Step next
  constructor
  · rintro ⟨o, ho, rfl⟩
    rw [ho]
  · intro h
    split at h
    · rename_i o ho
      cases h
      exact ⟨o, ho, rfl⟩
    · cases h

end Kernel

end Tanix
