/-
# `Tanix.Kernel.Lock` — `SCHED_LOCK`, instruction by instruction

`Tanix.Kernel.Step` runs a critical section as one step.  Here the code around
`SCHED_LOCK` is written out as the source has it: every `lock`, every `unlock`,
every early return, and `context_switch_unlock` with its three parts.  The code
is a `Spin.Prog`, so what a switch saves is the rest of the function that called
it, with the caller's rest after that: the `switched` flag of the dispatcher and
the results of `reschedule` and `switch_best` are what the resumed code finds.

Outside of this code a CPU rests in one of these places:

    off            a secondary that has not been started
    kmain          CPU 0 between the steps of `kmain`
    user           EL0
    waitIrq irq    the loop of `sys_wait_irq`
    idleTop own    the top of the loop of `secondary_enter`
    idlePark own   `secondary_enter` in `wfi`
    halted         `arch::halt`

A panic ends in a semihosting exit, which stops the machine.

Exceptions switch interrupts off, `context_switch_unlock` saves a context that
resumes with them off, and the two loops switch them on around `wfi`.  A secondary
comes out of `init_tick` with interrupts on, and nothing masks them before its first
turn through the idle loop: `relock_on_first_turn` says what a tick does there.
-/
import Tanix.Kernel.Boot
import Tanix.Kernel.Step
import Tanix.Lib.Spin

namespace Tanix

inductive Place where
  | off
  | kmain
  | user
  | waitIrq (irq : UInt32)
  | idleTop (own : Cpu)
  | idlePark (own : Cpu)
  | halted
  deriving DecidableEq

abbrev Code (α : Type) := Spin.Prog Cpu Kernel Slot Place α

/-- What starts code on a CPU: the steps of `kmain` and of the two loops, the exceptions from
EL0, and the interrupts. -/
inductive Trap where
  | spawn (name : String)
  | spawnSec
  | armTick
  | bringUp
  | enter
  | halt
  | powerOn
  | turn
  | unpark
  | wake
  | syscall (call : Call)
  | abort (far esr : Nat)
  | fault
  | tick
  | device (n : UInt32)
  | sgi

namespace Code

open Spin.Prog

def lock : Code Unit := Spin.Prog.lock (.done ())

def unlock : Code Unit := Spin.Prog.unlock (.done ())

def irqs (on : Bool) : Code Unit := Spin.Prog.irqs on (.done ())

def fresh (i : Slot) : Code Unit := Spin.Prog.fresh i .user (.done ())

def contextSwitchUnlock (frm dst : Slot) : Code Unit := .switch frm dst (.done ())

/-- `smp::current_idx` -/
def currentIdx : Code Slot := read fun c k => k.cur c

def onSched (f : Scheduler → Scheduler) : Code Unit :=
  modify fun _ k => { k with sched := f k.sched }

/-- `smp::set_current` -/
def setCurrent (i : Slot) : Code Unit :=
  modify fun c k => k.setCpu c { k.cpus c with current := i }

/-- `pick_next` for a CPU -/
def pickNext (own : Cpu) : Code Slot := read fun c k => k.sched.pickNext own (k.cur c)

/-- `smp::cpu_index` -/
def cpuIndex : Code Cpu := read fun c _ => c

/-- Back to EL0 with a syscall result. -/
def reply (x : UInt64) : Code Place := do
  modify fun c k => k.setCpu c { k.cpus c with x0 := x }
  irqs true
  return .user

/-! ## `sched/task.rs` -/

def switchBest (strict : Bool) : Code Bool := do
  let cpu ← cpuIndex
  let cur ← currentIdx
  if cur = 0 then return false
  let curRunning ← read fun _ k => k.sched.stateIs cur .running
  if !curRunning then return false
  let next ← read fun c k =>
    if strict then k.sched.pickNext cpu (k.cur c) else k.sched.pickNextRr cpu (k.cur c) cur
  if next = cur ∨ next = 0 then return false
  let worse ← read fun _ k => decide (k.sched.prioAt cur ≤ k.sched.prioAt next)
  if strict && worse then return false
  onSched (·.setState cur .ready)
  onSched (·.setState next .running)
  setCurrent next
  contextSwitchUnlock cur next
  return true

def tickPreempt (fromEl0 : Bool) : Code Unit := do
  lock
  let cpu ← cpuIndex
  let cur ← currentIdx
  let idle := idleSlot cpu
  let woke ← read fun _ k => (k.sched.wakeSleepers k.ticks).2
  modify fun _ k => { k with sched := (k.sched.wakeSleepers k.ticks).1 }
  let curZombie ← read fun _ k => k.sched.stateIs cur .zombie
  if curZombie then
    let next ← pickNext cpu
    if next ≠ cur ∧ next ≠ idle then
      onSched (·.setState next .running)
      setCurrent next
      contextSwitchUnlock cur next
      return
    unlock
    return
  if cur = idle then
    if woke then
      let next ← pickNext cpu
      if next ≠ idle then
        onSched (·.setState next .running)
        setCurrent next
        contextSwitchUnlock cur next
        return
    unlock
    return
  if !fromEl0 then
    unlock
    return
  if !(← switchBest false) then unlock

def yieldCpu : Code Unit := do
  lock
  if !(← switchBest true) then unlock

def reschedule : Code Bool := do
  let cpu ← cpuIndex
  let woken ← read fun _ k => k.sched.woken
  let some wslot := woken | return false
  onSched Scheduler.takeWoken
  let cur ← currentIdx
  if cur = idleSlot cpu then return false
  let worse ← read fun _ k => decide (k.sched.prioAt cur ≤ k.sched.prioAt wslot)
  if worse then return false
  onSched (·.setState cur .ready)
  onSched (·.setState wslot .running)
  setCurrent wslot
  contextSwitchUnlock cur wslot
  return true

/-- Hand the CPU of a dead task over; the context it leaves must never be resumed. -/
def leaveForGood (die : Slot → Scheduler → Scheduler) : Code Place := do
  lock
  let cpu ← cpuIndex
  let idx ← currentIdx
  onSched (die idx)
  let next ← pickNext cpu
  onSched (·.setState next .running)
  setCurrent next
  contextSwitchUnlock idx next
  .stop

def exitCurrent : Code Place :=
  leaveForGood fun idx s => s.setState idx .zombie

def enter : Code Place := do
  lock
  let cpu ← cpuIndex
  let idle := idleSlot cpu
  let next ← pickNext cpu
  if next = idle then
    unlock
    return .kmain
  onSched (·.setState next .running)
  setCurrent next
  contextSwitchUnlock idle next
  return .kmain

def addIdle (cpu : Cpu) : Code Unit := do
  lock
  onSched (·.addIdle cpu)
  unlock

/-- A turn of the loop of `secondary_enter`, from its top to `wfi` or back to the top. -/
def secondaryEnter (own : Cpu) : Code Place := do
  let idle := idleSlot own
  lock
  let next ← pickNext own
  if next ≠ idle then
    onSched (·.setState idle .ready)
    onSched (·.setState next .running)
    setCurrent next
    contextSwitchUnlock idle next
    return .idleTop own
  unlock
  irqs true
  return .idlePark own

/-! ## `ipc/syscall.rs` -/

/-- The result of a call, and the `switched` flag of the dispatcher. -/
abbrev Called := UInt64 × Bool

def switchAway (frm : Slot) : Code Unit := do
  let cpu ← cpuIndex
  let next ← pickNext cpu
  onSched (·.setState next .running)
  setCurrent next
  contextSwitchUnlock frm next

/-- The common frame of `sys_send` and `sys_receive`: `resumed` is the result after a switch. -/
def ipc (f : Scheduler → Slot → IpcOut) (resumed : Slot → Kernel → Int32) : Code Called := do
  let me ← currentIdx
  let ret ← read fun _ k => (f k.sched me).ret
  modify fun _ k =>
    { k with sched := (f k.sched me).sched, bufs := Ipc.writeOut k.bufs (f k.sched me).handed }
  match ret with
  | some r => return (Kernel.ofI32 r, false)
  | none =>
    switchAway me
    let r ← read fun _ k => resumed me k
    return (Kernel.ofI32 r, true)

def sysSend (dst : UInt32) (msg : Message) : Code Called :=
  ipc (fun s me => Tanix.sysSend s me dst msg) fun _ _ => 0

def sysReceive (filter : Int32) (out : Nat) : Code Called :=
  ipc (fun s me => Tanix.sysReceive s me filter out) fun me k => (k.bufs me out).src.toInt32

def sysSleep (ms : UInt32) : Code Called := do
  let me ← currentIdx
  modify fun _ k => { k with sched := k.sched.modify me (Task.sleepUntil (k.sleepDeadline ms)) }
  switchAway me
  onSched (·.modify me Task.clearDeadline)
  return (0, true)

def spawnByNameLocked (b : Board) (name : String) : Code Int32 := do
  let r ← attempt fun _ k => (b.spawnByNameLocked k.sched k.ram name).map fun (sched, ram, r) =>
    ({ k with sched := sched, ram := ram }, r)
  match r with
  | .error e => return e
  | .ok id =>
    let slot ← read fun _ k => k.sched.taskIdx id
    if let some i := slot then fresh i
    return id.toInt32

variable (b : Board) (name : Option String)

def sysSpawn (name : Option String) : Code Called := do
  let some s := name | return (Kernel.ofI32 (-5), false)
  let r ← spawnByNameLocked b s
  return (Kernel.ofI32 r, false)

def sysExec (name : Option String) : Code Called := do
  let some s := name | return (Kernel.ofI32 (-5), false)
  attempt fun c k => (k.retire b c s).map fun k => (k, ())
  let r ← spawnByNameLocked b s
  return (Kernel.ofI32 r, false)

/-- A call that only works on the kernel's data. -/
def plain (f : Cpu → Kernel → Except Panic (Kernel × UInt64)) : Code Called := do
  let x ← attempt f
  return (x, false)

/-- The `match` of the dispatcher, under the lock. -/
def dispatch : Call → Code Called
  | .send dst msg => sysSend dst msg
  | .receive filter out => sysReceive filter out
  | .sleep ms => sysSleep ms
  | .spawn name => sysSpawn b name
  | .exec name => sysExec b name
  | .who name => plain fun _ k => .ok (k, Kernel.ofI32 (Kernel.sysWho k.sched name))
  | .exitTask pid => plain fun c k => (k.sysExitTask b c pid).map fun (k, r) => (k, Kernel.ofI32 r)
  | .mapDemand va pages => plain fun c k =>
    (Kernel.sysMapDemand k.sched (k.cur c) va pages).map fun (sched, r) =>
      ({ k with sched := sched }, Kernel.ofI32 r)
  | .irqPending irq => plain fun _ k =>
    if !Kernel.irqInRange irq then .ok (k, Kernel.ofI32 (-10))
    else if k.pending irq then .ok ({ k with pending := Function.update k.pending irq false }, 1)
    else .ok (k, 0)
  | .secure result => plain fun _ k => .ok (k, result)
  | call => plain fun c k =>
    match k.memoryCall b c call with
    | none => .ok (k, 0)
    | some r => r.map fun (ram, x) => ({ k with ram := ram }, x)

def sysWaitIrq (irq : UInt32) : Code Place := do
  let me ← currentIdx
  if !Kernel.irqInRange irq then return ← reply (Kernel.ofI32 (-10))
  let taken ← read fun _ k => k.pending irq
  modify fun _ k => { k with pending := Function.update k.pending irq false }
  if taken then return ← reply 0
  onSched (·.modify me (Task.setIrqWait (some irq)))
  irqs true
  return .waitIrq irq

/-- The end of `sys_wait_irq`, once the loop has seen its interrupt. -/
def irqSeen (irq : UInt32) : Code Place := do
  let me ← currentIdx
  onSched (·.modify me (Task.setIrqWait none))
  modify fun _ k => { k with pending := Function.update k.pending irq false }
  reply 0

/-- The dispatcher from its `lock` on, for a call other than `SYS_EXIT`. -/
def underLock (call : Call) : Code Place := do
  lock
  let (result, switched) ← dispatch b call
  if !switched then
    if !(← reschedule) then unlock
  reply result

def tanixSyscall : Call → Code Place
  | .waitIrq irq => sysWaitIrq irq
  | .yield => do
      yieldCpu
      reply 0
  | .exit => do
      lock
      unlock
      exitCurrent
  | call => underLock b call

/-! ## Faults and interrupts -/

def killFaultingTask : Code Place :=
  leaveForGood fun idx s => s.modify idx Task.faulted

def resolveUserFault (b : Board) (far esr : Nat) : Code Bool := do
  lock
  let ttbr0 ← read fun c k => k.sched.ttbr0At (k.cur c)
  if ttbr0 = 0 then
    unlock
    return false
  let handled ← attempt fun c k =>
    (k.ram.resolveUserFault b.zeroPage ttbr0 (k.sched.regionsAt (k.cur c)) far esr).map
      fun (ram, handled) => ({ k with ram := ram }, handled)
  unlock
  return handled

/-- The data-abort arm of `sync_handler`, for EL0. -/
def dataAbort (far esr : Nat) : Code Place := do
  if ← resolveUserFault b far esr then
    irqs true
    return .user
  killFaultingTask

/-- `irq_handler`; the guests' interrupts are left out. -/
def irqHandler : Trap → Option Place → Code Unit
  | .tick, at? => do
      modify fun _ k => { k with ticks := k.ticks + 1 }
      tickPreempt (at? == some Place.user)
  | .device n, _ => modify fun _ k =>
    if decide (16 ≤ n) && decide (n < 96) then
      { k with pending := Function.update k.pending n true }
    else k
  | _, _ => return

/-! ## What runs where -/

/-- `spawn_by_name`, as `kmain` calls it -/
def spawnByName (name : String) : Code Place := do
  lock
  let _ ← spawnByNameLocked b name
  unlock
  return .kmain

def bringUp : Code Place := do
  irqs false
  addIdle 1
  addIdle 2
  addIdle 3
  return .kmain

/-- The steps of `kmain`, on CPU 0. -/
def kmain (b : Board) : Trap → Option (Code Place)
  | .spawn name => some (spawnByName b name)
  | .spawnSec => some do
      let _ ← spawnByNameLocked b "sec"
      return .kmain
  | .armTick => some do
      irqs true
      return .kmain
  | .bringUp => some bringUp
  | .enter => some enter
  | .halt => some (return .halted)
  | _ => none

def trap (pl : Place) (e : Trap) (c : Cpu) (k : Kernel) : Option (Code Place) :=
  match pl, e with
  | .kmain, e => kmain b e
  | .off, .powerOn => if (k.sched.tasks (idleSlot c)).isSome then some do
      irqs true
      return .idleTop c
    else none
  | .idleTop own, .turn => some (secondaryEnter own)
  | .idlePark own, .unpark => some (return .idleTop own)
  | .waitIrq irq, .wake => if k.pending irq then some (irqSeen irq) else none
  | .user, .syscall call => some (tanixSyscall b call)
  | .user, .abort far esr => some (dataAbort b far esr)
  | .user, .fault => some killFaultingTask
  | _, _ => none

/-- Does leaving this place switch interrupts off? -/
def masks : Place → Bool
  | .user | .waitIrq _ | .idlePark _ => true
  | .off | .kmain | .idleTop _ | .halted => false

def system : Spin.System Cpu Kernel Slot Place Trap where
  trap := trap b
  masks := masks
  irq := irqHandler

/-! ## The contracts -/

section Contracts

variable {Q : Unit → Bool → Prop} {h : Bool}

@[simp]
theorem meets_lock : lock.Meets Q h ↔ h = false ∧ Q () true :=
  Iff.rfl

@[simp]
theorem meets_unlock : unlock.Meets Q h ↔ h = true ∧ Q () false :=
  Iff.rfl

@[simp]
theorem meets_irqs {on : Bool} : (irqs on).Meets Q h ↔ Q () h :=
  Iff.rfl

@[simp]
theorem meets_contextSwitchUnlock {frm dst : Slot} :
    (contextSwitchUnlock frm dst).Meets Q h ↔ h = true ∧ Q () false :=
  Iff.rfl

/-- Called with the lock: a switch has given it up, and the result says whether there was one. -/
def Switches (switched held : Bool) : Prop :=
  (switched = false → held = true) ∧ (switched = true → held = false)

theorem meets_switchBest (strict : Bool) : (switchBest strict).Meets Switches true := by
  simp [switchBest, cpuIndex, currentIdx, onSched, setCurrent, Switches]

theorem meets_reschedule : reschedule.Meets Switches true := by
  simp only [reschedule, cpuIndex, meets_bind, meets_read]
  intro c _ _ k
  cases k.sched.woken with
  | none => exact ⟨fun _ => rfl, fun h => absurd h Bool.false_ne_true⟩
  | some w => simp [currentIdx, onSched, setCurrent, Switches]

/-- After code that says whether it has switched: unlock if it has not. -/
theorem meets_unless {p : Code Bool} (hp : p.Meets Switches true) :
    (p >>= fun switched => if !switched then unlock else pure ()).Meets Frees true := by
  refine meets_bind.mpr (hp.mono fun switched held hheld => ?_)
  cases switched with
  | false => exact ⟨hheld.1 rfl, rfl⟩
  | true => exact hheld.2 rfl

theorem meets_yieldCpu : yieldCpu.Meets Frees false :=
  ⟨rfl, meets_unless (meets_switchBest true)⟩

theorem meets_tickPreempt (fromEl0 : Bool) : (tickPreempt fromEl0).Meets Frees false := by
  simp only [tickPreempt, cpuIndex, currentIdx, onSched, setCurrent, pickNext, meets_bind, meets_lock,
    meets_read, meets_modify, true_and]
  -- every path that does not switch ends in an `unlock`; the last one asks `switch_best`
  intro c _ _ k _ k₁ _ _ _ k₂
  refine meets_ite.mpr ⟨fun _ => by simp [Frees], fun _ => meets_ite.mpr ⟨fun _ => ?_, fun _ => ?_⟩⟩
  · simp [Frees]
  · exact meets_ite.mpr ⟨fun _ => by simp [Frees], fun _ => meets_unless (meets_switchBest false)⟩

theorem meets_leaveForGood (die : Slot → Scheduler → Scheduler) :
    (leaveForGood die).Meets Frees false := by
  simp [leaveForGood, cpuIndex, currentIdx, onSched, setCurrent, pickNext, Meets]

theorem meets_enter : enter.Meets Frees false := by
  simp [enter, cpuIndex, onSched, setCurrent, pickNext, Frees]

theorem meets_secondaryEnter (own : Cpu) : (secondaryEnter own).Meets Frees false := by
  simp [secondaryEnter, onSched, setCurrent, pickNext, Frees]

theorem meets_reply (x : UInt64) : (reply x).Meets Frees false := by
  simp [reply, Frees]

theorem meets_switchAway (frm : Slot) : (switchAway frm).Meets Frees true := by
  simp [switchAway, cpuIndex, onSched, setCurrent, pickNext, Frees]

/-- The contract of the arms of the dispatcher. -/
def Dispatches (called : Called) (held : Bool) : Prop :=
  Switches called.2 held

theorem dispatches_here (x : UInt64) : Dispatches (x, false) true :=
  ⟨fun _ => rfl, fun h => nomatch h⟩

theorem dispatches_switched (x : UInt64) : Dispatches (x, true) false :=
  ⟨fun h => (nomatch h), fun _ => rfl⟩

theorem meets_ipc (f : Scheduler → Slot → IpcOut) (resumed : Slot → Kernel → Int32) :
    (ipc f resumed).Meets Dispatches true := by
  simp only [ipc, currentIdx, meets_bind, meets_read, meets_modify]
  intro c k _ k₁ _ _
  cases (f k₁.sched (k.cur c)).ret with
  | some r => exact dispatches_here _
  | none =>
    simp only [meets_bind]
    refine (meets_switchAway _).mono fun _ held hheld => ?_
    obtain rfl := hheld
    exact fun _ _ => dispatches_switched _

theorem meets_sysSleep (ms : UInt32) : (sysSleep ms).Meets Dispatches true := by
  simp only [sysSleep, currentIdx, onSched, meets_bind, meets_read, meets_modify]
  intro c k _ _
  refine (meets_switchAway _).mono fun _ held hheld => ?_
  obtain rfl := hheld
  exact fun _ _ => dispatches_switched 0

variable (b : Board)

theorem meets_spawnByNameLocked (name : String) (h : Bool) :
    (spawnByNameLocked b name).Meets (fun _ h' => h' = h) h := by
  simp only [spawnByNameLocked, meets_bind, meets_attempt]
  intro _ _ r _
  cases r.2 with
  | error e => rfl
  | ok id =>
    simp only [meets_bind, meets_read]
    intro _ k
    cases k.sched.taskIdx id <;> rfl

theorem meets_sysSpawn (name : Option String) : (sysSpawn b name).Meets Dispatches true := by
  cases name with
  | none => exact dispatches_here _
  | some s =>
    refine meets_bind.mpr ((meets_spawnByNameLocked b s true).mono fun _ held hheld => ?_)
    obtain rfl := hheld
    exact dispatches_here _

theorem meets_sysExec (name : Option String) : (sysExec b name).Meets Dispatches true := by
  cases name with
  | none => exact dispatches_here _
  | some s =>
    simp only [sysExec, meets_bind, meets_attempt]
    intro _ _ _ _
    refine (meets_spawnByNameLocked b s true).mono fun _ held hheld => ?_
    obtain rfl := hheld
    exact dispatches_here _

theorem meets_dispatch (call : Call) : (dispatch b call).Meets Dispatches true := by
  cases call with
  | send | receive =>
    rw [dispatch]
    exact meets_ipc _ _
  | sleep ms => exact meets_sysSleep ms
  | spawn name => exact meets_sysSpawn b name
  | exec name => exact meets_sysExec b name
  | _ => simp [dispatch, plain, Dispatches, Switches]

theorem meets_sysWaitIrq (irq : UInt32) : (sysWaitIrq irq).Meets Frees false := by
  simp [sysWaitIrq, currentIdx, onSched, reply, Frees]

theorem meets_irqSeen (irq : UInt32) : (irqSeen irq).Meets Frees false := by
  simp [irqSeen, currentIdx, onSched, reply, Frees]

/-- The common path of the dispatcher.  A call that has switched skips the tail, and so does one
whose `reschedule` has. -/
theorem meets_underLock (call : Call) : (underLock b call).Meets Frees false := by
  simp only [underLock, meets_bind, meets_lock, true_and]
  refine (meets_dispatch b call).mono fun called held hheld => ?_
  obtain ⟨result, switched⟩ := called
  cases switched with
  | true =>
    obtain rfl : held = false := hheld.2 rfl
    exact meets_reply result
  | false =>
    obtain rfl : held = true := hheld.1 rfl
    refine meets_bind.mpr (meets_reschedule.mono fun switched held hheld => ?_)
    cases switched with
    | true =>
      obtain rfl : held = false := hheld.2 rfl
      exact meets_reply result
    | false => exact ⟨hheld.1 rfl, meets_reply result⟩

theorem meets_tanixSyscall (call : Call) : (tanixSyscall b call).Meets Frees false := by
  cases call with
  | waitIrq irq => exact meets_sysWaitIrq irq
  | yield =>
    refine meets_bind.mpr (meets_yieldCpu.mono fun _ held hheld => ?_)
    obtain rfl := hheld
    exact meets_reply 0
  | exit => exact ⟨rfl, rfl, meets_leaveForGood _⟩
  | _ => exact meets_underLock b _

theorem meets_resolveUserFault (far esr : Nat) :
    (resolveUserFault b far esr).Meets Frees false := by
  simp [resolveUserFault, Frees]

theorem meets_dataAbort (far esr : Nat) : (dataAbort b far esr).Meets Frees false := by
  refine meets_bind.mpr ((meets_resolveUserFault b far esr).mono fun handled held hheld => ?_)
  obtain rfl := hheld
  exact meets_ite.mpr ⟨fun _ => rfl, fun _ => meets_leaveForGood _⟩

theorem meets_irqHandler (e : Trap) (pl : Option Place) : (irqHandler e pl).Meets Frees false := by
  cases e with
  | tick => exact meets_bind.mpr fun _ _ => meets_tickPreempt _
  | device n => exact fun _ _ => rfl
  | _ => rfl

theorem meets_spawnByName (name : String) : (spawnByName b name).Meets Frees false := by
  simp only [spawnByName, meets_bind, meets_lock, true_and]
  refine (meets_spawnByNameLocked b name true).mono fun _ held hheld => ?_
  exact ⟨hheld, rfl⟩

theorem meets_bringUp : bringUp.Meets Frees false := by
  simp [bringUp, addIdle, onSched, Frees]

theorem meets_kmain {b : Board} {e : Trap} {p : Code Place} (h : kmain b e = some p) :
    p.Meets Frees false := by
  cases e with
  | spawn name =>
    cases h
    exact meets_spawnByName b name
  | spawnSec =>
    cases h
    exact meets_bind.mpr ((meets_spawnByNameLocked b "sec" false).mono fun _ _ hheld => hheld)
  | armTick =>
    cases h
    rfl
  | bringUp =>
    cases h
    exact meets_bringUp
  | enter =>
    cases h
    exact meets_enter
  | halt =>
    cases h
    rfl
  | _ => cases h

theorem meets_trap {b : Board} {pl : Place} {e : Trap} {c : Cpu} {k : Kernel} {p : Code Place}
    (h : trap b pl e c k = some p) : p.Meets Frees false := by
  unfold trap at h
  split at h
  · exact meets_kmain h
  · obtain ⟨-, ⟨⟩⟩ := Option.ite_none_right_eq_some.mp h
    rfl
  · cases h
    exact meets_secondaryEnter _
  · cases h
    rfl
  · obtain ⟨-, ⟨⟩⟩ := Option.ite_none_right_eq_some.mp h
    exact meets_irqSeen _
  · cases h
    exact meets_tanixSyscall b _
  · cases h
    exact meets_dataAbort b _ _
  · cases h
    exact meets_leaveForGood _
  · cases h

end Contracts

end Code

/-! ## The lock in every run -/

abbrev LockMachine := Spin.Machine Cpu Kernel Slot Place

namespace LockMachine

open Spin Spin.Machine

/-- Where the runs begin: nobody has the lock, CPU 0 is in `kmain`, the secondaries are off, and
no context has run yet. -/
structure PowerOn (m : LockMachine) : Prop where
  free : m.holder = none
  cpus : ∀ c, m.code c = .done (if c = 0 then .kmain else .off)
  contexts : ∀ i, (m.saved i).code = .stop ∨ (m.saved i).code = .done .user

theorem PowerOn.inv {m : LockMachine} (h : PowerOn m) : m.Inv where
  code c := by
    rw [h.cpus c]
    show m.holds c = false
    rw [holds, h.free]
    rfl
  saved i := by
    rcases h.contexts i with hi | hi
    · rw [hi]
      trivial
    · rw [hi]
      rfl

/-- However syscalls, ticks, yields, exits, faults and idle turns interleave: no CPU takes
`SCHED_LOCK` while it has it, none releases it without having it, and none is at EL0 or in `wfi`
with it.  Interrupts are taken at EL0 and in the loops, not inside the kernel's other code. -/
theorem sched_lock_balanced (b : Board) {m m' : LockMachine} {es : List (Spin.Event Cpu Trap)}
    (h : PowerOn m) (hrun : LTS.Run (LTS.guarded (Step (Code.system b)) Spin.Machine.AtRest) m es m') :
    m'.Balanced :=
  balanced_of_run ⟨fun _ _ _ _ _ => Code.meets_trap, Code.meets_irqHandler⟩ h.inv hrun

/-- A machine over the servers of `sbsaBoot`, each still to run for the first time. -/
def sbsaPowerOn : LockMachine where
  data := Kernel.sbsaBoot
  holder := none
  saved := fun _ => ⟨true, .done .user⟩
  code := fun c => .done (if c = 0 then .kmain else .off)
  irqsOn := fun _ => false

/-- CPU 0 enters the scheduler, CPU 1 is started and takes a task, a tick preempts the task of
CPU 0, and the task of CPU 1 sleeps while CPU 0 waits for the lock in its turn. -/
def sbsaEvents : List (Spin.Event Cpu Trap) :=
  .trap 0 .enter :: List.replicate 8 (.run 0) ++
  .trap 1 .powerOn :: .run 1 :: .trap 1 .turn :: List.replicate 8 (.run 1) ++
  .irq 0 .tick :: List.replicate 18 (.run 0) ++
  .trap 1 (.syscall (.sleep 5)) :: List.replicate 6 (.run 1) ++
  .trap 0 (.syscall .yield) :: List.replicate 4 (.run 1) ++ List.replicate 12 (.run 0)

def atRestNext (b : Board) (m : LockMachine) (e : Spin.Event Cpu Trap) : Option LockMachine :=
  if m.AtRest e then m.next (Code.system b) e else none

theorem sched_lock_balanced_sbsa : ∃ m', LTS.Run (LTS.guarded (Step (Code.system Kernel.bareBoard))
      Spin.Machine.AtRest) sbsaPowerOn sbsaEvents m' ∧
    (m'.code 0).place = some .user ∧ (m'.code 1).place = some .user ∧ m'.Balanced := by
  obtain ⟨m', hrun, hfirst, hsecond⟩ := LTS.Run.exists_of_exec (atRestNext Kernel.bareBoard)
    Option.ite_none_right_eq_some.mp sbsaPowerOn sbsaEvents
    (fun m => (m.code 0).place = some .user ∧ (m.code 1).place = some .user) (by decide +kernel)
  exact ⟨m', hrun, hfirst, hsecond,
    sched_lock_balanced Kernel.bareBoard ⟨rfl, fun _ => rfl, fun _ => Or.inr rfl⟩ hrun⟩

/-- The first turn of a secondary that still has interrupts on: a tick between its `lock` and its
`unlock` waits for the lock that its own CPU has. -/
theorem relock_on_first_turn (b : Board) {m : LockMachine} {c own : Cpu}
    (hcode : m.code c = .done (.idleTop own)) (hon : m.irqsOn c = true) (hfree : m.holder = none) :
    ∃ m', LTS.Run (Step (Code.system b)) m [.trap c .turn, .run c, .irq c .tick, .run c] m' ∧
      (∃ p, m'.code c = .lock p) ∧ m'.holder = some c := by
  obtain ⟨rest, hrest⟩ : ∃ p, Code.secondaryEnter own = Spin.Prog.lock p := ⟨_, rfl⟩
  have hplace : rest.place = none := by
    cases hrest
    rfl
  -- the handler counts the tick and then asks for the lock
  obtain ⟨f, g, hirq⟩ : ∃ f g, (Code.irqHandler .tick none >>= fun _ => Spin.Prog.irqs true rest) =
      Spin.Prog.act f fun _ _ => Spin.Prog.lock g := ⟨_, _, rfl⟩
  have hexec : ∃ m', LTS.exec (next (Code.system b)) m
      [.trap c .turn, .run c, .irq c .tick, .run c] = some m' ∧
      (∃ p, m'.code c = .lock p) ∧ m'.holder = some c := by
    simp [LTS.exec, next, advance, hcode, hon, hfree, Code.system, Code.trap, Code.masks, hrest,
      hplace, hirq]
  obtain ⟨m', hm', hend⟩ := hexec
  exact ⟨m', .of_exec (fun _ _ _ h => h) hm', hend⟩

/-- CPU 1, from its start. -/
theorem relock_on_first_turn_sbsa : ∃ m', LTS.Run (Step (Code.system Kernel.bareBoard)) sbsaPowerOn
      [.trap 1 .powerOn, .run 1, .trap 1 .turn, .run 1, .irq 1 .tick, .run 1] m' ∧
    (∃ p, m'.code 1 = .lock p) ∧ m'.holder = some 1 :=
  (relock_on_first_turn Kernel.bareBoard rfl rfl rfl).imp fun _ h => ⟨.cons rfl (.cons rfl h.1), h.2⟩

end LockMachine

end Tanix
