/-
# `Tanix.Hv.Backend` — the bare-metal hypervisor

`kernel/src/hypervisor/backend.rs` and `doorbell.rs`: VMs, message queues and doorbells in
three tables of fixed size, with handles from two counters.  A call gives its result and the
state after it; `none` is a panic (a counter that leaves its type, a queue slot that is
empty where a message is due).

`vcpu_run` is two steps.  The call enters the guest; the guest comes back by its yield or by
a tick that finds the slice spent, and in between other calls can be made, by the guest too.
The contexts of the switch are left out.
-/
import Tanix.Lib.Pool
import Mathlib.Algebra.Group.Nat.Defs

namespace Tanix.Hv

def maxVms : Nat := 4
def maxMsgq : Nat := 8
def msgqSlots : Nat := 16
def msgqMaxMsgSize : Nat := 96
def maxDoorbells : Nat := 8

inductive HvError where
  | notSupported
  | noMemory
  | invalidHandle
  | badState
  | empty
  | full
  | badMessage
  deriving DecidableEq, Repr

inductive VcpuExit where
  | yielded
  | preempted
  deriving DecidableEq, Repr

/-! ## The objects -/

structure VmConfig where
  ramBase : Nat
  ramSize : Nat
  entry : Nat
  boot : Nat × Nat
  deriving DecidableEq, Repr

structure VmRecord where
  handle : Nat
  ramBase : Nat
  ramSize : Nat
  entry : Nat
  boot : Nat × Nat
  started : Bool
  running : Bool
  inGuest : Bool
  preempted : Bool
  budgetTicks : Nat
  deriving DecidableEq, Repr

/-- A queue: the ring of messages starts at `head`. -/
structure MsgqRecord where
  handle : Nat
  owner : Nat
  head : Nat
  count : Nat
  depth : Nat
  slots : List (Option (List UInt8))
  deriving DecidableEq, Repr

structure DoorbellEntry where
  handle : Nat
  ownerVm : Nat
  irq : Nat
  enableMask : Nat
  ackMask : Nat
  rings : Nat
  deliveries : Nat
  deriving DecidableEq, Repr

def VmRecord.new (handle : Nat) (c : VmConfig) : VmRecord :=
  { handle := handle, ramBase := c.ramBase, ramSize := c.ramSize, entry := c.entry, boot := c.boot
    started := false, running := false, inGuest := false, preempted := false, budgetTicks := 0 }

def MsgqRecord.new (handle owner depth : Nat) : MsgqRecord :=
  { handle := handle, owner := owner, head := 0, count := 0, depth := min (max depth 1) msgqSlots
    slots := List.replicate msgqSlots none }

def DoorbellEntry.new (handle ownerVm irq : Nat) : DoorbellEntry :=
  { handle := handle, ownerVm := ownerVm, irq := irq, enableMask := 0, ackMask := 0, rings := 0, deliveries := 0 }

structure Backend where
  vms : List (Option VmRecord)
  msgqs : List (Option MsgqRecord)
  nextHandle : Nat
  doorbells : List (Option DoorbellEntry)
  nextDoorbell : Nat
  activeVm : Option Nat
  preemptEnabled : Bool
  quantumTicks : Nat
  deriving DecidableEq, Repr

def Backend.new : Backend where
  vms := List.replicate maxVms none
  msgqs := List.replicate maxMsgq none
  nextHandle := 1
  doorbells := List.replicate maxDoorbells none
  nextDoorbell := 1
  activeVm := none
  preemptEnabled := false
  quantumTicks := 0

/-- `+= 1` on a counter of `w` bits. -/
def bump (w n : Nat) : Option Nat :=
  if n + 1 < 2 ^ w then some (n + 1) else none

namespace Backend

variable (s : Backend)

def findVm (vm : Nat) : Option VmRecord :=
  Pool.find (·.handle == vm) s.vms

def findMsgq (mq : Nat) : Option MsgqRecord :=
  Pool.find (·.handle == mq) s.msgqs

def findDoorbell (bell : Nat) : Option DoorbellEntry :=
  Pool.find (·.handle == bell) s.doorbells

def setVm (vm : Nat) (f : VmRecord → VmRecord) : Backend :=
  { s with vms := Pool.modify (·.handle == vm) f s.vms }

def setMsgq (mq : Nat) (f : MsgqRecord → MsgqRecord) : Backend :=
  { s with msgqs := Pool.modify (·.handle == mq) f s.msgqs }

def setDoorbell (bell : Nat) (f : DoorbellEntry → DoorbellEntry) : Backend :=
  { s with doorbells := Pool.modify (·.handle == bell) f s.doorbells }

/-! ## VMs -/

/-- The handle is used up, whether there is a slot or not. -/
def vmCreate (c : VmConfig) : Option (Except HvError Nat × Backend) :=
  (bump 32 s.nextHandle).map fun next =>
    match Pool.insert (.new s.nextHandle c) s.vms with
    | none => (.error .noMemory, { s with nextHandle := next })
    | some vms => (.ok s.nextHandle, { s with vms := vms, nextHandle := next })

def vmDestroy (vm : Nat) : Except HvError Unit × Backend :=
  match s.findVm vm with
  | none => (.error .invalidHandle, s)
  | some r =>
    if r.running then (.error .badState, s)
    else (.ok (), { s with vms := Pool.erase (·.handle == vm) s.vms })

end Backend

/-- A run starts, with a fresh slice. -/
def VmRecord.enter (r : VmRecord) (quantumTicks : Nat) : VmRecord :=
  { r with started := true, budgetTicks := quantumTicks, running := true, inGuest := true }

namespace Backend

variable (s : Backend)

/-- Into the guest. -/
def vcpuRun (vm vcpu : Nat) : Option (Except HvError Unit × Backend) :=
  if vcpu ≠ 0 then some (.error .notSupported, s)
  else
    match s.findVm vm with
    | none => some (.error .invalidHandle, s)
    | some r =>
      if r.running then some (.error .badState, s)
      -- the first run sets the stack to the end of the guest's RAM
      else if r.started = false ∧ 2 ^ 64 ≤ r.ramBase + r.ramSize then none
      else
        some (.ok (), { s.setVm vm (·.enter s.quantumTicks) with activeVm := some vm })

/-- The end of `vcpu_run`, back in the kernel. -/
def vcpuExit (vm : Nat) : Backend :=
  { s.setVm vm fun r => { r with inGuest := false, running := false, preempted := false } with activeVm := none }

/-- `vm_yield_entry_masked`: the first VM that runs comes back. -/
def vmYield : Option (VcpuExit × Backend) :=
  (Pool.find (·.running) s.vms).map fun r =>
    (if r.preempted then .preempted else .yielded, s.vcpuExit r.handle)

/-- A tick on the CPU of the guest. -/
def tickGuest : Option VcpuExit × Backend :=
  if s.preemptEnabled then
    match s.activeVm.bind s.findVm with
    | none => (none, s)
    | some r =>
      if r.inGuest = false then (none, s)
      else if 0 < r.budgetTicks then
        (none, s.setVm r.handle fun r => { r with budgetTicks := r.budgetTicks - 1 })
      else (some .preempted, s.vcpuExit r.handle)
  else (none, s)

def vcpuStop (vm : Nat) : Except HvError Unit × Backend :=
  match s.findVm vm with
  | none => (.error .invalidHandle, s)
  | some r =>
    if r.running then (.error .badState, s)
    else (.ok (), s.setVm vm fun r => { r with started := false })

/-! ## Message queues -/

def msgqCreate (vm depth : Nat) : Option (Except HvError Nat × Backend) :=
  match s.findVm vm with
  | none => some (.error .invalidHandle, s)
  | some _ =>
    match Pool.insert (.new s.nextHandle vm depth) s.msgqs with
    | none => some (.error .noMemory, s)
    | some msgqs =>
      (bump 32 s.nextHandle).map fun next =>
        (.ok s.nextHandle, { s with msgqs := msgqs, nextHandle := next })

def enqueue (q : MsgqRecord) (msg : List UInt8) : Except HvError (Bool × MsgqRecord) :=
  if msgqMaxMsgSize < msg.length then .error .badMessage
  else if q.depth ≤ q.count then .error .full
  else
    let idx := (q.head + q.count) % msgqSlots
    .ok (q.count + 1 < q.depth, { q with slots := q.slots.set idx (some msg), count := q.count + 1 })

/-- `none` where the slot at the head is empty. -/
def dequeue (q : MsgqRecord) (cap : Nat) : Option (Except HvError ((List UInt8 × Bool) × MsgqRecord)) :=
  if q.count = 0 then some (.error .empty)
  else
    (q.slots[q.head]?.join).map fun msg =>
      let q' := { q with slots := q.slots.set q.head none, head := (q.head + 1) % msgqSlots, count := q.count - 1 }
      .ok ((msg.take (min msg.length cap), 0 < q.count - 1), q')

def msgqSend (mq : Nat) (msg : List UInt8) : Except HvError Bool × Backend :=
  match s.findMsgq mq with
  | none => (.error .invalidHandle, s)
  | some q =>
    match enqueue q msg with
    | .error e => (.error e, s)
    | .ok (ready, q') => (.ok ready, s.setMsgq mq fun _ => q')

def msgqRecv (mq cap : Nat) : Option (Except HvError (List UInt8 × Bool) × Backend) :=
  match s.findMsgq mq with
  | none => some (.error .invalidHandle, s)
  | some q =>
    (dequeue q cap).map fun
      | .error e => (.error e, s)
      | .ok (got, q') => (.ok got, s.setMsgq mq fun _ => q')

/-! ## Doorbells -/

def register (ownerVm irq : Nat) : Option (Except HvError Nat × Backend) :=
  match Pool.insert (.new s.nextDoorbell ownerVm irq) s.doorbells with
  | none => some (.error .noMemory, s)
  | some doorbells =>
    (bump 32 s.nextDoorbell).map fun next =>
      (.ok s.nextDoorbell, { s with doorbells := doorbells, nextDoorbell := next })

def doorbellCreate (ownerVm irq : Nat) : Option (Except HvError Nat × Backend) :=
  match s.findVm ownerVm with
  | none => some (.error .invalidHandle, s)
  | some _ => s.register ownerVm irq

def doorbellSend (bell : Nat) : Option (Except HvError Unit × Backend) :=
  match s.findDoorbell bell with
  | none => some (.error .invalidHandle, s)
  | some e =>
    (bump 64 e.rings).map fun rings => (.ok (), s.setDoorbell bell fun e => { e with rings := rings })

def doorbellSetMask (bell enableMask ackMask : Nat) : Except HvError Unit × Backend :=
  match s.findDoorbell bell with
  | none => (.error .invalidHandle, s)
  | some _ => (.ok (), s.setDoorbell bell fun e => { e with enableMask := enableMask, ackMask := ackMask })

/-- The GIC delivers an SGI: the first doorbell on it counts. -/
def noteDelivery (intid : Nat) : Option Backend :=
  match Pool.find (·.irq == intid) s.doorbells with
  | none => some s
  | some e =>
    (bump 64 e.deliveries).map fun deliveries =>
      { s with doorbells := Pool.modify (·.irq == intid) (fun e => { e with deliveries := deliveries }) s.doorbells }

/-- A handle is made up from the range; nothing is recorded. -/
def memShare (phys size : Nat) : Except HvError Nat × Backend :=
  (.ok (phys % 2 ^ 32 ^^^ size % 2 ^ 32), s)

def enableGuestPreemption (quantumTicks : Nat) : Backend :=
  { s with preemptEnabled := true, quantumTicks := quantumTicks }

def disableGuestPreemption : Backend :=
  { s with preemptEnabled := false, quantumTicks := 0 }

end Backend

end Tanix.Hv
