/-
# `Tanix.Ipc.Machine` — rendezvous under an arbitrary scheduler

The tasks of one table, their `sys_send` and `sys_receive` calls, and a
scheduler about which nothing is assumed: any Ready task may be run, any
Running task may be put back, and the calls interleave in any order (each one
is atomic: the code holds `SCHED_LOCK` through it).  There is no bound on how
many tasks are Running at once, so the machine covers any number of CPUs.

    run i          Ready    → Running
    preempt i      Running  → Ready
    store i a m    a Running task outside the kernel writes its own memory
    call i c       a Running task outside the kernel enters `sys_send` / `sys_receive`
    ret i          a Running task leaves the kernel, and the log records what it sees

A parked call leaves the kernel only after its task has been made Ready by
somebody and run again: `sys_send` then returns 0, `sys_receive` the `src`
field it finds in its buffer.

`taken d` is the sequence of messages that receives of slot `d` have been
handed, with the filter of the receive: those in the log, and the one a
receive still inside the kernel has in its buffer.  `completed i` is the
sequence of sends of slot `i` that have returned 0 or can only do so.
-/
import Tanix.Ipc.Waits

namespace Tanix

inductive IpcCall where
  | send (dst : UInt32) (msg : Message)
  | receive (filter : Int32) (out : Nat)
  deriving DecidableEq

/-- A call inside the kernel; `ret = none` when it went through `switch_away`. -/
structure InCall where
  call : IpcCall
  ret : Option Int32
  deriving DecidableEq

/-- What a task sees when a call returns. -/
inductive Obs where
  | sent (i : Slot) (dst : UInt32) (msg : Message) (ret : Int32)
  | received (i : Slot) (filter : Int32) (msg : Message) (ret : Int32)
  deriving DecidableEq

structure Ipc where
  sched : Scheduler
  calls : Slot → Option InCall
  /-- each task's own memory, at the addresses where it keeps messages -/
  mem : Slot → Nat → Message
  log : List Obs

inductive IpcEvent where
  | run (i : Slot)
  | preempt (i : Slot)
  | store (i : Slot) (addr : Nat) (msg : Message)
  | call (i : Slot) (c : IpcCall)
  | ret (i : Slot)

def IpcCall.perform (s : Scheduler) (me : Slot) : IpcCall → IpcOut
  | .send dst msg => sysSend s me dst msg
  | .receive filter out => sysReceive s me filter out

namespace Ipc

/-- The kernel's copy into the receiver's buffer. -/
def writeOut (mem : Slot → Nat → Message) : Option Handed → Slot → Nat → Message
  | none => mem
  | some h => Function.update mem h.dst (Function.update (mem h.dst) h.buf h.msg)

variable (m : Ipc)

variable (i : Slot)

/-- The state after a call of slot `i` with outcome `o`. -/
def finish (c : IpcCall) (o : IpcOut) : Ipc where
  sched := o.sched
  calls := Function.update m.calls i (some ⟨c, o.ret⟩)
  mem := writeOut m.mem o.handed
  log := m.log

def issue (c : IpcCall) : Ipc :=
  m.finish i c (c.perform m.sched i)

/-- What the caller sees when its call returns. -/
def observe : InCall → Obs
  | ⟨.send dst msg, ret⟩ => .sent i dst msg (ret.getD 0)
  | ⟨.receive filter out, ret⟩ =>
    .received i filter (m.mem i out) (ret.getD (m.mem i out).src.toInt32)

def step : IpcEvent → Option Ipc
  | .run i =>
    if m.sched.stateIs i .ready then some { m with sched := m.sched.setState i .running }
    else none
  | .preempt i =>
    if m.sched.stateIs i .running then some { m with sched := m.sched.setState i .ready }
    else none
  | .store i addr msg =>
    if m.sched.stateIs i .running ∧ m.calls i = none then
      some { m with mem := writeOut m.mem (some ⟨i, addr, msg⟩) }
    else none
  | .call i c =>
    if m.sched.stateIs i .running ∧ m.calls i = none then some (m.issue i c) else none
  | .ret i =>
    match m.calls i with
    | some c =>
      if m.sched.stateIs i .running then
        some { m with
          calls := Function.update m.calls i none
          log := m.log ++ [m.observe i c] }
      else none
    | none => none

def Step (e : IpcEvent) (m' : Ipc) : Prop :=
  m.step e = some m'

/-- Tasks with ids of their own, nobody in a call, nothing parked anywhere. -/
structure Initial (m : Ipc) : Prop where
  ids : m.sched.UniqueIds
  idle : ∀ i, m.calls i = none
  quiet : ∀ i t, m.sched.tasks i = some t → t.recvBlocked = false ∧ t.sleepDeadline = 0 ∧
    t.sendFullWait = none ∧ ∀ q, t.pendingSenders q = none
  log : m.log = []

/-! ## The two sequences -/

def takenBy (d : Slot) : Obs → Option (Int32 × Message)
  | .received i filter msg _ => if i = d then some (filter, msg) else none
  | .sent _ _ _ _ => none

def completedBy : Obs → Option (UInt32 × Message)
  | .sent j dst msg ret => if j = i ∧ ret = 0 then some (dst, msg) else none
  | .received _ _ _ _ => none

/-- The message a receive still inside the kernel has been handed. -/
def inHand (d : Slot) : List (Int32 × Message) :=
  match m.calls d with
  | some ⟨.receive filter out, _⟩ =>
    if (m.sched.tasks d).any (·.recvBlocked) then [] else [(filter, m.mem d out)]
  | _ => []

/-- The send still inside the kernel that can only return 0. -/
def released : List (UInt32 × Message) :=
  match m.calls i with
  | some ⟨.send dst msg, some r⟩ => if r = 0 then [(dst, msg)] else []
  | some ⟨.send dst msg, none⟩ => if m.sched.stateIs i .blocked then [] else [(dst, msg)]
  | _ => []

def taken (d : Slot) : List (Int32 × Message) :=
  m.log.filterMap (takenBy d) ++ m.inHand d

def completed : List (UInt32 × Message) :=
  m.log.filterMap (completedBy i) ++ m.released i

end Ipc

end Tanix
