/-
# `Tanix.Sched.Lifecycle` — spawning, sleeping and dying

The methods of the scheduler that create tasks, register their windows, wake
sleepers and mark the dead, as far as they touch the task table.  Slots are
never given back: a dead task keeps its slot as a Zombie.

    spawnUser          first empty slot from 1 up, next id, wake hint
    addIdle            the idle slot of a secondary CPU
    pushRegion         a stack or demand window, refused when it overlaps
    wakeSleepers       every expired deadline, whatever the task's state
    markKilled         Zombie, out of receive, tables given up unless kept
    markFaulted        Zombie, out of receive, buffer forgotten
-/
import Tanix.Sched.Table
import Tanix.Mem.Frame

namespace Tanix

namespace Task

/-- Do the pages `[base, fin)` meet the window? -/
def meets (w : TaskRegion) (base fin : Nat) : Bool :=
  w.kind != .none && decide (w.base < fin) && decide (base < w.base + w.pages * pageSize)

variable (t : Task)

def setRegions (rs : Fin taskRegions → TaskRegion) (t : Task) : Task :=
  { t with regions := rs }

/-- `push_region_for` / `push_current_region`, for the task found: `none` is `false`. -/
def pushRegion (kind : RegionKind) (base pages : Nat) : Except Panic (Option Task) := do
  if pages = 0 ∨ base % pageSize ≠ 0 then return none
  else
    let fin ← checkedAdd base (pages * pageSize)
    if (List.finRange taskRegions).any fun i => meets (t.regions i) base fin then
      return none
    else
      match (List.finRange taskRegions).find? fun i => (t.regions i).kind == .none with
      | none => return none
      | some i => return some (t.setRegions (Function.update t.regions i ⟨kind, base, pages⟩))

def setIrqWait (irq : Option UInt32) (t : Task) : Task :=
  { t with irqWait := irq }

/-- The end of `sys_sleep`. -/
def clearDeadline : Task :=
  { t with sleepDeadline := 0 }

def wake : Task :=
  { t with sleepDeadline := 0, state := .ready }

/-- The deadline of this task has passed. -/
def expired (now : Nat) (t : Task) : Bool :=
  t.sleepDeadline != 0 && decide (t.sleepDeadline ≤ now)

/-- `kill_task_locked`, the control block; `freed` says that the tables go. -/
def killed (freed : Bool) (t : Task) : Task :=
  { t with state := .zombie, recvBlocked := false, ttbr0 := if freed then 0 else t.ttbr0 }

/-- `kill_faulting_task`, the control block. -/
def faulted : Task :=
  { t with state := .zombie, recvBlocked := false, recvBuf := 0 }

def sleepUntil (deadline : Nat) (t : Task) : Task :=
  { t with sleepDeadline := deadline, state := .blocked }

end Task

namespace Scheduler

variable (s : Scheduler)

/-- The slot `spawn_user` takes. -/
def freeSlot : Option Slot :=
  (List.finRange maxTasks).tail.find? fun i => (s.tasks i).isNone

/-- Put a task into an empty slot. -/
def insert (i : Slot) (t : Task) : Scheduler :=
  { s with tasks := Function.update s.tasks i (some t) }

/-- The control block `spawn_user` makes. -/
def userTask (id : UInt32) (name : String) (ttbr0 imageBase imageEnd : Nat) : Task :=
  { Task.new id name ⟨.entry, ttbr0⟩ with
    ttbr0 := ttbr0, imageBase := imageBase, imageEnd := imageEnd }

/-- `spawn_user`, the task table: `none` when every slot is taken. -/
def spawnUser (name : String) (ttbr0 imageBase imageEnd : Nat) :
    Except Panic (Option (Scheduler × Slot)) :=
  match s.freeSlot with
  | none => .ok none
  | some i =>
    if s.nextId = 0xFFFFFFFF then .error .overflow
    else .ok (some ({ s.insert i (userTask s.nextId name ttbr0 imageBase imageEnd) with
      nextId := s.nextId + 1, woken := some i }, i))

/-- The control block `add_idle` makes. -/
def idleTask (cpu : Cpu) : Task :=
  { Task.idle with
    id := 0x40000000 + UInt32.ofNat cpu.val
    cpuAffinity := some cpu
    name := "idle-cpu" ++ toString cpu.val }

/-- `add_idle`, for a secondary CPU. -/
def addIdle (cpu : Cpu) : Scheduler :=
  s.insert (idleSlot cpu) (idleTask cpu)

/-- `push_current_region`, for the current slot `i`. -/
def pushRegionAt (i : Slot) (kind : RegionKind) (base pages : Nat) :
    Except Panic (Option Scheduler) :=
  match s.tasks i with
  | none => .ok none
  | some t =>
    match t.pushRegion kind base pages with
    | .error e => .error e
    | .ok none => .ok none
    | .ok (some t') => .ok (some (s.modify i fun _ => t'))

/-- `push_region_for`; a window that is refused is only logged. -/
def pushRegionFor (id : UInt32) (kind : RegionKind) (base pages : Nat) : Except Panic Scheduler :=
  match s.taskIdx id with
  | none => .ok s
  | some i =>
    match s.pushRegionAt i kind base pages with
    | .error e => .error e
    | .ok grown => .ok (grown.getD s)

/-- `set_priority` -/
def setPriority (id : UInt32) (priority : UInt8) : Scheduler :=
  match s.taskIdx id with
  | none => s
  | some i => s.modify i fun t => { t with priority := priority }

/-- `wake_sleepers`: the table, and whether anybody was woken. -/
def wakeSleepers (now : Nat) : Scheduler × Bool :=
  ({ s with tasks := fun i => if i = 0 then s.tasks i else
      (s.tasks i).map fun t => if t.expired now then t.wake else t },
    (List.finRange maxTasks).tail.any fun i => (s.tasks i).any fun t => t.expired now)

/-- `take_woken` -/
def takeWoken : Scheduler :=
  { s with woken := none }

end Scheduler

end Tanix
