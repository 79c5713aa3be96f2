/-
# `Tanix.Kernel.Effects` — what one call can come to

Every proof about runs of the kernel has to say what a system call does.  It is
said here once.  A call that does not panic ends in one of five ways
(`Performed`):

    tail       it has run to its end, and the syscall tail follows (`Body`)
    park       it has parked its caller, and `switch_away` follows (`Parks`)
    yield      `yield_cpu`
    answered   `sys_wait_irq`, answered at once
    waiting    `sys_wait_irq`, in its loop

The task-table half of the two calls that change other tasks is in
`killTaskLocked_some` and `spawnByName_ok`; `Body.does` has the body of every call as a
sequence of moves.  `Handled` says the same of the critical section of any event.
-/
import Tanix.Kernel.Step
import Tanix.Sched.Moves

namespace Tanix

open Scheduler Option

/-- A call whose end is the syscall tail, unless it parks its caller. -/
def Call.hasTail : Call → Bool
  | .waitIrq _ | .yield | .exit | .sleep _ => false
  | _ => true

/-- A call that leaves the task table alone. -/
def Call.plain : Call → Bool
  | .who _ | .irqPending _ | .cacheSync | .log | .unknown _ | .secure _ | .allocFrames _
  | .freeFrames _ _ | .shareFrames _ _ _ | .unshareFrames _ _ _ | .mapDevice _ _ | .mapCow _ _ _
  | .mapCap _ => true
  | _ => false

/-- The task a call is going to kill, if any. -/
def Call.victim (s : Scheduler) : Call → Option UInt32
  | .exitTask pid => some pid
  | .exec (some name) => (Kernel.liveByName s name).map (·.id)
  | _ => none

/-- The server a call starts, if any. -/
def Call.spawns : Call → Option String
  | .spawn name | .exec name => name
  | _ => none

variable {call : Call}

theorem Call.plain_hasTail (h : call.plain = true) : call.hasTail = true := by
  cases call <;> first | rfl | cases h

theorem Call.plain_victim (h : call.plain = true) (s : Scheduler) : call.victim s = none := by
  cases call <;> first | rfl | cases h

theorem Call.plain_spawns (h : call.plain = true) : call.spawns = none := by
  cases call <;> first | rfl | cases h

theorem Call.hasTail_of_victim {s : Scheduler} {id : UInt32} (h : call.victim s = some id) :
    call.hasTail = true := by
  cases call <;> first | rfl | cases h

theorem Call.hasTail_of_spawns (h : call.spawns ≠ none) : call.hasTail = true := by
  cases call <;> first | rfl | exact absurd rfl h

namespace Kernel

/-- The body of a call that runs to the syscall tail. -/
inductive Body (b : Board) (k : Kernel) (c : Cpu) : Call → Kernel → Prop
  | nothing (call : Call) (pending : UInt32 → Bool) (hp : call.plain = true)
      (hm : k.memoryCall b c call = none) : Body b k c call { k with pending := pending }
  | memory (call : Call) (ram : Ram) (x : UInt64) (hp : call.plain = true)
      (h : k.memoryCall b c call = some (.ok (ram, x))) : Body b k c call { k with ram := ram }
  | send (dst : UInt32) (msg : Message) (r : Int32)
      (h : (sysSend k.sched (k.cur c) dst msg).ret = some r) :
      Body b k c (.send dst msg) { k with
        sched := (sysSend k.sched (k.cur c) dst msg).sched
        bufs := Ipc.writeOut k.bufs (sysSend k.sched (k.cur c) dst msg).handed }
  | receive (filter : Int32) (out : Nat) (r : Int32)
      (h : (sysReceive k.sched (k.cur c) filter out).ret = some r) :
      Body b k c (.receive filter out) { k with
        sched := (sysReceive k.sched (k.cur c) filter out).sched
        bufs := Ipc.writeOut k.bufs (sysReceive k.sched (k.cur c) filter out).handed }
  | spawn (name : Option String) (k' : Kernel) (r : Int32)
      (h : k.sysSpawn b name = .ok (k', r)) : Body b k c (.spawn name) k'
  | exec (name : Option String) (k' : Kernel) (r : Int32)
      (h : k.sysExec b c name = .ok (k', r)) : Body b k c (.exec name) k'
  | exitTask (pid : UInt32) (k' : Kernel) (r : Int32)
      (h : k.sysExitTask b c pid = .ok (k', r)) : Body b k c (.exitTask pid) k'
  | mapDemand (va pages : UInt64) (s : Scheduler) (r : Int32)
      (h : sysMapDemand k.sched (k.cur c) va pages = .ok (s, r)) :
      Body b k c (.mapDemand va pages) { k with sched := s }

/-- The calls that give the CPU away. -/
inductive Parks (k : Kernel) (c : Cpu) : Call → Kernel → Resume → Prop
  | send (dst : UInt32) (msg : Message)
      (h : (sysSend k.sched (k.cur c) dst msg).ret = none) :
      Parks k c (.send dst msg) { k with
        sched := (sysSend k.sched (k.cur c) dst msg).sched
        bufs := Ipc.writeOut k.bufs (sysSend k.sched (k.cur c) dst msg).handed } .send
  | receive (filter : Int32) (out : Nat)
      (h : (sysReceive k.sched (k.cur c) filter out).ret = none) :
      Parks k c (.receive filter out) { k with
        sched := (sysReceive k.sched (k.cur c) filter out).sched
        bufs := Ipc.writeOut k.bufs (sysReceive k.sched (k.cur c) filter out).handed }
        (.receive out)
  | sleep (ms : UInt32) :
      Parks k c (.sleep ms)
        { k with sched := k.sched.modify (k.cur c) (Task.sleepUntil (k.sleepDeadline ms)) } .sleep
  | exit : Parks k c .exit { k with sched := k.sched.setState (k.cur c) .zombie } .dead

/-- The outcomes of a system call. -/
inductive Performed (b : Board) (k : Kernel) (c : Cpu) : Call → Outcome → Prop
  | tail {call : Call} {k' : Kernel} (x : UInt64) (h : Body b k c call k') :
      Performed b k c call (k'.tail c x)
  | park {call : Call} {k' : Kernel} {pc : Resume} (h : Parks k c call k' pc) :
      Performed b k c call (k'.switchAway c pc)
  | yield : Performed b k c .yield ((k.reply c 0).yieldCpu c)
  | answered (irq : UInt32) (pending : UInt32 → Bool) (x : UInt64) :
      Performed b k c (.waitIrq irq) (.stay ({ k with pending := pending }.reply c x))
  | waiting (irq : UInt32) :
      Performed b k c (.waitIrq irq) (.stay ({ k with
        sched := k.sched.modify (k.cur c) (Task.setIrqWait (some irq)) }.setMode c (.waitIrq irq)))

variable {b : Board} {call : Call} {o : Outcome}

theorem performed_ipc {k : Kernel} {c : Cpu} {o : IpcOut} {pc : Resume} (hret : ∀ r, o.ret = some r
    → Body b k c call { k with sched := o.sched, bufs := Ipc.writeOut k.bufs o.handed }) (hpark :
    o.ret = none → Parks k c call { k with sched := o.sched, bufs := Ipc.writeOut k.bufs o.handed }
    pc) : Performed b k c call (k.afterIpc c o pc) := by
  unfold afterIpc
  simp only
  split
  · rename_i r hr
    exact .tail _ (hret r hr)
  · rename_i hr
    exact .park (hpark hr)

theorem performed {k : Kernel} {c : Cpu} (h : k.perform b c call = .ok o) :
    Performed b k c call o := by
  cases call with
  | waitIrq irq =>
    simp only [perform] at h
    split at h
    · cases h
      exact .answered irq k.pending _
    · split at h
      · cases h
        exact .answered irq _ 0
      · cases h
        exact .waiting irq
  | yield =>
    cases h
    exact .yield
  | send dst msg =>
    cases h
    exact performed_ipc (fun r => .send dst msg r) (.send dst msg)
  | receive filter out =>
    cases h
    exact performed_ipc (fun r => .receive filter out r) (.receive filter out)
  | spawn name =>
    obtain ⟨⟨k', r⟩, hk', h⟩ := bind_eq_ok.mp h
    cases h
    exact .tail _ (.spawn name k' r hk')
  | exec name =>
    obtain ⟨⟨k', r⟩, hk', h⟩ := bind_eq_ok.mp h
    cases h
    exact .tail _ (.exec name k' r hk')
  | exitTask pid =>
    obtain ⟨⟨k', r⟩, hk', h⟩ := bind_eq_ok.mp h
    cases h
    exact .tail _ (.exitTask pid k' r hk')
  | mapDemand va pages =>
    obtain ⟨⟨s, r⟩, hs, h⟩ := bind_eq_ok.mp h
    cases h
    exact .tail _ (.mapDemand va pages s r hs)
  | exit =>
    cases h
    exact .park .exit
  | sleep ms =>
    cases h
    exact .park (.sleep ms)
  | irqPending irq =>
    simp only [perform] at h
    split at h
    · cases h
      exact .tail _ (.nothing _ k.pending rfl rfl)
    · split at h
      · cases h
        exact .tail _ (.nothing _ _ rfl rfl)
      · cases h
        exact .tail _ (.nothing _ k.pending rfl rfl)
  | who | cacheSync | log | unknown | secure =>
    cases h
    exact .tail _ (.nothing _ k.pending rfl rfl)
  | allocFrames | freeFrames | shareFrames | unshareFrames | mapDevice | mapCow | mapCap =>
    rw [perform] at h
    split at h
    · rename_i hr
      cases h
      exact .tail 0 (.nothing _ k.pending rfl hr)
    · rename_i r hr
      obtain ⟨⟨ram, x⟩, hx, h⟩ := bind_eq_ok.mp h
      cases h
      exact .tail x (.memory _ ram x rfl (by rw [hr, hx]))

/-! ## Events -/

/-- The event kills the current task of CPU `c` at a fault, and this is the memory afterwards. -/
def Faults (b : Board) (k : Kernel) (c : Cpu) : Event → Ram → Prop
  | .fault c', ram => c' = c ∧ ram = k.ram
  | .abort c' far esr, ram => c' = c ∧ k.ram.resolveUserFault b.zeroPage
      (k.sched.ttbr0At (k.cur c)) (k.sched.regionsAt (k.cur c)) far esr = .ok (ram, false)
  | _, _ => False

/-- The event is a data abort that is repaired. -/
def Repairs (b : Board) (k : Kernel) (c : Cpu) : Event → Ram → Prop
  | .abort c' far esr, ram => c' = c ∧ k.ram.resolveUserFault b.zeroPage
      (k.sched.ttbr0At (k.cur c)) (k.sched.regionsAt (k.cur c)) far esr = .ok (ram, true)
  | _, _ => False

/-- What the critical section of an event comes to. -/
inductive Handled (b : Board) (k : Kernel) : Event → Outcome → Prop
  | enter (hm : (k.cpus 0).mode = .boot) : Handled b k .enter k.enter
  | idle (c own : Cpu) (hm : (k.cpus c).mode = .idle own) : Handled b k (.idle c) (k.idleTurn c own)
  | tick (c : Cpu) (pc : Resume) (hpc : interrupted (k.cpus c).mode = some pc) :
      Handled b k (.tick c)
        ({ k with ticks := k.ticks + 1 }.tickPreempt c ((k.cpus c).mode == Mode.user) pc)
  | syscall (c : Cpu) (call : Call) {o : Outcome} (hm : (k.cpus c).mode = .user)
      (hp : Performed b k c call o) : Handled b k (.syscall c call) o
  | repaired (c : Cpu) (far esr : Nat) (ram : Ram) (h : Repairs b k c (.abort c far esr) ram) :
      Handled b k (.abort c far esr) (.stay { k with ram := ram })
  | died (c : Cpu) {e : Event} (ram : Ram) (he : e.cpu = c) (hm : (k.cpus c).mode = .user)
      (h : Faults b k c e ram) : Handled b k e ({ k with ram := ram }.killFaultingTask c)
  | irq (c : Cpu) (n : UInt32) :
      Handled b k (.irq c n) (.stay { k with pending := Function.update k.pending n true })
  | wake (c : Cpu) (irq : UInt32) (hm : (k.cpus c).mode = .waitIrq irq) :
      Handled b k (.wake c) (.stay ({ k with
        pending := Function.update k.pending irq false
        sched := k.sched.modify (k.cur c) (Task.setIrqWait none) }.reply c 0))
  | restore (c : Cpu) (k' : Kernel) (hk : k.restore c = .ok k') : Handled b k (.restore c) (.stay k')

theorem handled {k : Kernel} {e : Event} (ho : k.critical b e = some (.ok o)) :
    Handled b k e o := by
  cases e with
  | enter =>
    obtain ⟨hm, ⟨⟩⟩ := ite_none_right_eq_some.mp ho
    exact .enter hm
  | idle c =>
    simp only [critical] at ho
    split at ho
    · rename_i own hm
      cases ho
      exact .idle c own hm
    · cases ho
  | tick c =>
    simp only [critical] at ho
    split at ho
    · rename_i pc hpc
      cases ho
      exact .tick c pc hpc
    · cases ho
  | syscall c call =>
    obtain ⟨hm, ho⟩ := ite_none_right_eq_some.mp ho
    exact .syscall c call hm (performed (Option.some.inj ho))
  | abort c far esr =>
    obtain ⟨hm, ho⟩ := ite_none_right_eq_some.mp ho
    obtain ⟨⟨ram, handled⟩, hres, ho⟩ := bind_eq_ok.mp (Option.some.inj ho)
    cases handled with
    | true =>
      cases ho
      exact .repaired c far esr ram ⟨rfl, hres⟩
    | false =>
      cases ho
      exact .died c ram rfl hm ⟨rfl, hres⟩
  | fault c =>
    obtain ⟨hm, ⟨⟩⟩ := ite_none_right_eq_some.mp ho
    exact .died c k.ram rfl hm ⟨rfl, rfl⟩
  | irq c n =>
    obtain ⟨-, ⟨⟩⟩ := ite_none_right_eq_some.mp ho
    exact .irq c n
  | wake c =>
    simp only [critical] at ho
    split at ho
    · rename_i irq hm
      obtain ⟨-, ⟨⟩⟩ := ite_none_right_eq_some.mp ho
      exact .wake c irq hm
    · cases ho
  | restore c =>
    simp only [critical] at ho
    split at ho
    · cases hr : k.restore c with
      | error err =>
        rw [hr] at ho
        cases ho
      | ok k' =>
        rw [hr] at ho
        cases ho
        exact .restore c k' hr
    · cases ho

/-! ## Decisions -/

section Decisions

variable (k : Kernel) (c : Cpu)

/-- `switch_best` stays, or leaves its task Ready and switches to the slot its picker chose. -/
theorem switchBest_cases (strict : Bool) (pc : Resume) :
    k.switchBest c strict pc = .stay k ∨ ∃ next,
      ((strict = true ∧ next = k.sched.pickNext c (k.cur c)) ∨
        (strict = false ∧ next = k.sched.pickNextRr c (k.cur c) (k.cur c))) ∧
      k.cur c ≠ 0 ∧ k.sched.stateIs (k.cur c) .running = true ∧ next ≠ k.cur c ∧
      k.switchBest c strict pc =
        .switch { k with sched := k.sched.setState (k.cur c) .ready } (k.cur c) next pc := by
  have hpick : ∀ next, next = (if strict = true then k.sched.pickNext c (k.cur c)
      else k.sched.pickNextRr c (k.cur c) (k.cur c)) →
      (strict = true ∧ next = k.sched.pickNext c (k.cur c)) ∨
        (strict = false ∧ next = k.sched.pickNextRr c (k.cur c) (k.cur c)) := by
    intro next hnext
    split at hnext
    · next hs => exact Or.inl ⟨hs, hnext⟩
    · next hs => exact Or.inr ⟨Bool.eq_false_iff.mpr hs, hnext⟩
  unfold switchBest
  simp only
  generalize hnext : (if strict = true then k.sched.pickNext c (k.cur c)
    else k.sched.pickNextRr c (k.cur c) (k.cur c)) = next
  split
  · exact Or.inl rfl
  · rename_i h0
    split
    · exact Or.inl rfl
    · rename_i hrun
      split
      · exact Or.inl rfl
      · rename_i hne
        split
        · exact Or.inl rfl
        · exact Or.inr ⟨next, hpick next hnext.symm, h0, by simpa using hrun,
            fun he => hne (Or.inl he), rfl⟩

/-- The table after `wake_sleepers`. -/
def woken : Kernel :=
  { k with sched := (k.sched.wakeSleepers k.ticks).1 }

/-- `tick_preempt` wakes the sleepers; it then stays, leaves a dead task or an idle context as it is
for the slot that `pick_next` chose, or does as `switch_best`. -/
theorem tickPreempt_cases (fromEl0 : Bool) (pc : Resume) :
    k.tickPreempt c fromEl0 pc = .stay k.woken ∨
    ((k.woken.sched.stateIs (k.cur c) .zombie = true ∨ k.cur c = idleSlot c) ∧
      k.tickPreempt c fromEl0 pc =
        .switch k.woken (k.cur c) (k.woken.sched.pickNext c (k.cur c)) pc) ∨
    (fromEl0 = true ∧ k.tickPreempt c fromEl0 pc = k.woken.switchBest c false pc) := by
  unfold tickPreempt
  simp only
  split
  · rename_i hz
    split
    · exact Or.inr (Or.inl ⟨Or.inl hz, rfl⟩)
    · exact Or.inl rfl
  · split
    · rename_i hidle
      split
      · exact Or.inr (Or.inl ⟨Or.inr hidle, rfl⟩)
      · exact Or.inl rfl
    · split
      · exact Or.inl rfl
      · rename_i hel0
        exact Or.inr (Or.inr ⟨by simpa using hel0, rfl⟩)

/-- `reschedule` has nothing to do, consumes the hint, or follows it. -/
theorem reschedule_cases (pc : Resume) :
    k.reschedule c pc = .stay k ∨ k.reschedule c pc = .stay { k with sched := k.sched.takeWoken } ∨
    ∃ w, k.sched.woken = some w ∧ k.sched.prioAt w < k.sched.prioAt (k.cur c) ∧ w ≠ k.cur c ∧
      k.reschedule c pc = .switch { k with
        sched := k.sched.takeWoken.setState (k.cur c) .ready } (k.cur c) w pc := by
  unfold reschedule
  split
  · exact Or.inl rfl
  · rename_i w hw
    simp only
    split
    · exact Or.inr (Or.inl rfl)
    · split
      · exact Or.inr (Or.inl rfl)
      · rename_i hle
        have hlt : k.sched.prioAt w < k.sched.prioAt (k.cur c) := UInt8.not_le.mp hle
        refine Or.inr (Or.inr ⟨w, hw, hlt, ?_, rfl⟩)
        rintro rfl
        exact absurd hlt (UInt8.lt_irrefl _)

theorem enter_cases : k.enter = .stay (k.setMode 0 .halted) ∨
    k.enter = .switch k (idleSlot 0) (k.sched.pickNext 0 (k.cur 0)) .bootEnter := by
  unfold enter
  simp only
  split
  · exact Or.inl rfl
  · exact Or.inr rfl

theorem idleTurn_cases (own : Cpu) : k.idleTurn c own = .stay k ∨
    (k.sched.pickNext own (k.cur c) ≠ idleSlot own ∧
      k.idleTurn c own = .switch { k with sched := k.sched.setState (idleSlot own) .ready }
        (idleSlot own) (k.sched.pickNext own (k.cur c)) (.idleLoop own)) := by
  unfold idleTurn
  simp only
  split
  · exact Or.inl rfl
  · rename_i hne
    exact Or.inr ⟨hne, rfl⟩

end Decisions

/-! ## Deaths -/

/-- `resolve_user_fault` repairs this data abort of the current task. -/
def repairs (k : Kernel) (c : Cpu) (far esr : Nat) : Bool :=
  k.ram.repairable (k.sched.ttbr0At (k.cur c)) (k.sched.regionsAt (k.cur c)) far esr

/-- The task that an event kills. -/
def Marks (k : Kernel) : Event → Slot → Prop
  | .syscall c call, i => (call = .exit ∧ i = k.cur c) ∨
      ∃ id, call.victim k.sched = some id ∧ k.sched.taskIdx id = some i
  | .fault c, i => i = k.cur c
  | .abort c far esr, i => i = k.cur c ∧ k.repairs c far esr = false
  | _, _ => False

instance (k : Kernel) (e : Event) (i : Slot) : Decidable (Marks k e i) :=
  match e with
  | .syscall c call => inferInstanceAs (Decidable ((call = .exit ∧ i = k.cur c) ∨
      ∃ id ∈ call.victim k.sched, k.sched.taskIdx id = some i))
  | .fault c => inferInstanceAs (Decidable (i = k.cur c))
  | .abort c far esr => inferInstanceAs (Decidable (i = k.cur c ∧ k.repairs c far esr = false))
  | .enter | .idle _ | .tick _ | .irq _ _ | .wake _ | .restore _ => inferInstanceAs (Decidable False)

theorem Faults.marks_iff {k : Kernel} {c : Cpu} {e : Event} {ram : Ram} (h : Faults b k c e ram)
    {i : Slot} : Marks k e i ↔ i = k.cur c := by
  cases e with
  | fault c' =>
    obtain ⟨rfl, -⟩ := h
    exact Iff.rfl
  | abort c' far esr =>
    obtain ⟨rfl, hr⟩ := h
    exact and_iff_left (Ram.resolveUserFault_ok hr).2.symm
  | enter | idle | tick | syscall | irq | wake | restore => cases h

/-! ## Killing and spawning -/

/-- What `kill_task_locked` does: `freed` says that the tables went back. -/
inductive Kills (b : Board) (k : Kernel) (c : Cpu) (id : UInt32) : Slot → Kernel → Prop
  | freed (i : Slot) (ram : Ram) (hi : k.sched.taskIdx id = some i)
      (ht : k.sched.ttbr0At i ≠ 0) (hne : id ≠ k.sched.idAt (k.cur c))
      (hram : k.ram.freeTaskTables b.kernelL0 (k.sched.ttbr0At i) = .ok ram) :
      Kills b k c id i { k with sched := k.sched.modify i (Task.killed true), ram := ram }
  | kept (i : Slot) (hi : k.sched.taskIdx id = some i)
      (h : k.sched.ttbr0At i = 0 ∨ id = k.sched.idAt (k.cur c)) :
      Kills b k c id i { k with sched := k.sched.modify i (Task.killed false) }

theorem Kills.idx {k k' : Kernel} {c : Cpu} {id : UInt32} {i : Slot} (h : Kills b k c id i k') :
    k.sched.taskIdx id = some i := by
  cases h <;> assumption

theorem killTaskLocked_some {k k' : Kernel} {c : Cpu} {id : UInt32}
    (h : k.killTaskLocked b c id = .ok (some k')) : ∃ i, Kills b k c id i k' := by
  unfold killTaskLocked at h
  cases hi : k.sched.taskIdx id with
  | none =>
    rw [hi] at h
    cases h
  | some i =>
    simp only [hi] at h
    split at h
    · rename_i hc
      split at h
      · cases h
      · rename_i ram hram
        cases h
        exact ⟨i, .freed i ram hi hc.1 hc.2 hram⟩
    · rename_i hc
      cases h
      refine ⟨i, .kept i hi ?_⟩
      by_cases ht : k.sched.ttbr0At i = 0
      · exact Or.inl ht
      · exact Or.inr (not_not.mp fun hne => hc ⟨ht, hne⟩)

theorem killTaskLocked_none {k : Kernel} {c : Cpu} {id : UInt32}
    (h : k.killTaskLocked b c id = .ok none) : k.sched.taskIdx id = none := by
  unfold killTaskLocked at h
  cases hi : k.sched.taskIdx id with
  | none => rfl
  | some i =>
    simp only [hi] at h
    split at h
    · split at h <;> cases h
    · cases h

/-- What `sys_exec` does before it spawns. -/
inductive Retires (b : Board) (k : Kernel) (c : Cpu) (name : String) : Kernel → Prop
  | nobody (h : ∀ t, liveByName k.sched name = some t → k.sched.taskIdx t.id = none) :
      Retires b k c name k
  | killed {k' : Kernel} (t : Task) (i : Slot) (ht : liveByName k.sched name = some t)
      (h : Kills b k c t.id i k') : Retires b k c name k'

variable {name : String}

theorem retire_ok {k k' : Kernel} {c : Cpu} (h : k.retire b c name = .ok k') :
    Retires b k c name k' := by
  unfold retire at h
  cases hlive : liveByName k.sched name with
  | none =>
    rw [hlive] at h
    cases h
    exact .nobody fun t ht => by rw [hlive] at ht; cases ht
  | some t =>
    rw [hlive] at h
    obtain ⟨res, hres, h⟩ := bind_eq_ok.mp h
    cases res with
    | none =>
      cases h
      refine .nobody fun t' ht' => ?_
      rw [hlive] at ht'
      cases ht'
      exact killTaskLocked_none hres
    | some k₁ =>
      cases h
      obtain ⟨i, hkill⟩ := killTaskLocked_some hres
      exact .killed t i hlive hkill

variable {r : Int32}

/-- The task table and the memory after `spawn_by_name_locked`. -/
theorem spawnByName_spawning {k k' : Kernel} (h : k.spawnByName b name = .ok (k', r)) :
    ∃ s' ram res,
      b.Spawning k.sched k.ram name s' ram res ∧ k' = { k with sched := s', ram := ram } := by
  obtain ⟨⟨s', ram, res⟩, hspawn, h⟩ := bind_eq_ok.mp h
  refine ⟨s', ram, res, Board.spawnByNameLocked_ok hspawn, ?_⟩
  simp only at h
  split at h
  · cases h
    rfl
  · cases h
    rfl

/-- What `spawn_by_name_locked` does to the table: nothing, or one new task. -/
inductive Spawns (b : Board) (k : Kernel) (name : String) : Kernel → Prop
  | refused (ram : Ram) : Spawns b k name { k with ram := ram }
  | spawned (ram : Ram) (i : Slot) (ttbr0 bootPage : Nat) (rs : Fin taskRegions → TaskRegion)
      (hi : k.sched.freeSlot = some i) :
      Spawns b k name { k with
        sched := spawnedAt k.sched i
          (serverTask k.sched.nextId name ttbr0 (b.machine.serverLinkBase name) bootPage rs)
        ram := ram }

theorem spawnByName_ok {k k' : Kernel} (hfresh : FreshId k.sched)
    (h : k.spawnByName b name = .ok (k', r)) : Spawns b k name k' := by
  obtain ⟨s', ram, res, hs, rfl⟩ := spawnByName_spawning h
  cases hs with
  | unknown => exact .refused k.ram
  | refused | full => exact .refused _
  | spawned img bootPage ttbr0 r' s' id himg hbase hend hspace hspawn =>
    obtain ⟨rfl, -, i, rs, hi, rfl⟩ := spawnServer_some hfresh hspawn
    exact .spawned _ i ttbr0 bootPage rs hi

/-- `sys_map_demand` registers a window with the caller, or leaves the table alone. -/
theorem sysMapDemand_ok {s s' : Scheduler} {me : Slot} {va pages : UInt64}
    (h : sysMapDemand s me va pages = .ok (s', r)) :
    s' = s ∨ ∃ rs, s' = s.modify me (Task.setRegions rs) := by
  unfold sysMapDemand at h
  split at h
  · cases h
    exact Or.inl rfl
  · split at h
    · cases h
      exact Or.inl rfl
    · split at h
      · cases h
        exact Or.inl rfl
      · split at h
        · cases h
          exact Or.inl rfl
        · obtain ⟨res, hres, h⟩ := bind_eq_ok.mp h
          cases res with
          | none =>
            cases h
            exact Or.inl rfl
          | some s₁ =>
            cases h
            exact Or.inr (pushRegionAt_some hres)

/-- The call names a task to kill, and there is one. -/
def Harms (k : Kernel) (call : Call) : Prop :=
  ∃ id i, call.victim k.sched = some id ∧ k.sched.taskIdx id = some i

/-- The body of a call, move by move: one of the two IPC calls returns, a window is registered, a
task is killed, a server is started. -/
inductive Does (b : Board) (k : Kernel) (c : Cpu) : Call → Kernel → Prop
  | quiet (call : Call) (pending : UInt32 → Bool) (ram : Ram) (hno : ¬ Harms k call) :
      Does b k c call { k with pending := pending, ram := ram }
  | send (dst : UInt32) (msg : Message) (r : Int32)
      (h : (sysSend k.sched (k.cur c) dst msg).ret = some r) :
      Does b k c (.send dst msg) { k with
        sched := (sysSend k.sched (k.cur c) dst msg).sched
        bufs := Ipc.writeOut k.bufs (sysSend k.sched (k.cur c) dst msg).handed }
  | receive (filter : Int32) (out : Nat) (r : Int32)
      (h : (sysReceive k.sched (k.cur c) filter out).ret = some r) :
      Does b k c (.receive filter out) { k with
        sched := (sysReceive k.sched (k.cur c) filter out).sched
        bufs := Ipc.writeOut k.bufs (sysReceive k.sched (k.cur c) filter out).handed }
  | regions (va pages : UInt64) (rs : Fin taskRegions → TaskRegion) :
      Does b k c (.mapDemand va pages)
        { k with sched := k.sched.modify (k.cur c) (Task.setRegions rs) }
  | kills (call : Call) (id : UInt32) (i : Slot) {k₁ : Kernel} (hv : call.victim k.sched = some id)
      (hk : Kills b k c id i k₁) : Does b k c call k₁
  | spawns (call : Call) (name : String) (r : Int32) {k₁ : Kernel} (hcall : call.spawns = some name)
      (hno : ¬ Harms k call) (h : k.spawnByName b name = .ok (k₁, r)) : Does b k c call k₁
  | respawns (name : String) (id : UInt32) (i : Slot) (r : Int32) {k₁ k₂ : Kernel}
      (hv : (Call.exec (some name)).victim k.sched = some id) (hk : Kills b k c id i k₁)
      (h : k₁.spawnByName b name = .ok (k₂, r)) : Does b k c (.exec (some name)) k₂

theorem not_harms {k : Kernel} (h : call.victim k.sched = none) : ¬ Harms k call := by
  rintro ⟨id, i, hv, -⟩
  rw [h] at hv
  cases hv

theorem Body.does {k k' : Kernel} {c : Cpu} (hb : Body b k c call k') : Does b k c call k' := by
  cases hb with
  | nothing call pending hp => exact .quiet call pending k.ram (not_harms (Call.plain_victim hp _))
  | memory call ram x hp => exact .quiet call k.pending ram (not_harms (Call.plain_victim hp _))
  | send dst msg r hr => exact .send dst msg r hr
  | receive filter out r hr => exact .receive filter out r hr
  | mapDemand va pages s r hs =>
    obtain rfl | ⟨rs, rfl⟩ := sysMapDemand_ok hs
    · exact .quiet _ k.pending k.ram (not_harms rfl)
    · exact .regions va pages rs
  | spawn name k' r hk =>
    cases name with
    | none =>
      cases hk
      exact .quiet _ k.pending k.ram (not_harms rfl)
    | some n => exact .spawns _ n r rfl (not_harms rfl) hk
  | exitTask pid k' r hk =>
    obtain ⟨res, hres, hk⟩ := bind_eq_ok.mp hk
    cases res with
    | none =>
      cases hk
      refine .quiet _ k.pending k.ram ?_
      rintro ⟨id, i, hv, hi⟩
      cases hv
      rw [killTaskLocked_none hres] at hi
      cases hi
    | some k₁ =>
      cases hk
      obtain ⟨i, hkill⟩ := killTaskLocked_some hres
      exact .kills _ pid i rfl hkill
  | exec name k' r hk =>
    cases name with
    | none =>
      cases hk
      exact .quiet _ k.pending k.ram (not_harms rfl)
    | some n =>
      obtain ⟨k₁, hretire, hk⟩ := bind_eq_ok.mp hk
      cases retire_ok hretire with
      | nobody hnone =>
        refine .spawns _ n r rfl ?_ hk
        rintro ⟨id, i, hv, hi⟩
        obtain ⟨t, ht, rfl⟩ := map_eq_some_iff.mp hv
        rw [hnone t ht] at hi
        cases hi
      | killed t i hlive hkill => exact .respawns n t.id i r (by rw [Call.victim, hlive]; rfl) hkill hk

end Kernel

end Tanix
