/-
# `Tanix.Kernel.Current` — who takes a CPU, and why

The slot a CPU runs changes in one way only: a critical section of that CPU
decides to switch.  `Chosen` is why it may decide so:

    enter, idle        the boot context or an idle context found something to run
    tick               a tick left a dead task, or an idle context, for `pick_next`
    rotate             a tick at EL0 went round with `pick_next_rr`
    hint               the syscall tail followed the wake hint
    park, yield, dies  the task blocked, yielded, exited or died at a fault

`decides` says that there is no other reason, and `Step.cur_eq` and `Step.cur_alive`
what a step therefore does to the slots the CPUs run.
-/
import Tanix.Kernel.Exclusive
import Tanix.Kernel.Stable
import Tanix.Sched.Argmin

namespace Tanix

open Scheduler

/-! ## The table at a tick -/

section Woken

variable {s : Scheduler} {i : Slot} {t : Task}

/-- What a tick finds Ready: what was, and the sleepers that are due. -/
theorem candidate_wakeSleepers {c : Cpu} {now : Nat} (hi : i ≠ 0) (ht : s.tasks i = some t)
    (hready : t.state = .ready ∨ t.expired now = true)
    (haff : t.cpuAffinity = none ∨ t.cpuAffinity = some c) :
    (s.wakeSleepers now).1.Candidate c i := by
  refine ⟨hi, t.woken now i, by rw [wakeSleepers_tasks, ht]; rfl, ?_, ?_⟩
  · rw [Task.woken]
    split
    · rfl
    · next hno =>
      exact hready.resolve_right fun he => hno ⟨hi, he⟩
  · rcases t.woken_eq_or now i with hk | ⟨hk, -⟩
    · rw [hk]
      exact haff
    · rw [hk]
      exact haff

theorem priorityAt_wakeSleepers (s : Scheduler) (now : Nat) (i : Slot) :
    (s.wakeSleepers now).1.priorityAt i = s.priorityAt i := by
  rw [priorityAt, map_wakeSleepers fun _ => rfl, priorityAt]

theorem prioAt_toNat (ht : s.tasks i = some t) : (s.prioAt i).toNat = s.priorityAt i := by
  rw [prioAt, priorityAt, ht]
  rfl

end Woken

namespace Kernel

/-! ## Decisions -/

inductive Chosen (b : Board) (k : Kernel) : Event → Slot → Prop
  | enter : Chosen b k .enter (k.sched.pickNext 0 (k.cur 0))
  | idle (c own : Cpu) (hm : (k.cpus c).mode = .idle own) :
      Chosen b k (.idle c) (k.sched.pickNext own (k.cur c))
  | tick (c : Cpu) (hleft : { k with ticks := k.ticks + 1 }.woken.sched.stateIs (k.cur c) .zombie = true ∨
      k.cur c = idleSlot c) :
      Chosen b k (.tick c) ({ k with ticks := k.ticks + 1 }.woken.sched.pickNext c (k.cur c))
  | rotate (c : Cpu) :
      Chosen b k (.tick c) ({ k with ticks := k.ticks + 1 }.woken.sched.pickNextRr c (k.cur c) (k.cur c))
  | hint (c : Cpu) (call : Call) (k₁ : Kernel) (w : Slot) (hb : Body b k c call k₁)
      (hw : k₁.sched.woken = some w) (hlt : k₁.sched.prioAt w < k₁.sched.prioAt (k.cur c)) :
      Chosen b k (.syscall c call) w
  | park (c : Cpu) (call : Call) (k₁ : Kernel) (pc : Resume) (hp : Parks k c call k₁ pc) :
      Chosen b k (.syscall c call) (k₁.sched.pickNext c (k.cur c))
  | yield (c : Cpu) : Chosen b k (.syscall c .yield) (k.sched.pickNext c (k.cur c))
  | dies (c : Cpu) (e : Event) (ram : Ram) (hf : Faults b k c e ram) :
      Chosen b k e ((k.sched.modify (k.cur c) Task.faulted).pickNext c (k.cur c))

/-- The decision leaves every CPU with the slot it has, until a switch is carried out. -/
def Decides (b : Board) (k : Kernel) (e : Event) : Outcome → Prop
  | .stay k' => k'.cur = k.cur
  | .switch k' _ next _ => k'.cur = k.cur ∧ Chosen b k e next

section Decides

variable {b : Board} {k : Kernel} {c : Cpu}

theorem cur_eq_of_cpus {k' : Kernel} (h : k'.cpus = k.cpus) : k'.cur = k.cur := by
  funext c
  rw [cur, h]
  rfl

theorem cur_setCpu_same (k : Kernel) (c : Cpu) (st : CpuState) (h : st.current = k.cur c) :
    (k.setCpu c st).cur = k.cur := by
  funext c'
  rcases eq_or_ne c' c with rfl | hne
  · exact (cur_setCpu k c' st).trans h
  · simp [cur, setCpu, hne]

theorem Body.cpus {call : Call} {k' : Kernel} (hb : Body b k c call k') : k'.cpus = k.cpus := by
  have hspawn : ∀ {k k' : Kernel} {name : String} {r : Int32}, k.spawnByName b name = .ok (k', r) →
      k'.cpus = k.cpus := by
    intro k k' name r h
    obtain ⟨s', ram, res, -, rfl⟩ := spawnByName_spawning h
    rfl
  cases hb.does with
  | quiet | send | receive | regions => rfl
  | kills _ _ _ _ hk => exact hk.cpus
  | spawns _ _ _ _ _ hs => exact hspawn hs
  | respawns _ _ _ _ _ hk hs => exact (hspawn hs).trans hk.cpus

theorem Parks.cpus {call : Call} {k' : Kernel} {pc : Resume} (hp : Parks k c call k' pc) :
    k'.cpus = k.cpus := by
  cases hp <;> rfl

theorem cur_reply_eq (k : Kernel) (c : Cpu) (x : UInt64) : (k.reply c x).cur = k.cur :=
  cur_setCpu_same k c { k.cpus c with x0 := x, mode := .user } rfl

theorem decides_performed {call : Call} {o : Outcome} (hp : Performed b k c call o) :
    Decides b k (.syscall c call) o := by
  cases hp with
  | tail x hb =>
    rename_i k₁
    have hcur : (k₁.reply c x).cur = k.cur := (cur_reply_eq k₁ c x).trans (cur_eq_of_cpus hb.cpus)
    rw [Kernel.tail]
    rcases reschedule_cases (k₁.reply c x) c (.tail x) with he | he | ⟨w, hw, hlt, -, he⟩ <;> rw [he]
    · exact hcur
    · exact hcur
    · rw [hcur] at hlt
      exact ⟨hcur, .hint c call k₁ w hb hw hlt⟩
  | park hp =>
    rename_i k₁ pc
    have hcur : k₁.cur = k.cur := cur_eq_of_cpus hp.cpus
    refine ⟨hcur, ?_⟩
    rw [hcur]
    exact .park c call k₁ pc hp
  | yield =>
    have hcur : (k.reply c 0).cur = k.cur := cur_reply_eq k c 0
    rw [Kernel.yieldCpu]
    rcases switchBest_cases (k.reply c 0) c true .yielded with
      he | ⟨next, ⟨-, rfl⟩ | ⟨hno, -⟩, -, -, -, he⟩
    · rw [he]
      exact hcur
    · rw [he]
      refine ⟨hcur, ?_⟩
      rw [hcur]
      exact .yield c
    · cases hno
  | answered irq pending x => exact cur_reply_eq { k with pending := pending } c x
  | waiting irq =>
    exact cur_setCpu_same { k with sched := k.sched.modify (k.cur c) (Task.setIrqWait (some irq)) } c
      { k.cpus c with mode := .waitIrq irq } rfl

theorem decides_tickPreempt (fromEl0 : Bool) (pc : Resume) :
    Decides b k (.tick c) ({ k with ticks := k.ticks + 1 }.tickPreempt c fromEl0 pc) := by
  rcases tickPreempt_cases { k with ticks := k.ticks + 1 } c fromEl0 pc with
    he | ⟨hleft, he⟩ | ⟨-, he⟩ <;> rw [he]
  · exact rfl
  · exact ⟨rfl, .tick c hleft⟩
  · rcases switchBest_cases { k with ticks := k.ticks + 1 }.woken c false pc with
      he | ⟨next, ⟨hno, -⟩ | ⟨-, rfl⟩, -, -, -, he⟩
    · rw [he]
      exact rfl
    · cases hno
    · rw [he]
      exact ⟨rfl, .rotate c⟩

theorem restore_cur {k' : Kernel} (hk : k.restore c = .ok k') : k'.cur = k.cur := by
  unfold Kernel.restore at hk
  split at hk
  · cases hk
  · rename_i t _
    have hcur : (k.setCpu c { k.cpus c with ttbr0 := t.ctx.ttbr0 }).cur = k.cur :=
      cur_setCpu_same k c _ rfl
    simp only at hk
    split at hk <;> cases hk <;>
      exact (cur_setCpu_same _ c _ (by simp [cur, setCpu])).trans hcur

/-- Every switch has one of the reasons. -/
theorem decides {e : Event} {o : Outcome} (ho : k.critical b e = some (.ok o)) : Decides b k e o := by
  cases Kernel.handled ho with
  | enter =>
    rcases enter_cases k with he | he <;> rw [he]
    · exact cur_setCpu_same k 0 _ rfl
    · exact ⟨rfl, .enter⟩
  | idle c own hm =>
    rcases idleTurn_cases k c own with he | ⟨-, he⟩ <;> rw [he]
    · exact rfl
    · exact ⟨rfl, .idle c own hm⟩
  | tick => exact decides_tickPreempt _ _
  | syscall c call _ hp => exact decides_performed hp
  | repaired | irq => exact rfl
  | died c ram _ _ hf => exact ⟨rfl, .dies c _ ram hf⟩
  | wake c => exact cur_reply_eq _ c 0
  | restore c k₁ hr => exact restore_cur hr

/-! ## Steps -/

variable {e : Event} {k' : Kernel}

theorem cur_apply_switch (k : Kernel) (c : Cpu) (frm next : Slot) (pc : Resume) :
    (Kernel.apply c (.switch k frm next pc)).cur c = next := by
  simp [cur, Kernel.apply, switchTo]

/-- A step leaves the slot of its CPU alone, or switches for one of the reasons. -/
theorem Step.cur_cases (hs : Step b k e k') :
    k'.cur e.cpu = k.cur e.cpu ∨
      (Chosen b k e (k'.cur e.cpu) ∧ ∃ s : Scheduler, k'.sched = s.setState (k'.cur e.cpu) .running) := by
  obtain ⟨o, ho, rfl⟩ := hs
  cases o with
  | stay k₁ => exact Or.inl (congrFun (decides ho) e.cpu)
  | switch k₁ frm next pc =>
    rw [cur_apply_switch]
    exact Or.inr ⟨(decides ho).2, _, rfl⟩

theorem Step.cur_eq (hs : Step b k e k') {c : Cpu} (hc : c ≠ e.cpu) : k'.cur c = k.cur c := by
  obtain ⟨o, ho, rfl⟩ := hs
  cases o with
  | stay k₁ => exact congrFun (decides ho) c
  | switch k₁ frm next pc =>
    have hold : k₁.cur c = k.cur c := congrFun (decides ho).1 c
    rw [← hold]
    simp [cur, Kernel.apply, switchTo, hc]

theorem setState_stateIs (s : Scheduler) (i : Slot) {st st' : TaskState} (hne : st ≠ st') :
    (s.setState i st).stateIs i st' = false := by
  rw [stateIs, Option.any_eq_false]
  intro u hu
  obtain ⟨t, -, rfl⟩ := modify_some hu
  simpa using hne

/-- A slot that is new on a CPU is not dead. -/
theorem Step.cur_alive (hs : Step b k e k') {i : Slot} (hz : k'.sched.stateIs i .zombie = true)
    {c : Cpu} (hc : k'.cur c = i) : k.cur c = i := by
  rcases eq_or_ne c e.cpu with rfl | hne
  · rcases hs.cur_cases with heq | ⟨-, s, hs⟩
    · rw [← heq]
      exact hc
    · rw [hs, hc, setState_stateIs s i (by decide)] at hz
      cases hz
  · rw [← hs.cur_eq hne]
    exact hc

end Decides

end Kernel

end Tanix
