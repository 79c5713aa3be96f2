/-
# `Tanix.Kernel.Sleep` — how long a sleep lasts

`sys_sleep` stores a deadline in ticks, and `wake_sleepers` compares it with the one
global counter `TICKS`.  Every CPU that is up takes its own 1 ms tick and counts it
there, and `init_tick`, which every secondary calls when it comes up, sets the
counter back to 0.

    one CPU up, none coming up     the sleep lasts its ticks      (`sleep_exact`)
    n CPUs up                      the counter runs n times as fast
    a CPU comes up                 the counter starts again       (`sleep_early_or_late`)

The machine is that of `Tanix.Kernel.Step` with the CPUs coming up one by one
(`Timed`).  The time that passes is what the CPUs see of it: the ticks each has
taken (`ticksOn`).
-/
import Tanix.Kernel.Exclusive
import Tanix.Kernel.Stable

namespace Tanix

open Scheduler LTS

/-! ## CPUs that come up -/

/-- The kernel, and the CPUs whose tick is armed. -/
structure Timed where
  kernel : Kernel
  up : Cpu → Bool

inductive TimedEvent where
  | ev (e : Event)
  /-- `init_tick` of a CPU that comes up -/
  | initTick (c : Cpu)

def Call.isSleep : Call → Bool
  | .sleep _ => true
  | _ => false

/-- The deadline of the task in slot `i` is `deadline`. -/
def Scheduler.ArmedAt (s : Scheduler) (i : Slot) (deadline : Nat) : Prop :=
  ∃ t, s.tasks i = some t ∧ t.sleepDeadline = deadline

/-- Some task has a deadline armed. -/
def Scheduler.Sleeper (s : Scheduler) : Prop :=
  ∃ i, (s.tasks i).any (fun t => t.sleepDeadline != 0) = true

namespace Timed

inductive Step (b : Board) : Timed → TimedEvent → Timed → Prop
  | ev {s : Timed} {e : Event} {k' : Kernel} (hup : s.up e.cpu = true)
      (h : Kernel.Step b s.kernel e k') : Step b s (.ev e) ⟨k', s.up⟩
  | initTick {s : Timed} {c : Cpu} (h : s.up c = false) :
      Step b s (.initTick c) ⟨{ s.kernel with ticks := 0 }, Function.update s.up c true⟩

/-- The ticks that CPU `c` has taken. -/
def ticksOn (c : Cpu) (es : List TimedEvent) : Nat :=
  es.countP fun
    | .ev (.tick c') => c' = c
    | _ => false

section Claim

variable (R : Timed → TimedEvent → Timed → Prop) (s : Timed) (i : Slot) (deadline ms : Nat)

/-- The steps while the deadline is armed. -/
def WhileArmed : Timed → TimedEvent → Timed → Prop :=
  guarded R fun s _ => s.kernel.sched.ArmedAt i deadline

/-- The task is not made Ready (or Running, by the same tick) before `ms` periods have passed on
some CPU. -/
def NotEarly : Prop :=
  ∀ es s₁ e s₂, Run (WhileArmed R i deadline) s es s₁ → WhileArmed R i deadline s₁ e s₂ →
    (s₂.kernel.sched.stateIs i .ready = true ∨ s₂.kernel.sched.stateIs i .running = true) →
      ∃ c, ms ≤ ticksOn c (es ++ [e])

/-- Once every CPU that is up has taken one tick more than `ms`, the deadline is no longer armed. -/
def NotLate : Prop :=
  ∀ es s₁, Run (WhileArmed R i deadline) s es s₁ → s₁.kernel.sched.ArmedAt i deadline →
    ∃ c, s₁.up c = true ∧ ticksOn c es ≤ ms

end Claim

/-- The steps at which the counter is a clock: while a task sleeps, only the CPU that ticks is up
and none comes up; the counter is not about to wrap when a sleep begins. -/
def OneClock (s : Timed) : TimedEvent → Prop
  | .ev (.tick c) => s.kernel.sched.Sleeper → ∀ c', s.up c' = true → c' = c
  | .ev (.syscall _ call) => call.isSleep = true → s.kernel.ticks + 60000 < 2 ^ 64
  | .ev _ => True
  | .initTick _ => ¬ s.kernel.sched.Sleeper

/-- The hint is good, and there is one clock. -/
def Ok (s : Timed) : TimedEvent → Prop
  | .ev e => Kernel.HintOk s.kernel e ∧ OneClock s (.ev e)
  | .initTick c => OneClock s (.initTick c)

end Timed

/-! ## What a step does to a deadline -/

section Table

variable {s : Scheduler} {i : Slot} {deadline : Nat}

section

variable (h : s.ArmedAt i deadline)

include h

theorem Scheduler.ArmedAt.unique {deadline' : Nat} (h' : s.ArmedAt i deadline') :
    deadline = deadline' := by
  obtain ⟨t, ht, rfl⟩ := h
  obtain ⟨t', ht', rfl⟩ := h'
  cases ht.symm.trans ht'
  rfl

/-- A write elsewhere, or one that keeps the deadline. -/
theorem Scheduler.ArmedAt.modify {j : Slot} {f : Task → Task}
    (hf : i ≠ j ∨ ∀ t, (f t).sleepDeadline = t.sleepDeadline) :
    (s.modify j f).ArmedAt i deadline := by
  obtain ⟨t, ht, hd⟩ := h
  rcases eq_or_ne i j with rfl | hij
  · have hkeep := hf.resolve_left (not_not.mpr rfl)
    exact ⟨f t, by rw [modify_tasks_same, ht]; rfl, (hkeep t).trans hd⟩
  · exact ⟨t, by rw [modify_tasks_ne s f hij, ht], hd⟩

theorem Scheduler.ArmedAt.keep (j : Slot) {f : Task → Task}
    (hf : ∀ t, (f t).sleepDeadline = t.sleepDeadline) : (s.modify j f).ArmedAt i deadline :=
  h.modify (Or.inr hf)

theorem Scheduler.ArmedAt.setState (j : Slot) (st : TaskState) :
    (s.setState j st).ArmedAt i deadline :=
  h.keep j fun _ => rfl

end

theorem untouched_sleepDeadline : Untouched Task.sleepDeadline :=
  ⟨fun _ _ => rfl, fun _ => rfl, fun _ _ _ => rfl, fun _ _ => rfl, fun _ => rfl, fun _ _ _ => rfl⟩

section

variable (h : s.ArmedAt i deadline)

include h

/-- A table with the same deadlines. -/
theorem Scheduler.ArmedAt.congr {s' : Scheduler}
    (hs : (s'.tasks i).map Task.sleepDeadline = (s.tasks i).map Task.sleepDeadline) :
    s'.ArmedAt i deadline := by
  obtain ⟨t, ht, hd⟩ := h
  rw [ht] at hs
  obtain ⟨t', ht', hd'⟩ := Option.map_eq_some_iff.mp hs
  exact ⟨t', ht', hd'.trans hd⟩

theorem Scheduler.ArmedAt.sysSend (me : Slot) (dst : UInt32) (msg : Message) :
    (Tanix.sysSend s me dst msg).sched.ArmedAt i deadline :=
  h.congr (untouched_sleepDeadline.map_sysSend s me dst msg i)

theorem Scheduler.ArmedAt.sysReceive (me : Slot) (filter : Int32) (out : Nat) :
    (Tanix.sysReceive s me filter out).sched.ArmedAt i deadline :=
  h.congr (untouched_sleepDeadline.map_sysReceive s me filter out i)

end

/-- The caller of `sys_sleep` after the switch: armed, and Blocked unless it is picked itself. -/
theorem armed_sleepUntil {t : Task} (ht : s.tasks i = some t) (deadline : Nat) (ctx : Context)
    (next : Slot) :
    (((s.modify i (Task.sleepUntil deadline)).modify i (Task.saveCtx ctx)).setState next
      .running).ArmedAt i deadline ∧
    ((((s.modify i (Task.sleepUntil deadline)).modify i (Task.saveCtx ctx)).setState next
      .running).stateIs i .blocked = true ∨
    (((s.modify i (Task.sleepUntil deadline)).modify i (Task.saveCtx ctx)).setState next
      .running).stateIs i .running = true) := by
  have hrow : ((s.modify i (Task.sleepUntil deadline)).modify i (Task.saveCtx ctx)).tasks i
      = some ((t.sleepUntil deadline).saveCtx ctx) := by
    rw [modify_tasks_same, modify_tasks_same, ht]
    rfl
  refine ⟨ArmedAt.setState ⟨_, hrow, rfl⟩ next _, ?_⟩
  rcases eq_or_ne i next with rfl | hne
  · exact Or.inr (stateIs_setState_same hrow _ _)
  · refine Or.inl ((stateIs_setState_ne _ _ _ hne).trans ?_)
    rw [stateIs, hrow]
    rfl

/-- `wake_sleepers` clears the deadlines that have passed, of every slot but slot 0. -/
theorem Scheduler.ArmedAt.wakeSleepers (h : s.ArmedAt i deadline) (hi : i ≠ 0) (now : Nat) :
    (s.wakeSleepers now).1.ArmedAt i (if deadline ≤ now then 0 else deadline) := by
  obtain ⟨t, ht, rfl⟩ := h
  refine ⟨t.woken now i, by rw [wakeSleepers_tasks, ht]; rfl, ?_⟩
  rw [Task.woken, Task.expired]
  split
  · rename_i hexp
    simp only [Bool.and_eq_true, decide_eq_true_eq] at hexp
    rw [if_pos hexp.2.2]
    rfl
  · rename_i hexp
    split
    · rename_i hle
      by_contra hne
      exact hexp ⟨hi, by simpa using ⟨hne, hle⟩⟩
    · rfl

end Table

namespace Kernel

/-- The deadline of slot `i` and the tick counter. -/
def Clock (i : Slot) (deadline now : Nat) (k : Kernel) : Prop :=
  k.sched.ArmedAt i deadline ∧ k.ticks = now

theorem switching_clock (i : Slot) (deadline now : Nat) : Switching (Clock i deadline now) where
  cpus := fun _ _ h => h
  pending := fun _ _ h => h
  hint := fun _ _ h => h
  state := fun _ j st _ h => ⟨h.1.setState j st, h.2⟩
  ctx := fun _ j _ h => ⟨h.1.keep j fun _ => rfl, h.2⟩
  irqWait := fun _ j _ h => ⟨h.1.keep j fun _ => rfl, h.2⟩

section Step

variable {b : Board} {k k' : Kernel} {c : Cpu} {call : Call} {i : Slot} {deadline now : Nat}

theorem Clock.kills (h : Clock i deadline now k) {id : UInt32} {j : Slot}
    (hk : Kills b k c id j k') : Clock i deadline now k' := by
  cases hk with
  | freed | kept => exact ⟨h.1.keep j fun _ => rfl, h.2⟩

theorem Clock.spawns (h : Clock i deadline now k) {name : String} (hs : Spawns b k name k') :
    Clock i deadline now k' := by
  cases hs with
  | refused => exact h
  | spawned ram j ttbr0 bootPage rs hj =>
    obtain ⟨⟨u, hu, hd⟩, hnow⟩ := h
    have hij : i ≠ j := by
      rintro rfl
      cases (freeSlot_some hj).2.symm.trans hu
    exact ⟨⟨u, (spawnedAt_tasks_ne _ _ hij).trans hu, hd⟩, hnow⟩

theorem Clock.body (h : Clock i deadline now k) (hk : Scheduled k) (hb : Body b k c call k') :
    Clock i deadline now k' := by
  cases hb.does with
  | quiet => exact h
  | send dst msg => exact ⟨h.1.sysSend _ dst msg, h.2⟩
  | receive filter out => exact ⟨h.1.sysReceive _ filter out, h.2⟩
  | regions => exact ⟨h.1.keep _ fun _ => rfl, h.2⟩
  | kills _ _ _ _ hkill => exact h.kills hkill
  | spawns _ _ _ _ _ hs => exact h.spawns (spawnByName_ok hk.sound.freshId hs)
  | respawns _ _ _ _ _ hkill hs =>
    exact (h.kills hkill).spawns (spawnByName_ok (hk.of_kills hkill).sound.freshId hs)

/-- A slot with a deadline armed is a user slot that no CPU runs. -/
theorem Scheduled.armed (h : Scheduled k) (hd : deadline ≠ 0) (ha : k.sched.ArmedAt i deadline) :
    i ≠ 0 ∧ (∀ c, i ≠ k.cur c) ∧ AtRest k.sched i .sleep := by
  obtain ⟨t, ht, hdl⟩ := ha
  have hw : Waits k.sched i .sleep := ⟨t, ht, by simpa [Task.waitsOn, hdl] using hd⟩
  obtain ⟨hu, hrest, hquiet⟩ := h.sound.waits i .sleep hw
  exact ⟨hu.ne_zero, fun c hc => hquiet c (congrArg some hc.symm), hrest⟩

/-- A task with a deadline armed is neither Ready nor Running. -/
theorem Scheduled.not_awake (h : Scheduled k) (hd : deadline ≠ 0)
    (ha : k.sched.ArmedAt i deadline) {st : TaskState} (hst : k.sched.stateIs i st = true) :
    st = .blocked ∨ st = .zombie := by
  obtain ⟨t, ht, rfl⟩ := stateIs_iff.mp hst
  rcases (h.armed hd ha).2.2 with hb | ⟨hz, _⟩
  · exact Or.inl (state_of_stateIs ht hb)
  · exact Or.inr (state_of_stateIs ht hz)

/-- No step but a tick touches a deadline that is armed, or the counter. -/
theorem Scheduled.clock_step (h : Scheduled k) (hd : deadline ≠ 0)
    (ha : k.sched.ArmedAt i deadline) {e : Event} (he : ∀ c, e ≠ .tick c) (hs : Step b k e k') :
    Clock i deadline k.ticks k' := by
  obtain ⟨_, hquiet, _⟩ := h.armed hd ha
  have hk : Clock i deadline k.ticks k := ⟨ha, rfl⟩
  refine switching_step (switching_clock i deadline k.ticks)
    ⟨fun _ _ => hk, fun c hc => absurd hc (he c), ?_, ?_, ?_, ?_, fun _ _ _ => hk⟩ hs
  · intro c _
    exact ⟨ha.modify (Or.inl (hquiet c)), rfl⟩
  · intro c call k₁ _ hb
    exact hk.body h hb
  · intro c call k₁ pc _ hp
    cases hp with
    | send dst msg => exact ⟨ha.sysSend _ dst msg, rfl⟩
    | receive filter out => exact ⟨ha.sysReceive _ filter out, rfl⟩
    | sleep ms => exact ⟨ha.modify (Or.inl (hquiet c)), rfl⟩
    | exit => exact ⟨ha.setState _ _, rfl⟩
  · intro c _ _
    exact ⟨ha.keep _ fun _ => rfl, rfl⟩

/-- A tick counts, and clears the deadlines that have passed. -/
theorem Scheduled.clock_tick (h : Scheduled k) (hd : deadline ≠ 0)
    (ha : k.sched.ArmedAt i deadline) (hs : Step b k (.tick c) k') :
    Clock i (if deadline ≤ k.ticks + 1 then 0 else deadline) (k.ticks + 1) k' := by
  obtain ⟨hi, _, _⟩ := h.armed hd ha
  refine switching_step (switching_clock i _ _) ⟨fun _ hno => absurd rfl (hno c), ?_, ?_, ?_, ?_, ?_, ?_⟩ hs
  · intro c' _
    exact ⟨ha.wakeSleepers hi _, rfl⟩
  · intro c' he
    cases he
  · intro c' call k₁ he
    cases he
  · intro c' call k₁ pc he
    cases he
  · intro c' ram hf
    exact hf.elim
  · intro c' ram hr
    exact hr.elim

end Step

end Kernel

/-! ## Runs -/

namespace Timed

theorem ticksOn_append (c : Cpu) (es es' : List TimedEvent) :
    ticksOn c (es ++ es') = ticksOn c es + ticksOn c es' :=
  List.countP_append

theorem ticksOn_cons_tick (c : Cpu) (es : List TimedEvent) :
    ticksOn c (.ev (.tick c) :: es) = ticksOn c es + 1 := by
  simp [ticksOn]

theorem ticksOn_cons_of_ne (c : Cpu) {e : TimedEvent} (he : ∀ c', e ≠ .ev (.tick c'))
    (es : List TimedEvent) : ticksOn c (e :: es) = ticksOn c es := by
  refine List.countP_cons_of_neg ?_
  cases e with
  | initTick => simp
  | ev e =>
    cases e with
    | tick c' => exact absurd rfl (he c')
    | enter | idle | syscall | abort | fault | irq | wake | restore => simp

/-- What holds at the beginning of a sleep, and as long as it lasts: the counter has not reached the
deadline, and only the CPU of the sleeper is up. -/
structure Asleep (i : Slot) (deadline : Nat) (c : Cpu) (s : Timed) : Prop where
  sched : Kernel.Scheduled s.kernel
  clock : s.kernel.ticks < deadline
  up : s.up c = true

variable {b : Board} {s s' : Timed} {e : TimedEvent} {i : Slot} {deadline : Nat} {c : Cpu}

theorem scheduled_step (h : Kernel.Scheduled s.kernel) (hok : Ok s e) (hs : Step b s e s') :
    Kernel.Scheduled s'.kernel := by
  cases hs with
  | ev hup hk => exact h.step hok.1 hk
  | initTick hc => exact { h with }

/-- A step during a sleep: a tick of the CPU of the sleeper, or one that does not touch the clock. -/
theorem Asleep.step (h : Asleep i deadline c s) (ha : s.kernel.sched.ArmedAt i deadline)
    (hok : Ok s e) (hs : Step b s e s') :
    (e = .ev (.tick c) ∧ s'.up = s.up ∧ Kernel.Clock i
      (if deadline ≤ s.kernel.ticks + 1 then 0 else deadline) (s.kernel.ticks + 1) s'.kernel) ∨
    ((∀ c', e ≠ .ev (.tick c')) ∧ s'.up = s.up ∧
      Kernel.Clock i deadline s.kernel.ticks s'.kernel) := by
  have hd : deadline ≠ 0 := fun h0 => absurd h.clock (by omega)
  have hsleeper : s.kernel.sched.Sleeper := by
    obtain ⟨t, ht, hdl⟩ := ha
    exact ⟨i, by simpa [ht, hdl] using hd⟩
  cases hs with
  | ev hup hk =>
    rename_i e k'
    by_cases he : ∃ c', e = .tick c'
    · obtain ⟨c', rfl⟩ := he
      have hcc : c = c' := hok.2 hsleeper c h.up
      subst hcc
      exact Or.inl ⟨rfl, rfl, h.sched.clock_tick hd ha hk⟩
    · have hne : ∀ c', e ≠ .tick c' := fun c' hc' => he ⟨c', hc'⟩
      refine Or.inr ⟨fun c' hc' => hne c' (TimedEvent.ev.inj hc'), rfl, ?_⟩
      exact h.sched.clock_step hd ha hne hk
  | initTick hc => exact absurd hsleeper hok

/-- The next state of a sleep that goes on. -/
theorem Asleep.next (h : Asleep i deadline c s) (ha : s.kernel.sched.ArmedAt i deadline)
    (hok : Ok s e) (hs : Step b s e s') (ha' : s'.kernel.sched.ArmedAt i deadline) :
    Asleep i deadline c s' ∧ s'.kernel.ticks = s.kernel.ticks + ticksOn c [e] := by
  have hsched := scheduled_step h.sched hok hs
  have hclock := h.clock
  rcases h.step ha hok hs with ⟨rfl, hup, hd, ht⟩ | ⟨hne, hup, -, ht⟩
  · have hlate : ¬ deadline ≤ s.kernel.ticks + 1 := by
      intro hle
      rw [if_pos hle] at hd
      have := hd.unique ha'
      omega
    exact ⟨⟨hsched, by omega, hup ▸ h.up⟩, ht.trans (by rw [ticksOn_cons_tick]; rfl)⟩
  · exact ⟨⟨hsched, by omega, hup ▸ h.up⟩, ht.trans (by rw [ticksOn_cons_of_ne c hne]; rfl)⟩

/-- While the deadline is armed, the counter counts the ticks of the CPU of the sleeper. -/
theorem Asleep.run (h : Asleep i deadline c s) {es : List TimedEvent}
    (hrun : Run (WhileArmed (guarded (Step b) Ok) i deadline) s es s')
    (ha : s'.kernel.sched.ArmedAt i deadline) :
    Asleep i deadline c s' ∧ s'.kernel.ticks = s.kernel.ticks + ticksOn c es := by
  induction hrun with
  | nil s => exact ⟨h, rfl⟩
  | cons hstep hrest ih =>
    obtain ⟨harmed, hok, hs⟩ := hstep
    obtain ⟨h₁, ht₁⟩ := h.next harmed hok hs (by cases hrest with
      | nil => exact ha
      | cons hstep _ => exact hstep.1)
    obtain ⟨h', ht'⟩ := ih h₁ ha
    refine ⟨h', ?_⟩
    rw [ht', ht₁, Nat.add_assoc, ← ticksOn_append]
    rfl

/-- The call that begins a sleep leaves its caller Blocked, with the deadline armed. -/
theorem sleep_call {ms : UInt32} (h : Kernel.Scheduled s.kernel)
    (hok : Ok s (.ev (.syscall c (.sleep ms)))) (hs : Step b s (.ev (.syscall c (.sleep ms))) s') :
    s'.kernel.sched.ArmedAt (s.kernel.cur c) (s.kernel.sleepDeadline ms) ∧
      s'.kernel.sched.stateIs (s.kernel.cur c) .blocked = true ∧
      s'.kernel.ticks = s.kernel.ticks ∧ s'.up c = true := by
  have hsched := scheduled_step h hok hs
  cases hs with
  | ev hup hk =>
    rename_i k'
    obtain ⟨o, ho, rfl⟩ := hk
    simp only [Kernel.critical] at ho
    split at ho
    swap
    · cases ho
    obtain rfl := Except.ok.inj (Option.some.inj ho)
    obtain ⟨t, ht⟩ := h.sound.present c (s.kernel.cur c) rfl
    obtain ⟨harmed, hstate⟩ := armed_sleepUntil ht (s.kernel.sleepDeadline ms)
      ⟨.sleep, (s.kernel.cpus c).ttbr0⟩ ((s.kernel.sched.modify (s.kernel.cur c)
        (Task.sleepUntil (s.kernel.sleepDeadline ms))).pickNext c (s.kernel.cur c))
    refine ⟨harmed, ?_, rfl, hup⟩
    rcases hstate with hb | hrun
    · exact hb
    · -- armed, it is at rest, so it is not the task that the CPU goes on with
      have hno := hsched.not_awake (Kernel.sleepDeadline_ne_zero _ ms) harmed hrun
      simp at hno

/-- The step as a function. -/
def next (b : Board) (s : Timed) : TimedEvent → Option Timed
  | .ev e => if s.up e.cpu then (s.kernel.next b e).map (⟨·, s.up⟩) else none
  | .initTick c =>
    if s.up c then none
    else some ⟨{ s.kernel with ticks := 0 }, Function.update s.up c true⟩

theorem next_step (h : s.next b e = some s') : Step b s e s' := by
  cases e with
  | ev e =>
    obtain ⟨hup, h⟩ := Option.ite_none_right_eq_some.mp h
    obtain ⟨k', hk, rfl⟩ := Option.map_eq_some_iff.mp h
    exact .ev hup (Kernel.step_iff_next.mpr hk)
  | initTick c =>
    obtain ⟨hup, h⟩ := Option.ite_none_left_eq_some.mp h
    cases h
    exact .initTick (Bool.eq_false_iff.mpr hup)

def armed (s : Timed) (i : Slot) (deadline : Nat) : Bool :=
  (s.kernel.sched.tasks i).any fun t => t.sleepDeadline == deadline

theorem armed_iff : s.armed i deadline = true ↔ s.kernel.sched.ArmedAt i deadline := by
  rw [armed, Option.any_eq_true]
  simp [ArmedAt]

/-- The step function, for the steps while the deadline is armed. -/
def nextArmed (b : Board) (i : Slot) (deadline : Nat) (s : Timed) (e : TimedEvent) : Option Timed :=
  if s.armed i deadline then s.next b e else none

theorem nextArmed_step (h : s.nextArmed b i deadline e = some s') :
    WhileArmed (Step b) i deadline s e s' := by
  obtain ⟨ha, h⟩ := Option.ite_none_right_eq_some.mp h
  exact ⟨armed_iff.mp ha, next_step h⟩

instance (s : Scheduler) : Decidable s.Sleeper :=
  inferInstanceAs (Decidable (∃ i, (s.tasks i).any (fun t => t.sleepDeadline != 0) = true))

instance (s : Timed) : DecidablePred (OneClock s)
  | .ev (.tick c) =>
    inferInstanceAs (Decidable (s.kernel.sched.Sleeper → ∀ c', s.up c' = true → c' = c))
  | .ev (.syscall _ call) =>
    inferInstanceAs (Decidable (call.isSleep = true → s.kernel.ticks + 60000 < 2 ^ 64))
  | .ev .enter | .ev (.idle _) | .ev (.abort _ _ _) | .ev (.fault _) | .ev (.irq _ _) | .ev (.wake _)
  | .ev (.restore _) => .isTrue trivial
  | .initTick _ => inferInstanceAs (Decidable (¬ s.kernel.sched.Sleeper))

instance (s : Timed) : DecidablePred (Ok s)
  | .ev e => inferInstanceAs (Decidable (Kernel.HintOk s.kernel e ∧ OneClock s (.ev e)))
  | .initTick c => inferInstanceAs (Decidable (OneClock s (.initTick c)))

/-- The state after boot with CPU 0 up, and with CPUs 0 and 1 up. -/
def oneCpu : Timed := ⟨Kernel.sbsaBoot, fun c => c == 0⟩

def twoCpus : Timed := ⟨Kernel.sbsaBoot, fun c => c == 0 || c == 1⟩

end Timed

end Tanix
