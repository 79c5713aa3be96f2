/-
# `Tanix.Kernel.Absorbing` — when the dead stay dead

Nothing in the kernel compares the old state before it writes a new one, apart
from the two release paths of `sys_receive`.  A Zombie is revived

    by `wake_sleepers`       when it was killed with a deadline armed
    by its own next call     when it was killed while it ran (`send`, `receive` and
                             `sleep` block it, the syscall tail makes it Ready)
    by a switch to idle      when the boot or an idle context was killed
    by a stale wake hint     as in `Tanix.Kernel.Exclusive`

`NoRevival` excludes exactly these, step by step, and `zombie_absorbing` shows that
nothing else revives: along every run of such steps a Zombie stays one, and so
does the task that a step kills.  `killed_sleeper_runs_again` is a task killed
in its sleep that the next tick makes Ready.
-/
import Tanix.Kernel.Exclusive

namespace Tanix

open Scheduler LTS

/-! ## The table -/

/-- The Zombies of `s` are Zombies in `s'`. -/
def Stays (s s' : Scheduler) : Prop :=
  ∀ i, s.stateIs i .zombie = true → s'.stateIs i .zombie = true

variable {i me : Slot} {now out : Nat}

section Table

variable {s s' s'' : Scheduler}

theorem Stays.refl (s : Scheduler) : Stays s s :=
  fun _ hz => hz

theorem Stays.trans (h : Stays s s') (h' : Stays s' s'') : Stays s s'' :=
  fun i hz => h' i (h i hz)

theorem stays_modify {k : Slot} {f : Task → Task}
    (hf : ∀ t, s.tasks k = some t → t.state = .zombie → (f t).state = .zombie) :
    Stays s (s.modify k f) := by
  intro i hz
  obtain ⟨t, ht, hst⟩ := stateIs_iff.mp hz
  rcases eq_or_ne i k with rfl | hik
  · rw [stateIs_modify_same ht, hf t ht hst]
    rfl
  · rw [stateIs_modify_ne s f _ hik]
    exact hz

/-- A write that keeps the state. -/
theorem stays_keep (s : Scheduler) (k : Slot) {f : Task → Task} (hf : ∀ t, (f t).state = t.state) :
    Stays s (s.modify k f) :=
  stays_modify fun t _ hst => (hf t).trans hst

theorem not_zombie {k : Slot} (hk : s.stateIs k .zombie = false) {t : Task}
    (ht : s.tasks k = some t) : t.state ≠ .zombie := by
  intro hst
  rw [stateIs, ht] at hk
  simp [hst] at hk

theorem alive_of_state {k : Slot} {st : TaskState} (h : s.stateIs k st = true) (hst : st ≠ .zombie) :
    s.stateIs k .zombie = false := by
  obtain ⟨t, ht, rfl⟩ := stateIs_iff.mp h
  rw [stateIs, ht]
  simpa using hst

/-- A write to a task that is alive. -/
theorem stays_alive {k : Slot} (hk : s.stateIs k .zombie = false) (f : Task → Task) :
    Stays s (s.modify k f) :=
  stays_modify fun _ ht hst => absurd hst (not_zombie hk ht)

theorem stays_spawnedAt (hi : s.tasks i = none) (t : Task) : Stays s (spawnedAt s i t) := by
  intro j hz
  obtain ⟨u, hu, hst⟩ := stateIs_iff.mp hz
  exact stateIs_iff.mpr ⟨u, spawnedAt_old hi t hu, hst⟩

/-- No Zombie has a deadline that has passed. -/
def NoneDue (s : Scheduler) (now : Nat) : Prop :=
  ∀ i, (s.tasks i).all (fun t => !(t.state == .zombie && t.expired now)) = true

theorem stays_wakeSleepers (h : NoneDue s now) : Stays s (s.wakeSleepers now).1 := by
  intro i hz
  obtain ⟨t, ht, hst⟩ := stateIs_iff.mp hz
  refine stateIs_iff.mpr ⟨t.woken now i, by rw [wakeSleepers_tasks, ht]; rfl, ?_⟩
  rw [Task.woken, if_neg]
  · exact hst
  · rintro ⟨-, he⟩
    have hi := h i
    rw [ht] at hi
    simp [hst, he] at hi

/-- Every slot keeps its state, or a task that is alive becomes Ready. -/
def Wakes (s s' : Scheduler) : Prop :=
  ∀ i, (∀ st, s'.stateIs i st = s.stateIs i st) ∨
    (s.stateIs i .zombie = false ∧ s'.stateIs i .ready = true)

theorem Wakes.refl (s : Scheduler) : Wakes s s :=
  fun _ => Or.inl fun _ => rfl

theorem Wakes.stays (h : Wakes s s') : Stays s s' := by
  intro i hz
  rcases h i with hsame | ⟨hlive, -⟩
  · rw [hsame]
    exact hz
  · exact absurd (hz.symm.trans hlive) (by decide)

theorem Wakes.alive (h : Wakes s s') (hi : s.stateIs i .zombie = false) :
    s'.stateIs i .zombie = false := by
  rcases h i with hsame | ⟨-, hready⟩
  · rw [hsame]
    exact hi
  · exact alive_of_state hready (by decide)

theorem wakes_modify {k : Slot} {t : Task} (ht : s.tasks k = some t) (hlive : t.state ≠ .zombie)
    {f : Task → Task} (hf : (f t).state = .ready) : Wakes s (s.modify k f) := by
  intro i
  rcases eq_or_ne i k with rfl | hik
  · refine Or.inr ⟨?_, by rw [stateIs_modify_same ht, hf]; rfl⟩
    rw [stateIs, ht]
    simpa using hlive
  · exact Or.inl fun st => stateIs_modify_ne s f st hik

theorem wakes_releaseSender (s : Scheduler) (src : UInt32) : Wakes s (releaseSender s src) := by
  unfold releaseSender
  split
  · exact .refl s
  · rename_i j hj
    split
    · exact .refl s
    · rename_i hz
      obtain ⟨t, ht, -⟩ := taskIdx_some hj
      exact wakes_modify ht (not_zombie (Bool.not_eq_true _ ▸ hz) ht) rfl

/-- A call that returns wakes one task at most.  A task in receive is Blocked: death takes it out
of receive. -/
theorem Sound.wakes_sysSend {cur : Cpu → Option Slot} (h : Sound s cur) {dst : UInt32}
    {msg : Message} {r : Int32} (hr : (sysSend s me dst msg).ret = some r) :
    Wakes s (sysSend s me dst msg).sched := by
  have hstep := sysSend_step s me dst msg
  generalize sysSend s me dst msg = o at hstep hr ⊢
  cases hstep with
  | self | noTask => exact .refl s
  | rendezvous d t _ _ ht _ hrecv _ =>
    refine wakes_modify (f := Task.delivered) ht (fun hst => ?_) rfl
    rcases (h.waits d .recv ⟨t, ht, hrecv⟩).2.1 with hb | ⟨-, hne⟩
    · cases hst.symm.trans (state_of_stateIs ht hb)
    · exact absurd rfl hne
  | queued | staged => cases hr

theorem wakes_sysReceive {t : Task} (ht : s.tasks me = some t) {filter : Int32} {r : Int32}
    (hr : (sysReceive s me filter out).ret = some r) :
    Wakes s (sysReceive s me filter out).sched := by
  have hstep := sysReceive_step ht filter out
  generalize sysReceive s me filter out = o at hstep hr ⊢
  cases hstep with
  | parked q p =>
    have hkeep := fun i => stateIs_modify_keep s me i (f := (·.park q none)) fun _ => rfl
    have hwakes := wakes_releaseSender (s.modify me (·.park q none)) p.src
    simp only [Wakes, hkeep] at hwakes
    exact hwakes
  | unstaged j u st hu _ _ _ hz => exact wakes_modify (f := Task.unstage) hu hz rfl
  | block => cases hr

end Table

/-- A call that leaves the state of its caller alone, or makes it a Zombie. -/
def Call.sparesCaller : Call → Bool
  | .yield | .waitIrq _ | .exit => true
  | _ => false

theorem Call.sparesCaller_hasTail {call : Call} (h : call.sparesCaller = true) :
    call.hasTail = false := by
  cases call <;> first | rfl | cases h

namespace Kernel

/-! ## The condition -/

/-- Neither the boot context nor an idle context has been killed. -/
def IdleAlive (s : Scheduler) : Prop :=
  ∀ j, s.stateIs (idleSlot j) .zombie = false

/-- What the event must not do: wake a Zombie, be a call of a Zombie that writes its state, or be a
call that kills its caller. -/
def Harmless (k : Kernel) : Event → Prop
  | .tick _ => NoneDue k.sched (k.ticks + 1)
  | .syscall c call =>
    (k.sched.stateIs (k.cur c) .zombie = true → call.sparesCaller = true) ∧
      call.victim k.sched ≠ some (k.sched.idAt (k.cur c))
  | _ => True

structure NoRevival (k : Kernel) (e : Event) : Prop where
  hint : HintOk k e
  idle : IdleAlive k.sched
  harmless : Harmless k e

/-! ## Decisions -/

/-- The decision is taken on table `s` and revives nobody. -/
def Buries (s : Scheduler) : Outcome → Prop
  | .stay k => Stays s k.sched
  | .switch k _ next _ => Stays s k.sched ∧ k.sched.stateIs next .zombie = false

variable {s s' : Scheduler} {o : Outcome}

theorem Buries.apply {c : Cpu} (h : Buries s o) : Stays s (apply c o).sched := by
  cases o with
  | stay k => exact h
  | switch k frm next pc =>
    obtain ⟨hs, hn⟩ := h
    have hsave := stays_keep k.sched frm (f := Task.saveCtx ⟨pc, (k.cpus c).ttbr0⟩) fun _ => rfl
    refine hs.trans (hsave.trans (stays_alive ?_ _))
    rw [stateIs_modify_keep k.sched frm next (f := Task.saveCtx _) fun _ => rfl]
    exact hn

theorem Buries.of_stays (hs : Stays s s') (h : Buries s' o) : Buries s o := by
  cases o with
  | stay k => exact hs.trans h
  | switch k frm next pc => exact ⟨hs.trans h.1, h.2⟩

/-- What a CPU may switch to is alive, when its idle context is. -/
theorem MaySwitch.alive {c : Cpu} {next : Slot} (h : MaySwitch s c next) (hidle : IdleAlive s) :
    s.stateIs next .zombie = false := by
  rcases h with rfl | ⟨-, hr⟩
  · exact hidle c
  · exact alive_of_state hr (by decide)

section Decisions

variable {k : Kernel} {c : Cpu}

theorem buries_switch {next : Slot} (h : MaySwitch k.sched c next) (hidle : IdleAlive k.sched) (frm : Slot)
    (pc : Resume) : Buries k.sched (.switch k frm next pc) :=
  ⟨Stays.refl _, MaySwitch.alive h hidle⟩

/-- The current task, alive, is made Ready on the way out. -/
theorem buries_switch_ready {next : Slot} (hcur : k.sched.stateIs (k.cur c) .zombie = false)
    (hn : k.sched.stateIs next .zombie = false) (hne : next ≠ k.cur c) (pc : Resume) :
    Buries k.sched
      (.switch { k with sched := k.sched.setState (k.cur c) .ready } (k.cur c) next pc) := by
  refine ⟨stays_alive hcur _, ?_⟩
  show Scheduler.stateIs (k.sched.setState (k.cur c) .ready) next .zombie = false
  rw [stateIs_setState_ne k.sched _ _ hne]
  exact hn

theorem Scheduled.buries_switchBest (h : Scheduled k) (hidle : IdleAlive k.sched) (strict : Bool)
    (pc : Resume) : Buries k.sched (k.switchBest c strict pc) := by
  rcases switchBest_cases k c strict pc with he | ⟨next, hnext, -, hrun, hne, he⟩ <;> rw [he]
  · exact Stays.refl _
  · have hn : MaySwitch k.sched c next := by
      rcases hnext with ⟨-, rfl⟩ | ⟨-, rfl⟩
      · exact h.sound.maySwitch_pickNext c _
      · exact h.sound.maySwitch_pickNextRr c _ _
    exact buries_switch_ready (alive_of_state hrun (by decide)) (MaySwitch.alive hn hidle) hne pc

theorem Scheduled.buries_tickPreempt (h : Scheduled k) (hidle : IdleAlive k.sched)
    (hdue : NoneDue k.sched k.ticks) (fromEl0 : Bool) (pc : Resume) :
    Buries k.sched (k.tickPreempt c fromEl0 pc) := by
  -- waking makes nobody a Zombie
  have hidle' : IdleAlive k.woken.sched := fun j => Bool.eq_false_iff.mpr fun hz =>
    Bool.eq_false_iff.mp (hidle j) (stateIs_of_wakeSleepers (by decide) hz)
  refine Buries.of_stays (stays_wakeSleepers hdue) ?_
  rcases tickPreempt_cases k c fromEl0 pc with he | ⟨-, he⟩ | ⟨-, he⟩ <;> rw [he]
  · exact Stays.refl _
  · exact buries_switch (h.woken.sound.maySwitch_pickNext c _) hidle' _ pc
  · exact h.woken.buries_switchBest hidle' false pc

/-- `reschedule`, for a caller that is alive and a good hint. -/
theorem buries_reschedule (hg : GoodHint k.sched (k.cur c))
    (hcur : k.sched.stateIs (k.cur c) .zombie = false) (pc : Resume) :
    Buries k.sched (k.reschedule c pc) := by
  rcases reschedule_cases k c pc with he | he | ⟨w, hw, hlt, hne, he⟩ <;> rw [he]
  · exact Stays.refl _
  · exact Stays.refl _
  · have hwz := alive_of_state (hg w hw hlt) (by decide)
    exact buries_switch_ready (k := { k with sched := k.sched.takeWoken }) hcur hwz hne pc

theorem Scheduled.buries_enter (h : Scheduled k) (hidle : IdleAlive k.sched) :
    Buries k.sched k.enter := by
  rcases enter_cases k with he | he <;> rw [he]
  · exact Stays.refl _
  · exact buries_switch (h.sound.maySwitch_pickNext 0 _) hidle _ _

theorem Scheduled.buries_idleTurn (h : Scheduled k) (hidle : IdleAlive k.sched) (own : Cpu) :
    Buries k.sched (k.idleTurn c own) := by
  rcases idleTurn_cases k c own with he | ⟨hne, he⟩ <;> rw [he]
  · exact Stays.refl _
  · refine ⟨stays_alive (hidle own) _, ?_⟩
    show Scheduler.stateIs (k.sched.setState (idleSlot own) .ready) _ .zombie = false
    rw [stateIs_setState_ne k.sched _ _ hne]
    exact MaySwitch.alive (h.sound.maySwitch_pickNext own _) hidle

end Decisions

variable {i me : Slot}

/-! ## Calls -/

section Calls

variable {b : Board} {k k' : Kernel} {c : Cpu} {call : Call}

theorem stays_kills {id : UInt32} (hk : Kills b k c id i k') :
    Stays k.sched k'.sched ∧ k'.sched.stateIs i .zombie = true ∧
      ∀ j, j ≠ i → ∀ st, k'.sched.stateIs j st = k.sched.stateIs j st := by
  obtain ⟨t, ht, -⟩ := taskIdx_some hk.idx
  cases hk with
  | freed | kept =>
    refine ⟨stays_modify fun _ _ _ => rfl, ?_, fun j hj st => stateIs_modify_ne k.sched _ st hj⟩
    show Scheduler.stateIs (k.sched.modify i _) i .zombie = true
    rw [stateIs_modify_same ht]
    rfl

theorem stays_spawns {name : String} (hs : Spawns b k name k') :
    Stays k.sched k'.sched ∧ ∀ i t, k.sched.tasks i = some t →
      ∀ st, k'.sched.stateIs i st = k.sched.stateIs i st := by
  cases hs with
  | refused => exact ⟨Stays.refl _, fun _ _ _ _ => rfl⟩
  | spawned ram j ttbr0 bootPage rs hj =>
    obtain ⟨-, hnone⟩ := freeSlot_some hj
    refine ⟨stays_spawnedAt hnone _, fun i t ht st => ?_⟩
    show Scheduler.stateIs (spawnedAt k.sched j _) i st = _
    rw [stateIs, stateIs, spawnedAt_old hnone _ ht, ht]

/-- The body of a call revives nobody, kills its victim and leaves its caller alive. -/
structure Kept (k k' : Kernel) (c : Cpu) (call : Call) : Prop where
  stays : Stays k.sched k'.sched
  caller : k.sched.stateIs (k.cur c) .zombie = false →
    call.victim k.sched ≠ some (k.sched.idAt (k.cur c)) →
    k'.sched.stateIs (k.cur c) .zombie = false
  victim : ∀ id i, call.victim k.sched = some id → k.sched.taskIdx id = some i →
    k'.sched.stateIs i .zombie = true

theorem Kept.of_kills {id : UInt32} (hv : call.victim k.sched = some id)
    (hk : Kills b k c id i k') : Kept k k' c call := by
  obtain ⟨hst, hz, hother⟩ := stays_kills hk
  have hi := hk.idx
  refine ⟨hst, ?_, ?_⟩
  · intro hcur hself
    rw [hother]
    · exact hcur
    · rintro rfl
      obtain ⟨t, ht, hid⟩ := taskIdx_some hi
      exact hself (by rw [hv, idAt_eq ht, hid])
  · intro id' i' hv' hi'
    rw [hv] at hv'
    cases hv'
    rw [hi] at hi'
    cases hi'
    exact hz

/-- Nobody is killed, and the states change only from Blocked to Ready. -/
theorem Kept.of_no_victim (hno : ¬ Harms k call) (hst : Stays k.sched k'.sched)
    (hcaller : k.sched.stateIs (k.cur c) .zombie = false →
      k'.sched.stateIs (k.cur c) .zombie = false) : Kept k k' c call :=
  ⟨hst, fun h _ => hcaller h, fun id i hv hi => absurd ⟨id, i, hv, hi⟩ hno⟩

theorem Kept.of_wakes (hno : ¬ Harms k call) (h : Wakes k.sched k'.sched) : Kept k k' c call :=
  .of_no_victim hno h.stays h.alive

theorem Scheduled.kept (h : Scheduled k) (hb : Body b k c call k') : Kept k k' c call := by
  obtain ⟨me, hme⟩ := h.sound.present c (k.cur c) rfl
  cases hb.does with
  | quiet _ _ _ hno => exact .of_wakes hno (.refl _)
  | send dst msg r hr => exact .of_wakes (not_harms rfl) (h.sound.wakes_sysSend hr)
  | receive filter out r hr => exact .of_wakes (not_harms rfl) (wakes_sysReceive hme hr)
  | regions va pages rs =>
    exact .of_wakes (not_harms rfl) fun i => Or.inl (stateIs_modify_keep k.sched _ i fun _ => rfl)
  | kills _ id i hv hk => exact .of_kills hv hk
  | spawns _ name r _ hno hs =>
    obtain ⟨hst, hsame⟩ := stays_spawns (spawnByName_ok h.sound.freshId hs)
    refine .of_no_victim hno hst fun hcur => ?_
    rw [hsame (k.cur c) me hme]
    exact hcur
  | respawns name id i r hv hk hs =>
    have h₁ : Kept k _ c (.exec (some name)) := .of_kills hv hk
    have hs₁ := h.of_kills hk
    obtain ⟨hst, hsame⟩ := stays_spawns (spawnByName_ok hs₁.sound.freshId hs)
    obtain ⟨me₁, hme₁⟩ := hs₁.sound.present c (Kernel.cur _ c) rfl
    rw [cur, hk.cpus] at hme₁
    refine ⟨h₁.stays.trans hst, fun hz hself => ?_, fun id j hv hj => ?_⟩
    · rw [hsame (k.cur c) me₁ hme₁]
      exact h₁.caller hz hself
    · exact hst j (h₁.victim id j hv hj)

theorem Parks.stops {me : Task} (hme : k.sched.tasks (k.cur c) = some me) {pc : Resume}
    (hp : Parks k c call k' pc) : Stops k.sched k'.sched (k.cur c) := by
  cases hp with
  | send dst msg hr => exact sysSend_stops hr
  | receive filter out hr => exact sysReceive_stops hme hr
  | sleep | exit => exact stops_modify k.sched _ fun _ h => by cases h

theorem parks_stays {me : Task} (hme : k.sched.tasks (k.cur c) = some me) {pc : Resume}
    (hcaller : k.sched.stateIs (k.cur c) .zombie = true → call.sparesCaller = true)
    (hp : Parks k c call k' pc) : Stays k.sched k'.sched := by
  intro i hz
  rcases eq_or_ne i (k.cur c) with rfl | hi
  · have hspares := hcaller hz
    cases hp with
    | send | receive | sleep => cases hspares
    | exit =>
      show Scheduler.stateIs (k.sched.setState (k.cur c) .zombie) (k.cur c) .zombie = true
      rw [stateIs_setState_same hme]
      rfl
  · rw [(hp.stops hme).others i hi]
    exact hz

end Calls

/-! ## Steps -/

/-- Between `s` and `s'` nobody is revived, and neither is anybody that died on the way. -/
def Buried (k : Kernel) (e : Event) (s' : Scheduler) : Prop :=
  ∃ s₁, Stays k.sched s₁ ∧ (∀ i, Marks k e i → s₁.stateIs i .zombie = true) ∧ Stays s₁ s'

variable {e : Event}

section Steps

variable {b : Board} {k : Kernel}

/-- An event that kills nobody. -/
theorem Buries.buried (hm : ∀ i, ¬ Marks k e i) (h : Buries k.sched o) :
    Buried k e (Kernel.apply e.cpu o).sched :=
  ⟨k.sched, Stays.refl _, fun i hi => absurd hi (hm i), h.apply⟩

theorem idleAlive_of_state (hu : IsUser me) (h : IdleAlive s)
    (hst : ∀ i, i ≠ me → ∀ st, s'.stateIs i st = s.stateIs i st) : IdleAlive s' := by
  intro j
  rw [hst _ (hu j).symm]
  exact h j

theorem Scheduled.buried_performed (h : Scheduled k) {c : Cpu} {call : Call}
    (hu : IsUser (k.cur c)) (hn : NoRevival k (.syscall c call)) (hp : Performed b k c call o) :
    Buried k (.syscall c call) (Kernel.apply c o).sched := by
  obtain ⟨me, hme⟩ := h.sound.present c (k.cur c) rfl
  cases hp with
  | tail x hb =>
    rename_i k'
    have hok := hn.hint hb.hasTail
    have he := h.body hb fun w hw hlt => (hok w hw hlt).2
    have hk := h.kept hb
    have hcur : k'.cur c = k.cur c := congrArg (fun f => CpuState.current (f c)) he.cpus
    have halive : k.sched.stateIs (k.cur c) .zombie = false := by
      rw [← Bool.not_eq_true]
      intro hz
      have hno := Call.sparesCaller_hasTail (hn.harmless.1 hz)
      rw [hb.hasTail] at hno
      cases hno
    refine ⟨k'.sched, hk.stays, ?_, Buries.apply (buries_reschedule (k := k'.reply c x) ?_ ?_ (.tail x))⟩
    · rintro i (⟨rfl, -⟩ | ⟨id, hv, hi⟩)
      · exact absurd hb.hasTail (by decide)
      · exact hk.victim id i hv hi
    · rw [cur_reply, hcur]
      exact he.hinted.good fun w hw hlt => (hok w hw hlt).1
    · rw [cur_reply, hcur]
      exact hk.caller halive hn.harmless.2
  | park hp =>
    rename_i k' pc
    have hidle : IdleAlive k'.sched := idleAlive_of_state hu hn.idle (hp.stops hme).others
    have hsound : Sound k'.sched (Function.update k'.curs c none) := (h.parks hu hp).sound
    refine ⟨k'.sched, parks_stays hme hn.harmless.1 hp, ?_,
      Buries.apply (buries_switch (hsound.maySwitch_pickNext c _) hidle _ pc)⟩
    rintro i (⟨rfl, rfl⟩ | ⟨id, hv, -⟩)
    · cases hp
      show Scheduler.stateIs (k.sched.setState (k.cur c) .zombie) (k.cur c) .zombie = true
      rw [stateIs_setState_same hme]
      rfl
    · cases hp <;> cases hv
  | yield =>
    refine Buries.buried (o := (k.reply c 0).yieldCpu c) ?_ ?_
    · rintro i (⟨hc, -⟩ | ⟨id, hv, -⟩)
      · cases hc
      · cases hv
    · exact (h.reply hu 0).buries_switchBest hn.idle true _
  | answered irq pending x =>
    refine Buries.buried (o := .stay _) ?_ (Stays.refl _)
    rintro i (⟨hc, -⟩ | ⟨id, hv, -⟩)
    · cases hc
    · cases hv
  | waiting irq =>
    refine Buries.buried (o := .stay _) ?_
      (stays_keep k.sched _ (f := Task.setIrqWait (some irq)) fun _ => rfl)
    rintro i (⟨hc, -⟩ | ⟨id, hv, -⟩)
    · cases hc
    · cases hv

theorem Scheduled.buried_killFaulting (h : Scheduled k) {c : Cpu} (hu : IsUser (k.cur c))
    (hidle : IdleAlive k.sched) (ram : Ram) (hm : ∀ i, Marks k e i → i = k.cur c) :
    Buried k e (Kernel.apply c ({ k with ram := ram }.killFaultingTask c)).sched := by
  obtain ⟨me, hme⟩ := h.sound.present c (k.cur c) rfl
  have hidle' : IdleAlive (k.sched.modify (k.cur c) Task.faulted) :=
    idleAlive_of_state hu hidle fun i hi st => stateIs_modify_ne k.sched _ st hi
  have hlegal : Legal c ({ k with ram := ram }.killFaultingTask c) := h.killFaulting hu ram
  refine ⟨k.sched.modify (k.cur c) Task.faulted, stays_modify fun _ _ _ => rfl, ?_,
    Buries.apply ⟨Stays.refl _, MaySwitch.alive (LegalSwitch.target hlegal) hidle'⟩⟩
  intro i hi
  rw [hm i hi, stateIs_modify_same hme]
  rfl

theorem restore_stays {c : Cpu} {k' : Kernel} (hk : k.restore c = .ok k') :
    Stays k.sched k'.sched := by
  unfold Kernel.restore at hk
  split at hk
  · cases hk
  · simp only at hk
    split at hk <;> cases hk <;>
      first | exact Stays.refl _ | exact stays_keep k.sched _ (f := Task.clearDeadline) fun _ => rfl

theorem Scheduled.buried (h : Scheduled k) {k' : Kernel} (hn : NoRevival k e) (hs : Step b k e k') :
    Buried k e k'.sched := by
  obtain ⟨o, ho, rfl⟩ := hs
  have huser : ∀ c, (k.cpus c).mode = .user → IsUser (k.cur c) :=
    fun c hm => h.user c (by rw [hm]; rfl)
  cases Kernel.handled ho with
  | enter => exact Buries.buried (fun _ => id) (h.buries_enter hn.idle)
  | idle => exact Buries.buried (fun _ => id) (h.buries_idleTurn hn.idle _)
  | tick =>
    have h₁ : Scheduled { k with ticks := k.ticks + 1 } := { h with }
    exact Buries.buried (fun _ => id) (h₁.buries_tickPreempt hn.idle hn.harmless _ _)
  | syscall c call hm hp => exact h.buried_performed (huser c hm) hn hp
  | repaired c far esr ram hr =>
    refine Buries.buried (o := .stay _) (fun i hi => ?_) (Stays.refl _)
    rw [Marks, repairs, ← (Ram.resolveUserFault_ok hr.2).2] at hi
    cases hi.2
  | died c ram he hm hf =>
    subst he
    exact h.buried_killFaulting (huser _ hm) hn.idle ram fun _ => hf.marks_iff.mp
  | irq => exact Buries.buried (o := .stay _) (fun _ => id) (Stays.refl _)
  | wake =>
    exact Buries.buried (o := .stay _) (fun _ => id)
      (stays_keep k.sched _ (f := Task.setIrqWait none) fun _ => rfl)
  | restore c k₁ hr => exact Buries.buried (o := .stay _) (fun _ => id) (restore_stays hr)

end Steps

/-! ## Runs -/

/-- Along every run from boot of steps that meet the condition, whoever is a Zombie in a state
reached is one ever after, and so is whoever the next step kills. -/
theorem zombie_absorbing {b : Board} {n : Nat} {k₀ k : Kernel} {es : List Event} (hboot : Boot n k₀)
    (hrun : Run (guarded (Step b) NoRevival) k₀ es k) :
    (∀ es' k', Run (guarded (Step b) NoRevival) k es' k' → ∀ i,
      k.sched.stateIs i .zombie = true → k'.sched.stateIs i .zombie = true) ∧
    ∀ e k', NoRevival k e → Step b k e k' → ∀ i, Marks k e i →
      k'.sched.stateIs i .zombie = true := by
  have hstep : ∀ k e k', Scheduled k → NoRevival k e → Step b k e k' → Scheduled k' :=
    fun _ _ _ hk hn hs => hk.step hn.hint hs
  have hk : Scheduled k := hrun.invariant_guarded hstep hboot.scheduled
  constructor
  · intro es' k' hrun' i hz
    -- the invariant along the second run: scheduled, and slot `i` still a Zombie
    refine (hrun'.invariant_guarded (I := fun k => Scheduled k ∧ k.sched.stateIs i .zombie = true)
      ?_ ⟨hk, hz⟩).2
    rintro k₁ e k₂ ⟨hs, hz₁⟩ hn hst
    obtain ⟨s₁, hto, -, hfrom⟩ := hs.buried hn hst
    exact ⟨hstep k₁ e k₂ hs hn hst, hfrom i (hto i hz₁)⟩
  · intro e k' hn hst i hi
    obtain ⟨s₁, -, hmarks, hfrom⟩ := hk.buried hn hst
    exact hfrom i (hmarks i hi)

instance (k : Kernel) (e : Event) : Decidable (Harmless k e) :=
  match e with
  | .tick _ => inferInstanceAs (Decidable (∀ i, (k.sched.tasks i).all
      (fun t => !(t.state == .zombie && t.expired (k.ticks + 1))) = true))
  | .syscall c call => inferInstanceAs (Decidable
      ((k.sched.stateIs (k.cur c) .zombie = true → call.sparesCaller = true) ∧
        call.victim k.sched ≠ some (k.sched.idAt (k.cur c))))
  | .enter | .idle _ | .abort _ _ _ | .fault _ | .irq _ _ | .wake _ | .restore _ =>
    inferInstanceAs (Decidable True)

/-- The step function, for the steps that meet the condition. -/
def nextNoRevival (b : Board) (k : Kernel) (e : Event) : Option Kernel :=
  if HintOk k e ∧ (∀ j, k.sched.stateIs (idleSlot j) .zombie = false) ∧ Harmless k e then k.next b e
  else none

theorem nextNoRevival_step {b : Board} {k k' : Kernel} (h : k.nextNoRevival b e = some k') :
    guarded (Step b) NoRevival k e k' := by
  unfold nextNoRevival at h
  split at h
  · rename_i hc
    exact ⟨⟨hc.1, hc.2.1, hc.2.2⟩, step_iff_next.mpr h⟩
  · cases h

/-- `net` waits in receive and `ping` kills it; the ticks that follow do not wake it. -/
theorem zombie_absorbing_net : ∃ k k', Run (guarded (Step bareBoard) NoRevival) sbsaBoot
      (fourServers ++ [.restore 1, .syscall 1 (.exitTask 6)]) k ∧
    Run (guarded (Step bareBoard) NoRevival) k [.tick 0, .tick 1] k' ∧
    k.sched.stateIs 6 .zombie = true ∧ k'.sched.stateIs 6 .zombie = true := by
  obtain ⟨k, hrun, hz, hp⟩ := Run.exists_of_exec (nextNoRevival bareBoard) nextNoRevival_step sbsaBoot
    (fourServers ++ [.restore 1, .syscall 1 (.exitTask 6)])
    (fun k => k.sched.stateIs 6 .zombie ∧
      (exec (nextNoRevival bareBoard) k [.tick 0, .tick 1]).isSome) (by decide +kernel)
  obtain ⟨k', hk'⟩ := Option.isSome_iff_exists.mp hp
  have hrun' := Run.of_exec (fun _ _ _ => nextNoRevival_step) hk'
  exact ⟨k, k', hrun, hrun', hz, (zombie_absorbing boot_sbsaBoot hrun).1 _ k' hrun' 6 hz⟩

/-- `net` sleeps, `ping` kills it, and the next tick wakes it. -/
theorem killed_sleeper_runs_again : ¬ ∀ (b : Board) (n : Nat) (k₀ k k' : Kernel)
    (es es' : List Event), Boot n k₀ → Run (Step b) k₀ es k → Run (Step b) k es' k' →
    ∀ i, k.sched.stateIs i .zombie = true → k'.sched.stateIs i .zombie = true := by
  intro hall
  obtain ⟨k, hrun, hz, hp⟩ := Run.exists_of_exec (next bareBoard) step_iff_next.mpr sbsaBoot
    [.enter, .restore 0, .idle 1, .restore 1, .syscall 0 (.sleep 1), .syscall 1 (.exitTask 6)]
    (fun k => k.sched.stateIs 6 .zombie ∧
      (exec (next bareBoard) k [.tick 1]).any fun k' => decide (k'.sched.stateIs 6 .zombie = false))
    (by decide +kernel)
  obtain ⟨k', hrun', hno⟩ := Run.exists_of_exec (next bareBoard) step_iff_next.mpr _ _ _ hp
  rw [hall bareBoard 10 sbsaBoot k k' _ _ boot_sbsaBoot hrun hrun' 6 hz] at hno
  cases hno

end Kernel

end Tanix
