/-
# `Tanix.Kernel.Exclusive` — no slot on two CPUs

The machine starts where the boot code leaves it (`Boot`): servers freshly
spawned, waiting in receive or finished; a fresh idle slot for each secondary;
CPU 0 about to call `enter`, every secondary in its idle loop with slot 0 as
its current one.

`smp_exclusive`: along every run whose system calls find a good wake hint
(`HintOk`), no slot but slot 0 is current on two CPUs, and every switch goes to
the CPU's own idle slot or to a Ready slot that is current nowhere else.

The condition is needed.  `spawn_user` sets the wake hint, the boot code never
consumes it, and `reschedule` switches to the hinted task without looking at its
state.  In `stale_hint_shares_slot` the first system call of `hog` puts its CPU on
`fs`, which is Running on another CPU.
-/
import Tanix.Kernel.Boot

namespace Tanix

open Scheduler

namespace Kernel

variable {me i : Slot} {id : UInt32}

/-! ## Calls -/

section Calls

variable {b : Board} {k k' : Kernel} {c : Cpu} {call : Call}

/-- What the body of a call leaves for the syscall tail. -/
structure Ends (k k' : Kernel) (me : Slot) : Prop where
  cpus : k'.cpus = k.cpus
  sound : Sound k'.sched k.curs
  hinted : Hinted k.sched k'.sched me

theorem Ends.trans {k'' : Kernel} (h : Ends k k' me) (h' : Ends k' k'' me) : Ends k k'' me := by
  refine ⟨h'.cpus.trans h.cpus, ?_, h.hinted.trans h'.hinted⟩
  rw [← curs_eq h.cpus]
  exact h'.sound

theorem Scheduled.of_kills (h : Scheduled k) (hk : Kills b k c id i k') : Scheduled k' := by
  cases hk with
  | freed => exact ⟨h.sound.killed i true, h.user, h.hint⟩
  | kept => exact ⟨h.sound.killed i false, h.user, h.hint⟩

theorem Kills.cpus (hk : Kills b k c id i k') : k'.cpus = k.cpus := by
  cases hk <;> rfl

/-- A killed task is no worse a hint, unless it is the one hinted. -/
theorem Scheduled.kills (h : Scheduled k) (hk : Kills b k c id i k') (hsafe : ∀ w, k.sched.woken =
    some w → k.sched.prioAt w < k.sched.prioAt me → k.sched.idAt w ≠ id) : Ends k k' me := by
  have hi := hk.idx
  have hends : ∀ freed, Hinted k.sched (k.sched.modify i (Task.killed freed)) me := by
    intro freed
    refine Hinted.old rfl (prioAt_modify k.sched i fun _ => rfl) fun w hw hlt hr => ?_
    have hwi : w ≠ i := by
      rintro rfl
      obtain ⟨t, ht, hid⟩ := taskIdx_some hi
      exact hsafe w hw hlt (by rw [idAt_eq ht, hid])
    rw [stateIs_modify_ne k.sched _ _ hwi]
    exact hr
  cases hk with
  | freed => exact ⟨rfl, h.sound.killed i true, hends true⟩
  | kept => exact ⟨rfl, h.sound.killed i false, hends false⟩

theorem Scheduled.spawns (h : Scheduled k) {name : String} (hs : Spawns b k name k') :
    Ends k k' me := by
  cases hs with
  | refused => exact ⟨rfl, h.sound, Hinted.refl _ _⟩
  | spawned ram i ttbr0 bootPage rs hi =>
    obtain ⟨-, hnone⟩ := freeSlot_some hi
    have hborn := newborn_serverTask k.sched.nextId name ttbr0 (b.machine.serverLinkBase name)
      bootPage rs
    refine ⟨rfl, h.sound.spawned hnone rfl hborn,
      Hinted.new (w := i) rfl (h.sound.isUser_of_empty hnone) ?_⟩
    exact stateIs_iff.mpr ⟨_, spawnedAt_tasks_same k.sched i _, hborn.ready⟩

theorem Scheduled.ends (h : Scheduled k) (he : Ends k k' me) : Scheduled k' := by
  refine ⟨?_, fun c' hm => ?_, he.hinted.user h.hint⟩
  · rw [curs_eq he.cpus]
    exact he.sound
  · rw [cur, he.cpus]
    rw [he.cpus] at hm
    exact h.user c' hm

theorem Scheduled.body (h : Scheduled k) (hb : Body b k c call k')
    (hsafe : ∀ w, k.sched.woken = some w → k.sched.prioAt w < k.sched.prioAt (k.cur c) →
      call.victim k.sched ≠ some (k.sched.idAt w)) : Ends k k' (k.cur c) := by
  cases hb.does with
  | quiet => exact ⟨rfl, h.sound, Hinted.refl _ _⟩
  | send dst msg r hr =>
    obtain ⟨hs, hh⟩ := h.sound.sysSend_returns (k.cur c) dst msg hr
    exact ⟨rfl, hs, hh⟩
  | receive filter out r hr =>
    obtain ⟨t, ht⟩ := h.sound.present c (k.cur c) rfl
    obtain ⟨hs, hh⟩ := h.sound.sysReceive_returns ht filter out hr
    exact ⟨rfl, hs, hh⟩
  | regions va pages rs =>
    refine ⟨rfl, h.sound.frame (f := Task.setRegions rs)
      ⟨fun _ => rfl, fun _ => rfl, fun _ => rfl⟩ (fun _ => rfl) (fun _ => rfl)
      (fun _ r => by cases r <;> exact id), ?_⟩
    refine Hinted.old rfl (prioAt_modify k.sched _ fun _ => rfl) fun w _ _ hr => ?_
    rw [stateIs_modify_keep k.sched _ w (f := Task.setRegions rs) fun _ => rfl]
    exact hr
  | kills _ id i hv hk => exact h.kills hk fun w hw hlt he => hsafe w hw hlt (by rw [hv, he])
  | spawns _ name r _ _ hs => exact h.spawns (spawnByName_ok h.sound.freshId hs)
  | respawns name id i r hv hk hs =>
    have h₁ := h.kills hk fun w hw hlt he => hsafe w hw hlt (by rw [hv, he])
    have hs₁ := h.ends h₁
    exact h₁.trans (hs₁.spawns (spawnByName_ok hs₁.sound.freshId hs))

theorem sleepDeadline_ne_zero (k : Kernel) (ms : UInt32) : k.sleepDeadline ms ≠ 0 := by
  unfold sleepDeadline
  omega

theorem Scheduled.parks (h : Scheduled k) (hu : IsUser (k.cur c)) {pc : Resume}
    (hp : Parks k c call k' pc) : Legal c (k'.switchAway c pc) := by
  obtain ⟨t, ht⟩ := h.sound.present c (k.cur c) rfl
  cases hp with
  | send dst msg hr =>
    have hw := (sysSend_stops hr).woken
    exact h.switchAway (by rfl) (h.sound.sysSend_parks (c := c) rfl hu dst msg hr)
      (fun w hw' => h.hint w (hw ▸ hw')) (fun _ => hu)
  | receive filter out hr =>
    have hw := (sysReceive_stops ht hr).woken
    exact h.switchAway (by rfl) (h.sound.sysReceive_parks (c := c) rfl hu filter out hr)
      (fun w hw' => h.hint w (hw ▸ hw')) (fun _ => hu)
  | sleep ms =>
    exact h.switchAway (by rfl)
      (h.sound.sleepUntil (c := c) rfl hu ht (sleepDeadline_ne_zero k ms)) h.hint (fun _ => hu)
  | exit => exact h.switchAway (by rfl) (h.sound.exit (c := c) rfl hu.ne_zero) h.hint (fun _ => hu)

end Calls

/-! ## Steps -/

/-- The wake hint that the syscall tail may follow names a Ready task, which the call itself does
not kill. -/
def HintOk (k : Kernel) : Event → Prop
  | .syscall c call => call.hasTail = true → ∀ w, k.sched.woken = some w →
      k.sched.prioAt w < k.sched.prioAt (k.cur c) →
      k.sched.stateIs w .ready = true ∧ call.victim k.sched ≠ some (k.sched.idAt w)
  | _ => True

theorem Body.hasTail {b : Board} {k k' : Kernel} {c : Cpu} {call : Call} (h : Body b k c call k') :
    call.hasTail = true := by
  cases h with
  | nothing _ _ hp | memory _ _ _ hp => exact Call.plain_hasTail hp
  | send | receive | spawn | exec | exitTask | mapDemand => rfl

variable {e : Event}

section Steps

variable {b : Board} {k : Kernel}

theorem Scheduled.setIrqWait (h : Scheduled k) (c : Cpu) (irq : Option UInt32) :
    Scheduled { k with sched := k.sched.modify (k.cur c) (Task.setIrqWait irq) } :=
  ⟨h.sound.frame ⟨fun _ => rfl, fun _ => rfl, fun _ => rfl⟩ (fun _ => rfl) (fun _ => rfl)
    fun _ r => by cases r <;> exact id, h.user, h.hint⟩

theorem Scheduled.performed (h : Scheduled k) {c : Cpu} {call : Call} {o : Outcome}
    (hu : IsUser (k.cur c)) (hok : HintOk k (.syscall c call)) (hp : Performed b k c call o) :
    Legal c o := by
  cases hp with
  | tail x hb =>
    have hok' := hok hb.hasTail
    have he := h.body hb fun w hw hlt => (hok' w hw hlt).2
    have hcur : Kernel.cur _ c = k.cur c := congrArg (fun f => CpuState.current (f c)) he.cpus
    refine (h.ends he).tail ?_ ?_ x
    · rw [hcur]
      exact he.hinted.good fun w hw hlt => (hok' w hw hlt).1
    · rw [hcur]
      exact hu
  | park hp => exact h.parks hu hp
  | yield =>
    refine (h.reply hu 0).switchBest true fun _ => ?_
    rw [cur_reply]
    exact hu
  | answered irq pending x =>
    have h₁ : Scheduled { k with pending := pending } := { h with }
    exact h₁.reply hu x
  | waiting irq =>
    exact (h.setIrqWait c (some irq)).setMode fun _ => hu

theorem Scheduled.killFaulting (h : Scheduled k) {c : Cpu} (hu : IsUser (k.cur c)) (ram : Ram) :
    Legal c ({ k with ram := ram }.killFaultingTask c) := by
  unfold killFaultingTask
  exact h.switchAway (by rfl) ((h.sound.faulted (k.cur c)).release c) h.hint fun _ => hu

theorem Scheduled.restore (h : Scheduled k) {c : Cpu} {k' : Kernel} (hk : k.restore c = .ok k') :
    Scheduled k' := by
  unfold Kernel.restore at hk
  cases ht : k.sched.tasks (k.cur c) with
  | none =>
    rw [ht] at hk
    cases hk
  | some t =>
    simp only [ht] at hk
    -- the mode is that of the saved context, and user contexts are in user slots
    have hsaved := h.sound.saved (k.cur c) t ht
    have h₁ : Scheduled (k.setCpu c { k.cpus c with ttbr0 := t.ctx.ttbr0 }) :=
      h.setCpu rfl (h.user c)
    have hcur : (k.setCpu c { k.cpus c with ttbr0 := t.ctx.ttbr0 }).cur c = k.cur c :=
      cur_setCpu k c _
    cases hpc : t.ctx.pc with
    | zeroed | dead =>
      rw [hpc] at hk
      cases hk
    | entry | irqUser | irqWait =>
      rw [hpc] at hk hsaved
      cases hk
      exact h₁.setMode fun _ => hcur ▸ hsaved rfl
    | send | yielded | receive | tail =>
      rw [hpc] at hk hsaved
      cases hk
      exact h₁.reply (hcur ▸ hsaved rfl) _
    | sleep =>
      rw [hpc] at hk hsaved
      cases hk
      have hs := h₁.sound.frame (k := k.cur c) (f := Task.clearDeadline)
        ⟨fun _ => rfl, fun _ => rfl, fun _ => rfl⟩ (fun _ => rfl) (fun _ => rfl)
        fun _ r => by cases r <;> simp [Task.clearDeadline, Task.waitsOn]
      have h₂ : Scheduled { k.setCpu c { k.cpus c with ttbr0 := t.ctx.ttbr0 } with
          sched := k.sched.modify (k.cur c) Task.clearDeadline } := ⟨hs, h₁.user, h₁.hint⟩
      rw [hcur]
      exact h₂.reply (hcur ▸ hsaved rfl) 0
    | irqIdle | idleLoop | bootEnter =>
      rw [hpc] at hk
      cases hk
      exact h₁.setMode fun hm => by cases hm

/-- Every critical section that meets the condition decides legally. -/
theorem Scheduled.critical (h : Scheduled k) (hok : HintOk k e) {o : Outcome}
    (ho : k.critical b e = some (.ok o)) : Legal e.cpu o := by
  have huser : ∀ c, (k.cpus c).mode = .user → IsUser (k.cur c) :=
    fun c hm => h.user c (by rw [hm]; rfl)
  cases Kernel.handled ho with
  | enter => exact h.enter
  | idle c own => exact h.idleTurn own
  | tick c pc hpc =>
    have h₁ : Scheduled { k with ticks := k.ticks + 1 } := { h with }
    refine h₁.tickPreempt _ fun hu => h.user c ?_
    cases hm : (k.cpus c).mode with
    | user | waitIrq => rfl
    | boot | halted | restoring =>
      rw [hm] at hpc
      cases hpc
    | idle own =>
      rw [hm] at hpc
      cases hpc
      cases hu
  | syscall c call hm hp => exact h.performed (huser c hm) hok hp
  | repaired | irq => exact { h with }
  | died c ram he hm =>
    subst he
    exact h.killFaulting (huser _ hm) ram
  | wake c irq hm =>
    obtain ⟨hs, hu, hh⟩ := h.setIrqWait c none
    have h₁ : Scheduled { k with
        pending := Function.update k.pending irq false
        sched := k.sched.modify (k.cur c) (Task.setIrqWait none) } := ⟨hs, hu, hh⟩
    exact h₁.reply (h.user c (by rw [hm]; rfl)) 0
  | restore c k' hr => exact h.restore hr

theorem Scheduled.step (h : Scheduled k) {k' : Kernel} (hok : HintOk k e) (hs : Step b k e k') :
    Scheduled k' := by
  obtain ⟨o, ho, rfl⟩ := hs
  exact (h.critical hok ho).apply

end Steps

/-! ## Runs -/

/-- No slot but slot 0 is the current slot of two CPUs. -/
def Exclusive (k : Kernel) : Prop :=
  ∀ c c', k.cur c = k.cur c' → k.cur c ≠ 0 → c = c'

/-- A switch goes to the CPU's own idle slot, or to a slot that is Ready at that moment and
current on no other CPU. -/
def SwitchesWell (b : Board) (k : Kernel) (e : Event) : Prop :=
  ∀ k₁ frm next pc, k.critical b e = some (.ok (.switch k₁ frm next pc)) →
    next = idleSlot e.cpu ∨
      (k₁.sched.stateIs next .ready = true ∧ ∀ c, c ≠ e.cpu → k₁.cur c ≠ next)

theorem Scheduled.exclusive {k : Kernel} (h : Scheduled k) : Exclusive k := by
  intro c c' hcc h0
  exact h.sound.exclusive c c' (k.cur c) rfl (congrArg some hcc.symm) h0

theorem Scheduled.switchesWell {b : Board} {k : Kernel} (h : Scheduled k) (hok : HintOk k e) :
    SwitchesWell b k e := by
  intro k₁ frm next pc ho
  have hl : LegalSwitch k₁ e.cpu frm next pc := h.critical hok ho
  refine hl.target.imp id ?_
  rintro ⟨hu, hr⟩
  refine ⟨hr, fun c hc he => hl.sound.ready next hu hr c ?_⟩
  rw [Function.update_of_ne hc]
  exact congrArg some he

/-- Along every run from boot whose steps find a good hint, no slot is on two CPUs and every switch
is to a free Ready slot or the CPU's own idle slot. -/
theorem smp_exclusive {b : Board} {n : Nat} {k₀ k : Kernel} {es : List Event} (hboot : Boot n k₀)
    (hrun : LTS.Run (LTS.guarded (Step b) HintOk) k₀ es k) :
    Exclusive k ∧ ∀ e, HintOk k e → SwitchesWell b k e := by
  have hs : Scheduled k := hrun.invariant_guarded (fun _ _ _ hk hok hs => hk.step hok hs) hboot.scheduled
  exact ⟨hs.exclusive, fun e hok => hs.switchesWell hok⟩

instance (k : Kernel) (e : Event) : Decidable (HintOk k e) :=
  match e with
  | .syscall c call => inferInstanceAs (Decidable (call.hasTail = true → ∀ w, k.sched.woken = some w →
      k.sched.prioAt w < k.sched.prioAt (k.cur c) →
      k.sched.stateIs w .ready = true ∧ call.victim k.sched ≠ some (k.sched.idAt w)))
  | .enter | .idle _ | .tick _ | .abort _ _ _ | .fault _ | .irq _ _ | .wake _ | .restore _ =>
    inferInstanceAs (Decidable True)

/-- `net`, `ping`, `pong` and `fs` on the four CPUs; `net` waits, and `hog` takes its CPU. -/
def fourServers : List Event :=
  [.enter, .idle 1, .idle 2, .idle 3, .restore 0, .syscall 0 (.receive mAny 0x1000), .restore 0]

theorem smp_exclusive_fourServers : ∃ k, LTS.Run (LTS.guarded (Step bareBoard) HintOk) sbsaBoot
    fourServers k ∧ (k.cur 0, k.cur 1, k.cur 2, k.cur 3) = (7, 8, 9, 10) ∧ Exclusive k := by
  refine LTS.Run.exists_and (LTS.Run.exists_of_guarded (next bareBoard) HintOk step_iff_next.mpr _ _
    (fun k => (k.cur 0, k.cur 1, k.cur 2, k.cur 3) = (7, 8, 9, 10)) (by decide +kernel)) ?_
  intro k hrun hcur
  exact ⟨hcur, (smp_exclusive boot_sbsaBoot hrun).1⟩

/-- The first system call of `hog` follows the boot code's hint to `fs`, which CPU 3 is running. -/
theorem stale_hint_shares_slot : ¬ ∀ (b : Board) (n : Nat) (k₀ k : Kernel) (es : List Event),
    Boot n k₀ → LTS.Run (Step b) k₀ es k → Exclusive k ∧ ∀ e, SwitchesWell b k e := by
  intro hall
  obtain ⟨k, hrun, hp⟩ := LTS.Run.exists_of_exec (next bareBoard) step_iff_next.mpr sbsaBoot
    (fourServers ++ [.syscall 0 .log]) (fun k => k.cur 0 = k.cur 3 ∧ k.cur 0 ≠ 0)
    (by decide +kernel)
  have hexcl := (hall bareBoard 10 sbsaBoot k _ boot_sbsaBoot hrun).1
  exact absurd (hexcl 0 3 hp.1 hp.2) (by decide)

end Kernel

end Tanix
