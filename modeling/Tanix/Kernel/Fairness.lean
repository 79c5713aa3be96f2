/-
# `Tanix.Kernel.Fairness` — who gets a turn at the ticks

A tick that interrupts EL0 hands the CPU to the next Ready slot of the rotation,
whatever its priority.  So a task that stays Ready has its turn after a full
round, as long as nothing but ticks moves the CPU.  Every other switch goes by
priority, and it moves the place the rotation goes on from: a task that
yields or blocks hands the CPU to the best task, and the tasks between the
two are passed over.  A low-priority task that yields at each of its turns brings the
rotation back to the same place for ever, and the tasks behind it starve
(`yielder_starves`).

`fair_of_notPassed`: a user task that no switch passes over gets its turn.  The
rank is the number of steps that the walk from the current slot takes to it.
-/
import Tanix.Kernel.Reaped
import Tanix.Kernel.Running
import Tanix.Lib.Forever

namespace Tanix

open Scheduler LTS

/-- A call that may give the CPU away. -/
def Call.givesUp : Call → Bool
  | .send _ _ | .receive _ _ | .sleep _ | .exit | .yield => true
  | _ => false

namespace Kernel

/-! ## The property and the condition -/

/-- A timer tick on CPU `c`, taken while EL0 code runs. -/
def TickAtEl0 (c : Cpu) (k : Kernel) (e : Event) : Prop :=
  e = .tick c ∧ (k.cpus c).mode = .user

/-- A user task that from some time on is always Ready or Running gets to run. -/
def GetsTurn (ρ : Nat → Kernel) (v : Slot) : Prop :=
  ∀ n, (∀ m, n ≤ m → (ρ m).sched.stateIs v .ready = true ∨ (ρ m).sched.stateIs v .running = true) →
    ∃ m, n ≤ m ∧ (ρ m).sched.stateIs v .running = true

/-- The tasks `ready` accepts that CPU `cpu` may run and that have a better priority than slot `v`
come before `v` on the walk from `cur`. -/
def Ahead (s : Scheduler) (cpu : Cpu) (cur v : Slot) (ready : Task → Bool) : Prop :=
  ∀ j, j ≠ 0 → (s.tasks j).any (fun t => ready t &&
      (t.cpuAffinity == none || t.cpuAffinity == some cpu) && decide (t.priority < s.prioAt v)) = true →
    stepsTo cur j < stepsTo cur v

def isReady (t : Task) : Bool :=
  t.state == .ready

/-- Slot `w` has, or gets by this call, a task of better priority than the caller. -/
def Outranks (k : Kernel) (c : Cpu) (call : Call) (w : Slot) : Prop :=
  (k.sched.tasks w).any (fun t => decide (t.priority < k.sched.prioAt (k.cur c))) = true ∨
    ((k.sched.tasks w).isNone = true ∧
      call.spawns.any (fun name => decide (serverPrios name < k.sched.prioAt (k.cur c))) = true)

/-- The switches this event may lead to by priority do not go past slot `v`. -/
def NotPassed (v : Slot) (k : Kernel) : Event → Prop
  | .enter => Ahead k.sched 0 (k.cur 0) v isReady
  | .idle c => ∀ own, (k.cpus c).mode = .idle own → Ahead k.sched own (k.cur c) v isReady
  | .tick c => k.sched.stateIs (k.cur c) .zombie = true ∨ k.cur c = idleSlot c →
      Ahead k.sched c (k.cur c) v (fun t => isReady t || t.expired (k.ticks + 1)) ∧
        k.sched.prioAt v < k.sched.prioAt (idleSlot c)
  | .syscall c call => (call.givesUp = true → Ahead k.sched c (k.cur c) v isReady) ∧
      (call.hasTail = true → ∀ w, Outranks k c call w → stepsTo (k.cur c) w < stepsTo (k.cur c) v)
  | .abort c far esr => k.repairs c far esr = false → Ahead k.sched c (k.cur c) v isReady
  | .fault c => Ahead k.sched c (k.cur c) v isReady
  | .irq _ _ | .wake _ | .restore _ => True

/-! ## Choices -/

section Choices

variable {s s' : Scheduler} {cpu : Cpu} {cur v : Slot} {ready : Task → Bool}

/-- `pick_next`, on a table `s'` whose Ready tasks the condition on `s` takes account of. -/
theorem Ahead.pickNext (ha : Ahead s cpu cur v ready) (hv : v ≠ 0) {t : Task}
    (ht : s.tasks v = some t) (haff : t.cpuAffinity = none) (hkeep : s'.stateIs v .ready = true)
    (hfrom : ∀ j u', s'.tasks j = some u' → u'.state = .ready →
      ∃ u, s.tasks j = some u ∧ ready u = true ∧ u'.place = u.place) :
    s'.pickNext cpu cur = v ∨ stepsTo cur (s'.pickNext cpu cur) < stepsTo cur v := by
  obtain ⟨t', ht', hready⟩ := stateIs_iff.mp hkeep
  obtain ⟨u, hu, -, hplace⟩ := hfrom v t' ht' hready
  cases ht.symm.trans hu
  have haff' : t'.cpuAffinity = none := (congrArg Prod.snd hplace).trans haff
  refine pickNext_before ⟨hv, t', ht', hready, Or.inl haff'⟩ fun j hj hlt => ?_
  obtain ⟨hj0, u', hu', hready', hcpu⟩ := hj
  obtain ⟨u, hu, hu0, hplace'⟩ := hfrom j u' hu' hready'
  refine ha j hj0 ((Option.any_eq_true ..).mpr ⟨u, hu, ?_⟩)
  have hprio : u.priority < s.prioAt v := by
    rw [priorityAt, hu', priorityAt, ht'] at hlt
    rw [prioAt, ht, UInt8.lt_iff_toNat_lt]
    rw [← show u'.priority = u.priority from congrArg Prod.fst hplace']
    exact hlt.trans_eq (congrArg (fun p => UInt8.toNat (Prod.fst p)) hplace)
  rw [← show u'.cpuAffinity = u.cpuAffinity from congrArg Prod.snd hplace']
  simp [hu0, hcpu, hprio]

theorem Ahead.pickNext_self (ha : Ahead s cpu cur v isReady) (hv : v ≠ 0) {t : Task}
    (ht : s.tasks v = some t) (haff : t.cpuAffinity = none) (hkeep : s.stateIs v .ready = true) :
    s.pickNext cpu cur = v ∨ stepsTo cur (s.pickNext cpu cur) < stepsTo cur v :=
  ha.pickNext hv ht haff hkeep fun _ u' hu' hready => ⟨u', hu', by simp [isReady, hready], rfl⟩

end Choices

section Steps

variable {b : Board} {k k' : Kernel} {c : Cpu} {e : Event} {v : Slot}

/-- A Ready user task is current nowhere. -/
theorem Lively.not_current (h : Lively k) (hv : IsUser v) (hr : k.sched.stateIs v .ready = true) (c : Cpu) :
    v ≠ k.cur c := by
  rintro rfl
  exact h.sound.ready _ hv hr c rfl

/-- Who is Ready at a tick was so before, or slept and is due. -/
theorem wakeSleepers_from (s : Scheduler) (now : Nat) (j : Slot) (u' : Task)
    (hu' : (s.wakeSleepers now).1.tasks j = some u') (hready : u'.state = .ready) :
    ∃ u, s.tasks j = some u ∧ (isReady u || u.expired now) = true ∧ u'.place = u.place := by
  rw [wakeSleepers_tasks] at hu'
  obtain ⟨u, hu, rfl⟩ := Option.map_eq_some_iff.mp hu'
  refine ⟨u, hu, ?_⟩
  rw [Task.woken] at *
  split at hready
  · next he =>
    rw [if_pos he]
    exact ⟨by simp [he.2], rfl⟩
  · next he =>
    rw [if_neg he]
    exact ⟨by simp [isReady, hready], rfl⟩

/-- The task that the syscall tail may switch to has a better priority than the caller. -/
theorem Lively.outranks (h : Lively k) {call : Call} {k₁ : Kernel} {w : Slot} (hb : Body b k c call k₁)
    (hlt : k₁.sched.prioAt w < k₁.sched.prioAt (k.cur c)) : Outranks k c call w := by
  have hplaces := h.toScheduled.places hb
  obtain ⟨me, hme⟩ := h.sound.present c (k.cur c) rfl
  rw [hplaces.prioAt hme] at hlt
  cases hw : k.sched.tasks w with
  | some u =>
    rw [hplaces.prioAt hw, prioAt, hw] at hlt
    exact Or.inl (by rw [hw]; simpa using hlt)
  | none =>
    cases hw₁ : k₁.sched.tasks w with
    | none =>
      -- an empty slot counts as the worst priority
      rw [prioAt, hw₁] at hlt
      refine absurd hlt (UInt8.not_lt.mpr (UInt8.le_iff_toNat_le.mpr ?_))
      exact Nat.lt_succ_iff.mp (UInt8.toNat_lt _)
    | some u =>
      obtain ⟨name, hcall, hplace⟩ := hplaces.new w u hw hw₁
      rw [prioAt, hw₁] at hlt
      refine Or.inr ⟨by rw [hw]; rfl, ?_⟩
      rw [hcall]
      have hprio : u.priority = serverPrios name := congrArg Prod.fst hplace
      simpa [← hprio] using hlt

theorem Faults.ahead {ram : Ram} (hf : Faults b k c e ram) (hn : NotPassed v k e) :
    e.cpu = c ∧ Ahead k.sched c (k.cur c) v isReady := by
  cases e with
  | fault c' =>
    obtain ⟨rfl, -⟩ := hf
    exact ⟨rfl, hn⟩
  | abort c' far esr =>
    obtain ⟨rfl, hres⟩ := hf
    refine ⟨rfl, hn ?_⟩
    rw [repairs, ← (Ram.resolveUserFault_ok hres).2]
  | enter | idle | tick | syscall | irq | wake | restore => exact hf.elim

/-- A choice does not go past a Ready user task. -/
theorem Lively.not_passed (h : Lively k) (hv : IsUser v) (hr : k.sched.stateIs v .ready = true)
    (hn : NotPassed v k e) {next : Slot} (hch : Chosen b k e next) :
    next = v ∨ stepsTo (k.cur e.cpu) next < stepsTo (k.cur e.cpu) v := by
  obtain ⟨t, ht, hready⟩ := stateIs_iff.mp hr
  have haff := h.unpinned v t hv ht
  cases hch with
  | enter => exact Ahead.pickNext_self hn hv.ne_zero ht haff hr
  | idle c own hm => exact (hn own hm).pickNext_self hv.ne_zero ht haff hr
  | yield c => exact (hn.1 rfl).pickNext_self hv.ne_zero ht haff hr
  | tick c hleft =>
    have hleft' : k.sched.stateIs (k.cur c) .zombie = true ∨ k.cur c = idleSlot c := by
      exact hleft.imp_left (stateIs_of_wakeSleepers (by decide))
    have hcand : (k.sched.wakeSleepers (k.ticks + 1)).1.Candidate c v :=
      candidate_wakeSleepers hv.ne_zero ht (Or.inl hready) (Or.inl haff)
    obtain ⟨-, t', ht', hready', -⟩ := hcand
    exact (hn hleft').1.pickNext hv.ne_zero ht haff (stateIs_iff.mpr ⟨t', ht', hready'⟩)
      (wakeSleepers_from k.sched (k.ticks + 1))
  | rotate c =>
    refine pickNextRr_before ?_ (h.not_current hv hr c) _
    exact candidate_wakeSleepers hv.ne_zero ht (Or.inl hready) (Or.inl haff)
  | hint c call k₁ _ hb _ hlt => exact Or.inr (hn.2 hb.hasTail next (h.outranks hb hlt))
  | park c call k₁ pc hp =>
    obtain ⟨me, hme⟩ := h.sound.present c (k.cur c) rfl
    have hstops := hp.stops hme
    refine (hn.1 (by cases hp <;> rfl)).pickNext hv.ne_zero ht haff ?_ fun j u' hu' hready' => ?_
    · rw [hstops.others v (h.not_current hv hr c)]
      exact hr
    · have hj : j ≠ k.cur c := by
        rintro rfl
        have hno := hstops.caller
        rw [stateIs_iff.mpr ⟨u', hu', hready'⟩] at hno
        cases hno
      have hst : k.sched.stateIs j .ready = true := by
        rw [← hstops.others j hj]
        exact stateIs_iff.mpr ⟨u', hu', hready'⟩
      obtain ⟨u, hu, hu0⟩ := stateIs_iff.mp hst
      have hplace := hp.samePlaces j
      rw [hu, hu'] at hplace
      exact ⟨u, hu, by simp [isReady, hu0], Option.some.inj hplace⟩
  | dies c e ram hf =>
    obtain ⟨hcpu, ha⟩ := hf.ahead hn
    obtain ⟨me, hme⟩ := h.sound.present c (k.cur c) rfl
    rw [hcpu]
    refine ha.pickNext hv.ne_zero ht haff ?_ fun j u' hu' hready' => ?_
    · rw [stateIs_modify_ne k.sched _ _ (h.not_current hv hr c)]
      exact hr
    · obtain ⟨u, hu, rfl⟩ := modify_some hu'
      split at hready'
      · cases hready'
      · next hj =>
        rw [if_neg hj]
        exact ⟨u, hu, by simp [isReady, hready'], rfl⟩

/-- `tick_preempt` at EL0 goes round to the next Ready task. -/
theorem tickPreempt_rotates (hrun : k.woken.sched.stateIs (k.cur c) .running = true)
    (hidle : k.cur c ≠ idleSlot c) (h0 : k.cur c ≠ 0)
    (hne : k.woken.sched.pickNextRr c (k.cur c) (k.cur c) ≠ k.cur c)
    (hne0 : k.woken.sched.pickNextRr c (k.cur c) (k.cur c) ≠ 0) (pc : Resume) :
    k.tickPreempt c true pc = .switch
      { k.woken with sched := k.woken.sched.setState (k.cur c) .ready } (k.cur c)
      (k.woken.sched.pickNextRr c (k.cur c) (k.cur c)) pc := by
  have hz : k.woken.sched.stateIs (k.cur c) .zombie = false := alive_of_state hrun (by decide)
  have hz' : ¬ k.woken.sched.stateIs (k.cur c) .zombie = true := by
    rw [hz]
    exact Bool.false_ne_true
  have hbest : k.woken.switchBest c false pc = .switch
      { k.woken with sched := k.woken.sched.setState (k.cur c) .ready } (k.cur c)
      (k.woken.sched.pickNextRr c (k.cur c) (k.cur c)) pc := by
    have hcur : k.woken.cur c = k.cur c := rfl
    rw [Kernel.switchBest]
    simp [hcur, h0, hrun, hne, hne0]
  rw [Kernel.tickPreempt]
  refine (if_neg hz').trans ((if_neg hidle).trans ?_)
  exact hbest

/-- The slot a CPU runs is not woken by a tick. -/
theorem Lively.current_woken (h : Lively k) (c : Cpu) (now : Nat) (st : TaskState) :
    (k.sched.wakeSleepers now).1.stateIs (k.cur c) st = k.sched.stateIs (k.cur c) st := by
  obtain ⟨t, ht⟩ := h.sound.present c (k.cur c) rfl
  have hkeep : t.woken now (k.cur c) = t := by
    rcases t.woken_eq_or now (k.cur c) with hk | ⟨-, hd⟩
    · exact hk
    · exact absurd ⟨t, ht, hd⟩ (h.sound.current_awake (c := c) rfl .sleep)
  rw [stateIs, wakeSleepers_tasks, ht, Option.map_some, hkeep, stateIs, ht]

/-- A tick at EL0 takes its CPU off the current task, while a user task is Ready. -/
theorem Lively.tick_moves (h : Lively k) (hv : IsUser v) (hr : k.sched.stateIs v .ready = true)
    (hm : (k.cpus c).mode = .user) (hn : NotPassed v k (.tick c)) (hs : Step b k (.tick c) k') :
    k'.cur c ≠ k.cur c := by
  obtain ⟨t, ht, hready⟩ := stateIs_iff.mp hr
  have haff := h.unpinned v t hv ht
  have hcur : IsUser (k.cur c) := h.user c (by rw [hm]; rfl)
  have hcand : (k.sched.wakeSleepers (k.ticks + 1)).1.Candidate c v :=
    candidate_wakeSleepers hv.ne_zero ht (Or.inl hready) (Or.inl haff)
  obtain ⟨o, ho, rfl⟩ := hs
  simp only [Kernel.critical, hm, interrupted] at ho
  cases ho
  rcases h.current hcur with hrun | hz
  · obtain ⟨⟨hne0, -⟩, hne, -⟩ := pickNextRr_argmin hcand (h.not_current hv hr c) (k.cur c)
    have hrun' := (h.current_woken c (k.ticks + 1) .running).trans hrun
    rw [show (Mode.user == Mode.user) = true from rfl,
      tickPreempt_rotates (k := { k with ticks := k.ticks + 1 }) hrun' (hcur c) hcur.ne_zero hne hne0]
    exact (cur_apply_switch _ c _ _ _).trans_ne hne
  · have hz' := (h.current_woken c (k.ticks + 1) .zombie).trans hz
    have hrelief : Relief k c := by
      refine ⟨v, (Option.any_eq_true ..).mpr ⟨t, ht, ?_⟩, hv.ne_zero⟩
      have hprio : t.priority < k.sched.prioAt (idleSlot c) := by
        have hlt := (hn (Or.inl hz)).2
        rw [prioAt, ht] at hlt
        exact hlt
      simp [hready, haff, hprio]
    obtain ⟨⟨-, u, hu, hready', -⟩, hidle⟩ := pickNext_of_relief (h.sound.idle c) hrelief (k.cur c)
    have hne : (k.sched.wakeSleepers (k.ticks + 1)).1.pickNext c (k.cur c) ≠ k.cur c := by
      intro heq
      rw [heq] at hu
      rw [stateIs, hu] at hz'
      simp [hready'] at hz'
    rw [tickPreempt_dead (k := { k with ticks := k.ticks + 1 }) hz' hne hidle]
    exact (cur_apply_switch _ c _ _ _).trans_ne hne

/-- A step of a CPU leaves a Ready user task no farther away, or runs it. -/
theorem Lively.steps_step (h : Lively k) (hv : IsUser v) (hr : k.sched.stateIs v .ready = true)
    (hn : e.cpu = c → NotPassed v k e) (hs : Step b k e k') :
    k'.cur c = k.cur c ∨ k'.cur c = v ∨ stepsTo (k'.cur c) v < stepsTo (k.cur c) v := by
  rcases eq_or_ne c e.cpu with rfl | hne
  · rcases hs.cur_cases with heq | ⟨hch, -⟩
    · exact Or.inl heq
    · refine Or.inr ((h.not_passed hv hr (hn rfl) hch).imp_right fun hlt => ?_)
      exact stepsTo_lt_of_lt hlt
  · exact Or.inl (hs.cur_eq hne)

end Steps

/-! ## Runs without an end -/

/-- In every run without an end, with timer ticks on CPU `c` at EL0 again and again, a user task that
CPU `c` passes over only finitely often gets its turn. -/
theorem fair_of_notPassed {b : Board} {n : Nat} {ρ : Nat → Kernel} {ev : Nat → Event} {c : Cpu} {v : Slot}
    (hboot : Boot n (ρ 0)) (hrun : Forever (Step b) ρ ev)
    (hticks : ∀ n, ∃ m, n ≤ m ∧ TickAtEl0 c (ρ m) (ev m)) (hv : IsUser v)
    (hhint : ∀ n, HintOk (ρ n) (ev n))
    (hturns : ∃ n, ∀ m, n ≤ m → (ev m).cpu = c → NotPassed v (ρ m) (ev m)) : GetsTurn ρ v := by
  have hlively : ∀ n, Lively (ρ n) := hrun.invariant (fun n _ h hs => h.step (hhint n) hs) hboot.lively
  obtain ⟨n₁, hturns⟩ := hturns
  intro n₂ hstays
  by_contra hnever
  -- never Running, so Ready all the time and current nowhere
  have hready : ∀ m, n₂ ≤ m → (ρ m).sched.stateIs v .ready = true := by
    intro m hm
    exact (hstays m hm).resolve_right fun hr => hnever ⟨m, hm, hr⟩
  have hstep : ∀ m, max n₁ n₂ ≤ m → (ρ (m + 1)).cur c = (ρ m).cur c ∨
      stepsTo ((ρ (m + 1)).cur c) v < stepsTo ((ρ m).cur c) v := by
    intro m hm
    obtain ⟨hm₁, hm₂⟩ := max_le_iff.mp hm
    refine ((hlively m).steps_step hv (hready m hm₂) (hturns m hm₁) (hrun m)).imp_right fun h => ?_
    refine h.resolve_left fun heq => ?_
    exact (hlively (m + 1)).not_current hv (hready (m + 1) (Nat.le_succ_of_le hm₂)) c heq.symm
  refine not_drops_forever (fun m => stepsTo ((ρ m).cur c) v) (fun m (hm : max n₁ n₂ ≤ m) => ?_)
    (fun m hm htick => ?_) hticks
  · rcases hstep m hm with heq | hlt
    · rw [heq]
    · exact hlt.le
  · obtain ⟨hm₁, hm₂⟩ := max_le_iff.mp hm
    obtain ⟨he, hmode⟩ := htick
    have hs := hrun m
    have hn := hturns m hm₁
    rw [he] at hs hn
    exact (hstep m hm).resolve_left ((hlively m).tick_moves hv (hready m hm₂) hmode (hn rfl) hs)

/-! ## Two runs -/

deriving instance DecidableEq for CpuState

/-- What decides the switches, without memory and clock. -/
def view (k : Kernel) : Scheduler × (Cpu → CpuState) :=
  (k.sched, k.cpus)

variable (v : Scheduler × (Cpu → CpuState))

def ofView : Kernel :=
  { sbsaBoot with sched := v.1, cpus := v.2 }

/-- The events whose outcome the view decides: at a tick nobody sleeps, and a restored task does
not come back with a message. -/
def decidesView : Event → Bool
  | .enter | .syscall _ .yield => true
  | .tick _ => decide (∀ i, (v.1.tasks i).all (fun t => t.sleepDeadline == 0) = true)
  | .restore c => (v.1.tasks (v.2 c).current).all fun t =>
    t.ctx.pc == .entry || t.ctx.pc == .irqUser || t.ctx.pc == .yielded
  | _ => false

def viewStep (e : Event) : Option (Scheduler × (Cpu → CpuState)) :=
  if decidesView v e then ((ofView v).next bareBoard e).map view else none

/-- The view after a decision. -/
def viewAfter (c : Cpu) (o : Outcome) : Scheduler × (Cpu → CpuState) :=
  (apply c o).view

section View

variable {b : Board} {k k' : Kernel} {c : Cpu}

theorem viewAfter_stay (c : Cpu) (k : Kernel) : viewAfter c (.stay k) = (k.sched, k.cpus) :=
  rfl

theorem viewAfter_switch (c : Cpu) (k : Kernel) (frm next : Slot) (pc : Resume) :
    viewAfter c (.switch k frm next pc) =
      ((k.sched.modify frm (Task.saveCtx ⟨pc, (k.cpus c).ttbr0⟩)).setState next .running,
        Function.update k.cpus c { k.cpus c with current := next, mode := .restoring frm }) :=
  rfl

theorem viewAfter_ite (c : Cpu) (P : Prop) [Decidable P] (o o' : Outcome) :
    viewAfter c (if P then o else o') = if P then viewAfter c o else viewAfter c o' :=
  apply_ite (viewAfter c) P o o'

theorem eq_of_view (h : k.view = k'.view) :
    k' = { k with ram := k'.ram, ticks := k'.ticks, pending := k'.pending, bufs := k'.bufs } := by
  cases k
  cases k'
  cases h
  rfl

theorem view_enter (h : k.view = k'.view) : viewAfter 0 k.enter = viewAfter 0 k'.enter := by
  rw [eq_of_view h]
  simp only [enter, viewAfter_ite, viewAfter_stay, viewAfter_switch]
  rfl

theorem view_switchBest (h : k.view = k'.view) (strict : Bool) (pc : Resume) :
    viewAfter c (k.switchBest c strict pc) = viewAfter c (k'.switchBest c strict pc) := by
  rw [eq_of_view h]
  simp only [switchBest, viewAfter_ite, viewAfter_stay, viewAfter_switch]
  rfl

theorem view_tickPreempt (h : k.view = k'.view)
    (hwake : k.sched.wakeSleepers k.ticks = k'.sched.wakeSleepers k'.ticks) (fromEl0 : Bool) (pc : Resume) :
    viewAfter c (k.tickPreempt c fromEl0 pc) = viewAfter c (k'.tickPreempt c fromEl0 pc) := by
  have hwoken : k.woken.view = k'.woken.view := by
    rw [view, view, woken, woken, hwake, (Prod.mk.inj h).2]
  have hbest := view_switchBest (c := c) hwoken false pc
  rw [eq_of_view h] at hwake hbest ⊢
  simp only [woken, hwake] at hbest
  simp only [tickPreempt, viewAfter_ite, viewAfter_stay, viewAfter_switch, hwake, hbest]
  rfl

theorem view_restore (h : k.view = k'.view) (hd : decidesView k.view (.restore c) = true) :
    (k.restore c).toOption.map view = (k'.restore c).toOption.map view := by
  rw [decidesView] at hd
  rw [eq_of_view h]
  simp only [restore, cur]
  cases ht : k.sched.tasks (k.cpus c).current with
  | none => rfl
  | some t =>
    simp only [view, ht, Option.all_some, Bool.or_eq_true, beq_iff_eq] at hd
    rcases hd with (hpc | hpc) | hpc
    · simp only [hpc]
      rfl
    · simp only [hpc]
      rfl
    · simp only [hpc]
      rfl

/-- A tick wakes nobody where nobody sleeps. -/
theorem wakeSleepers_awake {s : Scheduler}
    (h : ∀ i, (s.tasks i).all (fun t => t.sleepDeadline == 0) = true) (now : Nat) :
    s.wakeSleepers now = (s, false) := by
  have hexpired : ∀ i t, s.tasks i = some t → t.expired now = false := by
    intro i t ht
    have hi := h i
    rw [ht] at hi
    have hd : t.sleepDeadline = 0 := by simpa using hi
    simp [Task.expired, hd]
  refine Prod.ext (Scheduler.ext (funext fun i => ?_) rfl rfl) ?_
  · rw [wakeSleepers_tasks]
    cases ht : s.tasks i with
    | none => rfl
    | some t =>
      rw [Option.map_some, Task.woken, if_neg (by simp [hexpired i t ht])]
  · rw [wakeSleepers, List.any_eq_false]
    intro i _
    rw [Bool.not_eq_true, Option.any_eq_false]
    intro t ht
    simp [hexpired i t ht]

/-- Two kernels of one view decide the same. -/
theorem critical_view (h : k.view = k'.view) {e : Event} (hd : decidesView k.view e = true) {o : Outcome}
    (ho : k.critical b e = some (.ok o)) :
    ∃ o', k'.critical b e = some (.ok o') ∧ viewAfter e.cpu o' = viewAfter e.cpu o := by
  have hmode : ∀ c, (k'.cpus c).mode = (k.cpus c).mode := by
    intro c
    rw [(Prod.mk.inj h).2]
  cases e with
  | enter =>
    simp only [critical] at ho
    split at ho
    · next hm =>
      cases ho
      exact ⟨k'.enter, if_pos ((hmode 0).trans hm), (view_enter h).symm⟩
    · cases ho
  | tick c =>
    simp only [critical] at ho
    split at ho
    · next pc hm =>
      cases ho
      refine ⟨{ k' with ticks := k'.ticks + 1 }.tickPreempt c ((k.cpus c).mode == Mode.user) pc, ?_, ?_⟩
      · simp only [critical, hmode, hm]
      · refine (view_tickPreempt (k := { k with ticks := k.ticks + 1 }) (by exact h) ?_ _ pc).symm
        have hawake : ∀ i, (k.sched.tasks i).all (fun t => t.sleepDeadline == 0) = true :=
          of_decide_eq_true hd
        show k.sched.wakeSleepers (k.ticks + 1) = k'.sched.wakeSleepers (k'.ticks + 1)
        rw [← (Prod.mk.inj h).1, wakeSleepers_awake hawake, wakeSleepers_awake hawake]
    · cases ho
  | restore c =>
    simp only [critical] at ho
    split at ho
    · next frm hm =>
      have hr := view_restore h hd
      cases hk : k.restore c with
      | error err =>
        rw [hk] at ho
        cases ho
      | ok k₁ =>
        rw [hk] at ho hr
        cases ho
        cases hk' : k'.restore c with
        | error err =>
          rw [hk'] at hr
          cases hr
        | ok k₁' =>
          rw [hk'] at hr
          refine ⟨.stay k₁', ?_, (Option.some.inj hr).symm⟩
          simp only [critical, hmode, hm, hk']
          rfl
    · cases ho
  | syscall c call =>
    cases call with
    | yield =>
      simp only [critical] at ho
      split at ho
      · next hm =>
        cases ho
        refine ⟨(k'.reply c 0).yieldCpu c, if_pos ((hmode c).trans hm), ?_⟩
        refine (view_switchBest ?_ true .yielded).symm
        obtain ⟨hs, hc⟩ := Prod.mk.inj h
        rw [view, view, reply, reply, setCpu, setCpu, hs, hc]
      · cases ho
    | _ => cases hd
  | idle | abort | fault | irq | wake => cases hd

/-- The steps of the view are steps of the machine. -/
theorem exists_step_of_viewStep (k : Kernel) (e : Event) (v : Scheduler × (Cpu → CpuState))
    (h : viewStep k.view e = some v) : ∃ k', Step bareBoard k e k' ∧ k'.view = v := by
  obtain ⟨hd, h⟩ := Option.ite_none_right_eq_some.mp h
  obtain ⟨k₁, hk₁, rfl⟩ := Option.map_eq_some_iff.mp h
  obtain ⟨o, ho, rfl⟩ := step_iff_next.mpr hk₁
  obtain ⟨o', ho', hview⟩ := critical_view (show (ofView k.view).view = k.view from rfl) hd ho
  exact ⟨apply e.cpu o', ⟨o', ho', rfl⟩, hview⟩

end View

/-- `counter`, `clock` and `wm` are new, and the servers of `init` wait. -/
def deskBoot : Kernel :=
  { sbsaBoot with
    sched :=
      { tasks := fun i =>
          if i = 6 then some (bootServer 6 "counter" .ready)
          else if i = 7 then some (bootServer 7 "clock" .ready)
          else if i = 8 then some (bootServer 8 "wm" .ready)
          else if i = 9 ∨ i = 10 then none
          else sbsaTable i
        nextId := 9
        woken := some 8 } }

theorem boot_deskBoot : Boot 8 deskBoot where
  few := by decide
  nextId := rfl
  boot := ⟨⟨.bootEnter, 0⟩, rfl, rfl⟩
  idle := idle_of_slots rfl rfl rfl
  servers := servers_of_test (by decide)
  empty := by decide
  hint := by
    intro w hw
    cases hw
    decide
  cpu0 := ⟨rfl, rfl⟩
  secondary := by
    intro c hc
    exact ⟨rfl, if_neg hc⟩

def ticksAtEl0 : Event → Bool
  | .tick c => (v.2 c).mode == .user
  | _ => true

/-- A computed lasso from `deskBoot` is a run without an end. -/
theorem forever_of_lasso {v₀ : Scheduler × (Cpu → CpuState)} {stem loop : List Event}
    (hstem : exec viewStep deskBoot.view stem = some v₀)
    (hloop : exec viewStep v₀ loop = some v₀) (hne : 0 < loop.length)
    (hel0 : passes viewStep ticksAtEl0 deskBoot.view (stem ++ loop) = true) (htick : .tick 0 ∈ loop) :
    ∃ ρ ev, Boot 8 (ρ 0) ∧ Forever (Step bareBoard) ρ ev ∧
      (∀ n, ∃ m, n ≤ m ∧ TickAtEl0 0 (ρ m) (ev m)) ∧
      ∀ p, passes viewStep p deskBoot.view (stem ++ loop) = true → ∀ n, p (ρ n).view (ev n) = true := by
  obtain ⟨ρ, ev, h0, hrun, -, hpass, hoften⟩ :=
    Forever.of_lasso exists_step_of_viewStep hstem hloop hne
  refine ⟨ρ, ev, h0 ▸ boot_deskBoot, hrun, fun n => ?_, hpass⟩
  obtain ⟨m, hm, he⟩ := hoften _ htick n
  have hmode := hpass _ hel0 m
  rw [he] at hmode
  exact ⟨m, hm, he, beq_iff_eq.mp hmode⟩

/-- `wm` runs until the tick, and `counter` yields at once when its turn comes. -/
def yieldingCounter : List Event :=
  [.tick 0, .restore 0, .syscall 0 .yield, .restore 0]

/-- `counter` and `wm` have the CPU in turn, and `clock`, which stands between them, never has it. -/
theorem yielder_starves : ¬ ∀ (b : Board) (n : Nat) (ρ : Nat → Kernel) (ev : Nat → Event) (c : Cpu),
    Boot n (ρ 0) → Forever (Step b) ρ ev → (∀ n, (ev n).cpu = c) →
    (∀ n, ∃ m, n ≤ m ∧ TickAtEl0 c (ρ m) (ev m)) → ∀ v, IsUser v → GetsTurn ρ v := by
  intro hall
  have htest : (exec viewStep deskBoot.view ([.enter, .restore 0] ++ yieldingCounter)).any (fun v =>
      decide (exec viewStep v yieldingCounter = some v)) = true := by
    decide +kernel
  obtain ⟨v₀, hstem, hloop⟩ := exec_any _ _ _ _ htest
  obtain ⟨ρ, ev, hboot, hrun, hticks, hpass⟩ :=
    forever_of_lasso hstem (of_decide_eq_true hloop) (by decide) (by decide +kernel) (by simp [yieldingCounter])
  have hcpu : ∀ n, (ev n).cpu = 0 := fun n =>
    of_decide_eq_true (hpass (fun _ e => decide (e.cpu = 0)) (by decide +kernel) n)
  have hready : ∀ n, (ρ n).sched.stateIs 7 .ready = true :=
    hpass (fun v _ => v.1.stateIs 7 .ready) (by decide +kernel)
  obtain ⟨m, -, hrunning⟩ :=
    hall bareBoard 8 ρ ev 0 hboot hrun hcpu hticks 7 (by decide) 0 fun n _ => Or.inl (hready n)
  obtain ⟨t, ht, hst⟩ := stateIs_iff.mp hrunning
  cases hst.symm.trans (state_of_stateIs ht (hready m))

/-- Three tasks that are preempted in turn. -/
def threeTurns : List Event :=
  [.tick 0, .restore 0, .tick 0, .restore 0, .tick 0, .restore 0]

/-- At the start nothing better than slot `w` is Ready, and no tick finds its CPU idle or on a dead task. -/
def keepsTurns (w : Slot) (v : Scheduler × (Cpu → CpuState)) : Event → Bool
  | .enter => decide (∀ j, (v.1.tasks j).all (fun t => decide (¬ t.priority < v.1.prioAt w)) = true)
  | .tick c => !v.1.stateIs (v.2 c).current .zombie && (v.2 c).current != idleSlot c
  | .restore _ => true
  | _ => false

theorem notPassed_of_keepsTurns {w : Slot} {k : Kernel} {e : Event} (h : keepsTurns w k.view e = true) :
    HintOk k e ∧ NotPassed w k e := by
  cases e with
  | enter =>
    refine ⟨trivial, fun j _ hj => ?_⟩
    obtain ⟨t, ht, hp⟩ := (Option.any_eq_true ..).mp hj
    have hall : (k.sched.tasks j).all (fun t => decide (¬ t.priority < k.sched.prioAt w)) = true :=
      of_decide_eq_true h j
    rw [ht] at hall
    exact absurd (of_decide_eq_true (Bool.and_eq_true_iff.mp hp).2) (of_decide_eq_true hall)
  | tick c =>
    refine ⟨trivial, fun hleft => ?_⟩
    obtain ⟨hz, hidle⟩ := Bool.and_eq_true_iff.mp h
    rcases hleft with hzombie | hi
    · rw [show k.view.1.stateIs (k.view.2 c).current .zombie = true from hzombie] at hz
      cases hz
    · exact absurd hi (bne_iff_ne.mp hidle)
  | restore c => exact ⟨trivial, trivial⟩
  | idle | syscall | abort | fault | irq | wake => cases h

/-- With busy tasks only, `wm` has its turn. -/
theorem fair_of_notPassed_wm : ∃ ρ ev, Boot 8 (ρ 0) ∧ Forever (Step bareBoard) ρ ev ∧
    (∀ n, ∃ m, n ≤ m ∧ TickAtEl0 0 (ρ m) (ev m)) ∧ GetsTurn ρ 8 := by
  have htest : (exec viewStep deskBoot.view ([.enter, .restore 0] ++ threeTurns)).any (fun v =>
      decide (exec viewStep v threeTurns = some v)) = true := by
    decide +kernel
  obtain ⟨v₀, hstem, hloop⟩ := exec_any _ _ _ _ htest
  obtain ⟨ρ, ev, hboot, hrun, hticks, hpass⟩ :=
    forever_of_lasso hstem (of_decide_eq_true hloop) (by decide) (by decide +kernel) (by simp [threeTurns])
  have hturns := fun n => notPassed_of_keepsTurns (hpass (keepsTurns 8) (by decide +kernel) n)
  exact ⟨ρ, ev, hboot, hrun, hticks, fair_of_notPassed hboot hrun hticks (by decide)
    (fun n => (hturns n).1) ⟨0, fun n _ _ => (hturns n).2⟩⟩

end Kernel

end Tanix
