/-
# `Tanix.Kernel.Running` — the slot that a CPU runs

Three facts about the tasks of a running machine that `Scheduled` does not say:

    Places      nobody's priority or affinity ever changes; a new task has those
                of the server it was started as
    Unpinned    a user task may run on every CPU
    Unblocked   the user task that a CPU runs is not Blocked

With `Scheduled`, which says that it is not Ready either, the user task that a CPU
runs is Running or dead (`Lively.current`).
-/
import Tanix.Kernel.Current
import Tanix.Kernel.Absorbing

namespace Tanix

open Scheduler

/-! ## Priority and affinity -/

/-- What the pickers go by, apart from the state. -/
def Task.place (t : Task) : UInt8 × Option Cpu :=
  (t.priority, t.cpuAffinity)

theorem untouched_place : Untouched Task.place :=
  ⟨fun _ _ => rfl, fun _ => rfl, fun _ _ _ => rfl, fun _ _ => rfl, fun _ => rfl, fun _ _ _ => rfl⟩

/-- The same tasks with the same priorities and affinities. -/
def SamePlaces (s s' : Scheduler) : Prop :=
  ∀ i, (s'.tasks i).map Task.place = (s.tasks i).map Task.place

/-- Everybody keeps its place, and whoever is new has that of the server the call starts. -/
structure Places (call : Call) (s s' : Scheduler) : Prop where
  old : ∀ i t, s.tasks i = some t → (s'.tasks i).map Task.place = some t.place
  new : ∀ i t, s.tasks i = none → s'.tasks i = some t →
    ∃ name, call.spawns = some name ∧ t.place = (serverPrios name, none)

section Places

variable {s s' s'' : Scheduler} {call : Call}

theorem SamePlaces.places (h : SamePlaces s s') (call : Call) : Places call s s' := by
  refine ⟨fun i t ht => ?_, fun i t hnone ht => ?_⟩
  · rw [h i, ht]
    rfl
  · have hi := h i
    rw [hnone, ht] at hi
    cases hi

theorem Places.trans (h : Places call s s') (h' : Places call s' s'') : Places call s s'' := by
  have hold : ∀ i t, s'.tasks i = some t → ∀ u, s''.tasks i = some u → u.place = t.place := by
    intro i t ht u hu
    have hi := h'.old i t ht
    rw [hu] at hi
    exact Option.some.inj hi
  refine ⟨fun i t ht => ?_, fun i u hnone hu => ?_⟩
  · obtain ⟨t', ht', hp⟩ := Option.map_eq_some_iff.mp (h.old i t ht)
    rw [h'.old i t' ht', hp]
  · cases hs : s'.tasks i with
    | none => exact h'.new i u hs hu
    | some t =>
      obtain ⟨name, hcall, hp⟩ := h.new i t hnone hs
      exact ⟨name, hcall, (hold i t hs u hu).trans hp⟩

theorem Places.prioAt (h : Places call s s') {i : Slot} {t : Task} (ht : s.tasks i = some t) :
    s'.prioAt i = s.prioAt i := by
  obtain ⟨t', ht', hp⟩ := Option.map_eq_some_iff.mp (h.old i t ht)
  rw [Scheduler.prioAt, ht', Scheduler.prioAt, ht]
  exact congrArg Prod.fst hp

end Places

/-- A user task may run on every CPU. -/
def Unpinned (s : Scheduler) : Prop :=
  ∀ i t, IsUser i → s.tasks i = some t → t.cpuAffinity = none

theorem Unpinned.places {s s' : Scheduler} {call : Call} (h : Unpinned s) (hp : Places call s s') :
    Unpinned s' := by
  intro i t hi ht
  cases hs : s.tasks i with
  | none =>
    obtain ⟨name, -, hplace⟩ := hp.new i t hs ht
    exact congrArg Prod.snd hplace
  | some u =>
    have hold := hp.old i u hs
    rw [ht] at hold
    have hplace : t.place = u.place := Option.some.inj hold
    exact (congrArg Prod.snd hplace).trans (h i u hi hs)

theorem Unpinned.same {s s' : Scheduler} (h : Unpinned s) (hs : SamePlaces s s') : Unpinned s' :=
  h.places (hs.places .log)

namespace Kernel

section Bodies

variable {b : Board} {k k' : Kernel} {c : Cpu} {call : Call}

/-- What the body of a call does to the table is made of a few moves: those of the two IPC calls, a
window registered, a task killed, a server started. -/
theorem Scheduled.body_rel {R : Scheduler → Scheduler → Prop} (h : Scheduled k)
    (hrefl : ∀ s, R s s) (htrans : ∀ s s' s'', R s s' → R s' s'' → R s s'')
    (hsend : ∀ dst msg r, (sysSend k.sched (k.cur c) dst msg).ret = some r →
      R k.sched (sysSend k.sched (k.cur c) dst msg).sched)
    (hreceive : ∀ filter out r, (sysReceive k.sched (k.cur c) filter out).ret = some r →
      R k.sched (sysReceive k.sched (k.cur c) filter out).sched)
    (hregions : ∀ rs, R k.sched (k.sched.modify (k.cur c) (Task.setRegions rs)))
    (hkills : ∀ {k₁ : Kernel} {id : UInt32} {i : Slot}, Kills b k c id i k₁ → R k.sched k₁.sched)
    (hspawns : ∀ {k₁ k₂ : Kernel} {name : String}, call.spawns = some name → Spawns b k₁ name k₂ →
      R k₁.sched k₂.sched)
    (hb : Body b k c call k') : R k.sched k'.sched := by
  cases hb.does with
  | quiet => exact hrefl _
  | send dst msg r hr => exact hsend dst msg r hr
  | receive filter out r hr => exact hreceive filter out r hr
  | regions _ _ rs => exact hregions rs
  | kills _ _ _ _ hk => exact hkills hk
  | spawns _ _ _ hcall _ hs => exact hspawns hcall (spawnByName_ok h.sound.freshId hs)
  | respawns _ _ _ _ _ hk hs =>
    have hfresh := (h.of_kills hk).sound.freshId
    exact htrans _ _ _ (hkills hk) (hspawns rfl (spawnByName_ok hfresh hs))

theorem Kills.samePlaces {id : UInt32} {i : Slot} (hk : Kills b k c id i k') :
    SamePlaces k.sched k'.sched := by
  cases hk with
  | freed | kept => exact map_modify (f := Task.killed _) fun _ => rfl

theorem Spawns.places {name : String} (hs : Spawns b k name k') (hcall : call.spawns = some name) :
    Places call k.sched k'.sched := by
  cases hs with
  | refused => exact SamePlaces.places (fun _ => rfl) call
  | spawned ram j ttbr0 bootPage rs hj =>
    obtain ⟨-, hnone⟩ := freeSlot_some hj
    refine ⟨fun i t ht => ?_, fun i t hi ht => ?_⟩
    · rw [spawnedAt_old hnone _ ht]
      rfl
    · rcases eq_or_ne i j with rfl | hij
      · have hnew : t = _ := Option.some.inj (ht.symm.trans (spawnedAt_tasks_same k.sched i _))
        rw [hnew]
        exact ⟨name, hcall, rfl⟩
      · have hold := ht.symm.trans (spawnedAt_tasks_ne k.sched _ hij)
        rw [hi] at hold
        cases hold

theorem Scheduled.places (h : Scheduled k) (hb : Body b k c call k') :
    Places call k.sched k'.sched :=
  h.body_rel (fun _ => SamePlaces.places (fun _ => rfl) call) (fun _ _ _ => Places.trans)
    (fun dst msg _ _ => SamePlaces.places (untouched_place.map_sysSend k.sched _ dst msg) call)
    (fun filter out _ _ => SamePlaces.places (untouched_place.map_sysReceive k.sched _ filter out) call)
    (fun rs => SamePlaces.places (map_modify (f := Task.setRegions rs) fun _ => rfl) call)
    (fun hk => hk.samePlaces.places call) (fun hcall hs => hs.places hcall) hb

theorem Parks.samePlaces {pc : Resume} (hp : Parks k c call k' pc) : SamePlaces k.sched k'.sched := by
  cases hp with
  | send dst msg => exact untouched_place.map_sysSend k.sched _ dst msg
  | receive filter out => exact untouched_place.map_sysReceive k.sched _ filter out
  | sleep ms => exact map_modify (f := Task.sleepUntil _) fun _ => rfl
  | exit => exact map_modify (fun t => untouched_place.state t .zombie)

end Bodies

theorem stable_unpinned : Stable fun s _ => Unpinned s where
  hint := fun _ _ _ h => h
  state := fun s _ i st _ h => h.same (map_modify (fun t => untouched_place.state t st))
  wake := fun s _ now h => h.same (map_wakeSleepers (fun _ => rfl) now)
  inert := by
    intro s _ i f hf h
    cases hf with
    | ctx ctx => exact h.same (map_modify (f := Task.saveCtx ctx) fun _ => rfl)
    | irqWait irq => exact h.same (map_modify (f := Task.setIrqWait irq) fun _ => rfl)
    | deadline => exact h.same (map_modify (f := Task.clearDeadline) fun _ => rfl)

theorem Scheduled.unpinned_step {b : Board} {k k' : Kernel} {e : Event} (h : Scheduled k)
    (hu : Unpinned k.sched) (hs : Step b k e k') : Unpinned k'.sched := by
  refine stable_step (P := fun s _ => Unpinned s) stable_unpinned ?_ hs
  exact
    { rest := fun _ => hu
      body := fun _ _ _ _ hb => hu.places (h.places hb)
      parks := fun _ _ _ _ _ hp => hu.same hp.samePlaces
      faults := fun _ _ _ => hu.same (map_modify (f := Task.faulted) fun _ => rfl)
      repairs := fun _ _ _ => hu }

end Kernel

/-! ## Who is Blocked -/

/-- The Blocked slots of `s'` are Blocked in `s`. -/
def NoneBlocked (s s' : Scheduler) : Prop :=
  ∀ i, s'.stateIs i .blocked = true → s.stateIs i .blocked = true

section NoneBlocked

variable {s s' : Scheduler}

theorem NoneBlocked.refl (s : Scheduler) : NoneBlocked s s :=
  fun _ => id

variable (s)

/-- A write that blocks nobody. -/
theorem noneBlocked_modify (j : Slot) {f : Task → Task}
    (hf : ∀ t, (f t).state = .blocked → t.state = .blocked) : NoneBlocked s (s.modify j f) :=
  fun _ => stateIs_of_modify hf

theorem noneBlocked_keep (j : Slot) {f : Task → Task} (hf : ∀ t, (f t).state = t.state) :
    NoneBlocked s (s.modify j f) :=
  noneBlocked_modify s j fun t h => (hf t).symm.trans h

variable {s}

theorem noneBlocked_spawnedAt {i : Slot} (hi : s.tasks i = none) {t : Task} (ht : t.state ≠ .blocked) :
    NoneBlocked s (spawnedAt s i t) := by
  intro j hj
  obtain ⟨u, hu, hst⟩ := stateIs_iff.mp hj
  rcases eq_or_ne j i with rfl | hji
  · rw [spawnedAt_tasks_same] at hu
    cases hu
    exact absurd hst ht
  · rw [spawnedAt_tasks_ne s t hji] at hu
    exact stateIs_iff.mpr ⟨u, hu, hst⟩

theorem Wakes.noneBlocked (h : Wakes s s') : NoneBlocked s s' := by
  intro i hb
  rcases h i with hsame | ⟨-, hready⟩
  · rw [← hsame]
    exact hb
  · obtain ⟨t, ht, hst⟩ := stateIs_iff.mp hready
    cases hst.symm.trans (state_of_stateIs ht hb)

end NoneBlocked

namespace Kernel

section Blocks

variable {b : Board} {k k' : Kernel} {c : Cpu} {call : Call}

theorem Kills.noneBlocked {id : UInt32} {i : Slot} (hk : Kills b k c id i k') :
    NoneBlocked k.sched k'.sched := by
  cases hk with
  | freed | kept => exact noneBlocked_modify k.sched i (f := Task.killed _) fun _ h => by cases h

theorem Spawns.noneBlocked {name : String} (hs : Spawns b k name k') : NoneBlocked k.sched k'.sched := by
  cases hs with
  | refused => exact .refl _
  | spawned ram j ttbr0 bootPage rs hj =>
    refine noneBlocked_spawnedAt (freeSlot_some hj).2 fun hst => ?_
    have hborn := (newborn_serverTask k.sched.nextId name ttbr0 (b.machine.serverLinkBase name)
      bootPage rs).ready
    rw [hborn] at hst
    cases hst

theorem Scheduled.noneBlocked (h : Scheduled k) (hb : Body b k c call k') :
    NoneBlocked k.sched k'.sched := by
  obtain ⟨me, hme⟩ := h.sound.present c (k.cur c) rfl
  exact h.body_rel NoneBlocked.refl (fun _ _ _ h h' i hi => h i (h' i hi))
    (fun _ _ _ hr => (h.sound.wakes_sysSend hr).noneBlocked)
    (fun _ _ _ hr => (wakes_sysReceive hme hr).noneBlocked)
    (fun rs => noneBlocked_keep k.sched _ (f := Task.setRegions rs) fun _ => rfl)
    (fun hk => hk.noneBlocked) (fun _ hs => hs.noneBlocked) hb

/-- A call that parks its caller ends in a switch. -/
theorem Parks.perform {pc : Resume} (hp : Parks k c call k' pc) :
    k.perform b c call = .ok (k'.switchAway c pc) := by
  cases hp with
  | send dst msg hr =>
    rw [Kernel.perform]
    simp only [afterIpc, hr]
    rfl
  | receive filter out hr =>
    rw [Kernel.perform]
    simp only [afterIpc, hr]
    rfl
  | sleep ms => rfl
  | exit => rfl

end Blocks

/-- The user task that a CPU runs is not Blocked. -/
def Unblocked (k : Kernel) : Prop :=
  ∀ c, IsUser (k.cur c) → k.sched.stateIs (k.cur c) .blocked = false

/-- Whoever is Blocked after a step was so before, or has just parked itself. -/
theorem Scheduled.blocked_step {b : Board} {k k' : Kernel} {e : Event} (h : Scheduled k)
    (hs : Step b k e k') {i : Slot} (hi : k'.sched.stateIs i .blocked = true) :
    k.sched.stateIs i .blocked = true ∨
      ∃ c call k₁ pc, e = .syscall c call ∧ Parks k c call k₁ pc ∧ i = k.cur c := by
  let P : Scheduler → Prop := fun s => s.stateIs i .blocked = true →
    k.sched.stateIs i .blocked = true ∨
      ∃ c call k₁ pc, e = .syscall c call ∧ Parks k c call k₁ pc ∧ i = k.cur c
  have hP : ∀ s s', NoneBlocked s s' → P s → P s' := fun s s' hn hp hi => hp (hn i hi)
  have hstable : Stable fun s _ => P s :=
    { hint := fun _ _ _ hp => hp
      state := fun s _ j st hst hp => by
        refine hP s _ (noneBlocked_modify s j fun _ h => ?_) hp
        rcases hst with rfl | rfl
        · cases h
        · cases h
      wake := fun s _ now hp => hP s _ (fun _ => stateIs_of_wakeSleepers (by decide)) hp
      inert := fun s _ j f hf hp => by
        refine hP s _ (noneBlocked_keep s j ?_) hp
        cases hf <;> exact fun _ => rfl }
  have hnow : P k.sched := Or.inl
  refine stable_step (P := fun s _ => P s) hstable ?_ hs hi
  exact
    { rest := fun _ => hnow
      body := fun _ _ _ _ hb => hP _ _ (h.noneBlocked hb) hnow
      parks := by
        intro c call k₁ pc he hp hi
        rcases eq_or_ne i (k.cur c) with hic | hic
        · exact Or.inr ⟨c, call, k₁, pc, he, hp, hic⟩
        · obtain ⟨me, hme⟩ := h.sound.present c (k.cur c) rfl
          rw [(hp.stops hme).others i hic] at hi
          exact Or.inl hi
      faults := fun c ram _ =>
        hP _ _ (noneBlocked_modify k.sched (k.cur c) (f := Task.faulted) fun _ h => by cases h) hnow
      repairs := fun _ _ _ => hnow }

theorem Scheduled.unblocked_step {b : Board} {k k' : Kernel} {e : Event} (h : Scheduled k)
    (hu : Unblocked k) (hs : Step b k e k') : Unblocked k' := by
  intro c hc
  rw [← Bool.not_eq_true]
  intro hblocked
  -- a slot that is new on its CPU has just been set Running
  have hcur : k'.cur c = k.cur c := by
    rcases eq_or_ne c e.cpu with rfl | hne
    · rcases hs.cur_cases with heq | ⟨-, s, hs⟩
      · exact heq
      · rw [hs, setState_stateIs s _ (by decide)] at hblocked
        cases hblocked
    · exact hs.cur_eq hne
  rcases h.blocked_step hs hblocked with hold | ⟨c', call, k₁, pc, rfl, hp, hcaller⟩
  · rw [hcur] at hold hc
    rw [hu c hc] at hold
    cases hold
  · -- the caller has parked itself, so its CPU has switched
    rw [hcur] at hcaller hc
    obtain rfl := h.exclusive c c' hcaller hc.ne_zero
    obtain ⟨o, ho, rfl⟩ := hs
    simp only [Kernel.critical] at ho
    split at ho
    · rw [hp.perform] at ho
      cases ho
      rw [Event.cpu, Kernel.switchAway, cur_apply_switch] at hblocked
      rw [Kernel.apply, switchTo, setState_stateIs _ _ (by decide)] at hblocked
      cases hblocked
    · cases ho

/-! ## The machine -/

structure Lively (k : Kernel) : Prop extends Scheduled k where
  unpinned : Unpinned k.sched
  unblocked : Unblocked k

theorem Lively.step {b : Board} {k k' : Kernel} {e : Event} (h : Lively k) (hok : HintOk k e)
    (hs : Step b k e k') : Lively k' :=
  ⟨h.toScheduled.step hok hs, h.toScheduled.unpinned_step h.unpinned hs,
    h.toScheduled.unblocked_step h.unblocked hs⟩

theorem Boot.lively {n : Nat} {k : Kernel} (h : Boot n k) : Lively k := by
  refine ⟨h.scheduled, fun i t hi ht => ?_, fun c hc => ?_⟩
  · cases h.slot ht with
    | boot h0 => exact absurd h0 hi.ne_zero
    | idle c _ hidle => exact absurd hidle (hi c)
    | server _ _ _ ht => exact ht.affinity
  · exact absurd (h.cur_zero c) hc.ne_zero

/-- The user task that a CPU runs is Running, or has been killed. -/
theorem Lively.current {k : Kernel} (h : Lively k) {c : Cpu} (hc : IsUser (k.cur c)) :
    k.sched.stateIs (k.cur c) .running = true ∨ k.sched.stateIs (k.cur c) .zombie = true := by
  obtain ⟨t, ht⟩ := h.sound.present c (k.cur c) rfl
  cases hst : t.state with
  | ready => exact absurd rfl (h.sound.ready _ hc (stateIs_iff.mpr ⟨t, ht, hst⟩) c)
  | running => exact Or.inl (stateIs_iff.mpr ⟨t, ht, hst⟩)
  | zombie => exact Or.inr (stateIs_iff.mpr ⟨t, ht, hst⟩)
  | blocked =>
    have hno := h.unblocked c hc
    rw [stateIs_iff.mpr ⟨t, ht, hst⟩] at hno
    cases hno

end Kernel

end Tanix
