/-
# `Tanix.Kernel.Orphans` — senders whose destination has died

A task Blocked in a send has its message in the destination's queue or staged on
itself.  Nothing in the kernel looks for such a sender when the destination dies, and
`task_idx` finds a Zombie like any other task, so a send to a Zombie parks its caller.

`NoOrphan` says that nobody is left like that.  Scheduling keeps it (every write of the
scheduler relents, `Relents`), so do the rendezvous, the spawns and every call but
these two kinds, which the condition `NoneStranded` is about:

    a send            parks its caller with a destination that is alive
    a death           finds nobody Blocked in a send to the task that dies
-/
import Tanix.Kernel.Exclusive
import Tanix.Kernel.Stable

namespace Tanix

open Scheduler

/-- A message of `t` waits for `u`. -/
def Task.SendsTo (t u : Task) : Prop :=
  (∃ q p, u.pendingSenders q = some p ∧ p.src = t.id) ∨
    ∃ st, t.sendFullWait = some st ∧ st.dst = u.id

/-- The message of slot `i` waits in the queue of slot `d`, or is staged for it. -/
def SendsTo (s : Scheduler) (i d : Slot) : Prop :=
  ∃ t u, s.tasks i = some t ∧ s.tasks d = some u ∧ t.SendsTo u

/-- Nobody is Blocked in a send to slot `d`. -/
def Spares (s : Scheduler) (d : Slot) : Prop :=
  ∀ i, s.stateIs i .blocked = true → ¬ SendsTo s i d

/-- No task is Blocked in a send whose destination is a Zombie. -/
def NoOrphan (s : Scheduler) : Prop :=
  ∀ d, s.stateIs d .zombie = true → Spares s d

variable {i d : Slot}

theorem SendsTo.waits {s : Scheduler} (h : SendsTo s i d) : ∃ r, r ≠ .recv ∧ Waits s i r := by
  obtain ⟨t, u, ht, hu, ⟨q, p, hp, hsrc⟩ | ⟨st, hst, -⟩⟩ := h
  · exact ⟨.queued d q, Reason.noConfusion, t, u, p, ht, hu, hp, hsrc⟩
  · refine ⟨.staged, Reason.noConfusion, t, ht, ?_⟩
    rw [Task.waitsOn, hst]
    exact Option.some_ne_none st

/-! ## Writes that only relent -/

/-- The task waits for no new send and is not blocked anew. -/
structure Task.Relents (t t' : Task) : Prop where
  id : t'.id = t.id
  queue : ∀ q p, t'.pendingSenders q = some p → t.pendingSenders q = some p
  staged : ∀ st, t'.sendFullWait = some st → t.sendFullWait = some st
  blocked : t'.state = .blocked → t.state = .blocked

/-- No task of `s'` waits for a send that it does not wait for in `s`. -/
def Relents (s s' : Scheduler) : Prop :=
  ∀ i t', s'.tasks i = some t' → ∃ t, s.tasks i = some t ∧ Task.Relents t t'

variable {f : Task → Task}

section Relents

variable {s s' : Scheduler}

theorem relents_same (t : Task) : Task.Relents t t :=
  ⟨rfl, fun _ _ => id, fun _ => id, id⟩

theorem Relents.of_tasks (h : s'.tasks = s.tasks) : Relents s s' := by
  intro i t ht
  rw [h] at ht
  exact ⟨t, ht, relents_same t⟩

theorem relents_modify (s : Scheduler) (i : Slot) (hf : ∀ t, Task.Relents t (f t)) :
    Relents s (s.modify i f) := by
  intro j t' ht'
  obtain ⟨t, ht, rfl⟩ := modify_some ht'
  refine ⟨t, ht, ?_⟩
  split
  · exact hf t
  · exact relents_same t

theorem Relents.sendsTo (h : Relents s s') (hs : SendsTo s' i d) : SendsTo s i d := by
  obtain ⟨t', u', ht', hu', hsend⟩ := hs
  obtain ⟨t, ht, h₁⟩ := h i t' ht'
  obtain ⟨u, hu, h₂⟩ := h d u' hu'
  refine ⟨t, u, ht, hu, ?_⟩
  rcases hsend with ⟨q, p, hp, hsrc⟩ | ⟨st, hst, hdst⟩
  · exact Or.inl ⟨q, p, h₂.queue q p hp, hsrc.trans h₁.id⟩
  · exact Or.inr ⟨st, h₁.staged st hst, hdst.trans h₂.id⟩

theorem Relents.spares (h : Relents s s') (hd : Spares s d) : Spares s' d := by
  intro i hb hs
  obtain ⟨t', ht', hst⟩ := stateIs_iff.mp hb
  obtain ⟨t, ht, h₁⟩ := h i t' ht'
  exact hd i (stateIs_iff.mpr ⟨t, ht, h₁.blocked hst⟩) (h.sendsTo hs)

/-- Nobody is orphaned by a write that relents and kills nobody. -/
theorem NoOrphan.relents (hn : NoOrphan s) (h : Relents s s')
    (hz : ∀ d, s'.stateIs d .zombie = true → s.stateIs d .zombie = true) : NoOrphan s' :=
  fun d hd => h.spares (hn d (hz d hd))

section

variable (hn : NoOrphan s)

include hn

theorem NoOrphan.modify (i : Slot) (hf : ∀ t, Task.Relents t (f t))
    (hz : ∀ t, (f t).state = .zombie → t.state = .zombie) : NoOrphan (s.modify i f) :=
  hn.relents (relents_modify s i hf) fun _ => stateIs_of_modify hz

theorem NoOrphan.of_tasks (h : s'.tasks = s.tasks) : NoOrphan s' := by
  refine hn.relents (.of_tasks h) fun d hd => ?_
  rw [stateIs, h] at hd
  exact hd

theorem NoOrphan.setState (i : Slot) {st : TaskState} (hst : st = .ready ∨ st = .running) :
    NoOrphan (s.setState i st) := by
  refine hn.modify i (fun t => ⟨rfl, fun _ _ => id, fun _ => id, ?_⟩) fun t => ?_
  · intro (hb : st = .blocked)
    rw [hb] at hst
    rcases hst with h | h <;> cases h
  · intro (hz : st = .zombie)
    rw [hz] at hst
    rcases hst with h | h <;> cases h

theorem NoOrphan.releaseSender (src : UInt32) : NoOrphan (releaseSender s src) := by
  unfold Tanix.releaseSender
  split
  · exact hn
  · split
    · exact hn
    · exact (hn.setState _ (Or.inl rfl)).of_tasks rfl

/-- A death that finds nobody Blocked in a send to the task. -/
theorem NoOrphan.dies {v : Slot} (hf : ∀ t, Task.Relents t (f t)) (hv : Spares s v) :
    NoOrphan (s.modify v f) := by
  intro d hd
  refine (relents_modify s v hf).spares ?_
  rcases eq_or_ne d v with rfl | hdv
  · exact hv
  · rw [stateIs_modify_ne s f _ hdv] at hd
    exact hn d hd

theorem NoOrphan.wakeSleepers (now : Nat) : NoOrphan (s.wakeSleepers now).1 := by
  refine hn.relents (fun i t' ht' => ?_) fun _ => stateIs_of_wakeSleepers (by decide)
  obtain ⟨t, ht, rfl | ⟨rfl, -⟩⟩ := wakeSleepers_some ht'
  · exact ⟨t', ht, relents_same t'⟩
  · exact ⟨t, ht, rfl, fun _ _ => id, fun _ => id, fun hb => by cases hb⟩

end

end Relents

theorem stable_noOrphan : Stable fun s _ => NoOrphan s where
  hint := fun _ _ _ h => h.of_tasks rfl
  state := fun _ _ i _ hst h => h.setState i hst
  wake := fun _ _ now h => h.wakeSleepers now
  inert := by
    intro s _ i f hf h
    refine h.modify i (fun t => ?_) fun t => ?_
    · cases hf <;> exact ⟨rfl, fun _ _ => id, fun _ => id, id⟩
    · cases hf <;> exact id

/-! ## Calls that park their caller, and spawns -/

section Calls

variable {s : Scheduler} {me : Slot}

/-- Blocking a caller that has sent nothing, to somebody who is alive. -/
theorem NoOrphan.block {s' : Scheduler} (hn : NoOrphan s) (hme : ∀ d, ¬ SendsTo s me d)
    (hsend : ∀ i d, SendsTo s' i d → SendsTo s i d ∨ (i = me ∧ s.stateIs d .zombie = false))
    (hblock : ∀ i, s'.stateIs i .blocked = true → s.stateIs i .blocked = true ∨ i = me)
    (hz : ∀ d, s'.stateIs d .zombie = true → s.stateIs d .zombie = true) : NoOrphan s' := by
  intro d hd i hb hs
  rcases hsend i d hs with hold | ⟨-, halive⟩
  · rcases hblock i hb with hb | rfl
    · exact hn d (hz d hd) i hb hold
    · exact hme d hold
  · rw [hz d hd] at halive
    cases halive

theorem blocked_modify (d : Slot) (hd : (s.modify i f).stateIs d .blocked = true) :
    s.stateIs d .blocked = true ∨ d = i := by
  rcases eq_or_ne d i with rfl | hdi
  · exact Or.inr rfl
  · rw [stateIs_modify_ne s f _ hdi] at hd
    exact Or.inl hd

/-- Blocking the caller; what it stages, if anything, is for somebody who is alive. -/
theorem NoOrphan.rest (hn : NoOrphan s) (hme : ∀ d, ¬ SendsTo s me d) (hid : ∀ t, (f t).id = t.id)
    (hq : ∀ t, (f t).pendingSenders = t.pendingSenders)
    (hst : ∀ t st, (f t).sendFullWait = some st → t.sendFullWait = some st ∨
      ∀ d u, s.tasks d = some u → st.dst = u.id → s.stateIs d .zombie = false)
    (hb : ∀ t, (f t).state = .blocked) : NoOrphan (s.modify me f) := by
  refine hn.block hme (fun i d hs => ?_) blocked_modify fun _ => stateIs_of_modify fun t hz => ?_
  · obtain ⟨t', u', ht', hu', hsend⟩ := hs
    obtain ⟨t, ht, rfl⟩ := modify_some ht'
    obtain ⟨u, hu, rfl⟩ := modify_some hu'
    have hkeep : ∀ (j : Slot) (v : Task), (if j = me then f v else v).id = v.id ∧
        (if j = me then f v else v).pendingSenders = v.pendingSenders := by
      intro j v
      split
      · exact ⟨hid v, hq v⟩
      · exact ⟨rfl, rfl⟩
    rw [Task.SendsTo, (hkeep i t).1, (hkeep d u).1, (hkeep d u).2] at hsend
    rcases hsend with hqueue | ⟨st, hst', hdst⟩
    · exact Or.inl ⟨t, u, ht, hu, Or.inl hqueue⟩
    · split at hst'
      · rename_i hi
        refine (hst t st hst').imp (fun hold => ?_) fun halive => ⟨hi, halive d u hu hdst⟩
        exact ⟨t, u, ht, hu, Or.inr ⟨st, hold, hdst⟩⟩
      · exact Or.inl ⟨t, u, ht, hu, Or.inr ⟨st, hst', hdst⟩⟩
  · rw [hb] at hz
    cases hz

/-- What stands in the table once the caller is parked in the queue of slot `d`. -/
theorem parked_some {j : Slot} {q : Fin maxPendingSenders} {p : PendingSend} {t' : Task}
    (h : ((s.modify d (·.park q (some p))).setState me .blocked).tasks j = some t') :
    ∃ t, s.tasks j = some t ∧ t'.id = t.id ∧ t'.sendFullWait = t.sendFullWait ∧
      ∀ q' p', t'.pendingSenders q' = some p' →
        t.pendingSenders q' = some p' ∨ (j = d ∧ p' = p) := by
  obtain ⟨t₁, ht₁, rfl⟩ := modify_some h
  obtain ⟨t, ht, rfl⟩ := modify_some ht₁
  refine ⟨t, ht, ?_, ?_, ?_⟩
  · split <;> split <;> rfl
  · split <;> split <;> rfl
  · intro q' p' hp'
    have hp₁ : (if j = d then t.park q (some p) else t).pendingSenders q' = some p' := by
      rw [← hp']
      split <;> split <;> rfl
    split at hp₁
    · rename_i hj
      change Function.update t.pendingSenders q (some p) q' = some p' at hp₁
      rcases eq_or_ne q' q with rfl | hq
      · rw [Function.update_self] at hp₁
        exact Or.inr ⟨hj, (Option.some.inj hp₁).symm⟩
      · rw [Function.update_of_ne hq] at hp₁
        exact Or.inl hp₁
    · exact Or.inl hp₁

/-- A message queued with somebody who is alive. -/
theorem NoOrphan.queue (hn : NoOrphan s) (hu : s.UniqueIds) (hme : ∀ d, ¬ SendsTo s me d)
    {t₀ : Task} (ht₀ : s.tasks me = some t₀) (halive : s.stateIs d .zombie = false)
    (q : Fin maxPendingSenders) (msg : Message) :
    NoOrphan ((s.modify d (·.park q (some ⟨t₀.id, msg⟩))).setState me .blocked) := by
  refine hn.block hme (fun i d' hs => ?_) (fun i hb => ?_) fun d' hz => ?_
  · obtain ⟨t', u', ht', hu', hsend⟩ := hs
    obtain ⟨t, ht, htid, htst, -⟩ := parked_some ht'
    obtain ⟨u, hu₁, huid, -, huq⟩ := parked_some hu'
    rcases hsend with ⟨q', p', hp', hsrc⟩ | ⟨st, hst, hdst⟩
    · rcases huq q' p' hp' with hp' | ⟨rfl, rfl⟩
      · exact Or.inl ⟨t, u, ht, hu₁, Or.inl ⟨q', p', hp', hsrc.trans htid⟩⟩
      · exact Or.inr ⟨hu i me t t₀ ht ht₀ (htid.symm.trans hsrc.symm), halive⟩
    · exact Or.inl ⟨t, u, ht, hu₁, Or.inr ⟨st, htst ▸ hst, hdst.trans huid⟩⟩
  · refine (blocked_modify i hb).imp (fun hb => ?_) id
    rw [stateIs_modify_keep s d i (f := (·.park q _)) fun _ => rfl] at hb
    exact hb
  · have hz' := stateIs_of_modify (fun t h => by cases h) hz
    rw [stateIs_modify_keep s d d' (f := (·.park q _)) fun _ => rfl] at hz'
    exact hz'

theorem NoOrphan.spawned (hn : NoOrphan s) {t : Task} (ht : Newborn t) :
    NoOrphan (spawnedAt s i t) := by
  intro d hd j hb hs
  obtain ⟨u, hu, hz⟩ := stateIs_iff.mp hd
  obtain ⟨v, hv, hblocked⟩ := stateIs_iff.mp hb
  obtain ⟨v', u', hv', hu', hsend⟩ := hs
  rw [hu] at hu'
  cases hu'
  rw [hv] at hv'
  cases hv'
  rcases spawnedAt_some hu with ⟨-, rfl⟩ | ⟨-, hu⟩
  · rw [ht.ready] at hz
    cases hz
  · rcases spawnedAt_some hv with ⟨-, rfl⟩ | ⟨-, hv⟩
    · rw [ht.ready] at hblocked
      cases hblocked
    · exact hn d (stateIs_iff.mpr ⟨u, hu, hz⟩) j (stateIs_iff.mpr ⟨v, hv, hblocked⟩)
        ⟨v, u, hv, hu, hsend⟩

end Calls

/-! ## Steps -/

/-- The task a send names. -/
def Call.destination : Call → Option UInt32
  | .send dst _ => some dst
  | _ => none

namespace Kernel

/-- A send names a task that is alive, or the caller itself, which is refused. -/
def SendsAlive (k : Kernel) : Event → Prop
  | .syscall c call => ∀ dst, call.destination = some dst → dst ≠ k.sched.idAt (k.cur c) →
      ∀ d, k.sched.taskIdx dst = some d → k.sched.stateIs d .zombie = false
  | _ => True

structure NoneStranded (k : Kernel) (e : Event) : Prop where
  hint : HintOk k e
  sends : SendsAlive k e
  deaths : ∀ v, Marks k e v → Spares k.sched v

section Steps

variable {b : Board} {k k' : Kernel} {c : Cpu} {call : Call}

theorem noOrphan_kills {pid : UInt32} {i : Slot} (hn : NoOrphan k.sched)
    (hv : ∀ v, k.sched.taskIdx pid = some v → Spares k.sched v) (hk : Kills b k c pid i k') :
    NoOrphan k'.sched := by
  have hdies : ∀ freed, k.sched.taskIdx pid = some i →
      NoOrphan (k.sched.modify i (Task.killed freed)) := fun freed hi =>
    hn.dies (fun t => ⟨rfl, fun _ _ => id, fun _ => id, fun hb => by cases hb⟩) (hv i hi)
  cases hk with
  | freed _ hi => exact hdies true hi
  | kept hi => exact hdies false hi

theorem noOrphan_spawns {name : String} (hn : NoOrphan k.sched) (hs : Spawns b k name k') :
    NoOrphan k'.sched := by
  cases hs with
  | refused => exact hn
  | spawned => exact hn.spawned (newborn_serverTask _ _ _ _ _ _)

theorem Scheduled.noOrphan_body (h : Scheduled k) (hn : NoOrphan k.sched)
    (hg : NoneStranded k (.syscall c call)) (hb : Body b k c call k') : NoOrphan k'.sched := by
  cases hb.does with
  | quiet => exact hn
  | send dst msg r hr =>
    have hstep := sysSend_step k.sched (k.cur c) dst msg
    generalize sysSend k.sched (k.cur c) dst msg = o at hr hstep
    cases hstep with
    | self | noTask => exact hn
    | rendezvous d t =>
      refine (hn.modify d (f := Task.delivered) (fun t => ?_) fun t hz => ?_).of_tasks rfl
      · exact ⟨rfl, fun _ _ => id, fun _ => id, fun hb => by cases hb⟩
      · cases hz
    | queued | staged => cases hr
  | receive filter out r hr =>
    obtain ⟨t, ht⟩ := h.sound.present c (k.cur c) rfl
    have hstep := sysReceive_step ht filter out
    generalize sysReceive k.sched (k.cur c) filter out = o at hr hstep
    cases hstep with
    | parked q p =>
      refine (hn.modify (k.cur c) (f := (·.park q none)) (fun t => ?_) fun t => id).releaseSender _
      refine ⟨rfl, fun q' p' hp' => ?_, fun _ => id, id⟩
      change Function.update t.pendingSenders q none q' = some p' at hp'
      rcases eq_or_ne q' q with rfl | hq
      · rw [Function.update_self] at hp'
        cases hp'
      · rwa [Function.update_of_ne hq] at hp'
    | unstaged j u st =>
      refine (hn.modify j (f := Task.unstage) (fun t => ?_) fun t hz => ?_).of_tasks rfl
      · exact ⟨rfl, fun _ _ => id, fun st hst => (by cases hst), fun hb => by cases hb⟩
      · cases hz
    | block => cases hr
  | regions => exact hn.modify _ (fun t => ⟨rfl, fun _ _ => id, fun _ => id, id⟩) fun t => id
  | kills _ id i hv hkill => exact noOrphan_kills hn (fun v hi => hg.deaths v (Or.inr ⟨id, hv, hi⟩)) hkill
  | spawns _ _ _ _ _ hs => exact noOrphan_spawns hn (spawnByName_ok h.sound.freshId hs)
  | respawns _ id i _ hv hkill hs =>
    have hn₁ := noOrphan_kills hn (fun v hi => hg.deaths v (Or.inr ⟨id, hv, hi⟩)) hkill
    exact noOrphan_spawns hn₁ (spawnByName_ok (h.of_kills hkill).sound.freshId hs)

theorem Scheduled.noOrphan_parks (h : Scheduled k) (hn : NoOrphan k.sched)
    (hg : NoneStranded k (.syscall c call)) {pc : Resume} (hp : Parks k c call k' pc) :
    NoOrphan k'.sched := by
  have hme (d : Slot) : ¬ SendsTo k.sched (k.cur c) d := by
    intro hs
    obtain ⟨r, -, hr⟩ := hs.waits
    exact h.sound.current_awake (c := c) rfl r hr
  obtain ⟨t, ht⟩ := h.sound.present c (k.cur c) rfl
  cases hp with
  | send dst msg hr =>
    have hstep := sysSend_step k.sched (k.cur c) dst msg
    generalize sysSend k.sched (k.cur c) dst msg = o at hr hstep
    cases hstep with
    | self | noTask | rendezvous => cases hr
    | queued d u q hne hd hu =>
      rw [idAt_eq ht]
      exact hn.queue h.sound.ids hme ht (hg.sends dst rfl hne d hd) q msg
    | staged d u hne hd hu hid =>
      refine hn.rest hme (fun _ => rfl) (fun _ => rfl) (fun _ st hst => Or.inr ?_) fun _ => rfl
      rintro d' u' hu' hdst
      cases hst
      obtain rfl := h.sound.ids d d' u u' hu hu' (hid.trans hdst)
      exact hg.sends dst rfl hne d hd
  | receive filter out hr =>
    have hstep := sysReceive_step ht filter out
    generalize sysReceive k.sched (k.cur c) filter out = o at hr hstep
    cases hstep with
    | parked | unstaged => cases hr
    | block =>
      exact hn.rest hme (fun _ => rfl) (fun _ => rfl) (fun _ _ => Or.inl) fun _ => rfl
  | sleep ms =>
    exact hn.rest hme (fun _ => rfl) (fun _ => rfl) (fun _ _ => Or.inl) fun _ => rfl
  | exit =>
    refine hn.dies (fun t => ⟨rfl, fun _ _ => id, fun _ => id, fun hb => by cases hb⟩) ?_
    exact hg.deaths _ (Or.inl ⟨rfl, rfl⟩)

theorem Scheduled.noOrphan_step (h : Scheduled k) (hn : NoOrphan k.sched) {e : Event}
    (hg : NoneStranded k e) (hs : Step b k e k') : NoOrphan k'.sched := by
  refine stable_step stable_noOrphan ⟨fun _ => hn, ?_, ?_, ?_, fun _ _ _ => hn⟩ hs
  · rintro c call k₁ rfl hb
    exact h.noOrphan_body hn hg hb
  · rintro c call k₁ pc rfl hp
    exact h.noOrphan_parks hn hg hp
  · intro c ram hf
    refine hn.dies (fun t => ⟨rfl, fun _ _ => id, fun _ => id, fun hb => by cases hb⟩) ?_
    exact hg.deaths _ (hf.marks_iff.mpr rfl)

end Steps

theorem Boot.noOrphan {n : Nat} {k : Kernel} (h : Boot n k) : NoOrphan k.sched := by
  intro d _ i _ hs
  obtain ⟨r, hne, hr⟩ := hs.waits
  exact hne (h.waits hr).1

/-! ## Runs -/

/-- Along every run from boot of steps that strand nobody, no task is Blocked in a send to a
Zombie. -/
theorem no_orphaned_senders {b : Board} {n : Nat} {k₀ k : Kernel} {es : List Event}
    (hboot : Boot n k₀) (hrun : LTS.Run (LTS.guarded (Step b) NoneStranded) k₀ es k) :
    NoOrphan k.sched := by
  refine (hrun.invariant_guarded (I := fun k => Scheduled k ∧ NoOrphan k.sched) ?_
    ⟨hboot.scheduled, hboot.noOrphan⟩).2
  rintro k₁ e k₂ ⟨hs, hn⟩ hg hst
  exact ⟨hs.step hg.hint hst, hs.noOrphan_step hn hg hst⟩

instance (t u : Task) : Decidable (t.SendsTo u) :=
  inferInstanceAs (Decidable ((∃ q, ∃ p ∈ u.pendingSenders q, p.src = t.id) ∨
    ∃ st ∈ t.sendFullWait, st.dst = u.id))

instance (s : Scheduler) (i d : Slot) : Decidable (SendsTo s i d) :=
  decidable_of_iff (∃ t ∈ s.tasks i, ∃ u ∈ s.tasks d, t.SendsTo u)
    ⟨fun ⟨t, ht, u, hu, h⟩ => ⟨t, u, ht, hu, h⟩, fun ⟨t, u, ht, hu, h⟩ => ⟨t, ht, u, hu, h⟩⟩

instance (s : Scheduler) (d : Slot) : Decidable (Spares s d) :=
  inferInstanceAs (Decidable (∀ i, s.stateIs i .blocked = true → ¬ SendsTo s i d))

instance (k : Kernel) (e : Event) : Decidable (SendsAlive k e) :=
  match e with
  | .syscall c call =>
    -- by the one destination there may be, not by a search through all ids
    Option.decidableForallMem (p := fun dst => dst ≠ k.sched.idAt (k.cur c) →
      ∀ d, k.sched.taskIdx dst = some d → k.sched.stateIs d .zombie = false) call.destination
  | .enter | .idle _ | .tick _ | .abort _ _ _ | .fault _ | .irq _ _ | .wake _ | .restore _ =>
    inferInstanceAs (Decidable True)

/-- The step function, for the steps that meet the condition. -/
def nextNoneStranded (b : Board) (k : Kernel) (e : Event) : Option Kernel :=
  if HintOk k e ∧ SendsAlive k e ∧ ∀ v, Marks k e v → Spares k.sched v then k.next b e else none

/-- `ping` kills `net` and then waits in a send to `pong`. -/
theorem no_orphaned_senders_ping : ∃ k, LTS.Run (LTS.guarded (Step bareBoard) NoneStranded) sbsaBoot
      (fourServers ++ [.restore 1, .syscall 1 (.exitTask 6),
        .syscall 1 (.send 9 ⟨0, 1, Vector.replicate 8 0⟩)]) k ∧
    k.sched.stateIs 6 .zombie = true ∧ k.sched.stateIs 8 .blocked = true ∧ SendsTo k.sched 8 9 ∧
    NoOrphan k.sched := by
  have hstep {k k' e} (h : nextNoneStranded bareBoard k e = some k') :
      LTS.guarded (Step bareBoard) NoneStranded k e k' := by
    obtain ⟨hc, h⟩ := Option.ite_none_right_eq_some.mp h
    exact ⟨⟨hc.1, hc.2.1, hc.2.2⟩, step_iff_next.mpr h⟩
  obtain ⟨k, hrun, hz, hb, hsends⟩ := LTS.Run.exists_of_exec (nextNoneStranded bareBoard) hstep sbsaBoot
    (fourServers ++ [.restore 1, .syscall 1 (.exitTask 6),
      .syscall 1 (.send 9 ⟨0, 1, Vector.replicate 8 0⟩)])
    (fun k => k.sched.stateIs 6 .zombie ∧ k.sched.stateIs 8 .blocked ∧ SendsTo k.sched 8 9)
    (by decide +kernel)
  exact ⟨k, hrun, hz, hb, hsends, no_orphaned_senders boot_sbsaBoot hrun⟩

/-- `net` sends to `init`, which has exited: it waits in the queue of a Zombie. -/
theorem send_to_zombie_parks : ¬ ∀ (b : Board) (n : Nat) (k₀ k : Kernel) (es : List Event),
    Boot n k₀ → LTS.Run (Step b) k₀ es k → NoOrphan k.sched := by
  intro hall
  obtain ⟨k, hrun, hz, hb, hsends⟩ := LTS.Run.exists_of_exec (next bareBoard) step_iff_next.mpr sbsaBoot
    [.enter, .restore 0, .syscall 0 (.send 1 ⟨0, 1, Vector.replicate 8 0⟩)]
    (fun k => k.sched.stateIs 1 .zombie ∧ k.sched.stateIs 6 .blocked ∧ SendsTo k.sched 6 1)
    (by decide +kernel)
  exact hall bareBoard 10 sbsaBoot k _ boot_sbsaBoot hrun 1 hz 6 hb hsends

end Kernel

end Tanix
