/-
# `Tanix.Sched.Moves` — the operations of the kernel keep the table sound

One lemma for each operation that the kernel performs on the task table, over
`Sound` of `Tanix.Sched.Sound`:

    killed, faulted, exit      a Zombie, wherever it runs
    sysSend, sysReceive        with the caller still current when they return, and
                               with its CPU between two tasks when they park it
    sleepUntil                 the same, parked
    wakeSleepers               every expired deadline
    spawnServer                a new task in an empty slot

Besides, each call that returns leaves a wake hint that is no worse than the one it
found (`Hinted`).
-/
import Tanix.Sched.Sound
import Tanix.Server

namespace Tanix

open Scheduler

variable {s : Scheduler} {cur : Cpu → Option Slot}

variable {s' : Scheduler}

/-- The wake hint is not part of the picture. -/
theorem Sound.of_tasks (h : Sound s cur) (ht : s'.tasks = s.tasks) (hn : s'.nextId = s.nextId) :
    Sound s' cur := by
  have hw : ∀ i r, Waits s' i r → Waits s i r := by
    intro i r
    cases r <;> simp only [Waits, ht] <;> exact id
  have hst : ∀ i st, s'.stateIs i st = s.stateIs i st := by
    intro i st
    rw [stateIs, stateIs, ht]
  refine h.change ⟨fun i => by rw [ht], fun i => by rw [ht], hn⟩ ?_ ?_
    (fun i r hwi => .inl ⟨hw i r hwi, .congr (hst i)⟩) ?_
  · rw [Sources, ht]
    exact h.sources
  · intro i
    rw [hst]
    exact h.ready i
  · rw [ht]
    exact h.saved

theorem Sound.setWoken (h : Sound s cur) (i : Slot) : Sound (s.setWoken i) cur :=
  h.of_tasks rfl rfl

theorem Sound.takeWoken (h : Sound s cur) : Sound s.takeWoken cur :=
  h.of_tasks rfl rfl

/-! ## Dying -/

theorem Sound.killed (h : Sound s cur) (i : Slot) (freed : Bool) :
    Sound (s.modify i (Task.killed freed)) cur :=
  h.die (f := Task.killed freed) ⟨fun _ => rfl, fun _ => rfl, fun _ => rfl⟩ (fun _ => rfl) (fun _ => rfl)
    (fun _ => rfl) (fun t r => by cases r <;> simp [Task.killed, Task.waitsOn])

theorem Sound.faulted (h : Sound s cur) (i : Slot) : Sound (s.modify i Task.faulted) cur :=
  h.die (f := Task.faulted) ⟨fun _ => rfl, fun _ => rfl, fun _ => rfl⟩ (fun _ => rfl) (fun _ => rfl)
    (fun _ => rfl) (fun t r => by cases r <;> simp [Task.faulted, Task.waitsOn])

variable {c : Cpu} {me i j d : Slot}

/-- `exit_current`: the caller's CPU is between two tasks, and the caller is a Zombie. -/
theorem Sound.exit (h : Sound s cur) (hc : cur c = some me) (h0 : me ≠ 0) :
    Sound (s.setState me .zombie) (Function.update cur c none) :=
  (h.release c).setState .zombie (fun _ => h.quiet_release hc h0) (h.current_awake hc)

/-! ## Sending and receiving -/

theorem modify_comm (s : Scheduler) (f g : Task → Task) (hij : i ≠ j) :
    (s.modify i f).modify j g = (s.modify j g).modify i f := by
  unfold Scheduler.modify
  congr 1
  funext k
  by_cases hki : k = i
  · subst hki
    simp [hij]
  · by_cases hkj : k = j
    · subst hkj
      simp [hki]
    · simp [hki, hkj]

/-- `deliver` releases its receiver. -/
theorem Sound.delivered (h : Sound s cur) (hd : Waits s d .recv) :
    Sound (s.modify d Task.delivered) cur :=
  h.lose (f := Task.delivered) not_isQueued_recv ⟨fun _ => rfl, fun _ => rfl, fun _ => rfl⟩ (fun _ => rfl)
    (fun t r => by cases r <;> simp [Task.delivered, Task.waitsOn]) hd

theorem Sound.unstage (h : Sound s cur) (hj : Waits s j .staged) :
    Sound (s.modify j Task.unstage) cur :=
  h.lose (f := Task.unstage) not_isQueued_staged ⟨fun _ => rfl, fun _ => rfl, fun _ => rfl⟩ (fun _ => rfl)
    (fun t r => by cases r <;> simp [Task.unstage, Task.waitsOn]) hj

variable {t u : Task} {f : Task → Task}

section

variable (h : Sound s cur)

include h

/-- The three ways to park that write the caller's own block. -/
theorem Sound.parked_self {r₀ : Reason} (hc : cur c = some me) (hu : IsUser me)
    (ht : s.tasks me = some t) (hr₀ : ¬ r₀.IsQueued) (hf : Static f)
    (hq : ∀ t, (f t).pendingSenders = t.pendingSenders)
    (hgain : ∀ t r, (f t).waitsOn r ↔ t.waitsOn r ∨ r = r₀) (hst : ∀ t, (f t).state = .blocked) :
    Sound (s.modify me f) (Function.update cur c none) :=
  (h.release c).gain hr₀ hf hq hgain hst ht hu (h.quiet_release hc hu.ne_zero)
    (h.current_awake hc)

theorem Sound.sleepUntil (hc : cur c = some me) (hu : IsUser me) (ht : s.tasks me = some t)
    {deadline : Nat} (hd : deadline ≠ 0) :
    Sound (s.modify me (Task.sleepUntil deadline)) (Function.update cur c none) :=
  h.parked_self (f := Task.sleepUntil deadline) hc hu ht not_isQueued_sleep
    ⟨fun _ => rfl, fun _ => rfl, fun _ => rfl⟩ (fun _ => rfl)
    (fun t r => by cases r <;> simp [Task.sleepUntil, Task.waitsOn, hd]) (fun _ => rfl)

/-- A quiet, Blocked user slot with nothing to wait for gets a place in a queue. -/
theorem Sound.park {q : Fin maxPendingSenders} (hu : IsUser me) (hquiet : Quiet cur me)
    (hno : ∀ r, ¬ Waits s me r) (ht : s.tasks me = some t) (hb : t.state = .blocked)
    (hd : s.tasks d = some u) (hq : u.pendingSenders q = none) (msg : Message) :
    Sound (s.modify d (·.park q (some ⟨t.id, msg⟩))) cur := by
  have hw := waits_park_some h.ids hd hq ht msg
  have hst : ∀ i st, (s.modify d (·.park q (some ⟨t.id, msg⟩))).stateIs i st = s.stateIs i st :=
    fun i => stateIs_modify_keep s d i fun _ => rfl
  refine h.modify ⟨fun _ => rfl, fun _ => rfl, fun _ => rfl⟩ ?_ ?_ ?_
  · refine Sources.modify h.sources fun _ _ _ hp => ?_
    exact (Task.park_entry hp).symm.imp_right fun ho => ⟨me, t, ht, by cases ho; rfl⟩
  · intro hdu hr
    rw [hst] at hr
    exact h.ready d hdu hr
  · intro i r hwi
    rcases (hw i r).mp hwi with old | ⟨rfl, rfl⟩
    · exact .inl ⟨old, .congr (hst i)⟩
    · refine .inr ⟨hu, .congr (hst i) (Or.inl (stateIs_iff.mpr ⟨t, ht, hb⟩)), hquiet, fun r' hw' => ?_⟩
      exact (((hw i r').mp hw').resolve_left (hno r')).2

/-- Taking a message out of a queue. -/
theorem Sound.unpark (me : Slot) (q : Fin maxPendingSenders) :
    Sound (s.modify me (·.park q none)) cur := by
  have hw := waits_park_none (s := s) (k := me) q
  have hst : ∀ i st, (s.modify me (·.park q none)).stateIs i st = s.stateIs i st :=
    fun i => stateIs_modify_keep s me i fun _ => rfl
  refine h.modify ⟨fun _ => rfl, fun _ => rfl, fun _ => rfl⟩ ?_ ?_
    fun i r hwi => .inl ⟨((hw i r).mp hwi).1, .congr (hst i)⟩
  · refine Sources.modify h.sources fun _ _ _ hp => ?_
    exact (Task.park_entry hp).symm.imp_right fun ho => by cases ho
  · intro hu hr
    rw [hst] at hr
    exact h.ready me hu hr

end

/-! ## The two calls -/

variable (s)

/-- A hint that `reschedule` would follow from slot `me` names a Ready slot. -/
def GoodHint (me : Slot) : Prop :=
  ∀ w, s.woken = some w → s.prioAt w < s.prioAt me → s.stateIs w .ready = true

/-- The hint names a user slot. -/
def UserHint : Prop :=
  ∀ w, s.woken = some w → IsUser w

/-- The hint left behind is no worse than the one found. -/
structure Hinted (s s' : Scheduler) (me : Slot) : Prop where
  user : UserHint s → UserHint s'
  good : GoodHint s me → GoodHint s' me

theorem Hinted.refl (me : Slot) : Hinted s s me :=
  ⟨id, id⟩

variable {s}

theorem Hinted.trans {s'' : Scheduler} (h : Hinted s s' me) (h' : Hinted s' s'' me) :
    Hinted s s'' me :=
  ⟨h'.user ∘ h.user, h'.good ∘ h.good⟩

/-- A new hint on a Ready user slot. -/
theorem Hinted.new {w : Slot} (hw : s'.woken = some w) (hu : IsUser w)
    (hr : s'.stateIs w .ready = true) : Hinted s s' me := by
  constructor
  · intro _ w' hw'
    rw [hw] at hw'
    cases hw'
    exact hu
  · intro _ w' hw' _
    rw [hw] at hw'
    cases hw'
    exact hr

/-- The old hint, where it was good. -/
theorem Hinted.old (hw : s'.woken = s.woken) (hprio : ∀ i, s'.prioAt i = s.prioAt i) (hr : ∀ w,
    s.woken = some w → s.prioAt w < s.prioAt me → s.stateIs w .ready = true → s'.stateIs w .ready =
    true) : Hinted s s' me := by
  constructor
  · intro hu w hw'
    rw [hw] at hw'
    exact hu w hw'
  · intro hg w hw' hlt
    rw [hw] at hw'
    rw [hprio, hprio] at hlt
    exact hr w hw' hlt (hg w hw' hlt)

/-- A slot just made Ready is a good hint. -/
theorem Hinted.woke (hu : IsUser i) (ht : s.tasks i = some t) (hf : (f t).state = .ready) :
    Hinted s ((s.modify i f).setWoken i) me := by
  refine Hinted.new rfl hu ?_
  rw [stateIs_setWoken, stateIs_modify_same ht, hf]
  rfl

theorem prioAt_modify (s : Scheduler) (k : Slot) (hf : ∀ t, (f t).priority = t.priority)
    (i : Slot) : (s.modify k f).prioAt i = s.prioAt i := by
  rw [prioAt, prioAt, map_modify hf]

theorem Sound.sysSend_returns (h : Sound s cur) (me : Slot) (dst : UInt32) (msg : Message)
    {r : Int32} (hr : (sysSend s me dst msg).ret = some r) :
    Sound (sysSend s me dst msg).sched cur ∧ Hinted s (sysSend s me dst msg).sched me := by
  have hstep := sysSend_step s me dst msg
  generalize sysSend s me dst msg = o at hstep hr ⊢
  cases hstep with
  | self | noTask => exact ⟨h, Hinted.refl s me⟩
  | rendezvous d t _ _ ht _ hrecv _ =>
    have hw : Waits s d .recv := ⟨t, ht, hrecv⟩
    exact ⟨(h.delivered hw).setWoken d,
      Hinted.woke (f := Task.delivered) (h.waits d _ hw).1 ht rfl⟩
  | queued | staged => cases hr

theorem Sound.sysSend_parks (h : Sound s cur) (hc : cur c = some me) (hu : IsUser me)
    (dst : UInt32) (msg : Message) (hr : (sysSend s me dst msg).ret = none) :
    Sound (sysSend s me dst msg).sched (Function.update cur c none) := by
  obtain ⟨t, ht⟩ := h.present c me hc
  have hid := idAt_eq ht
  have hstep := sysSend_step s me dst msg
  generalize sysSend s me dst msg = o at hstep hr ⊢
  cases hstep with
  | self | noTask | rendezvous => cases hr
  | queued d u q hne _ hd hdid _ hq =>
    have hdm : d ≠ me := by
      rintro rfl
      rw [hd] at ht
      cases ht
      exact hne (hdid.symm.trans hid.symm)
    -- block first, then take the place: the two writes commute
    have hblocked := (h.release c).setState .blocked
      (fun _ => h.quiet_release hc hu.ne_zero) (h.current_awake hc)
    have hd' : (s.setState me .blocked).tasks d = some u := by
      rw [setState_tasks_ne s _ hdm]
      exact hd
    have hno : ∀ r, ¬ Waits (s.setState me .blocked) me r := by
      intro r hw
      exact h.current_awake hc r ((waits_setState me r .blocked).mp hw)
    have hparked := hblocked.park hu (h.quiet_release hc hu.ne_zero) hno
      (setState_tasks_same ht .blocked) rfl hd' hq msg
    rw [Scheduler.setState, modify_comm s _ _ hdm, hid]
    exact hparked
  | staged =>
    rw [hid]
    exact h.parked_self (f := (·.stage _)) hc hu ht not_isQueued_staged
      ⟨fun _ => rfl, fun _ => rfl, fun _ => rfl⟩ (fun _ => rfl)
      (fun t r => by cases r <;> simp [Task.stage, Task.waitsOn]) (fun _ => rfl)

/-- Parking slot `me` leaves the hint and every other state alone. -/
structure Stops (s s' : Scheduler) (me : Slot) : Prop where
  woken : s'.woken = s.woken
  caller : s'.stateIs me .ready = false
  others : ∀ i, i ≠ me → ∀ st, s'.stateIs i st = s.stateIs i st

theorem stops_modify (s : Scheduler) (me : Slot) (hf : ∀ t, (f t).state ≠ .ready) :
    Stops s (s.modify me f) me := by
  refine ⟨rfl, ?_, fun _ hi st => stateIs_modify_ne s f st hi⟩
  rw [stateIs, modify_tasks_same]
  cases s.tasks me <;> simp [hf]

theorem sysSend_stops {dst : UInt32} {msg : Message} (hr : (sysSend s me dst msg).ret = none) :
    Stops s (sysSend s me dst msg).sched me := by
  have hstep := sysSend_step s me dst msg
  generalize sysSend s me dst msg = o at hstep hr ⊢
  cases hstep with
  | self | noTask | rendezvous => cases hr
  | queued d t q =>
    obtain ⟨hwoken, hcaller, hothers⟩ :=
      stops_modify (s.modify d (·.park q _)) me (f := ({ · with state := .blocked })) nofun
    refine ⟨hwoken, hcaller, fun i hi st => (hothers i hi st).trans ?_⟩
    exact stateIs_modify_keep s d i (f := (·.park q _)) (fun _ => rfl) st
  | staged => exact stops_modify s me fun _ h => by cases h

theorem sysReceive_stops (ht : s.tasks me = some t) {filter : Int32} {out : Nat}
    (hr : (sysReceive s me filter out).ret = none) :
    Stops s (sysReceive s me filter out).sched me := by
  have hstep := sysReceive_step ht filter out
  generalize sysReceive s me filter out = o at hstep hr ⊢
  cases hstep with
  | parked | unstaged => cases hr
  | block => exact stops_modify s me fun _ h => by cases h

theorem Sound.sysReceive_returns (h : Sound s cur) (ht : s.tasks me = some t) (filter : Int32)
    (out : Nat) {r : Int32} (hr : (sysReceive s me filter out).ret = some r) :
    Sound (sysReceive s me filter out).sched cur ∧
      Hinted s (sysReceive s me filter out).sched me := by
  have hstep := sysReceive_step ht filter out
  generalize sysReceive s me filter out = o at hstep hr ⊢
  cases hstep with
  | parked q p hp hf =>
    have hs := h.unpark me q
    have hst : ∀ i st, (s.modify me (·.park q none)).stateIs i st = s.stateIs i st :=
      fun i => stateIs_modify_keep s me i fun _ => rfl
    obtain ⟨j, u, hj, hsrc⟩ := h.sources me t q p ht hp
    have hw : Waits s j (.queued me q) := ⟨u, t, p, hj, ht, hp, hsrc.symm⟩
    obtain ⟨u', hu', hid'⟩ := (sameIds_modify s me (f := (·.park q none)) fun _ => rfl).fwd hj
    show Sound (releaseSender _ p.src) cur ∧ Hinted s (releaseSender _ p.src) me
    unfold releaseSender
    rw [← hsrc, ← hid', taskIdx_eq hs.ids hu']
    simp only
    split
    · refine ⟨hs, Hinted.old rfl (prioAt_modify s me fun _ => rfl) fun w _ _ hr => ?_⟩
      rw [hst]
      exact hr
    · -- its only reason to wait is gone with the message
      have hno : ∀ r, ¬ Waits (s.modify me (·.park q none)) j r := by
        intro r hwr
        obtain ⟨hold, hne⟩ := (waits_park_none q j r).mp hwr
        exact hne (h.unique j r _ hold hw)
      obtain ⟨hju, -, hquiet⟩ := h.waits j _ hw
      refine ⟨(hs.setState .ready (fun _ => hquiet) hno).setWoken j,
        Hinted.new rfl hju ?_⟩
      rw [stateIs_setWoken, stateIs_setState_same hu']
      rfl
  | unstaged j u st hu hst _ _ _ =>
    have hw : Waits s j .staged := ⟨u, hu, by rw [Task.waitsOn, hst]; exact Option.some_ne_none st⟩
    exact ⟨(h.unstage hw).setWoken j,
      Hinted.woke (f := Task.unstage) (h.waits j _ hw).1 hu rfl⟩
  | block => cases hr

theorem Sound.sysReceive_parks (h : Sound s cur) (hc : cur c = some me) (hu : IsUser me)
    (filter : Int32) (out : Nat) (hr : (sysReceive s me filter out).ret = none) :
    Sound (sysReceive s me filter out).sched (Function.update cur c none) := by
  obtain ⟨t, ht⟩ := h.present c me hc
  have hstep := sysReceive_step ht filter out
  generalize sysReceive s me filter out = o at hstep hr ⊢
  cases hstep with
  | parked | unstaged => cases hr
  | block =>
    exact h.parked_self (f := (·.blockReceive filter out)) hc hu ht not_isQueued_recv
      ⟨fun _ => rfl, fun _ => rfl, fun _ => rfl⟩ (fun _ => rfl)
      (fun t r => by cases r <;> simp [Task.blockReceive, Task.waitsOn]) (fun _ => rfl)

/-! ## Sleepers -/

/-- What `wake_sleepers` makes of the task in slot `i`. -/
def Task.woken (now : Nat) (i : Slot) (t : Task) : Task :=
  if i ≠ 0 ∧ t.expired now = true then t.wake else t

theorem wakeSleepers_tasks (s : Scheduler) (now : Nat) (i : Slot) :
    (s.wakeSleepers now).1.tasks i = (s.tasks i).map (Task.woken now i) := by
  show (if i = 0 then s.tasks i else _) = _
  by_cases hi : i = 0
  · have hid : Task.woken now i = id := by
      funext t
      simp [Task.woken, hi]
    rw [if_pos hi, hid, Option.map_id_fun, id]
  · rw [if_neg hi]
    congr 1
    funext t
    simp [Task.woken, hi]

theorem Task.woken_eq_or (now : Nat) (i : Slot) (t : Task) :
    t.woken now i = t ∨ (t.woken now i = t.wake ∧ t.sleepDeadline ≠ 0) := by
  unfold Task.woken
  split
  · rename_i h
    simp only [Task.expired, Bool.and_eq_true, bne_iff_ne] at h
    exact Or.inr ⟨rfl, h.2.1⟩
  · exact Or.inl rfl

/-- What stands in the table after `wake_sleepers`. -/
theorem wakeSleepers_some {now : Nat} (h : (s.wakeSleepers now).1.tasks i = some u) :
    ∃ t, s.tasks i = some t ∧ (u = t ∨ (u = t.wake ∧ t.sleepDeadline ≠ 0)) := by
  rw [wakeSleepers_tasks] at h
  obtain ⟨t, ht, rfl⟩ := Option.map_eq_some_iff.mp h
  exact ⟨t, ht, t.woken_eq_or now i⟩

/-- Waking makes nobody anything but Ready. -/
theorem stateIs_of_wakeSleepers {now : Nat} {st : TaskState} (hst : st ≠ .ready)
    (h : (s.wakeSleepers now).1.stateIs i st = true) : s.stateIs i st = true := by
  obtain ⟨u, hu, rfl⟩ := stateIs_iff.mp h
  obtain ⟨t, ht, rfl | ⟨rfl, -⟩⟩ := wakeSleepers_some hu
  · exact stateIs_iff.mpr ⟨u, ht, rfl⟩
  · exact absurd rfl hst

/-- A field that waking keeps. -/
theorem map_wakeSleepers {α : Type} {g : Task → α} (hg : ∀ t : Task, g t.wake = g t) (now : Nat)
    (i : Slot) : ((s.wakeSleepers now).1.tasks i).map g = (s.tasks i).map g := by
  rw [wakeSleepers_tasks, Option.map_map]
  congr 1
  funext t
  show g (t.woken now i) = g t
  rcases t.woken_eq_or now i with h | ⟨h, -⟩
  · rw [h]
  · rw [h, hg]

theorem waits_wakeSleepers {now : Nat} {r : Reason} (h : Waits (s.wakeSleepers now).1 i r) :
    Waits s i r ∧ ∀ t, s.tasks i = some t → r = .sleep → t.woken now i = t := by
  by_cases hr : r.IsQueued
  · obtain ⟨d, q, rfl⟩ := hr
    exact ⟨waits_queued_congr (map_wakeSleepers (fun _ => rfl) now i)
      (map_wakeSleepers (fun _ => rfl) now d) h, fun _ _ he => by cases he⟩
  · obtain ⟨u, hu, hw⟩ := (waits_own hr).mp h
    rw [wakeSleepers_tasks] at hu
    obtain ⟨t, ht, rfl⟩ := Option.map_eq_some_iff.mp hu
    rcases t.woken_eq_or now i with hk | ⟨hk, -⟩
    · rw [hk] at hw
      refine ⟨(waits_own hr).mpr ⟨t, ht, hw⟩, fun t' ht' _ => ?_⟩
      rw [ht] at ht'
      cases ht'
      exact hk
    · -- a woken task keeps its other reasons
      rw [hk] at hw
      cases r with
      | recv | staged => exact ⟨⟨t, ht, hw⟩, fun _ _ he => by cases he⟩
      | sleep => exact absurd rfl hw
      | queued d q => exact absurd ⟨d, q, rfl⟩ hr

theorem Sound.wakeSleepers (h : Sound s cur) (now : Nat) : Sound (s.wakeSleepers now).1 cur := by
  refine h.change ⟨map_wakeSleepers (fun _ => rfl) now, map_wakeSleepers (fun _ => rfl) now, rfl⟩
    ?_ ?_ ?_ ?_
  · intro d u q p hu hp
    obtain ⟨t, ht, rfl | ⟨rfl, -⟩⟩ := wakeSleepers_some hu
    · exact h.sources d u q p ht hp
    · exact h.sources d t q p ht hp
  · intro i hi hr
    obtain ⟨u, hu, hready⟩ := stateIs_iff.mp hr
    obtain ⟨t, ht, rfl | ⟨-, hd⟩⟩ := wakeSleepers_some hu
    · exact h.ready i hi (stateIs_iff.mpr ⟨u, ht, hready⟩)
    · exact (h.waits i .sleep ⟨t, ht, hd⟩).2.2
  · intro i r hw
    obtain ⟨hold, hkeep⟩ := waits_wakeSleepers hw
    obtain ⟨t, ht⟩ := hold.occupied
    have hk : t.woken now i = t := by
      rcases t.woken_eq_or now i with hk | ⟨-, hd⟩
      · exact hk
      · exact hkeep t ht (h.unique i r .sleep hold ⟨t, ht, hd⟩)
    refine .inl ⟨hold, .congr fun st => ?_⟩
    rw [stateIs, wakeSleepers_tasks, ht, Option.map_some, hk, stateIs, ht]
  · intro i u hu hpc
    obtain ⟨t, ht, rfl | ⟨rfl, -⟩⟩ := wakeSleepers_some hu
    · exact h.saved i u ht hpc
    · exact h.saved i t ht hpc

/-! ## Spawning -/

theorem freeSlot_some (h : s.freeSlot = some i) : i ≠ 0 ∧ s.tasks i = none := by
  refine ⟨mem_slots.mp (List.mem_of_find?_eq_some h), ?_⟩
  have hp := List.find?_some h
  simpa using hp

variable (s)

/-- The table after a spawn: the new task in slot `i`, and the hint on it. -/
def spawnedAt (i : Slot) (t : Task) : Scheduler :=
  { s.insert i t with nextId := s.nextId + 1, woken := some i }

theorem spawnedAt_modify (i : Slot) (t : Task) (f : Task → Task) :
    (spawnedAt s i t).modify i f = spawnedAt s i (f t) := by
  unfold spawnedAt Scheduler.modify Scheduler.insert
  congr 1
  funext j
  by_cases hj : j = i
  · subst hj
    simp
  · simp [hj]

@[simp] theorem spawnedAt_tasks_same (i : Slot) (t : Task) :
    (spawnedAt s i t).tasks i = some t := by
  show Function.update s.tasks i (some t) i = some t
  exact Function.update_self ..

theorem spawnedAt_tasks_ne (t : Task) (h : j ≠ i) : (spawnedAt s i t).tasks j = s.tasks j := by
  show Function.update s.tasks i (some t) j = s.tasks j
  exact Function.update_of_ne h ..

/-- The tasks `spawn_by_name_locked` makes. -/
def serverTask (id : UInt32) (name : String) (ttbr0 base bootPage : Nat)
    (regions : Fin taskRegions → TaskRegion) : Task :=
  { userTask id name ttbr0 base bootPage with regions := regions, priority := serverPrios name }

/-- No task has the id that the next spawn hands out. -/
def FreshId : Prop :=
  ∀ j t, s.tasks j = some t → t.id ≠ s.nextId

variable {s}

theorem Numbered.freshId (h : Numbered s) : FreshId s := by
  intro j t ht hid
  have hroom := h.room
  have hb := h.bound j t ht
  rw [hid] at hb
  omega

theorem taskIdx_spawnedAt (hfresh : FreshId s) (ht : t.id = s.nextId) :
    (spawnedAt s i t).taskIdx s.nextId = some i := by
  cases hi : (spawnedAt s i t).taskIdx s.nextId with
  | none => exact absurd ht (taskIdx_none hi i t (spawnedAt_tasks_same s i t))
  | some j =>
    obtain ⟨u, hu, hid⟩ := taskIdx_some hi
    by_cases hj : j = i
    · rw [hj]
    · rw [spawnedAt_tasks_ne s t hj] at hu
      exact absurd hid (hfresh j u hu)

theorem pushRegion_some {t' : Task} {kind : RegionKind} {base pages : Nat}
    (h : t.pushRegion kind base pages = .ok (some t')) : ∃ rs, t' = t.setRegions rs := by
  unfold Task.pushRegion at h
  split at h
  · cases h
  · obtain ⟨fin, -, h⟩ := bind_eq_ok.mp h
    split at h
    · cases h
    · split at h
      · cases h
      · cases h
        exact ⟨_, rfl⟩

theorem pushRegionAt_some {kind : RegionKind} {base pages : Nat}
    (h : s.pushRegionAt i kind base pages = .ok (some s')) :
    ∃ rs, s' = s.modify i (Task.setRegions rs) := by
  unfold pushRegionAt at h
  cases ht : s.tasks i with
  | none =>
    rw [ht] at h
    cases h
  | some t =>
    simp only [ht] at h
    split at h
    · cases h
    · cases h
    · rename_i t' ht'
      cases h
      obtain ⟨rs, rfl⟩ := pushRegion_some ht'
      refine ⟨rs, ?_⟩
      unfold Scheduler.modify
      rw [ht]
      rfl

/-- What a spawn does to the table. -/
theorem spawnServer_some (hfresh : FreshId s) {name : String} {ttbr0 base bootPage : Nat}
    {id : UInt32} (h : spawnServer s name ttbr0 base bootPage = .ok (some (s', id))) :
    id = s.nextId ∧ s.nextId ≠ 0xFFFFFFFF ∧ ∃ i rs, s.freeSlot = some i ∧
      s' = spawnedAt s i (serverTask s.nextId name ttbr0 base bootPage rs) := by
  unfold spawnServer at h
  obtain ⟨res, hres, h⟩ := bind_eq_ok.mp h
  unfold spawnUser at hres
  cases hi : s.freeSlot with
  | none =>
    rw [hi] at hres
    cases hres
    cases h
  | some i =>
    simp only [hi] at hres
    split at hres
    · cases hres
    · rename_i hmax
      cases hres
      obtain ⟨s₂, hs₂, h⟩ := bind_eq_ok.mp h
      cases h
      refine ⟨rfl, hmax, i, ?_⟩
      -- both later writes find the new task
      have hfind := fun t => taskIdx_spawnedAt (s := s) hfresh (i := i) (t := t)
      have hpush : ∃ rs, s₂ = spawnedAt s i
          { userTask s.nextId name ttbr0 base bootPage with regions := rs } := by
        change pushRegionFor (spawnedAt s i _) _ _ _ _ = _ at hs₂
        rw [pushRegionFor, hfind _ rfl] at hs₂
        simp only at hs₂
        split at hs₂
        · cases hs₂
        · rename_i grown hgrown
          cases hs₂
          cases grown with
          | none => exact ⟨_, rfl⟩
          | some s₃ =>
            obtain ⟨rs, rfl⟩ := pushRegionAt_some hgrown
            exact ⟨rs, spawnedAt_modify s i _ _⟩
      obtain ⟨rs, rfl⟩ := hpush
      refine ⟨rs, rfl, ?_⟩
      rw [setPriority, hfind _ rfl]
      exact spawnedAt_modify s i _ _

/-- A task that has just been made waits for nothing and has nobody in its queue. -/
structure Newborn (t : Task) : Prop where
  ready : t.state = .ready
  awake : ∀ r, ¬ t.waitsOn r
  empty : ∀ q, t.pendingSenders q = none

theorem newborn_serverTask (id : UInt32) (name : String) (ttbr0 base bootPage : Nat)
    (rs : Fin taskRegions → TaskRegion) : Newborn (serverTask id name ttbr0 base bootPage rs) where
  ready := rfl
  awake := by
    intro r
    cases r <;> simp [serverTask, userTask, Task.new, Task.idle, Task.waitsOn]
  empty := fun _ => rfl

/-- What stands in the table after a spawn. -/
theorem spawnedAt_some (h : (spawnedAt s i t).tasks j = some u) :
    (j = i ∧ u = t) ∨ (j ≠ i ∧ s.tasks j = some u) := by
  by_cases hj : j = i
  · subst hj
    rw [spawnedAt_tasks_same] at h
    cases h
    exact Or.inl ⟨rfl, rfl⟩
  · rw [spawnedAt_tasks_ne s t hj] at h
    exact Or.inr ⟨hj, h⟩

theorem spawnedAt_old (hi : s.tasks i = none) (t : Task) (h : s.tasks j = some u) :
    (spawnedAt s i t).tasks j = some u := by
  have hj : j ≠ i := by
    rintro rfl
    rw [hi] at h
    cases h
  rw [spawnedAt_tasks_ne s t hj]
  exact h

/-- Nobody new waits after a spawn. -/
theorem Sound.waits_spawnedAt (h : Sound s cur) (hid : t.id = s.nextId) (ht : Newborn t)
    {r : Reason} (hw : Waits (spawnedAt s i t) j r) : Waits s j r := by
  by_cases hr : r.IsQueued
  · obtain ⟨d, q, rfl⟩ := hr
    obtain ⟨u, v, p, hu, hv, hp, hsrc⟩ := hw
    rcases spawnedAt_some hv with ⟨-, rfl⟩ | ⟨-, oldv⟩
    · rw [ht.empty q] at hp
      cases hp
    · rcases spawnedAt_some hu with ⟨-, rfl⟩ | ⟨-, oldu⟩
      · obtain ⟨i', t', ht', hid'⟩ := h.sources d v q p oldv hp
        exact absurd ((hid'.trans hsrc).trans hid) (h.freshId i' t' ht')
      · exact ⟨u, v, p, oldu, oldv, hp, hsrc⟩
  · obtain ⟨u, hu, hwu⟩ := (waits_own hr).mp hw
    rcases spawnedAt_some hu with ⟨-, rfl⟩ | ⟨-, hu⟩
    · exact absurd hwu (ht.awake r)
    · exact (waits_own hr).mpr ⟨u, hu, hwu⟩

theorem empties_spawnedAt (hi : s.tasks i = none) (t : Task) :
    (spawnedAt s i t).empties + 1 = s.empties := by
  have hfilter : (Finset.univ.filter fun j => (spawnedAt s i t).tasks j = none)
      = (Finset.univ.filter fun j => s.tasks j = none).erase i := by
    ext j
    by_cases hj : j = i
    · subst hj
      simp
    · simp [spawnedAt_tasks_ne s t hj, hj]
  have hmem : i ∈ Finset.univ.filter fun j => s.tasks j = none := by
    simp [hi]
  unfold Scheduler.empties
  rw [hfilter, Finset.card_erase_of_mem hmem]
  have hpos := Finset.card_pos.mpr ⟨i, hmem⟩
  omega

theorem Numbered.spawned (h : Numbered s) (hi : s.tasks i = none) (hid : t.id = s.nextId) :
    Numbered (spawnedAt s i t) := by
  have hroom := h.room
  have hempties := empties_spawnedAt hi t
  have hnext : (spawnedAt s i t).nextId.toNat = s.nextId.toNat + 1 := by
    show (s.nextId + 1).toNat = _
    rw [UInt32.toNat_add]
    have hone : (1 : UInt32).toNat = 1 := rfl
    omega
  refine ⟨?_, ?_, by omega⟩
  · intro j k u v hu hv huv
    rcases spawnedAt_some hu with ⟨rfl, rfl⟩ | ⟨-, oldu⟩
    · rcases spawnedAt_some hv with ⟨rfl, -⟩ | ⟨-, oldv⟩
      · rfl
      · exact absurd (huv.symm.trans hid) (h.freshId k v oldv)
    · rcases spawnedAt_some hv with ⟨-, rfl⟩ | ⟨-, oldv⟩
      · exact absurd (huv.trans hid) (h.freshId j u oldu)
      · exact h.ids j k u v oldu oldv huv
  · intro j u hu
    rcases spawnedAt_some hu with ⟨-, rfl⟩ | ⟨-, hu⟩
    · rw [hid]
      omega
    · have hb := h.bound j u hu
      omega

theorem Sound.isUser_of_empty (h : Sound s cur) (hi : s.tasks i = none) : IsUser i := by
  rintro j rfl
  obtain ⟨t, ht⟩ := h.idle j
  rw [hi] at ht
  cases ht

theorem Sound.spawned (h : Sound s cur) (hi : s.tasks i = none) (hid : t.id = s.nextId)
    (ht : Newborn t) : Sound (spawnedAt s i t) cur := by
  have huser := h.isUser_of_empty hi
  refine ⟨h.toNumbered.spawned hi hid, ?_, ?_, ?_, h.exclusive, h.own, ?_, ?_, ?_, ?_, ?_⟩
  · intro j
    obtain ⟨u, hu⟩ := h.idle j
    exact ⟨u, spawnedAt_old hi t hu⟩
  · intro j u hj hu
    rcases spawnedAt_some hu with ⟨hji, -⟩ | ⟨-, hu⟩
    · exact absurd hji.symm (huser j)
    · exact h.affinity j u hj hu
  · intro c j hc
    obtain ⟨u, hu⟩ := h.present c j hc
    exact ⟨u, spawnedAt_old hi t hu⟩
  · intro j hj hr c hc
    obtain ⟨u, hu⟩ := h.present c j hc
    obtain ⟨v, hv, hst⟩ := stateIs_iff.mp hr
    rw [spawnedAt_old hi t hu] at hv
    cases hv
    exact h.ready j hj (stateIs_iff.mpr ⟨u, hu, hst⟩) c hc
  · intro j r hw
    have hold := h.waits_spawnedAt hid ht hw
    obtain ⟨hu, hb, hq⟩ := h.waits j r hold
    obtain ⟨u, hj⟩ := hold.occupied
    refine ⟨hu, hb.congr fun st => ?_, hq⟩
    rw [stateIs, stateIs, spawnedAt_old hi t hj, hj]
  · intro j r r' h₁ h₂
    exact h.unique j r r' (h.waits_spawnedAt hid ht h₁) (h.waits_spawnedAt hid ht h₂)
  · intro d u q p hu hp
    rcases spawnedAt_some hu with ⟨-, rfl⟩ | ⟨-, hu⟩
    · rw [ht.empty q] at hp
      cases hp
    · obtain ⟨j, v, hv, hsrc⟩ := h.sources d u q p hu hp
      exact ⟨j, v, spawnedAt_old hi t hv, hsrc⟩
  · intro j u hu hpc
    rcases spawnedAt_some hu with ⟨rfl, -⟩ | ⟨-, hu⟩
    · exact huser
    · exact h.saved j u hu hpc

end Tanix
