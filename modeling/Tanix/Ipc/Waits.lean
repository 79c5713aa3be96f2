/-
# `Tanix.Ipc.Waits` — why a task waits, and what each write does to that

A parked task shows in the table in one of four places:

    recv           its own `recv_blocked` flag
    sleep          its own `sleep_deadline`
    staged         its own `send_full_wait`
    queued d q     its id stands in place `q` of slot `d`'s queue

The first three are fields of the task itself; the fourth is written in
somebody else's control block.  The lemmas below say, for every write the
kernel makes to these fields, exactly which reasons appear and which go.
-/
import Tanix.Ipc.SendReceive

namespace Tanix

inductive Reason where
  | recv
  | sleep
  | staged
  | queued (d : Slot) (q : Fin maxPendingSenders)
  deriving DecidableEq

open Scheduler

/-- The reasons that stand in the task's own control block. -/
def Task.waitsOn (t : Task) : Reason → Prop
  | .recv => t.recvBlocked = true
  | .sleep => t.sleepDeadline ≠ 0
  | .staged => t.sendFullWait ≠ none
  | .queued _ _ => False

/-- Slot `i` holds a task that waits for reason `r`. -/
def Waits (s : Scheduler) (i : Slot) : Reason → Prop
  | .queued d q => ∃ t u p, s.tasks i = some t ∧ s.tasks d = some u ∧
      u.pendingSenders q = some p ∧ p.src = t.id
  | r => ∃ t, s.tasks i = some t ∧ t.waitsOn r

def Reason.IsQueued (r : Reason) : Prop :=
  ∃ d q, r = .queued d q

variable {i j d : Slot} {r r₀ : Reason}

theorem waits_own {s : Scheduler} (hr : ¬ r.IsQueued) :
    Waits s i r ↔ ∃ t, s.tasks i = some t ∧ t.waitsOn r := by
  cases r with
  | queued d q => exact absurd ⟨d, q, rfl⟩ hr
  | recv | sleep | staged => exact Iff.rfl

theorem Waits.occupied {s : Scheduler} (h : Waits s i r) : ∃ t, s.tasks i = some t := by
  cases r with
  | recv | sleep | staged => exact h.imp fun _ h => h.1
  | queued d q =>
    obtain ⟨t, _, _, ht, _⟩ := h
    exact ⟨t, ht⟩

variable {q : Fin maxPendingSenders}

/-- With distinct ids, a place of a queue is the reason of at most one slot. -/
theorem Waits.queued_inj {s : Scheduler} (hu : s.UniqueIds) (hi : Waits s i (.queued d q))
    (hj : Waits s j (.queued d q)) : i = j := by
  obtain ⟨t, u, p, ht, hd, hp, hs⟩ := hi
  obtain ⟨t', u', p', ht', hd', hp', hs'⟩ := hj
  rw [hd] at hd'
  cases hd'
  rw [hp] at hp'
  cases hp'
  exact hu i j t t' ht ht' (hs.symm.trans hs')

variable {t : Task}

section Writes

variable {s : Scheduler} {k : Slot} {f : Task → Task}

/-- A queue reason reads two fields: the id of the waiter and the queue it stands in. -/
theorem waits_queued_congr {s' : Scheduler}
    (hid : (s'.tasks i).map (·.id) = (s.tasks i).map (·.id))
    (hqueue : (s'.tasks d).map (·.pendingSenders q) = (s.tasks d).map (·.pendingSenders q)) :
    Waits s' i (.queued d q) → Waits s i (.queued d q) := by
  rintro ⟨t, u, p, ht, hu, hp, hs⟩
  rw [ht] at hid
  rw [hu] at hqueue
  obtain ⟨t', ht', hti⟩ := Option.map_eq_some_iff.mp hid.symm
  obtain ⟨u', hu', hui⟩ := Option.map_eq_some_iff.mp hqueue.symm
  exact ⟨t', u', p, ht', hu', by rw [hui]; exact hp, by rw [hti]; exact hs⟩

theorem waits_modify_self (hr : ¬ r.IsQueued) :
    Waits (s.modify k f) k r ↔ ∃ t, s.tasks k = some t ∧ (f t).waitsOn r := by
  rw [waits_own hr, modify_tasks_same]
  constructor
  · rintro ⟨u, hu, hw⟩
    obtain ⟨t, ht, rfl⟩ := Option.map_eq_some_iff.mp hu
    exact ⟨t, ht, hw⟩
  · rintro ⟨t, ht, hw⟩
    exact ⟨f t, by rw [ht]; rfl, hw⟩

section

variable (hid : ∀ t, (f t).id = t.id) (hqueue : ∀ t, (f t).pendingSenders = t.pendingSenders)

include hid hqueue

/-- A write that keeps the ids and the queues keeps the reasons of the other slots and the
queue reasons of its own. -/
theorem waits_modify_other (h : i ≠ k ∨ r.IsQueued) :
    Waits (s.modify k f) i r ↔ Waits s i r := by
  cases r with
  | queued d q =>
    have hi := map_modify (s := s) (k := k) hid i
    have hd := map_modify (s := s) (k := k) (g := (·.pendingSenders q)) (fun t => congrFun (hqueue t) q) d
    exact ⟨waits_queued_congr hi hd, waits_queued_congr hi.symm hd.symm⟩
  | recv | sleep | staged =>
    have hne : i ≠ k := h.resolve_right (by simp [Reason.IsQueued])
    simp only [Waits, modify_tasks_ne s f hne]

/-- A write that keeps every reason. -/
theorem waits_modify (hkeep : ∀ t r, (f t).waitsOn r ↔ t.waitsOn r) (i : Slot) (r : Reason) :
    Waits (s.modify k f) i r ↔ Waits s i r := by
  by_cases h : i ≠ k ∨ r.IsQueued
  · exact waits_modify_other hid hqueue h
  · obtain ⟨hik, hr⟩ := not_or.mp h
    obtain rfl := not_not.mp hik
    rw [waits_modify_self hr, waits_own hr]
    simp only [hkeep]

/-- A write that adds no reason. -/
theorem waits_modify_le (hle : ∀ t r, (f t).waitsOn r → t.waitsOn r) (h : Waits (s.modify k f) i r) : Waits s i r := by
  by_cases hc : i ≠ k ∨ r.IsQueued
  · exact (waits_modify_other hid hqueue hc).mp h
  · obtain ⟨hik, hr⟩ := not_or.mp hc
    obtain rfl := not_not.mp hik
    obtain ⟨t, ht, hw⟩ := (waits_modify_self hr).mp h
    exact (waits_own hr).mpr ⟨t, ht, hle t r hw⟩

/-- A write that gives its slot one more reason, of its own. -/
theorem waits_modify_gain (hr₀ : ¬ r₀.IsQueued)
    (hgain : ∀ t r, (f t).waitsOn r ↔ t.waitsOn r ∨ r = r₀) (ht : s.tasks k = some t) (i : Slot)
    (r : Reason) : Waits (s.modify k f) i r ↔ Waits s i r ∨ (i = k ∧ r = r₀) := by
  by_cases h : i ≠ k ∨ r.IsQueued
  · rw [waits_modify_other hid hqueue h]
    have hno : ¬ (i = k ∧ r = r₀) := by
      rintro ⟨rfl, rfl⟩
      exact h.elim (fun h => h rfl) hr₀
    simp only [hno, or_false]
  · obtain ⟨hik, hr⟩ := not_or.mp h
    obtain rfl := not_not.mp hik
    rw [waits_modify_self hr, waits_own hr]
    simp [ht, hgain]

/-- A write that takes one reason of its own from its slot. -/
theorem waits_modify_lose (hr₀ : ¬ r₀.IsQueued)
    (hlose : ∀ t r, (f t).waitsOn r ↔ t.waitsOn r ∧ r ≠ r₀) (i : Slot) (r : Reason) :
    Waits (s.modify k f) i r ↔ Waits s i r ∧ ¬ (i = k ∧ r = r₀) := by
  by_cases h : i ≠ k ∨ r.IsQueued
  · rw [waits_modify_other hid hqueue h]
    have hno : ¬ (i = k ∧ r = r₀) := by
      rintro ⟨rfl, rfl⟩
      exact h.elim (fun h => h rfl) hr₀
    simp only [hno, not_false_iff, and_true]
  · obtain ⟨hik, hr⟩ := not_or.mp h
    obtain rfl := not_not.mp hik
    rw [waits_modify_self hr, waits_own hr]
    cases ht : s.tasks i <;> simp [hlose]

end

end Writes

/-! ## The writes of the kernel -/

section Kernel

variable {s : Scheduler} {k : Slot}

@[simp] theorem not_isQueued_recv : ¬ Reason.recv.IsQueued := by simp [Reason.IsQueued]

@[simp] theorem not_isQueued_sleep : ¬ Reason.sleep.IsQueued := by simp [Reason.IsQueued]

@[simp] theorem not_isQueued_staged : ¬ Reason.staged.IsQueued := by simp [Reason.IsQueued]

@[simp] theorem waits_setState (i : Slot) (r : Reason) (st : TaskState) :
    Waits (s.setState k st) i r ↔ Waits s i r :=
  waits_modify (f := fun t => { t with state := st }) (fun _ => rfl) (fun _ => rfl)
    (fun _ r => by cases r <;> exact Iff.rfl) i r

@[simp] theorem waits_setWoken (i : Slot) (r : Reason) :
    Waits (s.setWoken k) i r ↔ Waits s i r := by
  cases r <;> exact Iff.rfl

/-- `deliver` ends the receiver's wait. -/
@[simp] theorem waits_delivered (i : Slot) (r : Reason) :
    Waits (s.modify k Task.delivered) i r ↔ Waits s i r ∧ ¬ (i = k ∧ r = .recv) :=
  waits_modify_lose (f := Task.delivered) (fun _ => rfl) (fun _ => rfl) not_isQueued_recv
    (fun _ r => by cases r <;> simp [Task.delivered, Task.waitsOn]) i r

@[simp] theorem waits_unstage (i : Slot) (r : Reason) :
    Waits (s.modify k Task.unstage) i r ↔ Waits s i r ∧ ¬ (i = k ∧ r = .staged) :=
  waits_modify_lose (f := Task.unstage) (fun _ => rfl) (fun _ => rfl) not_isQueued_staged
    (fun _ r => by cases r <;> simp [Task.unstage, Task.waitsOn]) i r

theorem waits_stage (ht : s.tasks k = some t) (st : StagedSend) (i : Slot) (r : Reason) :
    Waits (s.modify k (·.stage st)) i r ↔ Waits s i r ∨ (i = k ∧ r = .staged) :=
  waits_modify_gain (f := (·.stage st)) (fun _ => rfl) (fun _ => rfl) not_isQueued_staged
    (fun _ r => by cases r <;> simp [Task.stage, Task.waitsOn]) ht i r

theorem waits_blockReceive (ht : s.tasks k = some t) (filter : Int32) (out : Nat) (i : Slot)
    (r : Reason) :
    Waits (s.modify k (·.blockReceive filter out)) i r ↔ Waits s i r ∨ (i = k ∧ r = .recv) :=
  waits_modify_gain (f := (·.blockReceive filter out)) (fun _ => rfl) (fun _ => rfl) not_isQueued_recv
    (fun _ r => by cases r <;> simp [Task.blockReceive, Task.waitsOn]) ht i r

/-- Writing one place of a queue moves only the reason that names this place. -/
theorem waits_park_other (p : Option PendingSend) (i : Slot) (hr : r ≠ .queued k q) :
    Waits (s.modify k (·.park q p)) i r ↔ Waits s i r := by
  have hid : ∀ t : Task, (t.park q p).id = t.id := fun _ => rfl
  by_cases hrq : r.IsQueued
  · obtain ⟨d, q', rfl⟩ := hrq
    have hi := map_modify (s := s) (k := k) hid i
    have hd : ((s.modify k (·.park q p)).tasks d).map (·.pendingSenders q')
        = (s.tasks d).map (·.pendingSenders q') := by
      by_cases hdk : d = k
      · subst hdk
        have hq : q' ≠ q := fun h => hr (by rw [h])
        refine map_modify (fun t => ?_) d
        exact Function.update_of_ne hq p t.pendingSenders
      · rw [modify_tasks_ne s _ hdk]
    exact ⟨waits_queued_congr hi hd, waits_queued_congr hi.symm hd.symm⟩
  · rw [waits_own hrq, waits_own hrq, modify_tasks]
    split
    · rename_i hik
      subst hik
      cases ht : s.tasks i with
      | none => simp
      | some t => cases r <;> simp [Task.park, Task.waitsOn]
    · exact Iff.rfl

theorem waits_park_none (q : Fin maxPendingSenders) (i : Slot) (r : Reason) :
    Waits (s.modify k (·.park q none)) i r ↔ Waits s i r ∧ r ≠ .queued k q := by
  by_cases hr : r = .queued k q
  · subst hr
    simp only [ne_eq, not_true_eq_false, and_false, iff_false]
    rintro ⟨t, u, p, _, hu, hp, _⟩
    rw [modify_tasks_same] at hu
    obtain ⟨u', _, rfl⟩ := Option.map_eq_some_iff.mp hu
    simp [Task.park] at hp
  · rw [waits_park_other none i hr]
    simp [hr]

/-- Parking a message makes its source wait in that place, and nobody else. -/
theorem waits_park_some (hu : s.UniqueIds) {u : Task} (hk : s.tasks k = some u)
    (hq : u.pendingSenders q = none) (ht : s.tasks j = some t) (msg : Message) (i : Slot)
    (r : Reason) :
    Waits (s.modify k (·.park q (some ⟨t.id, msg⟩))) i r
      ↔ Waits s i r ∨ (i = j ∧ r = .queued k q) := by
  by_cases hr : r = .queued k q
  · subst hr
    have hno : ¬ Waits s i (.queued k q) := by
      rintro ⟨_, u', p, _, hu', hp, _⟩
      rw [hk] at hu'
      cases hu'
      rw [hq] at hp
      cases hp
    simp only [hno, false_or, and_true]
    constructor
    · rintro ⟨t', u', p, ht', hu', hp, hs⟩
      rw [modify_tasks_same, hk] at hu'
      cases hu'
      simp only [Task.park, Function.update_self, Option.some.injEq] at hp
      subst hp
      obtain ⟨t₀, ht₀, rfl⟩ := modify_some ht'
      refine hu i j t₀ t ht₀ ht ?_
      rw [show t.id = _ from hs]
      split <;> rfl
    · rintro rfl
      refine ⟨if i = k then t.park q (some ⟨t.id, msg⟩) else t, u.park q (some ⟨t.id, msg⟩),
        ⟨t.id, msg⟩, ?_, by rw [modify_tasks_same, hk]; rfl, by simp [Task.park], ?_⟩
      · rw [modify_tasks]
        split
        · rename_i hik
          rw [← hik, ht]
          rfl
        · exact ht
      · split <;> rfl
  · rw [waits_park_other _ i hr]
    simp [hr]

end Kernel

end Tanix
