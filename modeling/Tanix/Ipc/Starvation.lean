/-
# `Tanix.Ipc.Starvation` — who waits for a server, and whether it is ever received

The senders blocked on a server stand in a line (`waitingLine`): first the two
places of its queue, then the 32 slots of the senders whose message is staged
because the queue was full.

    sys_send        enters the first free place of the queue, else its own slot's place
    sys_receive     takes the lowest place the filter accepts

So a newcomer may enter ahead of somebody who waits: the place that a receive
has just freed is the lowest one.  A sender that is quick enough takes it every
time, and the one behind it is never received (`sender_starves`).  Where every
sender enters behind all who wait (`InTurn`), a server that keeps receiving
from anybody receives everybody (`received_of_inTurn`).
-/
import Tanix.Ipc.ExactlyOnce
import Tanix.Lib.Line

namespace Tanix

open Scheduler
open List Option LTS
open Function (update_eq_self update_of_ne update_self)

/-! ## The line in front of a server -/

variable (s : Scheduler)

/-- The message that slot `j` holds staged for the task `dst`. -/
def stagedOn (dst : UInt32) (j : Slot) : Option PendingSend :=
  (s.tasks j).bind fun t => t.sendFullWait.bind fun st =>
    if st.dst = dst then some ⟨st.src, st.msg⟩ else none

/-- Who waits for slot `d`: its queue, then the slots staged on it. -/
def waitingLine (d : Slot) : Fin (maxPendingSenders + maxTasks) → Option PendingSend :=
  Fin.append (fun q => (s.tasks d).bind (·.pendingSenders q)) (stagedOn s (s.idAt d))

namespace Ipc

/-- A run without an end.  Slot 0 is the boot context, which makes no system calls. -/
structure Endless (ρ : Nat → Ipc) (ev : Nat → IpcEvent) : Prop where
  init : (ρ 0).Initial
  steps : Forever Step ρ ev
  user : ∀ n i c, ev n = .call i c → i ≠ 0

/-- Slot `d` calls receive with the filter `M_ANY`. -/
def ReceivesAny (d : Slot) (e : IpcEvent) : Prop :=
  ∃ out, e = .call d (.receive mAny out)

/-- Slot `i` is blocked in a send of `msg` to slot `d`. -/
def BlockedSending (m : Ipc) (i d : Slot) (msg : Message) : Prop :=
  ∃ t, m.sched.tasks d = some t ∧ m.calls i = some ⟨.send t.id msg, none⟩ ∧
    m.sched.stateIs i .blocked = true

/-- The event is a receive of slot `d` that hands it the message `msg` of slot `i`. -/
def ReceivedFrom (d i : Slot) (msg : Message) : IpcEvent → Prop
  | .call j (.receive filter out) => j = d ∧
      (sysReceive s d filter out).handed = some ⟨d, out, msg.stamp (s.idAt i)⟩
  | _ => False

/-- Whoever is blocked sending to a server that keeps receiving from anybody is received. -/
def NoStarvation (ρ : Nat → Ipc) (ev : Nat → IpcEvent) : Prop :=
  ∀ d, (∀ n, ∃ k, n ≤ k ∧ ReceivesAny d (ev k)) →
    ∀ n i msg, BlockedSending (ρ n) i d msg →
      ∃ k, n ≤ k ∧ ReceivedFrom (ρ k).sched d i msg (ev k)

/-- The place that a send of slot `i` takes in the line of task `t` when it has to wait. -/
def entryPlace (t : Task) (i : Slot) : Fin (maxPendingSenders + maxTasks) :=
  match t.freePlace with
  | some q => Fin.castAdd maxTasks q
  | none => Fin.natAdd maxPendingSenders i

/-- The event is no send that enters the line ahead of somebody who waits. -/
def InTurn : IpcEvent → Prop
  | .call i (.send dst _) => ∀ d ∈ s.taskIdx dst, ∀ t ∈ s.tasks d,
      ¬ (t.recvBlocked = true ∧ accepts t.recvFilter (s.idAt i) = true) →
        ∀ k, entryPlace t i ≤ k → waitingLine s d k = none
  | _ => True

instance (d i : Slot) (msg : Message) : DecidablePred (ReceivedFrom s d i msg)
  | .call j (.receive filter out) => inferInstanceAs (Decidable (j = d ∧
      (sysReceive s d filter out).handed = some ⟨d, out, msg.stamp (s.idAt i)⟩))
  | .call _ (.send _ _) | .run _ | .preempt _ | .store _ _ _ | .ret _ => .isFalse id

instance : DecidablePred (InTurn s)
  | .call i (.send dst _) => inferInstanceAs (Decidable (∀ d ∈ s.taskIdx dst, ∀ t ∈ s.tasks d,
      ¬ (t.recvBlocked = true ∧ accepts t.recvFilter (s.idAt i) = true) →
        ∀ k, entryPlace t i ≤ k → waitingLine s d k = none))
  | .call _ (.receive _ _) | .run _ | .preempt _ | .store _ _ _ | .ret _ => .isTrue trivial

end Ipc

variable {f : Task → Task} {k j : Slot}

/-! ## Reading the line -/

section Line

variable {s : Scheduler} {d : Slot}

@[simp] theorem waitingLine_queue (s : Scheduler) (d : Slot) (q : Fin maxPendingSenders) :
    waitingLine s d (Fin.castAdd maxTasks q) = (s.tasks d).bind (·.pendingSenders q) :=
  Fin.append_left _ _ q

@[simp] theorem waitingLine_staged (s : Scheduler) (d j : Slot) :
    waitingLine s d (Fin.natAdd maxPendingSenders j) = stagedOn s (s.idAt d) j :=
  Fin.append_right _ _ j

theorem idAt_modify (k : Slot) (hid : ∀ t, (f t).id = t.id) (d : Slot) :
    (s.modify k f).idAt d = s.idAt d :=
  congrArg (Option.getD · 0) (map_modify hid d)

theorem bind_eq_of_map_eq {α β : Type} {o o' : Option α} {g : α → Option β}
    (h : o'.map g = o.map g) : o'.bind g = o.bind g := by
  have hjoin := congrArg (Option.bind · id) h
  simpa [bind_map] using hjoin

theorem queue_ne_slot (q : Fin maxPendingSenders) (k : Slot) :
    Fin.castAdd maxTasks q ≠ Fin.natAdd maxPendingSenders k := by
  intro h
  have hval := congrArg Fin.val h
  have hq := q.isLt
  simp only [Fin.val_castAdd, Fin.val_natAdd] at hval
  omega

/-- A staged message is read off its own slot. -/
theorem stagedOn_modify (dst : UInt32) (h : j ≠ k ∨ ∀ t, (f t).sendFullWait = t.sendFullWait) :
    stagedOn (s.modify k f) dst j = stagedOn s dst j := by
  refine bind_eq_of_map_eq ?_
  rcases h with hj | hf
  · rw [modify_tasks_ne s f hj]
  · exact map_modify (fun t => by rw [hf]) j

/-- A write that keeps ids and queues touches the place of its own slot. -/
theorem waitingLine_modify (hid : ∀ t, (f t).id = t.id)
    (hqueue : ∀ t, (f t).pendingSenders = t.pendingSenders) :
    waitingLine (s.modify k f) d = Function.update (waitingLine s d)
      (Fin.natAdd maxPendingSenders k) (stagedOn (s.modify k f) (s.idAt d) k) := by
  funext j
  refine Fin.addCases (fun q => ?_) (fun j => ?_) j
  · rw [update_of_ne (queue_ne_slot q k), waitingLine_queue, waitingLine_queue]
    exact bind_eq_of_map_eq (map_modify (fun t => by rw [hqueue]) d)
  · rw [waitingLine_staged, idAt_modify k hid]
    by_cases hj : j = k
    · rw [hj, update_self]
    · rw [update_of_ne (fun h => hj (Fin.natAdd_injective _ _ h)), waitingLine_staged,
        stagedOn_modify _ (Or.inl hj)]

/-- A write that keeps ids, queues and staged messages keeps the line. -/
theorem waitingLine_keep (hid : ∀ t, (f t).id = t.id)
    (hqueue : ∀ t, (f t).pendingSenders = t.pendingSenders)
    (hstaged : ∀ t, (f t).sendFullWait = t.sendFullWait) :
    waitingLine (s.modify k f) d = waitingLine s d := by
  rw [waitingLine_modify hid hqueue, stagedOn_modify _ (Or.inr hstaged), ← waitingLine_staged,
    update_eq_self]

theorem waitingLine_setState (k : Slot) (st : TaskState) :
    waitingLine (s.setState k st) d = waitingLine s d :=
  waitingLine_keep (f := fun t => { t with state := st }) (fun _ => rfl) (fun _ => rfl)
    (fun _ => rfl)

/-- Writing a place of the queue of slot `k` writes that place of its line, and of no other. -/
theorem waitingLine_park {u : Task} (hu : s.tasks k = some u) (q : Fin maxPendingSenders)
    (p : Option PendingSend) :
    waitingLine (s.modify k (·.park q p)) d
      = if d = k then Function.update (waitingLine s d) (Fin.castAdd maxTasks q) p
        else waitingLine s d := by
  have hid : ∀ t : Task, (t.park q p).id = t.id := fun _ => rfl
  have hslots : ∀ j, waitingLine (s.modify k (·.park q p)) d (Fin.natAdd maxPendingSenders j)
      = waitingLine s d (Fin.natAdd maxPendingSenders j) := by
    intro j
    rw [waitingLine_staged, waitingLine_staged, idAt_modify k hid]
    exact stagedOn_modify _ (Or.inr fun _ => rfl)
  funext j
  refine Fin.addCases (fun q' => ?_) (fun j => ?_) j
  · rw [waitingLine_queue]
    split
    · rename_i hd
      subst hd
      rw [modify_tasks_same, hu]
      by_cases hq : q' = q
      · rw [hq, update_self]
        exact update_self q p u.pendingSenders
      · rw [update_of_ne (fun h => hq (Fin.castAdd_injective _ _ h)), waitingLine_queue, hu]
        exact update_of_ne hq p u.pendingSenders
    · rename_i hd
      rw [modify_tasks_ne s _ hd, waitingLine_queue]
  · rw [hslots]
    split
    · rw [update_of_ne (Ne.symm (queue_ne_slot q j))]
    · rfl

theorem waitingLine_releaseSender (src : UInt32) :
    waitingLine (releaseSender s src) d = waitingLine s d := by
  rw [releaseSender]
  split
  · rfl
  · split
    · rfl
    · exact waitingLine_setState _ _

/-- Staging fills the sender's place in the line of the task it names. -/
theorem waitingLine_stage {i : Slot} {u : Task} (hu : s.tasks i = some u)
    (hfree : u.sendFullWait = none) (st : StagedSend) :
    waitingLine (s.modify i (·.stage st)) d
      = if st.dst = s.idAt d then
          Function.update (waitingLine s d) (Fin.natAdd maxPendingSenders i) (some ⟨st.src, st.msg⟩)
        else waitingLine s d := by
  have hempty : waitingLine s d (Fin.natAdd maxPendingSenders i) = none := by
    rw [waitingLine_staged, stagedOn, hu]
    simp [hfree]
  have hplace : stagedOn (s.modify i (·.stage st)) (s.idAt d) i
      = if st.dst = s.idAt d then some ⟨st.src, st.msg⟩ else none := by
    rw [stagedOn, modify_tasks_same, hu]
    rfl
  rw [waitingLine_modify (f := (·.stage st)) (fun _ => rfl) (fun _ => rfl), hplace]
  split
  · rfl
  · rw [← hempty, update_eq_self]

/-- Taking a staged message empties the sender's place in the line of the task it names. -/
theorem waitingLine_unstage {u : Task} {st : StagedSend} (hu : s.tasks j = some u)
    (hst : u.sendFullWait = some st) :
    waitingLine (s.modify j Task.unstage) d
      = if st.dst = s.idAt d then
          Function.update (waitingLine s d) (Fin.natAdd maxPendingSenders j) none
        else waitingLine s d := by
  have hplace : stagedOn (s.modify j Task.unstage) (s.idAt d) j = none := by
    rw [stagedOn, modify_tasks_same, hu]
    rfl
  rw [waitingLine_modify (f := Task.unstage) (fun _ => rfl) (fun _ => rfl), hplace]
  split
  · rfl
  · rename_i hne
    have hempty : waitingLine s d (Fin.natAdd maxPendingSenders j) = none := by
      rw [waitingLine_staged, stagedOn, hu]
      simp [hst, hne]
    rw [← hempty, update_eq_self]

end Line

/-! ## What a step does to the line -/

theorem accepts_any (src : UInt32) : accepts mAny src = true := by
  simp [accepts]

namespace Ipc

variable {m m' : Ipc} {e : IpcEvent} {d : Slot}

/-- A step is a call, or it moves the state of one task and at most ends a call. -/
theorem Step.cases (h : Step m e m') :
    (∃ i c, e = .call i c ∧ m.sched.stateIs i .running = true ∧ m.calls i = none ∧
      m' = m.issue i c) ∨
    ((∀ i c, e ≠ .call i c) ∧ (m'.sched = m.sched ∨ ∃ i st, m'.sched = m.sched.setState i st) ∧
      ∀ i, m'.calls i = m.calls i ∨ m'.calls i = none) := by
  cases e with
  | run i =>
    obtain ⟨_, ⟨⟩⟩ := ite_none_right_eq_some.mp h
    exact Or.inr ⟨by simp, Or.inr ⟨i, _, rfl⟩, fun _ => Or.inl rfl⟩
  | preempt i =>
    obtain ⟨_, ⟨⟩⟩ := ite_none_right_eq_some.mp h
    exact Or.inr ⟨by simp, Or.inr ⟨i, _, rfl⟩, fun _ => Or.inl rfl⟩
  | store i addr msg =>
    obtain ⟨_, ⟨⟩⟩ := ite_none_right_eq_some.mp h
    exact Or.inr ⟨by simp, Or.inl rfl, fun _ => Or.inl rfl⟩
  | call i c =>
    obtain ⟨hi, ⟨⟩⟩ := ite_none_right_eq_some.mp h
    exact Or.inl ⟨i, c, rfl, hi.1, hi.2, rfl⟩
  | ret i =>
    rw [Step, step] at h
    split at h
    · obtain ⟨_, ⟨⟩⟩ := ite_none_right_eq_some.mp h
      refine Or.inr ⟨by simp, Or.inl rfl, fun k => ?_⟩
      by_cases hk : k = i
      · exact Or.inr (by rw [hk]; exact update_self i none m.calls)
      · exact Or.inl (update_of_ne hk none m.calls)
    · cases h

/-- What a step of the machine does to the line of slot `d`. -/
inductive LineStep (m : Ipc) (d : Slot) :
    IpcEvent → (Fin (maxPendingSenders + maxTasks) → Option PendingSend) → Prop
  | still (e : IpcEvent)
      (hempty : ∀ out, e = .call d (.receive mAny out) → ∀ k, waitingLine m.sched d k = none) :
      LineStep m d e (waitingLine m.sched d)
  | taken (filter : Int32) (out : Nat) (k : Fin (maxPendingSenders + maxTasks)) (p : PendingSend)
      (hp : waitingLine m.sched d k = some p)
      (hhanded : (sysReceive m.sched d filter out).handed = some ⟨d, out, p.msg.stamp p.src⟩)
      (hfirst : filter = mAny → ∀ k', k' < k → waitingLine m.sched d k' = none) :
      LineStep m d (.call d (.receive filter out)) (Function.update (waitingLine m.sched d) k none)
  | entered (i : Slot) (dst : UInt32) (msg : Message) (k : Fin (maxPendingSenders + maxTasks))
      (p : PendingSend)
      (hlast : InTurn m.sched (.call i (.send dst msg)) →
        ∀ k', k ≤ k' → waitingLine m.sched d k' = none) :
      LineStep m d (.call i (.send dst msg)) (Function.update (waitingLine m.sched d) k (some p))

variable {t : Task} {q : Fin maxPendingSenders}

/-- A free place is not before the first free one. -/
theorem freePlace_of_free (hq : t.pendingSenders q = none) :
    ∃ q₀, t.freePlace = some q₀ ∧ q₀ ≤ q := by
  cases hfree : t.freePlace with
  | none =>
    have hno := find?_eq_none.mp hfree q (mem_finRange q)
    exact absurd (by rw [hq]; rfl) hno
  | some q₀ =>
    refine ⟨q₀, rfl, not_lt.mp fun hlt => ?_⟩
    have hbusy := (Line.find?_finRange hfree).2 q hlt
    rw [hq] at hbusy
    cases hbusy

variable {i j : Slot}

/-- A sender that has to wait enters the first free place of the queue, else its own slot's. -/
theorem Inv.lineStep_send (h : m.Inv) (hi : m.sched.stateIs i .running = true)
    (ht : m.sched.tasks d = some t) (dst : UInt32) (msg : Message) :
    LineStep m d (.call i (.send dst msg)) (waitingLine (m.issue i (.send dst msg)).sched d) := by
  obtain ⟨v, hv, _⟩ := stateIs_iff.mp hi
  have hsame : LineStep m d (.call i (.send dst msg)) (waitingLine m.sched d) :=
    .still _ (by simp)
  have hstep := sysSend_step m.sched i dst msg
  show LineStep m d _ (waitingLine (sysSend m.sched i dst msg).sched d)
  generalize sysSend m.sched i dst msg = o at hstep
  cases hstep with
  | self => exact hsame
  | noTask => exact hsame
  | rendezvous d' u =>
    have hkeep : waitingLine ((m.sched.modify d' Task.delivered).setWoken d') d
        = waitingLine m.sched d :=
      waitingLine_keep (f := Task.delivered) (fun _ => rfl) (fun _ => rfl) (fun _ => rfl)
    rw [hkeep]
    exact hsame
  | queued d' u q hne hd hu hid hr hq =>
    rw [waitingLine_setState, waitingLine_park hu]
    split
    · rename_i hdd
      subst hdd
      refine .entered i dst msg _ _ fun hturn k hk => ?_
      obtain ⟨q₀, hq₀, hle⟩ := freePlace_of_free hq
      refine hturn d hd u hu hr k (le_trans ?_ hk)
      rw [entryPlace, hq₀]
      exact hle
    · exact hsame
  | staged d' u hne hd hu hid hr hfull =>
    have hawake : v.sendFullWait = none := by
      by_contra hst
      exact h.awake hi (by decide) .staged ⟨v, hv, hst⟩
    rw [waitingLine_stage hv hawake]
    split
    · rename_i hdst
      have hdd : d' = d := by
        refine h.ids d' d u t hu ht ?_
        rw [hid, ← idAt_eq ht]
        exact hdst
      subst hdd
      refine .entered i dst msg _ _ fun hturn k hk => ?_
      refine hturn d' hd u hu hr k (le_trans ?_ hk)
      rw [entryPlace, hfull]
    · exact hsame

/-- The senders a receive from anybody looks at in the queue. -/
theorem parkedFor_any (t : Task) (q : Fin maxPendingSenders) :
    ((t.pendingSenders q).bind fun p => if accepts mAny p.src then some (q, p) else none)
      = (t.pendingSenders q).map (q, ·) := by
  cases t.pendingSenders q <;> simp [accepts_any]

/-- A receive from anybody takes the first sender of the queue. -/
theorem parkedFor_any_first {p : PendingSend} (h : t.parkedFor mAny = some (q, p))
    {q' : Fin maxPendingSenders} (hlt : q' < q) : t.pendingSenders q' = none := by
  obtain ⟨q₁, hq₁, hbefore⟩ := Line.findSome?_finRange h
  rw [parkedFor_any] at hq₁
  obtain ⟨p', _, hp'⟩ := map_eq_some_iff.mp hq₁
  cases hp'
  have hnone := hbefore q' hlt
  rw [parkedFor_any] at hnone
  exact map_eq_none_iff.mp hnone

theorem parkedFor_any_none (h : t.parkedFor mAny = none) (q : Fin maxPendingSenders) :
    t.pendingSenders q = none := by
  have hnone := findSome?_eq_none_iff.mp h q (mem_finRange q)
  rw [parkedFor_any] at hnone
  exact map_eq_none_iff.mp hnone

/-- A staged sender is blocked, and it is not slot 0, which makes no calls. -/
theorem Parked.staged (h : m.Parked) (h0 : m.calls 0 = none) (ht : m.sched.tasks j = some t)
    (hst : t.sendFullWait ≠ none) : t.state = .blocked ∧ j ≠ 0 := by
  have hw : Waits m.sched j .staged := ⟨t, ht, hst⟩
  constructor
  · exact state_of_stateIs ht (h.blocked j _ hw)
  · rintro rfl
    obtain ⟨c, hc, _⟩ := h.holds 0 _ hw
    rw [h0] at hc
    cases hc

variable {my : UInt32}

/-- The test of `stagedFor` for one slot, with the filter `M_ANY`. -/
theorem Parked.stagedOn_none (h : m.Parked) (h0 : m.calls 0 = none) (hno : ((m.sched.tasks j).bind
    fun t => t.sendFullWait.bind fun st => if st.dst == my && accepts mAny st.src && t.state !=
    .zombie then some (j, st) else none) = none) : stagedOn m.sched my j = none := by
  rw [stagedOn]
  cases ht : m.sched.tasks j with
  | none => rfl
  | some t =>
    cases hst : t.sendFullWait with
    | none => simp [hst]
    | some st =>
      have hb := (h.staged h0 ht (by simp [hst])).1
      simpa [ht, hst, hb, accepts_any] using hno

/-- Slot 0, which the loop of `sys_receive` skips, has nothing staged. -/
theorem Parked.stagedFor_eq (h : m.Parked) (h0 : m.calls 0 = none) (my : UInt32) (filter : Int32) :
    stagedFor m.sched my filter = (List.finRange maxTasks).findSome? fun j =>
      (m.sched.tasks j).bind fun t => t.sendFullWait.bind fun st =>
        if st.dst == my && accepts filter st.src && t.state != .zombie then some (j, st)
        else none := by
  have hzero : ((m.sched.tasks 0).bind fun t => t.sendFullWait.bind fun st =>
      if st.dst == my && accepts filter st.src && t.state != .zombie then some ((0 : Slot), st)
      else none) = none := by
    cases ht : m.sched.tasks 0 with
    | none => rfl
    | some t =>
      have hst : t.sendFullWait = none := by
        by_contra hst
        exact (h.staged h0 ht hst).2 rfl
      simp [hst]
  rw [stagedFor, finRange_succ, tail_cons, findSome?_cons, hzero]

/-- A receive from anybody takes the first of the staged senders. -/
theorem Parked.stagedFor_any_first (h : m.Parked) (h0 : m.calls 0 = none) {j' : Slot}
    {st : StagedSend} (hs : stagedFor m.sched my mAny = some (j, st)) (hlt : j' < j) :
    stagedOn m.sched my j' = none := by
  rw [h.stagedFor_eq h0] at hs
  obtain ⟨j₁, hj₁, hbefore⟩ := Line.findSome?_finRange hs
  have hj : j₁ = j := by
    obtain ⟨t, _, hj₁⟩ := bind_eq_some_iff.mp hj₁
    obtain ⟨st', _, hj₁⟩ := bind_eq_some_iff.mp hj₁
    obtain ⟨_, ⟨⟩⟩ := ite_none_right_eq_some.mp hj₁
    rfl
  exact h.stagedOn_none h0 (hbefore j' (hj ▸ hlt))

/-- A receive takes the lowest place it accepts. -/
theorem Inv.lineStep_receive (h : m.Inv) (h0 : m.calls 0 = none)
    (hi : m.sched.stateIs i .running = true) (ht : m.sched.tasks d = some t) (filter : Int32)
    (out : Nat) :
    LineStep m d (.call i (.receive filter out))
      (waitingLine (m.issue i (.receive filter out)).sched d) := by
  obtain ⟨u, hu, _⟩ := stateIs_iff.mp hi
  -- a receive of another slot takes from the line of that slot
  have hother : d ≠ i → LineStep m d (.call i (.receive filter out)) (waitingLine m.sched d) := by
    intro hdi
    refine .still _ fun out' he => ?_
    cases he
    exact absurd rfl hdi
  show LineStep m d _ (waitingLine (sysReceive m.sched i filter out).sched d)
  cases hp : u.parkedFor filter with
  | some qp =>
    obtain ⟨q, p⟩ := qp
    have hout : sysReceive m.sched i filter out
        = ⟨releaseSender (m.sched.modify i (·.park q none)) p.src, some p.src.toInt32,
            some ⟨i, out, p.msg.stamp p.src⟩⟩ := by
      simp only [sysReceive, hu, hp]
    rw [hout, waitingLine_releaseSender, waitingLine_park hu]
    split
    · rename_i hdi
      subst hdi
      refine .taken filter out _ p ?_ (by rw [hout]) ?_
      · rw [waitingLine_queue, hu]
        exact (Task.parkedFor_some hp).1
      · rintro rfl k
        refine Fin.addCases (fun q' hlt => ?_) (fun j hlt => ?_) k
        · rw [waitingLine_queue, hu]
          exact parkedFor_any_first hp hlt
        · have hq := q.isLt
          exact absurd (Fin.lt_def.mp hlt) (by simp only [Fin.val_castAdd, Fin.val_natAdd]; omega)
    · rename_i hdi
      exact hother hdi
  | none =>
    cases hs : stagedFor m.sched u.id filter with
    | some jst =>
      obtain ⟨j, st⟩ := jst
      obtain ⟨v, hv, hst, hdst, _⟩ := stagedFor_some hs
      have hout : sysReceive m.sched i filter out
          = ⟨(m.sched.modify j Task.unstage).setWoken j, some st.src.toInt32,
              some ⟨i, out, st.msg.stamp st.src⟩⟩ := by
        simp only [sysReceive, hu, hp, hs]
      have hline : waitingLine ((m.sched.modify j Task.unstage).setWoken j) d = _ :=
        waitingLine_unstage (d := d) hv hst
      rw [hout, hline]
      split
      · rename_i hid
        have hdi : d = i := by
          refine h.ids d i t u ht hu ?_
          rw [← idAt_eq ht, ← hid, hdst]
        subst hdi
        refine .taken filter out _ ⟨st.src, st.msg⟩ ?_ (by rw [hout]) ?_
        · rw [waitingLine_staged, stagedOn, hv]
          simp [hst, hid]
        · rintro rfl k
          refine Fin.addCases (fun q' _ => ?_) (fun j' hlt => ?_) k
          · rw [waitingLine_queue, hu]
            exact parkedFor_any_none hp q'
          · rw [waitingLine_staged, idAt_eq hu]
            exact h.stagedFor_any_first h0 hs (Fin.lt_def.mpr (by simpa using hlt))
      · rename_i hid
        refine hother ?_
        rintro rfl
        exact hid (by rw [hdst, idAt_eq hu])
    | none =>
      have hout : sysReceive m.sched i filter out
          = ⟨m.sched.modify i (·.blockReceive filter out), none, none⟩ := by
        simp only [sysReceive, hu, hp, hs]
      have hkeep : waitingLine (m.sched.modify i (·.blockReceive filter out)) d
          = waitingLine m.sched d :=
        waitingLine_keep (f := (·.blockReceive filter out)) (fun _ => rfl) (fun _ => rfl)
          (fun _ => rfl)
      rw [hout, hkeep]
      refine .still _ fun out' he k => ?_
      cases he
      refine Fin.addCases (fun q => ?_) (fun j => ?_) k
      · rw [waitingLine_queue, hu]
        exact parkedFor_any_none hp q
      · rw [waitingLine_staged, idAt_eq hu]
        rw [h.stagedFor_eq h0] at hs
        exact h.stagedOn_none h0 (findSome?_eq_none_iff.mp hs j (mem_finRange j))

theorem Inv.lineStep (h : m.Inv) (h0 : m.calls 0 = none) (ht : m.sched.tasks d = some t)
    (hstep : Step m e m') : LineStep m d e (waitingLine m'.sched d) := by
  rcases hstep.cases with ⟨i, c, rfl, hi, _, rfl⟩ | ⟨hno, hsched, _⟩
  · cases c with
    | send dst msg => exact h.lineStep_send hi ht dst msg
    | receive filter out => exact h.lineStep_receive h0 hi ht filter out
  · have hline : waitingLine m'.sched d = waitingLine m.sched d := by
      rcases hsched with hs | ⟨i, st, hs⟩
      · rw [hs]
      · rw [hs, waitingLine_setState]
    rw [hline]
    exact .still e fun out he => absurd he (hno _ _)

/-! ## Runs -/

variable {l : Fin (maxPendingSenders + maxTasks) → Option PendingSend}

/-- Where newcomers go behind all who wait, a step moves the line as a queue moves. -/
theorem LineStep.moves (h : LineStep m d e l) (hturn : InTurn m.sched e) :
    Line.Moves (waitingLine m.sched d) l := by
  cases h with
  | still => exact .stay
  | taken filter out k p hp hhanded hfirst => exact .leave k
  | entered i dst msg k p hlast => exact .enter k p (hlast hturn)

/-- A receive from anybody serves the lowest place. -/
theorem LineStep.serves (h : LineStep m d e l) (hany : ReceivesAny d e) :
    Line.Serves (waitingLine m.sched d) l := by
  obtain ⟨out, rfl⟩ := hany
  intro k hk hfirst
  cases h with
  | still _ hempty => exact absurd (hempty out rfl k) hk
  | taken _ _ k' p hp _ hfirst' =>
    have hkk : k' = k := by
      rcases lt_trichotomy k' k with hlt | heq | hgt
      · rw [hfirst k' hlt] at hp
        cases hp
      · exact heq
      · exact absurd (hfirst' rfl k hgt) hk
    rw [hkk]

/-- Whoever is gone from the line has been received. -/
theorem LineStep.received (h : LineStep m d e l) {k : Fin (maxPendingSenders + maxTasks)}
    {msg : Message} (hk : waitingLine m.sched d k = some ⟨m.sched.idAt i, msg⟩)
    (hgone : l k = none) : ReceivedFrom m.sched d i msg e := by
  cases h with
  | still =>
    rw [hk] at hgone
    cases hgone
  | taken filter out k' p hp hhanded _ =>
    have hkk : k = k' := by
      by_contra hne
      rw [update_of_ne hne, hk] at hgone
      cases hgone
    subst hkk
    cases hk.symm.trans hp
    exact ⟨rfl, hhanded⟩
  | entered i' dst msg' k' p _ =>
    by_cases hkk : k = k'
    · rw [hkk, update_self] at hgone
      cases hgone
    · rw [update_of_ne hkk, hk] at hgone
      cases hgone

/-- Whoever is blocked sending to slot `d` stands in its line. -/
theorem Inv.inLine (h : m.Inv) {msg : Message} (hb : BlockedSending m i d msg) :
    ∃ k, waitingLine m.sched d k = some ⟨m.sched.idAt i, msg⟩ := by
  obtain ⟨t, ht, hc, hst⟩ := hb
  obtain ⟨r, hw⟩ := h.waits i _ hc hst
  obtain ⟨c', hc', hh⟩ := h.holds i r hw
  cases hc.symm.trans hc'
  cases r with
  | recv =>
    obtain ⟨_, _, hno⟩ := hh
    cases hno
  | sleep => exact hh.elim
  | staged =>
    obtain ⟨v, dst, msg', hv, hst', hcall⟩ := hh
    cases hcall
    refine ⟨Fin.natAdd maxPendingSenders i, ?_⟩
    rw [waitingLine_staged, stagedOn, hv, idAt_eq ht, idAt_eq hv]
    simp [hst']
  | queued d' q =>
    obtain ⟨v, u, msg', hv, hu, hp, hcall⟩ := hh
    obtain ⟨hid, rfl⟩ := IpcCall.send.inj hcall
    obtain rfl := h.ids d d' t u ht hu hid
    refine ⟨Fin.castAdd maxTasks q, ?_⟩
    rw [waitingLine_queue, hu, idAt_eq hv]
    exact hp

theorem untouched_id : Untouched Task.id :=
  ⟨fun _ _ => rfl, fun _ => rfl, fun _ _ _ => rfl, fun _ _ => rfl, fun _ => rfl, fun _ _ _ => rfl⟩

theorem Step.sameIds (h : Step m e m') : SameIds m.sched m'.sched := by
  rcases h.cases with ⟨i, c, _, _, _, rfl⟩ | ⟨_, hsched, _⟩
  · cases c with
    | send dst msg => exact untouched_id.map_sysSend m.sched i dst msg
    | receive filter out => exact untouched_id.map_sysReceive m.sched i filter out
  · rcases hsched with hs | ⟨i, st, hs⟩
    · rw [hs]
      exact fun _ => rfl
    · rw [hs]
      exact sameIds_setState _ _ _

namespace Endless

variable {ρ : Nat → Ipc} {ev : Nat → IpcEvent}

theorem inv (h : Endless ρ ev) (n : Nat) : (ρ n).Inv :=
  h.steps.invariant (fun _ _ hI hst => hI.step hst) h.init.inv n

theorem calls_zero (h : Endless ρ ev) (n : Nat) : (ρ n).calls 0 = none := by
  refine h.steps.invariant (I := fun m => m.calls 0 = none) (fun n m' h0 hst => ?_) (h.init.idle 0) n
  rcases hst.cases with ⟨i, c, he, _, _, rfl⟩ | ⟨_, _, hcalls⟩
  · have hi : i ≠ 0 := h.user n i c he
    rw [issue, finish_calls_ne _ (Ne.symm hi)]
    exact h0
  · rcases hcalls 0 with hc | hc
    · rw [hc, h0]
    · exact hc

theorem sameIds (h : Endless ρ ev) (n : Nat) : SameIds (ρ 0).sched (ρ n).sched :=
  h.steps.invariant (I := fun m => SameIds (ρ 0).sched m.sched)
    (fun _ _ hI hst => hI.trans hst.sameIds) (fun _ => rfl) n

theorem idAt_eq_idAt (h : Endless ρ ev) (n k : Nat) (i : Slot) :
    (ρ n).sched.idAt i = (ρ k).sched.idAt i :=
  congrArg (Option.getD · 0) ((h.sameIds n i).trans (h.sameIds k i).symm)

end Endless

/-- A server that keeps receiving from anybody receives everybody who is blocked sending to it, in
every run in which no sender enters the line ahead of one who waits. -/
theorem received_of_inTurn {ρ : Nat → Ipc} {ev : Nat → IpcEvent} (h : Endless ρ ev)
    (hturn : ∀ n, InTurn (ρ n).sched (ev n)) : NoStarvation ρ ev := by
  intro d hany n i msg hb
  obtain ⟨t, ht, _⟩ := id hb
  -- the server keeps its slot and its id
  have hocc : ∀ k, ∃ u, (ρ k).sched.tasks d = some u := by
    intro k
    obtain ⟨t₀, ht₀, _⟩ := (h.sameIds n).bwd ht
    exact ((h.sameIds k).fwd ht₀).imp fun _ h => h.1
  have hline : ∀ k, LineStep (ρ k) d (ev k) (waitingLine (ρ (k + 1)).sched d) := by
    intro k
    obtain ⟨u, hu⟩ := hocc k
    exact (h.inv k).lineStep (h.calls_zero k) hu (h.steps k)
  obtain ⟨k, hk⟩ := (h.inv n).inLine hb
  obtain ⟨n', hn', hwait, hgone⟩ := Line.leaves_of_served
    (fun k => (hline k).moves (hturn k)) (fun k => (hline k).serves) hany hk
  rw [h.idAt_eq_idAt n n'] at hwait
  exact ⟨n', hn', (hline n').received hwait hgone⟩

/-! ## Two runs -/

/-- What decides the next step, without the messages in memory and the log. -/
def view (m : Ipc) : Scheduler × (Slot → Option InCall) :=
  (m.sched, m.calls)

def viewStep (v : Scheduler × (Slot → Option InCall)) (e : IpcEvent) :
    Option (Scheduler × (Slot → Option InCall)) :=
  (step ⟨v.1, v.2, fun _ _ => ⟨0, 0, .replicate 8 0⟩, []⟩ e).map view

theorem map_view_step (m : Ipc) (e : IpcEvent) : (m.step e).map view = viewStep m.view e := by
  cases e with
  | run i | preempt i | store i | call i =>
    rw [viewStep, step, step, apply_ite (Option.map view), apply_ite (Option.map view)]
    rfl
  | ret i =>
    rw [viewStep, step, step, view]
    cases m.calls i with
    | none => rfl
    | some c =>
      simp only [apply_ite (Option.map view)]
      rfl

/-- Ready tasks in the slots `1 .. n`, each with its slot as id. -/
def readyTasks (n : Nat) : Ipc where
  sched := { Scheduler.new with
    tasks := fun i =>
      if 1 ≤ i.val ∧ i.val ≤ n then some (Task.new (UInt32.ofNat i.val) "task" ⟨.entry, 0⟩) else none }
  calls := fun _ => none
  mem := fun _ _ => ⟨0, 0, .replicate 8 0⟩
  log := []

theorem readyTasks_initial (n : Nat) : (readyTasks n).Initial := by
  have htask : ∀ i t, (readyTasks n).sched.tasks i = some t →
      t = Task.new (UInt32.ofNat i.val) "task" ⟨.entry, 0⟩ := by
    intro i t ht
    obtain ⟨_, ⟨⟩⟩ := ite_none_right_eq_some.mp ht
    rfl
  refine ⟨?_, fun _ => rfl, ?_, rfl⟩
  · intro i j t u ht hu hid
    rw [htask i t ht, htask j u hu] at hid
    have hval := congrArg UInt32.toNat (show UInt32.ofNat i.val = UInt32.ofNat j.val from hid)
    have hsize : maxTasks < UInt32.size := by decide
    rw [UInt32.toNat_ofNat_of_lt' (i.isLt.trans hsize),
      UInt32.toNat_ofNat_of_lt' (j.isLt.trans hsize)] at hval
    exact Fin.ext hval
  · intro i t ht
    rw [htask i t ht]
    exact ⟨rfl, rfl, rfl, fun _ => rfl⟩

/-- A computed lasso of ready tasks, in which slot 0 calls nothing, is a run without an end. -/
theorem endless_of_lasso {n : Nat} {c₀ : Scheduler × (Slot → Option InCall)}
    {stem loop : List IpcEvent} (hstem : exec viewStep (readyTasks n).view stem = some c₀)
    (hloop : exec viewStep c₀ loop = some c₀) (hne : 0 < loop.length)
    (huser : passes viewStep (fun _ e => match e with | .call i _ => i != 0 | _ => true)
      (readyTasks n).view (stem ++ loop) = true) :
    ∃ ρ ev, Endless ρ ev ∧ (ρ stem.length).view = c₀ ∧
      (∀ p, passes viewStep p (readyTasks n).view (stem ++ loop) = true →
        ∀ n, p (ρ n).view (ev n) = true) ∧
      ∀ e ∈ loop, ∀ n, ∃ k, n ≤ k ∧ ev k = e := by
  obtain ⟨ρ, ev, h0, hsteps, hend, hpass, hoften⟩ :=
    Forever.of_lasso (fun m e v h => map_eq_some_iff.mp ((map_view_step m e).trans h)) hstem hloop hne
  refine ⟨ρ, ev, ⟨h0 ▸ readyTasks_initial n, hsteps, fun k i c he => ?_⟩, hend, hpass, hoften⟩
  have hk := hpass _ huser k
  rw [he] at hk
  simpa using hk

def greeting : Message := ⟨0, 7, .replicate 8 5⟩

/-- The server in slot 1 receives, and the sender in slot 2, released, sends again. -/
def serveAndSend : List IpcEvent :=
  [.run 1, .call 1 (.receive mAny 0), .ret 1, .preempt 1, .run 2, .ret 2, .call 2 (.send 1 greeting)]

/-- Slots 2 and 3 send to slot 1 and are parked, in this order; the server receives once. -/
def twoSenders : List IpcEvent :=
  [.run 2, .call 2 (.send 1 greeting), .run 3, .call 3 (.send 1 greeting)] ++ serveAndSend

/-- The sender in slot 2 gets the first place of the queue back each time, and the one in slot 3
is never received. -/
theorem sender_starves : ∃ ρ ev, Endless ρ ev ∧ ¬ NoStarvation ρ ev := by
  have htest : (exec viewStep (readyTasks 3).view twoSenders).any (fun c =>
      decide (exec viewStep c serveAndSend = some c) && decide (c.1.idAt 1 = 1) &&
        decide (c.2 3 = some ⟨.send 1 greeting, none⟩) && c.1.stateIs 3 .blocked &&
        (c.1.tasks 1).isSome) = true := by
    decide +kernel
  obtain ⟨c₀, hstem, hc₀⟩ := exec_any _ _ _ _ htest
  simp only [Bool.and_eq_true, decide_eq_true_eq] at hc₀
  obtain ⟨⟨⟨⟨hloop, hid⟩, hcall⟩, hblocked⟩, hserver⟩ := hc₀
  obtain ⟨ρ, ev, hend, hview, hpass, hoften⟩ :=
    endless_of_lasso hstem hloop (by decide) (by decide +kernel)
  refine ⟨ρ, ev, hend, fun hno => ?_⟩
  have hany : ∀ n, ∃ k, n ≤ k ∧ ReceivesAny 1 (ev k) := by
    intro n
    obtain ⟨k, hk, he⟩ := hoften (.call 1 (.receive mAny 0)) (by simp [serveAndSend]) n
    exact ⟨k, hk, 0, he⟩
  obtain ⟨t, ht⟩ := isSome_iff_exists.mp hserver
  cases hview
  have hsending : BlockedSending (ρ twoSenders.length) 3 1 greeting := by
    refine ⟨t, ht, ?_, hblocked⟩
    rw [← idAt_eq ht, hid]
    exact hcall
  obtain ⟨k, _, hreceived⟩ := hno 1 hany _ 3 greeting hsending
  have hnever := hpass (fun c e => decide (¬ ReceivedFrom c.1 1 3 greeting e)) (by decide +kernel) k
  exact of_decide_eq_true hnever hreceived

/-- One sender, always behind nobody. -/
theorem received_of_inTurn_oneSender : ∃ ρ ev, Endless ρ ev ∧ (∀ n, InTurn (ρ n).sched (ev n)) ∧
    (∀ n, ∃ k, n ≤ k ∧ ReceivesAny 1 (ev k)) ∧ NoStarvation ρ ev := by
  have htest : (exec viewStep (readyTasks 2).view
      ([.run 2, .call 2 (.send 1 greeting)] ++ serveAndSend)).any (fun c =>
        decide (exec viewStep c serveAndSend = some c)) = true := by
    decide +kernel
  obtain ⟨c₀, hstem, hloop⟩ := exec_any _ _ _ _ htest
  obtain ⟨ρ, ev, hend, _, hpass, hoften⟩ :=
    endless_of_lasso hstem (of_decide_eq_true hloop) (by decide) (by decide +kernel)
  have hturn : ∀ n, InTurn (ρ n).sched (ev n) := fun n =>
    of_decide_eq_true (hpass (fun c e => decide (InTurn c.1 e)) (by decide +kernel) n)
  refine ⟨ρ, ev, hend, hturn, fun n => ?_, received_of_inTurn hend hturn⟩
  obtain ⟨k, hk, he⟩ := hoften (.call 1 (.receive mAny 0)) (by simp [serveAndSend]) n
  exact ⟨k, hk, 0, he⟩

end Ipc

end Tanix
