/-
# `Tanix.Ipc.ExactlyOnce` — every completed send was received exactly once

The two halves of the invariant (`Tanix.Ipc.Invariant`) are kept by every step
of the machine:

    run, preempt      no waiter changes state                 (`Inv.setState`)
    store             memory of a task outside the kernel     (`Inv.store`)
    ret               the entry moves from the kernel to the log  (`Inv.ret`)
    send              refused / direct / queued / staged      (`Inv.send`)
    receive           parked / staged / blocks                (`Inv.receive`)

    reachable m   ⟹   ExactlyOnce m                        (`rendezvous_exactly_once`)
-/
import Tanix.Ipc.Invariant
import Tanix.Lib.Run

namespace Tanix

open Scheduler
open List
open Function (update_of_ne update_self)

namespace Ipc

/-! ## What is claimed of a state -/

structure ExactlyOnce (m : Ipc) : Prop where
  /-- handed from `i` to `d` = completed by `i` towards `d`, with the source stamped -/
  matched : ∀ i t d u, m.sched.tasks i = some t → m.sched.tasks d = some u →
    ((m.taken d).filter (·.2.src = t.id)).map (·.2)
      = ((m.completed i).filter (·.1 = u.id)).map (·.2.stamp t.id)
  /-- the receive that got it asked for any source or for this one -/
  filtered : ∀ d x, x ∈ m.taken d → accepts x.1 x.2.src = true
  /-- the source field names a task -/
  genuine : ∀ d x, x ∈ m.taken d → ∃ i t, m.sched.tasks i = some t ∧ t.id = x.2.src
  /-- a completed send has a destination -/
  addressed : ∀ i x, x ∈ m.completed i → ∃ d u, m.sched.tasks d = some u ∧ u.id = x.1
  /-- a parked send is held in exactly one place, unchanged -/
  held : ∀ i dst msg, m.calls i = some ⟨.send dst msg, none⟩ → m.sched.stateIs i .blocked = true →
    ∃ r, (∀ r', Waits m.sched i r' ↔ r' = r) ∧ Holds m.sched i (.send dst msg) r
  /-- a queue entry belongs to a sender that is Blocked in that very send -/
  queue : ∀ d u q p, m.sched.tasks d = some u → u.pendingSenders q = some p →
    ∃ i t, m.sched.tasks i = some t ∧ t.id = p.src ∧ t.state = .blocked ∧
      m.calls i = some ⟨.send u.id p.msg, none⟩
  /-- a staged message belongs to a sender that is Blocked in that very send -/
  staged : ∀ i t st, m.sched.tasks i = some t → t.sendFullWait = some st →
    t.state = .blocked ∧ st.src = t.id ∧ m.calls i = some ⟨.send st.dst st.msg, none⟩
  /-- a receive returns the source of the message it got -/
  result : ∀ i filter msg ret, Obs.received i filter msg ret ∈ m.log → ret = msg.src.toInt32

structure Inv (m : Ipc) : Prop extends Parked m, Matched m

/-! ## Reading the sequences off a state -/

variable {k d : Slot}

variable {m : Ipc}

theorem inHand_congr {m' : Ipc} (hcalls : m'.calls k = m.calls k)
    (hrecv : (m'.sched.tasks k).map (·.recvBlocked) = (m.sched.tasks k).map (·.recvBlocked))
    (hmem : m'.mem k = m.mem k) : m'.inHand k = m.inHand k := by
  have hany : (m'.sched.tasks k).any (·.recvBlocked) = (m.sched.tasks k).any (·.recvBlocked) := by
    have h := congrArg (Option.any id) hrecv
    simpa [Option.any_map, Function.comp_def] using h
  simp only [inHand, hcalls, hany, hmem]

theorem inHand_eq_nil (h : ∀ filter out ret, m.calls k ≠ some ⟨.receive filter out, ret⟩) :
    m.inHand k = [] := by
  unfold inHand
  split
  · rename_i hc
    exact absurd hc (h _ _ _)
  · rfl

theorem released_congr {m' : Ipc} (hcalls : m'.calls k = m.calls k)
    (hstate : m'.sched.stateIs k .blocked = m.sched.stateIs k .blocked) :
    m'.released k = m.released k := by
  simp only [released, hcalls, hstate]

theorem released_eq_nil (h : ∀ dst msg ret, m.calls k ≠ some ⟨.send dst msg, ret⟩) :
    m.released k = [] := by
  unfold released
  split
  · rename_i hc
    exact absurd hc (h _ _ _)
  · rename_i hc
    exact absurd hc (h _ _ _)
  · rfl

/-- A step that hands nothing over, with the log as it was. -/
theorem Matched.quiet {m' : Ipc} (h : m.Matched) (hids : SameIds m.sched m'.sched)
    (hin : ∀ k, m'.inHand k = m.inHand k) (hreleased : ∀ k, m'.released k = m.released k)
    (hlog : m'.log = m.log) : m'.Matched := by
  refine h.same hids (fun k => ?_) (fun k => ?_) ?_
  · rw [taken, taken, hin, hlog]
  · rw [completed, completed, hreleased, hlog]
  · rw [hlog]
    exact h.result

variable {i : Slot}

/-- A running task waits for nothing. -/
theorem Parked.awake (h : m.Parked) {st : TaskState} (hi : m.sched.stateIs i st = true)
    (hst : st ≠ .blocked) (r : Reason) : ¬ Waits m.sched i r := by
  intro hw
  obtain ⟨t, ht, hs⟩ := stateIs_iff.mp hi
  exact hst (hs.symm.trans (state_of_stateIs ht (h.blocked i r hw)))

theorem Parked.ne_of_waits (h : m.Parked) {k : Slot} {r : Reason}
    (hi : m.sched.stateIs i .running = true) (hw : Waits m.sched k r) : k ≠ i := by
  rintro rfl
  exact h.awake hi (by decide) r hw

/-- A running task enters a call that is over, or leaves one. -/
theorem Parked.recall (h : m.Parked) (hi : m.sched.stateIs i .running = true) {c : Option InCall}
    (hc : ∀ x, c ≠ some ⟨x, none⟩)
    (hvalue : ∀ filter out r, c ≠ some ⟨.receive filter out, some r⟩) (log : List Obs) :
    Parked { m with calls := Function.update m.calls i c, log := log } := by
  have hother : ∀ k, k ≠ i → Function.update m.calls i c k = m.calls k :=
    fun k hk => update_of_ne hk c m.calls
  refine ⟨h.ids, ?_, h.blocked, h.unique, ?_, ?_, h.sources, ?_⟩
  · intro k hk
    by_cases hki : k = i
    · subst hki
      exact (stateIs_iff.mp hi).imp fun _ h => h.1
    · exact h.occupied k (by rwa [← hother k hki])
  · intro k r hw
    obtain ⟨c', hc', hh⟩ := h.holds k r hw
    exact ⟨c', (hother k (h.ne_of_waits hi hw)).trans hc', hh⟩
  · intro k c' hc' hb
    by_cases hki : k = i
    · subst hki
      exact absurd ((update_self k c m.calls).symm.trans hc') (hc c')
    · exact h.waits k c' ((hother k hki).symm.trans hc') hb
  · intro k filter out r hc'
    by_cases hki : k = i
    · subst hki
      exact absurd ((update_self k c m.calls).symm.trans hc') (hvalue filter out r)
    · exact h.value k filter out r ((hother k hki).symm.trans hc')

variable {s s' : Scheduler}

theorem not_blocked_of_stateIs {st : TaskState} (hi : s.stateIs i st = true) (hst : st ≠ .blocked) :
    s.stateIs i .blocked = false := by
  obtain ⟨t, ht, hs⟩ := stateIs_iff.mp hi
  rw [stateIs, ht]
  simpa [hs] using hst

/-! ## Steps outside the two calls -/

theorem Inv.setState (h : m.Inv) {st st' : TaskState} (hi : m.sched.stateIs i st = true)
    (hst : st ≠ .blocked) (hst' : st' ≠ .blocked) :
    Inv { m with sched := m.sched.setState i st' } := by
  obtain ⟨t, ht, _⟩ := stateIs_iff.mp hi
  have hblocked : ∀ k, (m.sched.setState i st').stateIs k .blocked = m.sched.stateIs k .blocked := by
    intro k
    by_cases hk : k = i
    · subst hk
      rw [stateIs_setState_same ht, not_blocked_of_stateIs hi hst]
      simpa using hst'
    · exact stateIs_setState_ne m.sched st' .blocked hk
  have hids : SameIds m.sched (m.sched.setState i st') := sameIds_modify _ _ fun _ => rfl
  refine ⟨⟨hids.uniqueIds h.ids, ?_, ?_, ?_, ?_, ?_, ?_, h.value⟩, ?_⟩
  · intro k hk
    obtain ⟨u, hu⟩ := h.occupied k hk
    exact (hids.fwd hu).imp fun _ h => h.1
  · intro k r hw
    rw [hblocked]
    exact h.blocked k r ((waits_setState k r st').mp hw)
  · intro k r r' hw hw'
    exact h.unique k r r' ((waits_setState k r st').mp hw) ((waits_setState k r' st').mp hw')
  · intro k r hw
    obtain ⟨c, hc, hh⟩ := h.holds k r ((waits_setState k r st').mp hw)
    exact ⟨c, hc, hh.setState⟩
  · intro k c hc hb
    rw [hblocked] at hb
    obtain ⟨r, hr⟩ := h.waits k c hc hb
    exact ⟨r, (waits_setState k r st').mpr hr⟩
  · intro d u q p hu hp
    obtain ⟨j, v, hv, hid⟩ :=
      Sources.modify (f := fun t => { t with state := st' }) h.sources (fun _ _ _ => .inl) d u q p hu hp
    obtain ⟨v', hv', hid'⟩ := hids.fwd hv
    exact ⟨j, v', hv', hid'.trans hid⟩
  · refine h.toMatched.quiet hids (fun k => inHand_congr rfl ?_ rfl)
      (fun k => released_congr rfl (hblocked k)) rfl
    exact map_modify (f := fun t => { t with state := st' }) (fun _ => rfl) k

theorem Inv.store (h : m.Inv) (hi : m.calls i = none) (addr : Nat) (msg : Message) :
    Inv { m with mem := writeOut m.mem (some ⟨i, addr, msg⟩) } := by
  have hmem : ∀ k, k ≠ i → writeOut m.mem (some ⟨i, addr, msg⟩) k = m.mem k := by
    intro k hk
    exact update_of_ne hk _ _
  refine ⟨⟨h.ids, h.occupied, h.blocked, h.unique, h.holds, h.waits, h.sources, ?_⟩, ?_⟩
  · intro k filter out r hc
    have hk : k ≠ i := by
      rintro rfl
      exact absurd (hi.symm.trans hc) (by simp)
    show r = (writeOut m.mem (some ⟨i, addr, msg⟩) k out).src.toInt32
    rw [hmem k hk]
    exact h.value k filter out r hc
  · refine h.toMatched.quiet (fun _ => rfl) (fun k => ?_) (fun _ => rfl) rfl
    by_cases hk : k = i
    · subst hk
      rw [inHand_eq_nil (by simp [hi]), inHand_eq_nil (by simp [hi])]
    · exact inHand_congr rfl rfl (hmem k hk)

/-- Leaving the kernel moves the entry of the call from the state to the log. -/
theorem Inv.ret (h : m.Inv) {c : InCall} (hc : m.calls i = some c)
    (hi : m.sched.stateIs i .running = true) :
    Inv { m with calls := Function.update m.calls i none, log := m.log ++ [m.observe i c] } := by
  have hother : ∀ k, k ≠ i → Function.update m.calls i none k = m.calls k := by
    intro k hk
    exact update_of_ne hk none m.calls
  have hrunning : m.sched.stateIs i .blocked = false := not_blocked_of_stateIs hi (by decide)
  have hrecv : (m.sched.tasks i).any (·.recvBlocked) = false := by
    obtain ⟨t, ht, _⟩ := stateIs_iff.mp hi
    have hno : ¬ t.recvBlocked = true := fun hr => h.awake hi (by decide) .recv ⟨t, ht, hr⟩
    simpa [ht] using hno
  refine ⟨h.toParked.recall hi (by simp) (by simp) _, ?_⟩
  · refine h.toMatched.same (fun _ => rfl) ?_ ?_ ?_
    · intro k
      by_cases hki : k = i
      · subst hki
        obtain ⟨_ | _, ret⟩ := c <;>
          simp [taken, inHand, observe, takenBy, hc, hrecv]
      · have hk : ∀ o, takenBy k (m.observe i o) = none := by
          rintro ⟨_ | _, ret⟩ <;> simp [observe, takenBy, Ne.symm hki]
        simp [taken, inHand, hother k hki, hk]
    · intro k
      by_cases hki : k = i
      · subst hki
        obtain ⟨_ | _, _ | ret⟩ := c
        · simp [completed, released, observe, completedBy, hc, hrunning]
        · by_cases hr : ret = 0 <;> simp [completed, released, observe, completedBy, hc, hr]
        · simp [completed, released, observe, completedBy, hc]
        · simp [completed, released, observe, completedBy, hc]
      · have hk : ∀ o, completedBy k (m.observe i o) = none := by
          rintro ⟨_ | _, ret⟩ <;> simp [observe, completedBy, Ne.symm hki]
        simp [completed, released, hother k hki, hk]
    · intro k filter msg r hmem
      rcases mem_append.mp hmem with hmem | hmem
      · exact h.result k filter msg r hmem
      · obtain ⟨_ | ⟨f, out⟩, ret⟩ := c
        · simp [observe] at hmem
        · simp only [observe, mem_singleton, Obs.received.injEq] at hmem
          obtain ⟨_, _, rfl, rfl⟩ := hmem
          cases ret with
          | none => rfl
          | some v => exact h.value i f out v hc

variable {t u : Task}

/-! ## The two calls -/

section Calls

variable {m : Ipc} {i : Slot} {c : IpcCall}

theorem finish_calls_self (o : IpcOut) : (m.finish i c o).calls i = some ⟨c, o.ret⟩ :=
  update_self i _ m.calls

theorem finish_calls_ne (o : IpcOut) (hk : k ≠ i) : (m.finish i c o).calls k = m.calls k :=
  update_of_ne hk _ m.calls

theorem writeOut_ne (mem : Slot → Nat → Message) (h : Handed) (hk : k ≠ h.dst) :
    writeOut mem (some h) k = mem k :=
  update_of_ne hk _ mem

@[simp] theorem writeOut_same (mem : Slot → Nat → Message) (h : Handed) :
    writeOut mem (some h) h.dst h.buf = h.msg := by
  simp [writeOut]

variable (h : m.Inv) (hi : m.sched.stateIs i .running = true) (hc : m.calls i = none)

include h hi hc

/-- A send that is refused changes nothing. -/
theorem Inv.refused (dst : UInt32) (msg : Message) {ret : Int32} (hret : ret ≠ 0) :
    Inv (m.finish i (.send dst msg) ⟨m.sched, some ret, none⟩) := by
  have hself := finish_calls_self (m := m) (i := i) (c := .send dst msg) ⟨m.sched, some ret, none⟩
  refine ⟨h.toParked.recall hi (by simp) (by simp) m.log, ?_⟩
  · refine h.toMatched.quiet (fun _ => rfl) (fun k => ?_) (fun k => ?_) rfl
    · by_cases hki : k = i
      · subst hki
        rw [inHand_eq_nil (by simp [hself]), inHand_eq_nil (by simp [hc])]
      · exact inHand_congr (finish_calls_ne _ hki) rfl rfl
    · by_cases hki : k = i
      · subst hki
        rw [released_eq_nil (m := m) (by simp [hc])]
        simp [released, hself, hret]
      · exact released_congr (finish_calls_ne _ hki) rfl

/-- A call that parks its caller hands nothing over. -/
theorem Inv.parks {r : Reason} (hids : SameIds m.sched s')
    (hwaits : ∀ k r', Waits s' k r' ↔ Waits m.sched k r' ∨ (k = i ∧ r' = r))
    (hkeep : ∀ k c r', Waits m.sched k r' → Holds m.sched k c r' → Holds s' k c r')
    (hnew : Holds s' i c r)
    (hstate : ∀ k, k ≠ i → s'.stateIs k .blocked = m.sched.stateIs k .blocked)
    (hme : s'.stateIs i .blocked = true) (hsrc : Sources m.sched s')
    (hrecv : ∀ k, k ≠ i → (s'.tasks k).map (·.recvBlocked) = (m.sched.tasks k).map (·.recvBlocked))
    (hown : ∀ filter out, c = .receive filter out → (s'.tasks i).any (·.recvBlocked) = true) :
    Inv (m.finish i c ⟨s', none, none⟩) := by
  have hself := finish_calls_self (m := m) (i := i) (c := c) ⟨s', none, none⟩
  have hocc : ∃ t, m.sched.tasks i = some t := (stateIs_iff.mp hi).imp fun _ h => h.1
  refine ⟨h.toParked.park hids hocc (h.awake hi (by decide)) hwaits hkeep hnew hstate hme hsrc
    rfl rfl, ?_⟩
  refine h.toMatched.quiet hids (fun k => ?_) (fun k => ?_) rfl
  · by_cases hki : k = i
    · subst hki
      rw [inHand_eq_nil (m := m) (by simp [hc])]
      cases c with
      | send dst msg => exact inHand_eq_nil (by simp [hself])
      | receive filter out =>
        simp only [inHand, hself]
        exact if_pos (hown filter out rfl)
    · exact inHand_congr (finish_calls_ne _ hki) (hrecv k hki) rfl
  · by_cases hki : k = i
    · subst hki
      rw [released_eq_nil (m := m) (by simp [hc])]
      cases c with
      | send dst msg =>
        simp only [released, hself]
        exact if_pos hme
      | receive filter out => exact released_eq_nil (by simp [hself])
    · exact released_congr (finish_calls_ne _ hki) (hstate k hki)

/-- The direct path: the caller's message goes to a receiver that waits for it. -/
theorem Inv.direct (hd : m.sched.tasks d = some u) (hr : u.recvBlocked = true)
    (hf : accepts u.recvFilter (m.sched.idAt i) = true) (msg : Message) :
    Inv (m.finish i (.send u.id msg) ⟨(m.sched.modify d Task.delivered).setWoken d, some 0,
      some ⟨d, u.recvBuf, msg.stamp (m.sched.idAt i)⟩⟩) := by
  obtain ⟨t, ht, _⟩ := stateIs_iff.mp hi
  rw [idAt_eq ht] at hf ⊢
  have hw : Waits m.sched d .recv := ⟨u, hd, hr⟩
  have hdi := h.ne_of_waits hi hw
  obtain ⟨_, hcd, u', hu', rfl⟩ := h.holds d .recv hw
  rw [hd] at hu'
  cases hu'
  have hids : SameIds m.sched ((m.sched.modify d Task.delivered).setWoken d) :=
    sameIds_modify _ _ fun _ => rfl
  have hstate : ∀ k, k ≠ d → ((m.sched.modify d Task.delivered).setWoken d).stateIs k .blocked
      = m.sched.stateIs k .blocked := fun k hk => stateIs_modify_ne m.sched _ _ hk
  have hself := finish_calls_self (m := m) (i := i) (c := .send u.id msg)
    ⟨(m.sched.modify d Task.delivered).setWoken d, some 0, some ⟨d, u.recvBuf, msg.stamp t.id⟩⟩
  refine ⟨h.toParked.release hids ⟨t, ht⟩ (h.awake hi (by decide)) hw ?_ ?_ hstate ?_ ?_ rfl ?_, ?_⟩
  · intro k r'
    exact (waits_setWoken k r').trans (waits_delivered k r')
  · intro k c' r' _ hh
    exact Holds.modify (fun _ => rfl) (Or.inr fun _ => ⟨rfl, rfl, rfl⟩)
      (fun _ _ _ => Or.inr fun _ => rfl) hh
  · exact stateIs_modify_same hd _ _
  · exact Sources.modify (f := Task.delivered) h.sources fun _ _ _ => .inl
  · intro k filter out v hc'
    have hki : k ≠ i := by
      rintro rfl
      exact absurd (hself.symm.trans hc') (by simp)
    rw [finish_calls_ne _ hki] at hc'
    have hkd : k ≠ d := by
      rintro rfl
      exact absurd (hcd.symm.trans hc') (by simp)
    show v = (writeOut m.mem _ k out).src.toInt32
    rw [writeOut_ne m.mem _ hkd]
    exact h.value k filter out v hc'
  · refine h.toMatched.transfer h.ids hids ht hd hf msg ?_ ?_ rfl
    · intro k
      rw [taken, taken, append_assoc]
      congr 1
      by_cases hkd : k = d
      · subst hkd
        simp [inHand, finish, update_of_ne hdi, hcd, hd, hr, Task.delivered, writeOut]
      · rw [if_neg hkd, append_nil]
        by_cases hki : k = i
        · subst hki
          rw [inHand_eq_nil (m := m) (by simp [hc]), inHand_eq_nil (by simp [hself])]
        · refine inHand_congr (finish_calls_ne _ hki) ?_ (writeOut_ne m.mem _ hkd)
          exact congrArg _ (modify_tasks_ne m.sched _ hkd)
    · intro k
      rw [completed, completed, append_assoc]
      congr 1
      by_cases hki : k = i
      · subst hki
        rw [released_eq_nil (m := m) (by simp [hc])]
        simp [released, hself]
      · rw [if_neg hki, append_nil]
        by_cases hkd : k = d
        · subst hkd
          rw [released_eq_nil (m := m) (by simp [hcd]),
            released_eq_nil (by simp [finish_calls_ne _ hdi, hcd])]
        · exact released_congr (finish_calls_ne _ hki) (hstate k hkd)

/-- The receiving path: the caller takes the message of a sender parked for it. -/
theorem Inv.takes {j : Slot} {r : Reason} {msg : Message} {filter : Int32} (hu : m.sched.tasks i = some u)
    (ht : m.sched.tasks j = some t) (hw : Waits m.sched j r)
    (hh : Holds m.sched j (.send u.id msg) r) (hf : accepts filter t.id = true) (out : Nat)
    (hids : SameIds m.sched s')
    (hwaits : ∀ k r', Waits s' k r' ↔ Waits m.sched k r' ∧ ¬ (k = j ∧ r' = r))
    (hkeep : ∀ k c r', Waits s' k r' → Holds m.sched k c r' → Holds s' k c r')
    (hstate : ∀ k, k ≠ j → s'.stateIs k .blocked = m.sched.stateIs k .blocked)
    (hjst : s'.stateIs j .blocked = false) (hsrc : Sources m.sched s')
    (hrecv : ∀ k, (s'.tasks k).map (·.recvBlocked) = (m.sched.tasks k).map (·.recvBlocked)) :
    Inv (m.finish i (.receive filter out)
      ⟨s', some t.id.toInt32, some ⟨i, out, msg.stamp t.id⟩⟩) := by
  have hji := h.ne_of_waits hi hw
  have hcj : m.calls j = some ⟨.send u.id msg, none⟩ := by
    obtain ⟨c', hcj, hh'⟩ := h.holds j r hw
    rw [hcj, hh.call_unique hh']
  have hself := finish_calls_self (m := m) (i := i) (c := .receive filter out)
    ⟨s', some t.id.toInt32, some ⟨i, out, msg.stamp t.id⟩⟩
  have hnotrecv : u.recvBlocked = false := by
    by_contra hb
    exact h.awake hi (by decide) .recv ⟨u, hu, Bool.eq_true_of_not_eq_false hb⟩
  refine ⟨h.toParked.release hids ⟨u, hu⟩ (h.awake hi (by decide)) hw hwaits hkeep hstate hjst hsrc
    rfl ?_, ?_⟩
  · intro k filter' out' v hc'
    by_cases hki : k = i
    · subst hki
      cases hself.symm.trans hc'
      show t.id.toInt32 = (writeOut m.mem (some ⟨k, out, msg.stamp t.id⟩) k out).src.toInt32
      rw [writeOut_same m.mem ⟨k, out, msg.stamp t.id⟩]
      rfl
    · rw [finish_calls_ne _ hki] at hc'
      show v = (writeOut m.mem _ k out').src.toInt32
      rw [writeOut_ne m.mem _ hki]
      exact h.value k filter' out' v hc'
  · refine h.toMatched.transfer h.ids hids ht hu hf msg ?_ ?_ rfl
    · intro k
      rw [taken, taken, append_assoc]
      congr 1
      by_cases hki : k = i
      · subst hki
        have hany : (s'.tasks k).any (·.recvBlocked) = false := by
          have hk := congrArg (Option.any id) (hrecv k)
          simpa [Option.any_map, Function.comp_def, hu, hnotrecv] using hk
        rw [inHand_eq_nil (m := m) (by simp [hc])]
        simp [inHand, finish, hany, writeOut]
      · rw [if_neg hki, append_nil]
        exact inHand_congr (finish_calls_ne _ hki) (hrecv k) (writeOut_ne m.mem _ hki)
    · intro k
      rw [completed, completed, append_assoc]
      congr 1
      by_cases hkj : k = j
      · subst hkj
        have hb := h.blocked k r hw
        simp [released, finish, update_of_ne hji, hcj, hjst, hb]
      · rw [if_neg hkj, append_nil]
        by_cases hki : k = i
        · subst hki
          rw [released_eq_nil (m := m) (by simp [hc]), released_eq_nil (by simp [hself])]
        · exact released_congr (finish_calls_ne _ hki) (hstate k hkj)

theorem Inv.send (dst : UInt32) (msg : Message) : Inv (m.issue i (.send dst msg)) := by
  obtain ⟨t, ht, _⟩ := stateIs_iff.mp hi
  have hstep := sysSend_step m.sched i dst msg
  show Inv (m.finish i (.send dst msg) (sysSend m.sched i dst msg))
  generalize sysSend m.sched i dst msg = o at hstep
  cases hstep with
  | self => exact h.refused hi hc dst msg (by decide)
  | noTask => exact h.refused hi hc dst msg (by decide)
  | rendezvous d u hne hd hu hid hr hf =>
    subst hid
    exact h.direct hi hc hu hr hf msg
  | queued d u q hne hd hu hid hr hq =>
    subst hid
    rw [idAt_eq ht] at hne ⊢
    have hdi : d ≠ i := by
      rintro rfl
      rw [ht] at hu
      cases hu
      exact hne rfl
    have hrow : (m.sched.modify d (·.park q (some ⟨t.id, msg⟩))).tasks i = some t := by
      rw [modify_tasks_ne _ _ (Ne.symm hdi), ht]
    refine h.parks hi hc (r := .queued d q) ?_ ?_ ?_ ?_ ?_ ?_ ?_ ?_ ?_
    · exact (sameIds_modify _ _ (f := (·.park q (some ⟨t.id, msg⟩))) fun _ => rfl).trans
        (sameIds_setState _ _ _)
    · intro k r'
      exact (waits_setState k r' .blocked).trans (waits_park_some h.ids hu hq ht msg k r')
    · intro k c' r' hw hh
      -- the place just filled was nobody's reason
      have hplace : r' ≠ .queued d q := by
        rintro rfl
        obtain ⟨_, u', _, _, hu', hp, _⟩ := hw
        rw [hu] at hu'
        cases hu'
        rw [hq] at hp
        cases hp
      refine Holds.setState (Holds.modify (fun _ => rfl) (Or.inr fun _ => ⟨rfl, rfl, rfl⟩) ?_ hh)
      rintro d' q' rfl
      by_cases hdd : d' = d
      · subst hdd
        have hqq : q' ≠ q := fun hqq => hplace (by rw [hqq])
        exact Or.inr fun v => update_of_ne hqq _ v.pendingSenders
      · exact Or.inl hdd
    · refine ⟨{ t with state := .blocked }, u.park q (some ⟨t.id, msg⟩), msg, ?_, ?_, ?_, rfl⟩
      · exact setState_tasks_same hrow _
      · rw [setState_tasks_ne _ _ hdi, modify_tasks_same, hu]
        rfl
      · simp [Task.park]
    · intro k hk
      rw [stateIs_setState_ne _ _ _ hk]
      exact stateIs_modify_keep _ _ _ (f := (·.park q (some ⟨t.id, msg⟩))) (fun _ => rfl) _
    · exact stateIs_setState_same hrow _ _
    · refine Sources.modify (f := fun t => { t with state := .blocked })
        (Sources.modify h.sources fun _ _ _ hp => ?_) fun _ _ _ => .inl
      exact (Task.park_entry hp).symm.imp_right fun ho => ⟨i, t, ht, by cases ho; rfl⟩
    · intro k _
      exact (map_modify (f := fun t => { t with state := .blocked }) (fun _ => rfl) k).trans
        (map_modify (f := (·.park q (some ⟨t.id, msg⟩))) (fun _ => rfl) k)
    · intro filter out hno
      cases hno
  | staged d u hne hd hu hid hr hfull =>
    rw [idAt_eq ht]
    refine h.parks hi hc (r := .staged) ?_ ?_ ?_ ?_ ?_ ?_ ?_ ?_ ?_
    · exact sameIds_modify _ _ fun _ => rfl
    · exact waits_stage ht _
    · intro k c' r' hw hh
      have hki := h.ne_of_waits hi hw
      exact Holds.modify (fun _ => rfl) (Or.inl hki) (fun _ _ _ => Or.inr fun _ => rfl) hh
    · exact ⟨t.stage ⟨dst, t.id, msg⟩, dst, msg, by rw [modify_tasks_same, ht]; rfl, rfl, rfl⟩
    · intro k hk
      exact stateIs_modify_ne _ _ _ hk
    · exact stateIs_modify_same ht _ _
    · exact Sources.modify h.sources fun _ _ _ => .inl
    · intro k hk
      rw [modify_tasks_ne _ _ hk]
    · intro filter out hno
      cases hno

theorem Inv.receive (filter : Int32) (out : Nat) : Inv (m.issue i (.receive filter out)) := by
  obtain ⟨u, hu, _⟩ := stateIs_iff.mp hi
  have hstep := sysReceive_step hu filter out
  show Inv (m.finish i (.receive filter out) (sysReceive m.sched i filter out))
  generalize sysReceive m.sched i filter out = o at hstep
  cases hstep with
  | parked q p hp hf =>
    obtain ⟨j, t, ht, hid⟩ := h.sources i u q p hu hp
    have hw : Waits m.sched j (.queued i q) := ⟨t, u, p, ht, hu, hp, hid.symm⟩
    have hji := h.ne_of_waits hi hw
    have hids := sameIds_modify m.sched i (f := (·.park q none)) fun _ => rfl
    have hrow : (m.sched.modify i (·.park q none)).tasks j = some t := by
      rw [modify_tasks_ne _ _ hji, ht]
    have hlive : (m.sched.modify i (·.park q none)).stateIs j .zombie = false := by
      rw [stateIs, hrow]
      simp [state_of_stateIs ht (h.blocked j _ hw)]
    rw [← hid] at hf ⊢
    rw [releaseSender, taskIdx_eq (hids.uniqueIds h.ids) hrow]
    simp only [hlive, Bool.false_eq_true, if_false]
    refine h.takes hi hc hu ht hw ⟨t, u, p.msg, ht, hu, ?_, rfl⟩ hf out ?_ ?_ ?_ ?_ ?_ ?_ ?_
    · rw [hp, hid]
    · exact hids.trans (sameIds_setState _ _ _)
    · intro k r'
      refine (waits_setState k r' .ready).trans ((waits_park_none q k r').trans ?_)
      refine and_congr_right fun hwk => not_congr ⟨fun hr => ?_, fun hr => hr.2⟩
      subst hr
      exact ⟨hwk.queued_inj h.ids hw, rfl⟩
    · intro k c' r' hwk hh
      refine Holds.setState (Holds.modify (fun _ => rfl) (Or.inr fun _ => ⟨rfl, rfl, rfl⟩) ?_ hh)
      rintro d' q' rfl
      have hwk' := (waits_setState k _ .ready).mp ((waits_setWoken k _).mp hwk)
      have hne := ((waits_park_none q k _).mp hwk').2
      by_cases hdd : d' = i
      · subst hdd
        have hqq : q' ≠ q := fun hqq => hne (by rw [hqq])
        exact Or.inr fun v => update_of_ne hqq _ v.pendingSenders
      · exact Or.inl hdd
    · intro k hk
      exact (stateIs_setState_ne _ _ _ hk).trans
        (stateIs_modify_keep _ _ _ (f := (·.park q none)) (fun _ => rfl) _)
    · exact stateIs_setState_same hrow _ _
    · refine Sources.modify (f := fun t => { t with state := .ready })
        (Sources.modify h.sources fun _ _ _ hp => ?_) fun _ _ _ => .inl
      exact (Task.park_entry hp).symm.imp_right fun ho => by cases ho
    · intro k
      exact (map_modify (f := fun t => { t with state := .ready }) (fun _ => rfl) k).trans
        (map_modify (f := (·.park q none)) (fun _ => rfl) k)
  | unstaged j t st ht hst hdst hf hz =>
    have hw : Waits m.sched j .staged := ⟨t, ht, by simp [Task.waitsOn, hst]⟩
    obtain ⟨c', hcj, t', dst, msg, ht', hst', rfl⟩ := h.holds j .staged hw
    rw [ht] at ht'
    cases ht'
    rw [hst] at hst'
    cases hst'
    subst hdst
    refine h.takes hi hc hu ht hw ⟨t, u.id, msg, ht, hst, rfl⟩ hf out ?_ ?_ ?_ ?_ ?_ ?_ ?_
    · exact sameIds_modify _ _ fun _ => rfl
    · intro k r'
      exact waits_unstage k r'
    · intro k c' r' hwk hh
      obtain ⟨hwk₀, hnot⟩ := (waits_unstage k r').mp hwk
      have hkj : k ≠ j := by
        rintro rfl
        exact hnot ⟨rfl, h.unique k _ _ hwk₀ hw⟩
      exact Holds.modify (fun _ => rfl) (Or.inl hkj) (fun _ _ _ => Or.inr fun _ => rfl) hh
    · intro k hk
      exact stateIs_modify_ne _ _ _ hk
    · exact stateIs_modify_same ht _ _
    · exact Sources.modify h.sources fun _ _ _ => .inl
    · exact map_modify fun _ => rfl
  | block hnone hnostage =>
    refine h.parks hi hc (r := .recv) ?_ ?_ ?_ ?_ ?_ ?_ ?_ ?_ ?_
    · exact sameIds_modify _ _ fun _ => rfl
    · exact waits_blockReceive hu filter out
    · intro k c' r' hw hh
      have hki := h.ne_of_waits hi hw
      exact Holds.modify (fun _ => rfl) (Or.inl hki) (fun _ _ _ => Or.inr fun _ => rfl) hh
    · exact ⟨u.blockReceive filter out, by rw [modify_tasks_same, hu]; rfl, rfl⟩
    · intro k hk
      exact stateIs_modify_ne _ _ _ hk
    · exact stateIs_modify_same hu _ _
    · exact Sources.modify h.sources fun _ _ _ => .inl
    · intro k hk
      rw [modify_tasks_ne _ _ hk]
    · intro f o _
      rw [modify_tasks_same, hu]
      rfl

end Calls

/-! ## Runs -/

theorem Initial.inv (h : m.Initial) : m.Inv := by
  have htaken : ∀ k, m.taken k = [] := by
    intro k
    rw [taken, h.log, inHand_eq_nil (by simp [h.idle k])]
    rfl
  have hcompleted : ∀ k, m.completed k = [] := by
    intro k
    rw [completed, h.log, released_eq_nil (by simp [h.idle k])]
    rfl
  refine ⟨h.parked, ?_, ?_, ?_, ?_, ?_⟩
  · intro i t d u _ _
    rw [htaken, hcompleted]
    rfl
  · simp only [htaken, not_mem_nil, false_implies, implies_true]
  · simp only [htaken, not_mem_nil, false_implies, implies_true]
  · simp only [hcompleted, not_mem_nil, false_implies, implies_true]
  · simp only [h.log, not_mem_nil, false_implies, implies_true]

theorem Inv.step {m' : Ipc} {e : IpcEvent} (h : m.Inv) (hstep : Step m e m') : m'.Inv := by
  cases e with
  | run i | preempt i =>
    obtain ⟨hi, ⟨⟩⟩ := Option.ite_none_right_eq_some.mp hstep
    exact h.setState hi (by decide) (by decide)
  | store i addr msg =>
    obtain ⟨hi, ⟨⟩⟩ := Option.ite_none_right_eq_some.mp hstep
    exact h.store hi.2 addr msg
  | call i c =>
    obtain ⟨hi, ⟨⟩⟩ := Option.ite_none_right_eq_some.mp hstep
    cases c with
    | send dst msg => exact h.send hi.1 hi.2 dst msg
    | receive filter out => exact h.receive hi.1 hi.2 filter out
  | ret i =>
    cases hc : m.calls i with
    | none => simp [Step, Ipc.step, hc] at hstep
    | some c =>
      simp only [Step, Ipc.step, hc] at hstep
      obtain ⟨hi, ⟨⟩⟩ := Option.ite_none_right_eq_some.mp hstep
      exact h.ret hc hi

theorem Inv.exactlyOnce (h : m.Inv) : m.ExactlyOnce := by
  refine ⟨h.matched, h.filtered, h.genuine, h.addressed, ?_, ?_, ?_, h.result⟩
  · intro i dst msg hc hb
    obtain ⟨r, hw⟩ := h.waits i _ hc hb
    obtain ⟨c', hc', hh⟩ := h.holds i r hw
    rw [hc] at hc'
    cases hc'
    refine ⟨r, fun r' => ⟨fun hw' => h.unique i r' r hw' hw, ?_⟩, hh⟩
    rintro rfl
    exact hw
  · intro d u q p hu hp
    obtain ⟨i, t, ht, hid⟩ := h.sources d u q p hu hp
    have hw : Waits m.sched i (.queued d q) := ⟨t, u, p, ht, hu, hp, hid.symm⟩
    have hb := state_of_stateIs ht (h.blocked i _ hw)
    obtain ⟨_, hc, hh⟩ := h.holds i _ hw
    have hrec : Holds m.sched i (.send u.id p.msg) (.queued d q) :=
      ⟨t, u, p.msg, ht, hu, by rw [hp, hid], rfl⟩
    exact ⟨i, t, ht, hid, hb, by rw [hc, hrec.call_unique hh]⟩
  · intro i t st ht hst
    have hw : Waits m.sched i .staged := ⟨t, ht, by simp [Task.waitsOn, hst]⟩
    have hb := state_of_stateIs ht (h.blocked i _ hw)
    obtain ⟨_, hc, t'', dst, msg, ht'', hst', rfl⟩ := h.holds i _ hw
    rw [ht] at ht''
    cases ht''
    rw [hst] at hst'
    cases hst'
    exact ⟨hb, rfl, hc⟩

/-- In every state that any interleaving of sends and receives reaches, messages are handed over
exactly once, unchanged and truthfully stamped, and a parked send is held until it is. -/
theorem rendezvous_exactly_once {m' : Ipc} {es : List IpcEvent} (hinit : m.Initial)
    (hrun : LTS.Run Step m es m') : m'.ExactlyOnce :=
  (hrun.invariant (fun _ _ _ h hstep => Inv.step h hstep) hinit.inv).exactlyOnce

/-- Two running tasks, in slots 1 and 2, with the ids 1 and 2. -/
def pairOfTasks : Ipc where
  sched := { Scheduler.new with
    tasks := fun i =>
      if i = 1 then some { Task.new 1 "ping" ⟨.entry, 0⟩ with state := .running }
      else if i = 2 then some { Task.new 2 "pong" ⟨.entry, 0⟩ with state := .running }
      else none }
  calls := fun _ => none
  mem := fun _ _ => ⟨0, 0, .replicate 8 0⟩
  log := []

theorem pairOfTasks_initial : pairOfTasks.Initial := by
  have htask : ∀ i t, pairOfTasks.sched.tasks i = some t →
      (i = 1 ∧ t = { Task.new 1 "ping" ⟨.entry, 0⟩ with state := .running }) ∨
      (i = 2 ∧ t = { Task.new 2 "pong" ⟨.entry, 0⟩ with state := .running }) := by
    intro i t ht
    simp only [pairOfTasks] at ht
    split at ht
    · exact Or.inl ⟨‹_›, (Option.some.inj ht).symm⟩
    · split at ht
      · exact Or.inr ⟨‹_›, (Option.some.inj ht).symm⟩
      · cases ht
  refine ⟨?_, fun _ => rfl, ?_, rfl⟩
  · intro i j t u ht hu hid
    rcases htask i t ht with ⟨rfl, rfl⟩ | ⟨rfl, rfl⟩ <;>
      rcases htask j u hu with ⟨rfl, rfl⟩ | ⟨rfl, rfl⟩
    · rfl
    · exact absurd hid (by decide)
    · exact absurd hid (by decide)
    · rfl
  · intro i t ht
    rcases htask i t ht with ⟨_, rfl⟩ | ⟨_, rfl⟩
    · exact ⟨rfl, rfl, rfl, fun _ => rfl⟩
    · exact ⟨rfl, rfl, rfl, fun _ => rfl⟩

/-- `ping` sends, parks, and is released by the receive of `pong`. -/
theorem rendezvous_exactly_once_ping : ∃ m', LTS.Run Step pairOfTasks
      [.call 1 (.send 2 ⟨9, 7, .replicate 8 5⟩), .call 2 (.receive mAny 64), .run 1,
        .ret 1, .ret 2] m' ∧
    m'.log = [.sent 1 2 ⟨9, 7, .replicate 8 5⟩ 0,
      .received 2 mAny ⟨1, 7, .replicate 8 5⟩ 1] ∧ m'.ExactlyOnce := by
  have hrun : LTS.Run Step pairOfTasks [.call 1 (.send 2 ⟨9, 7, .replicate 8 5⟩),
      .call 2 (.receive mAny 64), .run 1, .ret 1, .ret 2] _ :=
    .cons rfl (.cons rfl (.cons rfl (.cons rfl (.cons rfl (.nil _)))))
  exact ⟨_, hrun, by decide, rendezvous_exactly_once pairOfTasks_initial hrun⟩

end Ipc

end Tanix
