/-
# `Tanix.Ipc.SendReceive` — the two halves of a rendezvous

`sys_send` and `sys_receive` of `kernel/src/ipc/syscall.rs`, up to the point
where they return or call `switch_away`.  Both work on the task table for the
caller's slot `me`, so the same two functions serve the multiprocessor kernel
and the interleaving machine of `Tanix.Ipc.ExactlyOnce`.

    outcome        meaning
    ret = some r   the call returns `r` to its caller
    ret = none     the caller is parked; `switch_away` follows
    handed         the message the kernel wrote, and into whose buffer

The copy of a message needs the receiver's page table for a moment
(`with_ttbr0`); the model writes straight into the receiver's buffer.

A task that waits is waiting for one of four reasons, read off the table
(`Waits`): blocked in receive, asleep, its message parked in somebody's queue,
its message staged on itself.  `sysSend_step` and `sysReceive_step` list what
the two calls can do, and every proof about them goes through these lists.
-/
import Tanix.Sched.Table

namespace Tanix

/-- A message the kernel copied out, and the buffer it went to. -/
structure Handed where
  dst : Slot
  buf : Nat
  msg : Message
  deriving DecidableEq

structure IpcOut where
  sched : Scheduler
  ret : Option Int32
  handed : Option Handed

/-- The message as its receiver sees it: the kernel stamps the source. -/
def Message.stamp (m : Message) (src : UInt32) : Message :=
  { m with src := src }

variable (filter : Int32)

/-- Does a receive with this filter take a message from `src`? -/
def accepts (src : UInt32) : Bool :=
  filter == mAny || src == filter.toUInt32

/-- The direct path of `sys_send` compares the other way round, as `i32`. -/
theorem accepts_iff (src : UInt32) :
    accepts filter src = (filter == mAny || filter == src.toInt32) := by
  have h : (src == filter.toUInt32) = (filter == src.toInt32) := by
    rw [Bool.eq_iff_iff, beq_iff_eq, beq_iff_eq]
    constructor
    · rintro rfl
      rfl
    · rintro rfl
      rfl
  rw [accepts, h]

namespace Task

variable (t : Task)

/-- What `deliver` does to the receiver's control block. -/
def delivered : Task :=
  { t with recvBlocked := false, state := .ready }

/-- Put a parked sender into place `q` of the queue. -/
def park (q : Fin maxPendingSenders) (p : Option PendingSend) : Task :=
  { t with pendingSenders := Function.update t.pendingSenders q p }

/-- Stage a message on its own sender and block it. -/
def stage (st : StagedSend) : Task :=
  { t with sendFullWait := some st, state := .blocked }

/-- Take the staged message off its sender and release it. -/
def unstage : Task :=
  { t with sendFullWait := none, state := .ready }

/-- Block in receive. -/
def blockReceive (filter : Int32) (out : Nat) : Task :=
  { t with recvBlocked := true, recvFilter := filter, recvBuf := out, state := .blocked }

/-- The first free place of the queue. -/
def freePlace : Option (Fin maxPendingSenders) :=
  (List.finRange maxPendingSenders).find? fun q => (t.pendingSenders q).isNone

/-- The first parked sender that the filter takes. -/
def parkedFor (filter : Int32) : Option (Fin maxPendingSenders × PendingSend) :=
  (List.finRange maxPendingSenders).findSome? fun q =>
    (t.pendingSenders q).bind fun p => if accepts filter p.src then some (q, p) else none

/-- An entry of the queue after one place was written. -/
theorem park_entry {t : Task} {q q' : Fin maxPendingSenders} {o : Option PendingSend} {p : PendingSend}
    (h : (t.park q o).pendingSenders q' = some p) : o = some p ∨ t.pendingSenders q' = some p := by
  simp only [park, Function.update_apply] at h
  split at h
  · exact Or.inl h
  · exact Or.inr h

end Task

open Scheduler

variable (s : Scheduler)

/-- `sys_send`, for the task in slot `me`. -/
def sysSend (me : Slot) (dst : UInt32) (msg : Message) : IpcOut :=
  let my := s.idAt me
  if dst = my then ⟨s, some (-2), none⟩
  else
    match s.taskIdx dst with
    | none => ⟨s, some (-3), none⟩
    | some d =>
      match s.tasks d with
      | none => ⟨s, some (-3), none⟩  -- `expect`: `taskIdx` only names occupied slots
      | some t =>
        if t.recvBlocked && (t.recvFilter == mAny || t.recvFilter == my.toInt32) then
          ⟨(s.modify d Task.delivered).setWoken d, some 0,
            some ⟨d, t.recvBuf, msg.stamp my⟩⟩
        else
          match t.freePlace with
          | some q =>
            ⟨(s.modify d (·.park q (some ⟨my, msg⟩))).setState me .blocked, none, none⟩
          | none => ⟨s.modify me (·.stage ⟨dst, my, msg⟩), none, none⟩

/-- The first live task, from slot 1 up, staged on `my` with a source the filter takes. -/
def stagedFor (my : UInt32) (filter : Int32) : Option (Slot × StagedSend) :=
  (List.finRange maxTasks).tail.findSome? fun i =>
    (s.tasks i).bind fun t =>
      t.sendFullWait.bind fun st =>
        if st.dst == my && accepts filter st.src && t.state != .zombie then some (i, st) else none

/-- Release the sender of a parked message, unless it has died meanwhile. -/
def releaseSender (src : UInt32) : Scheduler :=
  match s.taskIdx src with
  | none => s
  | some j => if s.stateIs j .zombie then s else (s.setState j .ready).setWoken j

/-- `sys_receive`, for the task in slot `me`. -/
def sysReceive (me : Slot) (filter : Int32) (out : Nat) : IpcOut :=
  match s.tasks me with
  | none => ⟨s, none, none⟩  -- `unwrap`: the caller's slot is occupied
  | some t =>
    match t.parkedFor filter with
    | some (q, p) =>
      ⟨releaseSender (s.modify me (·.park q none)) p.src, some p.src.toInt32,
        some ⟨me, out, p.msg.stamp p.src⟩⟩
    | none =>
      match stagedFor s t.id filter with
      | some (j, st) =>
        ⟨(s.modify j Task.unstage).setWoken j, some st.src.toInt32,
          some ⟨me, out, st.msg.stamp st.src⟩⟩
      | none => ⟨s.modify me (·.blockReceive filter out), none, none⟩

/-! ## What the two calls can do -/

variable {t : Task} {q : Fin maxPendingSenders}

theorem Task.parkedFor_some {filter : Int32} {p : PendingSend}
    (h : t.parkedFor filter = some (q, p)) :
    t.pendingSenders q = some p ∧ accepts filter p.src = true := by
  obtain ⟨q', _, hq'⟩ := List.exists_of_findSome?_eq_some h
  obtain ⟨p', hp', hif⟩ := Option.bind_eq_some_iff.mp hq'
  by_cases ha : accepts filter p'.src = true
  · rw [if_pos ha] at hif
    cases hif
    exact ⟨hp', ha⟩
  · rw [if_neg ha] at hif
    cases hif

theorem stagedFor_some {s : Scheduler} {my : UInt32} {filter : Int32} {j : Slot} {st : StagedSend}
    (h : stagedFor s my filter = some (j, st)) :
    ∃ t, s.tasks j = some t ∧ t.sendFullWait = some st ∧ st.dst = my ∧
      accepts filter st.src = true ∧ t.state ≠ .zombie := by
  obtain ⟨j', _, hj'⟩ := List.exists_of_findSome?_eq_some h
  obtain ⟨t, ht, hst⟩ := Option.bind_eq_some_iff.mp hj'
  obtain ⟨st', hst', hif⟩ := Option.bind_eq_some_iff.mp hst
  split at hif
  · rename_i hc
    cases hif
    simp only [Bool.and_eq_true, beq_iff_eq, bne_iff_ne] at hc
    exact ⟨t, ht, hst', hc.1.1, hc.1.2, hc.2⟩
  · cases hif

/-- The outcomes of `sys_send`. -/
inductive SendStep (s : Scheduler) (me : Slot) (dst : UInt32) (msg : Message) : IpcOut → Prop
  | self (h : dst = s.idAt me) : SendStep s me dst msg ⟨s, some (-2), none⟩
  | noTask (h : s.taskIdx dst = none) : SendStep s me dst msg ⟨s, some (-3), none⟩
  | rendezvous (d : Slot) (t : Task) (hne : dst ≠ s.idAt me) (hd : s.taskIdx dst = some d)
      (ht : s.tasks d = some t) (hid : t.id = dst) (hr : t.recvBlocked = true)
      (hf : accepts t.recvFilter (s.idAt me) = true) :
      SendStep s me dst msg ⟨(s.modify d Task.delivered).setWoken d, some 0,
        some ⟨d, t.recvBuf, msg.stamp (s.idAt me)⟩⟩
  | queued (d : Slot) (t : Task) (q : Fin maxPendingSenders) (hne : dst ≠ s.idAt me)
      (hd : s.taskIdx dst = some d) (ht : s.tasks d = some t) (hid : t.id = dst)
      (hr : ¬ (t.recvBlocked = true ∧ accepts t.recvFilter (s.idAt me) = true))
      (hq : t.pendingSenders q = none) :
      SendStep s me dst msg
        ⟨(s.modify d (·.park q (some ⟨s.idAt me, msg⟩))).setState me .blocked, none, none⟩
  | staged (d : Slot) (t : Task) (hne : dst ≠ s.idAt me) (hd : s.taskIdx dst = some d)
      (ht : s.tasks d = some t) (hid : t.id = dst)
      (hr : ¬ (t.recvBlocked = true ∧ accepts t.recvFilter (s.idAt me) = true))
      (hfull : t.freePlace = none) :
      SendStep s me dst msg ⟨s.modify me (·.stage ⟨dst, s.idAt me, msg⟩), none, none⟩

theorem sysSend_step (me : Slot) (dst : UInt32) (msg : Message) :
    SendStep s me dst msg (sysSend s me dst msg) := by
  unfold sysSend
  by_cases hself : dst = s.idAt me
  · simp only [if_pos hself]
    exact .self hself
  · simp only [if_neg hself]
    cases hd : s.taskIdx dst with
    | none => exact .noTask hd
    | some d =>
      obtain ⟨t, ht, hid⟩ := taskIdx_some hd
      simp only [ht, ← accepts_iff, Bool.and_eq_true]
      split
      · rename_i hc
        exact .rendezvous d t hself hd ht hid hc.1 hc.2
      · rename_i hc
        cases hq : t.freePlace with
        | some q => exact .queued d t q hself hd ht hid hc (by simpa using List.find?_some hq)
        | none => exact .staged d t hself hd ht hid hc hq

/-- The outcomes of `sys_receive`, for a caller `t`. -/
inductive ReceiveStep (s : Scheduler) (me : Slot) (t : Task) (filter : Int32) (out : Nat) :
    IpcOut → Prop
  | parked (q : Fin maxPendingSenders) (p : PendingSend) (hp : t.pendingSenders q = some p)
      (hf : accepts filter p.src = true) :
      ReceiveStep s me t filter out
        ⟨releaseSender (s.modify me (·.park q none)) p.src, some p.src.toInt32,
          some ⟨me, out, p.msg.stamp p.src⟩⟩
  | unstaged (j : Slot) (u : Task) (st : StagedSend) (hu : s.tasks j = some u)
      (hst : u.sendFullWait = some st) (hdst : st.dst = t.id)
      (hf : accepts filter st.src = true) (hz : u.state ≠ .zombie) :
      ReceiveStep s me t filter out
        ⟨(s.modify j Task.unstage).setWoken j, some st.src.toInt32,
          some ⟨me, out, st.msg.stamp st.src⟩⟩
  | block (hnone : t.parkedFor filter = none) (hnostage : stagedFor s t.id filter = none) :
      ReceiveStep s me t filter out ⟨s.modify me (·.blockReceive filter out), none, none⟩

theorem sysReceive_step {s : Scheduler} {me : Slot} (ht : s.tasks me = some t) (filter : Int32)
    (out : Nat) : ReceiveStep s me t filter out (sysReceive s me filter out) := by
  simp only [sysReceive, ht]
  cases hp : t.parkedFor filter with
  | some qp =>
    obtain ⟨q, p⟩ := qp
    obtain ⟨hq, hf⟩ := Task.parkedFor_some hp
    exact .parked q p hq hf
  | none =>
    cases hs : stagedFor s t.id filter with
    | some jst =>
      obtain ⟨j, st⟩ := jst
      obtain ⟨u, hu, hst, hdst, hf, hz⟩ := stagedFor_some hs
      exact .unstaged j u st hu hst hdst hf hz
    | none => exact .block hp hs

/-! ## What the two calls leave alone -/

/-- A reading of a task that sending and receiving do not change. -/
structure Untouched {α : Type} (g : Task → α) : Prop where
  state : ∀ t st, g { t with state := st } = g t
  delivered : ∀ t, g (Task.delivered t) = g t
  park : ∀ t q p, g (Task.park t q p) = g t
  stage : ∀ t st, g (Task.stage t st) = g t
  unstage : ∀ t, g (Task.unstage t) = g t
  blockReceive : ∀ t filter out, g (Task.blockReceive t filter out) = g t

namespace Untouched

variable {α : Type} {g : Task → α}

theorem map_releaseSender (hg : Untouched g) (s : Scheduler) (src : UInt32) (i : Slot) :
    ((releaseSender s src).tasks i).map g = (s.tasks i).map g := by
  unfold releaseSender
  split
  · rfl
  · split
    · rfl
    · exact map_modify (fun t => hg.state t .ready) i

theorem map_sysSend (hg : Untouched g) (s : Scheduler) (me : Slot) (dst : UInt32) (msg : Message)
    (i : Slot) : ((sysSend s me dst msg).sched.tasks i).map g = (s.tasks i).map g := by
  have hstep := sysSend_step s me dst msg
  generalize sysSend s me dst msg = o at hstep
  cases hstep with
  | self | noTask => rfl
  | rendezvous d => exact map_modify hg.delivered i
  | queued d t q => exact (map_modify (fun t => hg.state t .blocked) i).trans (map_modify (hg.park · q _) i)
  | staged => exact map_modify (hg.stage · _) i

theorem map_sysReceive (hg : Untouched g) (s : Scheduler) (me : Slot) (filter : Int32) (out : Nat)
    (i : Slot) : ((sysReceive s me filter out).sched.tasks i).map g = (s.tasks i).map g := by
  cases ht : s.tasks me with
  | none =>
    rw [sysReceive, ht]
  | some t =>
    have hstep := sysReceive_step ht filter out
    generalize sysReceive s me filter out = o at hstep
    cases hstep with
    | parked q p => exact (hg.map_releaseSender _ _ i).trans (map_modify (hg.park · q none) i)
    | unstaged j => exact map_modify hg.unstage i
    | block => exact map_modify (hg.blockReceive · filter out) i

end Untouched

theorem sysSend_nextId (me : Slot) (dst : UInt32) (msg : Message) :
    (sysSend s me dst msg).sched.nextId = s.nextId := by
  have hstep := sysSend_step s me dst msg
  generalize sysSend s me dst msg = o at hstep
  cases hstep <;> rfl

theorem releaseSender_nextId (src : UInt32) : (releaseSender s src).nextId = s.nextId := by
  unfold releaseSender
  split
  · rfl
  · split
    · rfl
    · rfl

theorem sysReceive_nextId (me : Slot) (filter : Int32) (out : Nat) :
    (sysReceive s me filter out).sched.nextId = s.nextId := by
  cases ht : s.tasks me with
  | none => rw [sysReceive, ht]
  | some t =>
    have hstep := sysReceive_step ht filter out
    generalize sysReceive s me filter out = o at hstep
    cases hstep with
    | parked q p => exact releaseSender_nextId _ _
    | unstaged | block => rfl

end Tanix
