/-
# `Tanix.Ipc.Channel` — the rendezvous channels of `kernel/src/ipc/channel.rs`

A channel has one staging buffer and three states.

    state          `try_send`                       `try_recv`
    idle           stores, goes to `sendPending`    goes to `recvWaiting`, `None`
    sendPending    `Err`                            goes to `idle`, the stored message
    recvWaiting    stores, goes to `idle`           `None`

A message that is stored while a receiver waits is accepted, but in `idle` nothing says that
the buffer is full: the next `try_recv` starts to wait again.  `Log` keeps what was accepted
and what was received, and `lossless_iff` says that the channel delivers everything it has
accepted exactly in the runs without such a send.
-/
import Mathlib.Data.List.Basic
import Mathlib.Data.List.Infix

namespace Tanix.Rendezvous

/-- `MSG_MAX_BYTES` -/
abbrev msgMaxBytes : Nat := 64

structure EndpointId where
  id : UInt32
  deriving DecidableEq, Repr

structure Message where
  sender : EndpointId
  opcode : UInt32
  data : Vector UInt8 msgMaxBytes
  deriving DecidableEq, Repr

inductive ChannelState
  | idle
  | sendPending
  | recvWaiting
  deriving DecidableEq, Repr

structure Channel where
  id : EndpointId
  state : ChannelState
  msg : Message
  deriving DecidableEq, Repr

open List

variable (id : EndpointId)

namespace Channel

def new : Channel :=
  { id, state := .idle, msg := ⟨⟨0⟩, 0, .replicate msgMaxBytes 0⟩ }

def trySend (c : Channel) (msg : Message) : Except Unit Unit × Channel :=
  match c.state with
  | .idle => (.ok (), { c with msg, state := .sendPending })
  | .recvWaiting => (.ok (), { c with msg, state := .idle })
  | .sendPending => (.error (), c)

def tryRecv (c : Channel) (receiver : EndpointId) : Option Message × Channel :=
  match c.state with
  | .sendPending => (some c.msg, { c with state := .idle })
  | .idle => (none, { c with msg := { c.msg with sender := receiver }, state := .recvWaiting })
  | .recvWaiting => (none, c)

/-- The message that a `try_recv` would return. -/
def pending (c : Channel) : List Message :=
  if c.state = .sendPending then [c.msg] else []

end Channel

inductive Op
  | send (msg : Message)
  | recv (receiver : EndpointId)
  deriving DecidableEq, Repr

/-- A channel with what was accepted and what was received since it was made. -/
structure Log where
  chan : Channel
  accepted : List Message
  received : List Message
  deriving DecidableEq, Repr

namespace Log

def start : Log :=
  ⟨Channel.new id, [], []⟩

def step (l : Log) : Op → Log
  | .send msg =>
    match l.chan.trySend msg with
    | (.ok (), c) => { l with chan := c, accepted := l.accepted ++ [msg] }
    | (.error (), c) => { l with chan := c }
  | .recv receiver =>
    match l.chan.tryRecv receiver with
    | (some msg, c) => { l with chan := c, received := l.received ++ [msg] }
    | (none, c) => { l with chan := c }

def run (l : Log) (ops : List Op) : Log :=
  ops.foldl step l

/-- No message is sent to a receiver that waits. -/
def Polled (l : Log) (ops : List Op) : Prop :=
  ∀ pre msg, pre ++ [.send msg] <+: ops → (l.run pre).chan.state ≠ .recvWaiting

/-- What was received is at any time a first part of what was accepted, and once there are
enough receives it is all of it. -/
structure Lossless (l : Log) (ops : List Op) : Prop where
  inOrder : ∀ pre, pre <+: ops → (l.run pre).received <+: (l.run pre).accepted
  delivered : ∃ n, ∀ receivers : List EndpointId, n ≤ receivers.length →
    (l.run (ops ++ receivers.map .recv)).received = (l.run ops).accepted

variable {l : Log} {ops : List Op}

theorem run_append (l : Log) (ops ops' : List Op) : l.run (ops ++ ops') = (l.run ops).run ops' :=
  foldl_append

theorem run_concat (l : Log) (ops : List Op) (op : Op) : l.run (ops ++ [op]) = (l.run ops).step op :=
  run_append l ops [op]

/-! ## What one call does -/

/-- A call is refused, stores a message, loses one, or takes one out. -/
theorem step_cases (l : Log) (op : Op) :
    (∃ msg, op = .send msg ∧ l.chan.state = .recvWaiting ∧ (l.step op).received = l.received ∧
      (l.step op).accepted = l.accepted ++ [msg] ∧ (l.step op).chan.pending = []) ∨
    (¬ (∃ msg, op = .send msg ∧ l.chan.state = .recvWaiting) ∧
      ∃ new, (l.step op).accepted = l.accepted ++ new ∧
        (l.step op).received ++ (l.step op).chan.pending = l.received ++ l.chan.pending ++ new) := by
  obtain ⟨⟨id, state, m⟩, accepted, received⟩ := l
  cases op with
  | send msg =>
    cases state with
    | idle => exact .inr ⟨by nofun, [msg], rfl, by simp [step, Channel.trySend, Channel.pending]⟩
    | recvWaiting => exact .inl ⟨msg, rfl, rfl, rfl, rfl, rfl⟩
    | sendPending => exact .inr ⟨by nofun, [], by simp [step, Channel.trySend, Channel.pending]⟩
  | recv receiver =>
    refine .inr ⟨by nofun, [], ?_⟩
    cases state <;> simp [step, Channel.tryRecv, Channel.pending]

/-- A receive takes the pending message, and accepts nothing. -/
theorem step_recv (l : Log) (receiver : EndpointId) :
    (l.step (.recv receiver)).accepted = l.accepted ∧
      (l.step (.recv receiver)).received = l.received ++ l.chan.pending ∧
      (l.step (.recv receiver)).chan.pending = [] := by
  obtain ⟨⟨id, state, m⟩, accepted, received⟩ := l
  cases state <;> simp [step, Channel.tryRecv, Channel.pending]

theorem run_recvs_accepted (l : Log) (receivers : List EndpointId) :
    (l.run (receivers.map .recv)).accepted = l.accepted := by
  induction receivers generalizing l with
  | nil => rfl
  | cons receiver receivers ih => exact (ih _).trans (step_recv l receiver).1

theorem run_recvs_drained (h : l.chan.pending = []) (receivers : List EndpointId) :
    (l.run (receivers.map .recv)).received = l.received := by
  induction receivers generalizing l with
  | nil => rfl
  | cons receiver receivers ih =>
    obtain ⟨-, hrecv, hpend⟩ := step_recv l receiver
    rw [h, append_nil] at hrecv
    exact (ih hpend).trans hrecv

/-! ## Whole runs -/

/-- Without a send to a waiting receiver, what is not received yet is pending. -/
theorem run_balanced (h : l.accepted = l.received ++ l.chan.pending) (hp : l.Polled ops) :
    (l.run ops).accepted = (l.run ops).received ++ (l.run ops).chan.pending := by
  induction ops using List.reverseRecOn with
  | nil => exact h
  | append_singleton ops op ih =>
    have hp' : l.Polled ops := fun pre msg hpre => hp pre msg (hpre.trans (prefix_append _ _))
    rw [run_concat]
    rcases step_cases (l.run ops) op with ⟨msg, rfl, hstate, -⟩ | ⟨-, new, hacc, hrecv⟩
    · exact absurd hstate (hp ops msg (prefix_refl _))
    · rw [hacc, hrecv, ih hp']

/-- What is missing is never made up for. -/
theorem step_missing {d : Nat} (op : Op)
    (h : l.received.length + l.chan.pending.length + d ≤ l.accepted.length) :
    (l.step op).received.length + (l.step op).chan.pending.length + d ≤
      (l.step op).accepted.length := by
  rcases step_cases l op with ⟨msg, rfl, -, hrecv, hacc, hpend⟩ | ⟨-, new, hacc, hrecv⟩
  · rw [hrecv, hacc, hpend, length_append]
    simp only [length_nil, length_singleton]
    omega
  · have hlen := congrArg List.length hrecv
    simp only [length_append] at hlen
    rw [hacc, length_append]
    omega

theorem run_missing {d : Nat} (h : l.received.length + l.chan.pending.length + d ≤ l.accepted.length)
    (ops : List Op) :
    (l.run ops).received.length + (l.run ops).chan.pending.length + d ≤
      (l.run ops).accepted.length := by
  induction ops generalizing l with
  | nil => exact h
  | cons op ops ih => exact ih (step_missing op h)

/-- A send to a waiting receiver leaves one message behind for good. -/
theorem lost_of_waiting {pre : List Op} {msg : Message} (hpre : pre ++ [.send msg] <+: ops)
    (hstate : ((start id).run pre).chan.state = .recvWaiting) (more : List Op) :
    ((start id).run (ops ++ more)).received.length < ((start id).run (ops ++ more)).accepted.length := by
  obtain ⟨rest, rfl⟩ := hpre
  rw [append_assoc, run_append, run_concat]
  have hle := run_missing (d := 0) (l := start id) (Nat.le_refl 0) pre
  have hlost : (((start id).run pre).step (.send msg)).received.length +
      (((start id).run pre).step (.send msg)).chan.pending.length + 1 ≤
      (((start id).run pre).step (.send msg)).accepted.length := by
    rcases step_cases ((start id).run pre) (.send msg) with ⟨m, hm, -, hrecv, hacc, hpend⟩ | ⟨hno, -⟩
    · rw [hrecv, hacc, hpend, length_append]
      simp only [length_nil, length_singleton]
      omega
    · exact absurd ⟨msg, rfl, hstate⟩ hno
  have := run_missing hlost (rest ++ more)
  omega

/-- The channel delivers every accepted message once, in order and unchanged, exactly in the
sequences of calls that send nothing to a receiver that waits. -/
theorem lossless_iff (ops : List Op) : (start id).Lossless ops ↔ (start id).Polled ops := by
  constructor
  · intro h pre msg hpre hstate
    obtain ⟨n, hn⟩ := h.delivered
    have hlt := lost_of_waiting id hpre hstate ((List.replicate n id).map .recv)
    rw [hn (List.replicate n id) (by rw [length_replicate]), run_append,
      run_recvs_accepted] at hlt
    exact Nat.lt_irrefl _ hlt
  · intro hp
    refine ⟨fun pre hpre => ?_, 1, fun receivers hlen => ?_⟩
    · have hp' : (start id).Polled pre := fun pre' msg hpre' => hp pre' msg (hpre'.trans hpre)
      exact ⟨_, (run_balanced rfl hp').symm⟩
    · rw [run_append, run_balanced rfl hp]
      cases receivers with
      | nil => cases hlen
      | cons receiver receivers =>
        obtain ⟨-, hrecv, hpend⟩ := step_recv ((start id).run ops) receiver
        exact (run_recvs_drained hpend receivers).trans hrecv

/-- The receiver comes first: its message is accepted and never received. -/
theorem waiting_receiver_loses_message :
    ¬ ∀ (id : EndpointId) (ops : List Op), (start id).Lossless ops := by
  intro h
  let msg : Message := ⟨⟨1⟩, 7, .replicate msgMaxBytes 0⟩
  obtain ⟨n, hn⟩ := (h ⟨1⟩ [.recv ⟨2⟩, .send msg]).delivered
  have hpre : [Op.recv ⟨2⟩] ++ [.send msg] <+: [.recv ⟨2⟩, .send msg] := prefix_refl _
  have hlt := lost_of_waiting ⟨1⟩ hpre rfl ((List.replicate n ⟨2⟩).map .recv)
  rw [hn (List.replicate n ⟨2⟩) (by rw [length_replicate]), run_append, run_recvs_accepted] at hlt
  exact Nat.lt_irrefl _ hlt

end Log

end Tanix.Rendezvous
