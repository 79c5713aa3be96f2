/-
# `Tanix.Virtio.Transmit` — `send_print` and the messages that are still with the guest

`VirtioTransport` of `kernel/src/virtio/transport.rs` over the queue of `Tanix.Virtio.Queue`.
`send_print` takes the descriptors in turn and writes three places: the buffer and the table
entry of descriptor `tx_desc`, and the slot of the available ring at `avail_idx`.  It does not ask
whether the guest is done with what stands there, so `send_keeps_iff` has to ask for it: the
message sent `QUEUE_SIZE` calls before is back.
-/
import Tanix.Virtio.Queue

namespace Tanix.Virtio.Transmit

open List LTS

/-- `MAX_PAYLOAD` -/
def maxPayload : Nat := bufSize - 4

/-- `Msg::write_print`: the new buffer, and the length to post -/
def writePrint (buf text : List UInt8) : List UInt8 × UInt32 :=
  let payload := min text.length maxPayload
  ([0x01, 0, 0, .ofNat payload] ++ text.take payload ++ buf.drop (4 + payload), .ofNat (4 + payload))

/-- A message, with the places it lies in. -/
structure Message where
  serial : Nat
  desc : Fin queueSize
  slot : Fin queueSize
  deriving DecidableEq, Repr

structure State where
  queue : Virtio.State
  txDesc : Fin queueSize
  bufs : Fin queueSize → List UInt8
  /-- the messages that the guest has not returned -/
  flight : List Message

/-- `queue` is one access of `poll_replies` or of the guest. -/
inductive Event
  | send (text : List UInt8)
  | queue (e : Virtio.Event)

/-- The accesses of `post_avail`, which only `send_print` makes. -/
def posts : Virtio.Event → Bool
  | .post _ _ | .postSlot | .postIdx => true
  | _ => false

namespace State

/-- `VirtioTransport::new` -/
def start (queue : Virtio.State) (bufs : Fin queueSize → List UInt8) : State :=
  { queue, txDesc := 0, bufs, flight := [] }

variable (s : State)

/-- Where the next message comes to lie. -/
def nextMessage : Message :=
  ⟨s.queue.posted.length, s.txDesc, Ring.slot queueSize s.queue.kernel.availIdx⟩

def sendPrint (text : List UInt8) : State :=
  let (buf, len) := writePrint (s.bufs s.txDesc) text
  { queue := ((s.queue.postFill s.txDesc len).postSlot s.txDesc).postIdx
    txDesc := s.txDesc + 1
    bufs := Function.update s.bufs s.txDesc buf
    flight := s.flight ++ [s.nextMessage] }

/-- What is out once an access has been made: `guest_put_used` returns a descriptor. -/
def left : Virtio.Event → List Message
  | .putUsed d _ => s.flight.filter fun m => m.desc.val ≠ d.toNat
  | _ => s.flight

/-- A send would touch no place of a message that is out. -/
def Kept : Prop :=
  ∀ m ∈ s.flight, m.desc ≠ s.nextMessage.desc ∧ m.slot ≠ s.nextMessage.slot

/-- The message sent `QUEUE_SIZE` sends before the next one has been returned. -/
def Settled : Prop :=
  ∀ m ∈ s.flight, s.queue.posted.length ≠ m.serial + queueSize

instance : Decidable s.Kept := inferInstanceAs (Decidable (∀ m ∈ s.flight, _))

instance : Decidable s.Settled := inferInstanceAs (Decidable (∀ m ∈ s.flight, _))

end State

inductive Step : State → Event → State → Prop
  | send {s : State} {text : List UInt8} (h : s.queue.kernelPc = .idle) :
      Step s (.send text) (s.sendPrint text)
  | queue {s : State} {e : Virtio.Event} {q : Virtio.State} (hposts : posts e = false)
      (h : Virtio.Step s.queue e q) : Step s (.queue e) { s with queue := q, flight := s.left e }

/-- A message is sent only over one that is back. -/
def Paced (s : State) : Event → Prop
  | .send _ => s.Settled
  | .queue _ => True

/-! ## Descriptors, slots and serial numbers go round together -/

/-- The places of the message with a serial number. -/
def place (k : Nat) : Message :=
  ⟨k, .ofNat _ k, .ofNat _ k⟩

structure Inv (s : State) : Prop where
  tx : s.txDesc = .ofNat _ s.queue.posted.length
  avail : s.queue.kernel.availIdx = UInt16.ofNat s.queue.posted.length
  flight : ∀ m ∈ s.flight, m = place m.serial ∧ m.serial < s.queue.posted.length ∧
    s.queue.posted.length ≤ m.serial + queueSize

variable {s s' : State} {e : Event}

theorem Inv.next (h : Inv s) : s.nextMessage = place s.queue.posted.length := by
  rw [State.nextMessage, h.tx, h.avail, Ring.slot_ofNat State.queueSize_dvd]
  rfl

/-- Inside the last `QUEUE_SIZE` sends only the oldest message shares a place with the next. -/
theorem Inv.kept_iff (h : Inv s) : s.Kept ↔ s.Settled := by
  refine forall₂_congr fun m hm => ?_
  obtain ⟨hplace, hlt, hle⟩ := h.flight m hm
  rw [h.next, hplace]
  constructor
  · rintro ⟨hdesc, -⟩ heq
    refine hdesc ?_
    rw [heq]
    exact Fin.ext (Nat.add_mod_right m.serial queueSize).symm
  · intro hne
    have hapart := Ring.ofNat_ne hlt (Nat.lt_of_le_of_ne hle hne)
    exact ⟨hapart, hapart⟩

theorem Inv.sendPrint (h : Inv s) (hset : s.Settled) (text : List UInt8) :
    Inv (s.sendPrint text) := by
  have hposted : (s.sendPrint text).queue.posted.length = s.queue.posted.length + 1 :=
    length_append
  refine ⟨?_, ?_, fun m hm => ?_⟩ <;> rw [hposted]
  · change s.txDesc + 1 = _
    rw [h.tx]
    exact Fin.ext (Nat.add_mod _ _ _).symm
  · rw [← Ring.counter_succ, ← h.avail]
    rfl
  · obtain hm | hm := mem_append.mp hm
    · obtain ⟨hplace, hlt, hle⟩ := h.flight m hm
      have hne := hset m hm
      exact ⟨hplace, by omega, by omega⟩
    · rw [mem_singleton.mp hm, h.next]
      exact ⟨rfl, Nat.lt_succ_self _, Nat.add_le_add_left (by decide) _⟩

theorem left_subset (e : Virtio.Event) : s.left e ⊆ s.flight := by
  cases e with
  | putUsed d written => exact filter_subset_self _
  | _ => exact fun m hm => hm

theorem Inv.step (h : Inv s) (hpaced : Paced s e) (hstep : Step s e s') : Inv s' := by
  cases hstep with
  | send => exact h.sendPrint hpaced _
  | queue hposts hq =>
    -- polling and the guest leave the sender's counters alone
    rename_i _ q'
    obtain ⟨hposted, havail⟩ :
        q'.posted = s.queue.posted ∧ q'.kernel.availIdx = s.queue.kernel.availIdx := by
      cases hq with
      | post | postSlot | postIdx => cases hposts
      | _ => exact ⟨rfl, rfl⟩
    refine ⟨?_, havail.trans ?_, fun m hm => ?_⟩ <;> simp only [hposted]
    · exact h.tx
    · exact h.avail
    · exact h.flight m (left_subset _ hm)

/-- As long as the guest keeps within `QUEUE_SIZE` sends, a send leaves alone what is out, and it
does so exactly then. -/
theorem send_keeps_iff {base : UInt64} {desc : Fin queueSize → Descriptor}
    {availRing : Fin queueSize → UInt16} {usedRing : Fin queueSize → UsedElem}
    {bufs : Fin queueSize → List UInt8} {es : List Event}
    (hrun : Run (guarded Step Paced) (.start (.start base desc availRing usedRing) bufs) es s) :
    s.Kept ↔ s.Settled := by
  refine (hrun.invariant_guarded (I := Inv) (fun _ _ _ => Inv.step) ⟨rfl, rfl, ?_⟩).kept_iff
  exact fun m hm => absurd hm not_mem_nil

/-! ## A guest that answers, and one that does not -/

def next (s : State) : Event → Option State
  | .send text => if s.queue.kernelPc = .idle then some (s.sendPrint text) else none
  | .queue e =>
    if posts e = false then (s.queue.next e).map fun q => { s with queue := q, flight := s.left e }
    else none

theorem next_step (h : next s e = some s') : Step s e s' := by
  cases e with
  | send text =>
    obtain ⟨hpc, ⟨⟩⟩ := Option.ite_none_right_eq_some.mp h
    exact .send hpc
  | queue e =>
    obtain ⟨hposts, h⟩ := Option.ite_none_right_eq_some.mp h
    obtain ⟨q, hq, rfl⟩ := Option.map_eq_some_iff.mp h
    exact .queue hposts (State.next_step hq).2

instance : Decidable (Paced s e) :=
  match e with
  | .send _ => inferInstanceAs (Decidable s.Settled)
  | .queue _ => inferInstanceAs (Decidable True)

/-- A transport over zeroed memory. -/
def fresh : State :=
  .start (.start 0 (fun _ => ⟨0, 0, 0, 0⟩) (fun _ => 0) fun _ => ⟨0, 0⟩) fun _ => replicate bufSize 0

/-- The guest reads one message and returns it, and the kernel polls. -/
def answered : List Event :=
  .send [72] :: [.guestPoll, .guestTurn, .guestDone, .putUsed 0 8, .putIdx, .poll, .pollIdx,
    .pollSlot, .pollIdx].map .queue ++ replicate 16 (.send [73])

theorem send_keeps_answered : ∃ s, Run (guarded Step Paced) fresh answered s ∧
    s.flight.length = 16 ∧ s.queue.posted.length = 17 ∧ (s.Kept ↔ s.Settled) := by
  obtain ⟨s, hrun, hflight, hposted⟩ := Run.exists_of_guarded next Paced next_step fresh answered
    (fun s => s.flight.length = 16 ∧ s.queue.posted.length = 17) (by decide +kernel)
  exact ⟨s, hrun, hflight, hposted, send_keeps_iff hrun⟩

/-- Sixteen messages and no answer: the next send writes over the first. -/
theorem not_send_keeps : ¬ ∀ es s, Run Step fresh es s → s.Kept := by
  intro hkept
  obtain ⟨s, hrun, hlost⟩ := Run.exists_of_exec next next_step fresh (replicate 16 (.send []))
    (fun s => ¬ s.Kept) (by decide +kernel)
  exact hlost (hkept _ s hrun)

end Tanix.Virtio.Transmit
