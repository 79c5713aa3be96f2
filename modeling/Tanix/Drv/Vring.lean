/-
# `Tanix.Drv.Vring` — the split ring of the virtio-pci drivers

`Vring` of `libtanix-drv/src/vring.rs`: a descriptor table, an avail ring that the driver
writes and a used ring that the device writes, each with a free-running 16-bit index, and the
driver's own position in the used ring.  `publish` and the device's `putUsed` fill a slot and
then move the index; the other side reads the index first, so the move is what it sees.

Either ring is a channel of `Tanix.Lib.Ring`, with the driver or the device as the writer.
-/
import Tanix.Lib.Ring
import Tanix.Lib.Run

namespace Tanix.Drv

/-- `QUEUE_SIZE` -/
abbrev queueSize : Nat := 64

/-- `DESC_NEXT` -/
def descNext : UInt16 := 1

/-- `DESC_WRITE` -/
def descWrite : UInt16 := 2

structure Desc where
  addr : Nat
  len : Nat
  flags : UInt16
  next : UInt16
  deriving DecidableEq, Repr

structure UsedElem where
  id : UInt32
  len : UInt32
  deriving DecidableEq, Repr

structure Vring where
  desc : Nat → Desc
  availIdx : UInt16
  availRing : Fin queueSize → UInt16
  usedIdx : UInt16
  usedRing : Fin queueSize → UsedElem
  usedTail : UInt16

namespace Vring

def new : Vring where
  desc _ := ⟨0, 0, 0, 0⟩
  availIdx := 0
  availRing _ := 0
  usedIdx := 0
  usedRing _ := ⟨0, 0⟩
  usedTail := 0

variable (v : Vring)

def writeDesc (slot : UInt16) (d : Desc) : Vring :=
  { v with desc := Function.update v.desc slot.toNat d }

def publish (head : UInt16) : Vring :=
  { v with
    availRing := Function.update v.availRing (Ring.slot queueSize v.availIdx) head
    availIdx := v.availIdx + 1 }

def hasUsed : Bool :=
  v.usedIdx ≠ v.usedTail

/-- One element of the used ring is consumed. -/
def advance : Vring :=
  { v with usedTail := v.usedTail + 1 }

def popUsed : Option (UInt16 × UInt32) × Vring :=
  if v.usedIdx = v.usedTail then (none, v)
  else
    let e := v.usedRing (Ring.slot queueSize v.usedTail)
    (some (e.id.toUInt16, e.len), v.advance)

/-! ## The device's side -/

/-- The chain head at the device's position in the avail ring. -/
def headAt (tail : UInt16) : UInt16 :=
  v.availRing (Ring.slot queueSize tail)

def putUsed (id : UInt16) (len : UInt32) : Vring :=
  { v with
    usedRing := Function.update v.usedRing (Ring.slot queueSize v.usedIdx) ⟨id.toUInt32, len⟩
    usedIdx := v.usedIdx + 1 }

/-! ## The two channels -/

/-- The driver writes chain heads; the device has taken `got` and stands at `tail`. -/
def availChan (tail : UInt16) (sent got : List UInt16) : Ring.Chan UInt16 queueSize :=
  ⟨v.availRing, v.availIdx, v.availIdx, tail, sent, got⟩

variable (sent got : List (UInt16 × UInt32))

/-- The device writes completions; the driver has taken `got`. -/
def usedChan : Ring.Chan (UInt16 × UInt32) queueSize :=
  ⟨fun i => ((v.usedRing i).id.toUInt16, (v.usedRing i).len), v.usedIdx, v.usedIdx, v.usedTail,
    sent, got⟩

theorem queueSize_dvd : queueSize ∣ 2 ^ 16 := by
  decide

theorem putUsed_usedChan (id : UInt16) (len : UInt32) (sent got : List (UInt16 × UInt32)) :
    (v.putUsed id len).usedChan (sent ++ [(id, len)]) got =
      ((v.usedChan sent got).write (id, len)).publish := by
  have hslots := Function.comp_update (fun e : UsedElem => (e.id.toUInt16, e.len)) v.usedRing
    (Ring.slot queueSize v.usedIdx) ⟨id.toUInt32, len⟩
  rw [UInt16.toUInt16_toUInt32] at hslots
  exact congrArg (Ring.Chan.mk · _ _ _ _ _) hslots

end Vring

/-! ## Driver and device -/

/-- A ring in use.  `drain` holds how many places a drain in progress still has. -/
structure Traffic where
  ring : Vring
  tail : UInt16
  held : List UInt16
  drain : Option Nat
  published : List UInt16
  fetched : List UInt16
  returned : List (UInt16 × UInt32)
  popped : List (UInt16 × UInt32)

/-- A drain takes a `turn` for each entry; the device fetches chain heads, and completes one of
those it holds. -/
inductive Traffic.Event
  | publish (head : UInt16)
  | pop
  | drain (outLen : Nat)
  | turn
  | fetch
  | complete (i : Nat) (len : UInt32)
  deriving DecidableEq, Repr

namespace Traffic

def start : Traffic :=
  ⟨.new, 0, [], none, [], [], [], []⟩

variable (s : Traffic)

def pop : Traffic :=
  { s with ring := s.ring.popUsed.2, popped := s.popped ++ s.ring.popUsed.1.toList }

/-- A head is published when fewer than `QUEUE_SIZE` completions are not consumed yet. -/
def next : Event → Option Traffic
  | .publish head =>
    if s.drain = none ∧ s.published.length < s.popped.length + queueSize then
      some { s with ring := s.ring.publish head, published := s.published ++ [head] }
    else none
  | .pop => if s.drain = none then some s.pop else none
  | .drain outLen => if s.drain = none then some { s with drain := some outLen } else none
  | .turn =>
    match s.drain with
    | none => none
    | some 0 => some { s with drain := none }
    | some (n + 1) => some { s.pop with drain := s.ring.popUsed.1.map fun _ => n }
  | .fetch =>
    if s.tail ≠ s.ring.availIdx then
      some { s with
        tail := s.tail + 1
        held := s.held ++ [s.ring.headAt s.tail]
        fetched := s.fetched ++ [s.ring.headAt s.tail] }
    else none
  | .complete i len =>
    s.held[i]?.map fun id =>
      { s with
        ring := s.ring.putUsed id len
        held := s.held.eraseIdx i
        returned := s.returned ++ [(id, len)] }

def Step (e : Event) (s' : Traffic) : Prop :=
  s.next e = some s'

/-- The device has got the first heads, and the ring holds the others; a pop has the next
completion, if there is one. -/
structure Exact : Prop where
  fetched : s.fetched <+: s.published
  offered : (s.ring.availChan s.tail s.published s.fetched).between = s.published.drop s.fetched.length
  popped : s.popped <+: s.returned
  next : s.ring.popUsed.1 = s.returned[s.popped.length]?

structure Inv : Prop where
  avail : Ring.Sound (s.ring.availChan s.tail s.published s.fetched) s.published.length
  used : Ring.Sound (s.ring.usedChan s.returned s.popped) s.returned.length
  held : s.held.length + s.returned.length = s.fetched.length
  room : s.published.length ≤ s.popped.length + queueSize

variable {s} {s' : Traffic}

theorem Inv.popUsed_eq (h : s.Inv) : s.ring.popUsed.1 = s.returned[s.popped.length]? := by
  refine Eq.trans ?_ (h.used.next_eq Vring.queueSize_dvd (by decide))
  rw [Vring.popUsed]
  split
  · next heq => exact (if_pos heq).symm
  · next hne => exact (if_neg hne).symm

theorem Inv.pop (h : s.Inv) : s.pop.Inv := by
  rw [Traffic.pop, Vring.popUsed]
  split
  · rw [Option.toList_none, List.append_nil]
    exact h
  · next hne =>
    refine { h with used := h.used.take Vring.queueSize_dvd (h.used.lt_of_ne hne), room := ?_ }
    show _ ≤ (s.popped ++ [_]).length + queueSize
    rw [List.length_append]
    exact Nat.le_trans h.room (by omega)

theorem Inv.step {e : Event} (h : s.Inv) (hstep : s.Step e s') : s'.Inv := by
  have hpopped : s.popped.length ≤ s.returned.length := h.used.taken
  have hfetched : s.fetched.length ≤ s.published.length := h.avail.taken
  have hheld := h.held
  have hroom := h.room
  cases e with
  | publish head =>
    obtain ⟨⟨-, hfree⟩, ⟨⟩⟩ := Option.ite_none_right_eq_some.mp hstep
    have havail := h.avail.push Vring.queueSize_dvd (show s.published.length < s.fetched.length + queueSize by omega) head
    exact { h with avail := havail, room := by rw [List.length_append]; exact hfree }
  | pop =>
    obtain ⟨-, ⟨⟩⟩ := Option.ite_none_right_eq_some.mp hstep
    exact h.pop
  | drain outLen =>
    obtain ⟨-, ⟨⟩⟩ := Option.ite_none_right_eq_some.mp hstep
    exact { h with }
  | turn =>
    rw [Step, next] at hstep
    split at hstep
    · cases hstep
    · cases hstep
      exact { h with }
    · cases hstep
      exact { h.pop with }
  | fetch =>
    obtain ⟨hne, ⟨⟩⟩ := Option.ite_none_right_eq_some.mp hstep
    have hlt := h.avail.lt_of_ne (Ne.symm hne)
    refine { h with avail := h.avail.take Vring.queueSize_dvd hlt, held := ?_ }
    rw [List.length_append, List.length_append, ← hheld, Nat.add_right_comm]
  | complete i len =>
    obtain ⟨id, hid, rfl⟩ := Option.map_eq_some_iff.mp hstep
    have hi := (List.getElem?_eq_some_iff.mp hid).1
    have hused := h.used.push Vring.queueSize_dvd (show s.returned.length < s.popped.length + queueSize by omega) (id, len)
    rw [← Vring.putUsed_usedChan] at hused
    refine { h with used := hused, held := ?_ }
    show (s.held.eraseIdx i).length + (s.returned ++ [_]).length = s.fetched.length
    rw [List.length_eraseIdx_of_lt hi, List.length_append, List.length_singleton]
    omega

/-- In every interleaving the device gets every head that was published, and pops and drains
return every completion, each once and in order. -/
theorem exact_of_run {es : List Event} (h : LTS.Run Step start es s) : s.Exact := by
  have hinv := h.invariant (I := Inv) (fun _ _ _ => Inv.step)
    ⟨Ring.sound_empty _, Ring.sound_empty _, rfl, Nat.zero_le _⟩
  exact ⟨hinv.avail.inOrder, hinv.avail.between_eq Vring.queueSize_dvd (by decide), hinv.used.inOrder,
    hinv.popUsed_eq⟩

/-- Two chains that come back in the other order, into a drain. -/
theorem exact_of_run_two : ∃ s, LTS.Run Step start [.publish 4, .publish 6, .fetch, .fetch, .complete 1 8,
      .drain 4, .turn, .complete 0 9, .turn, .turn] s ∧ s.popped = [(6, 8), (4, 9)] ∧ s.Exact := by
  refine LTS.Run.exists_and (LTS.Run.exists_of_exec next id _ _ (·.popped = [(6, 8), (4, 9)]) (by decide +kernel)) ?_
  intro s hrun hpopped
  exact ⟨hpopped, exact_of_run hrun⟩

end Traffic

end Tanix.Drv
