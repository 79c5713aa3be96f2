/-
# `Tanix.Drv.Nic` — the receive side of the virtio-net driver

`VirtioNet::recv` of `libtanix-drv/src/net.rs` against a device that fills and completes
receive buffers whenever it likes.  There are 32 slots of 2048 bytes, and at any time a slot is

    offered    published in the avail ring and not fetched yet
    held       fetched by the device, which may write its buffer
    waiting    completed, in the used ring
    drained    taken out of the used ring by the `recv` that is running

A step is a turn of the driver's drain loop, one slot re-armed, one frame copied, or one move
of the device.  `recv` drains up to eight completions, then re-arms and looks at them one by
one and returns with the first frame that fits.  The rest of what it has drained is gone, and
the frame is copied out of a buffer that the device owns again.  `lossless_of_inTime` says
when neither of the two does harm.
-/
import Tanix.Drv.Vring
import Tanix.Lib.Memory
import Tanix.Lib.Run
import Mathlib.Data.List.Induction
import Mathlib.Data.List.Nodup

namespace Tanix.Drv.Nic

open Memory (Mem load store)
open List

/-- `RX_COUNT` -/
abbrev rxCount : Nat := 32

/-- `RX_BUF_SIZE` -/
abbrev rxBufSize : Nat := 2048

/-- `NET_HDR_SIZE` -/
abbrev netHdrSize : Nat := 12

/-- the size of the array that `recv` drains into -/
abbrev drainMax : Nat := 8

/-- A completion: its slot, and what the device has left in the buffer. -/
structure Frame where
  id : UInt16
  bytes : List UInt8
  deriving DecidableEq, Repr

/-- The used element of a completion. -/
def Frame.key (f : Frame) : UInt16 × UInt32 :=
  (f.id, .ofNat f.bytes.length)

variable (e : UInt16 × UInt32)

/-- There is a frame behind the header, and the caller's buffer can hold it. -/
def Fits (blen : Nat) : Prop :=
  netHdrSize < e.2.toNat ∧ e.2.toNat - netHdrSize ≤ blen

instance (blen : Nat) : Decidable (Fits e blen) :=
  inferInstanceAs (Decidable (_ ∧ _))

/-- Where `recv` is, with the length of the caller's buffer. -/
inductive Pc
  | idle
  | draining (blen : Nat) (out : List (UInt16 × UInt32))
  | arming (blen : Nat) (rest : List (UInt16 × UInt32))
  | copying (blen : Nat) (e : UInt16 × UInt32) (rest : List (UInt16 × UInt32))
  deriving DecidableEq, Repr

structure State where
  rxBase : Nat
  rx : Vring
  mem : Mem
  pc : Pc
  /-- the device's position in the avail ring, and the slots it has fetched -/
  tail : UInt16
  held : List UInt16
  /-- what was published, fetched, completed and returned since the beginning, and for each
  completion that was drained the length of the buffer of that `recv` -/
  published : List UInt16
  fetched : List UInt16
  completed : List Frame
  drained : List Nat
  returned : List (List UInt8)

inductive Event
  | recv (blen : Nat)
  | drain
  | arm
  | copy
  | fetch
  | dma (id : UInt16) (off : Nat) (bytes : List UInt8)
  | complete (id : UInt16) (len : Nat)
  deriving DecidableEq, Repr

variable (rxBase : Nat)

namespace State

variable (s : State)

variable (id : UInt16)

def bufAddr : Nat :=
  s.rxBase + id.toNat * rxBufSize

def bufDesc : Desc :=
  ⟨s.bufAddr id, rxBufSize, descWrite, 0⟩

/-- A slot is given to the device. -/
def rearm : State :=
  { s with
    rx := (s.rx.writeDesc id (s.bufDesc id)).publish id
    published := s.published ++ [id] }

/-! ## `recv` -/

/-- A completion was taken out of the used ring. -/
def popped (rx : Vring) (blen : Nat) (out : List (UInt16 × UInt32)) (e : UInt16 × UInt32) : State :=
  { s with rx, pc := .draining blen (out ++ [e]), drained := s.drained ++ [blen] }

/-- A turn of `drain_used`. -/
def drain (blen : Nat) (out : List (UInt16 × UInt32)) : State :=
  if out.length < drainMax then
    match s.rx.popUsed with
    | (some e, rx) => s.popped rx blen out e
    | (none, _) => { s with pc := .arming blen out }
  else { s with pc := .arming blen out }

def arm (blen : Nat) : List (UInt16 × UInt32) → State
  | [] => { s with pc := .idle }
  | e :: rest => { s.rearm e.1 with pc := .copying blen e rest }

def copy (blen : Nat) (e : UInt16 × UInt32) (rest : List (UInt16 × UInt32)) : State :=
  if Fits e blen then
    let frame := load s.mem (s.bufAddr e.1 + netHdrSize) (e.2.toNat - netHdrSize)
    { s with returned := s.returned ++ [frame], pc := .idle }
  else { s with pc := .arming blen rest }

/-! ## The device -/

def fetch : State :=
  let id := s.rx.headAt s.tail
  { s with tail := s.tail + 1, held := s.held ++ [id], fetched := s.fetched ++ [id] }

def dma (off : Nat) (bytes : List UInt8) : State :=
  { s with mem := store s.mem ((s.rx.desc id.toNat).addr + off) bytes }

def complete (len : Nat) : State :=
  { s with
    rx := s.rx.putUsed id (.ofNat len)
    held := s.held.erase id
    completed := s.completed ++ [⟨id, load s.mem (s.rx.desc id.toNat).addr len⟩] }

/-- A conforming device writes to and completes slots that it holds, inside their buffers. -/
def next : Event → Option State
  | .recv blen => if s.pc = .idle then some { s with pc := .draining blen [] } else none
  | .drain =>
    match s.pc with
    | .draining blen out => some (s.drain blen out)
    | _ => none
  | .arm =>
    match s.pc with
    | .arming blen rest => some (s.arm blen rest)
    | _ => none
  | .copy =>
    match s.pc with
    | .copying blen e rest => some (s.copy blen e rest)
    | _ => none
  | .fetch => if s.rx.availIdx ≠ s.tail then some s.fetch else none
  | .dma id off bytes =>
    if id ∈ s.held ∧ off + bytes.length ≤ (s.rx.desc id.toNat).len then some (s.dma id off bytes)
    else none
  | .complete id len =>
    if id ∈ s.held ∧ len ≤ (s.rx.desc id.toNat).len then some (s.complete id len) else none

def Step (e : Event) (s' : State) : Prop :=
  s.next e = some s'

/-- The slots of the pool. -/
def slots : List UInt16 :=
  (List.range rxCount).map .ofNat

/-- The ring as it was allocated. -/
def blank (mem : Mem) : State :=
  { rxBase, rx := Vring.new, mem, pc := .idle, tail := 0, held := [], published := []
    fetched := [], completed := [], drained := [], returned := [] }

/-- A device that was just opened: every slot is published. -/
def start (mem : Mem) : State :=
  slots.foldl rearm (blank rxBase mem)

/-! ## The two rings -/

def availChan (s : State) : Ring.Chan UInt16 queueSize :=
  s.rx.availChan s.tail s.published s.fetched

def usedChan (s : State) : Ring.Chan (UInt16 × UInt32) queueSize :=
  s.rx.usedChan (s.completed.map Frame.key) ((s.completed.map Frame.key).take s.drained.length)

/-- The slots between the device's position and the avail index. -/
def offered : List UInt16 :=
  s.availChan.between

/-- The slots between `used_tail` and the used index. -/
def waiting : List UInt16 :=
  s.usedChan.between.map Prod.fst

/-- The frames that fit the buffer of the `recv` that drained them. -/
def deliver (p : Frame × Nat) : Option (List UInt8) :=
  if Fits p.1.key p.2 then some (p.1.bytes.drop netHdrSize) else none

/-- Of a driver that is between two calls of `recv`. -/
structure Lossless (s : State) : Prop where
  returned : s.returned = (s.completed.zip s.drained).filterMap deliver
  slots : (s.offered ++ s.held ++ s.waiting).Perm slots

/-- `recv` does not take out a completion behind a frame that fits, and the device leaves a
buffer alone while a frame is copied from it. -/
def InTime : Event → Prop
  | .drain =>
    match s.pc with
    | .draining blen out =>
      (∃ e ∈ out, Fits e blen) → out.length < drainMax → s.rx.usedIdx = s.rx.usedTail
    | _ => True
  | .dma id _ _ =>
    match s.pc with
    | .copying blen e _ => Fits e blen → e.1 ≠ id
    | _ => True
  | _ => True

/-! ## Where every slot and every completion is -/

end State

/-- The completions that a `recv` has taken out and not dealt with yet. -/
def Pc.todo : Pc → List (UInt16 × UInt32)
  | .idle => []
  | .draining _ out => out
  | .arming _ rest => rest
  | .copying _ e rest => e :: rest

def Pc.blen : Pc → Nat
  | .idle => 0
  | .draining blen _ => blen
  | .arming blen _ => blen
  | .copying blen _ _ => blen

/-- The slots that a `recv` has taken out and not re-armed yet. -/
def Pc.owned : Pc → List UInt16
  | .idle => []
  | .draining _ out => out.map Prod.fst
  | .arming _ rest => rest.map Prod.fst
  | .copying _ _ rest => rest.map Prod.fst

namespace State

/-- The frame is still in its buffer. -/
def Holds (s : State) (f : Frame) : Prop :=
  load s.mem (s.bufAddr f.id) f.bytes.length = f.bytes

/-- The completions so far: those that were dealt with, in `recv`s with buffers of the
lengths `lens`, those that the current `recv` has drained, and those in the used ring. -/
structure Split (s : State) (done todo waiting : List Frame) (lens : List Nat) : Prop where
  avail : Ring.Sound s.availChan s.availChan.sent.length
  used : Ring.Sound s.usedChan s.usedChan.sent.length
  desc : ∀ id ∈ slots, s.rx.desc id.toNat = s.bufDesc id
  completed : s.completed = done ++ todo ++ waiting
  taken : todo.map Frame.key = s.pc.todo
  drained : s.drained = lens ++ List.replicate todo.length s.pc.blen
  perDone : lens.length = done.length
  returned : s.returned = (done.zip lens).filterMap deliver
  last : ∀ f ∈ todo.dropLast, ¬ Fits f.key s.pc.blen
  sized : ∀ f ∈ todo ++ waiting, f.bytes.length ≤ rxBufSize
  keptWaiting : ∀ f ∈ waiting, s.Holds f
  keptTodo : ∀ f ∈ todo, Fits f.key s.pc.blen → s.Holds f
  owned : ∀ id, s.availChan.ahead.count id + s.held.count id + (waiting.map Frame.id).count id +
    s.pc.owned.count id = slots.count id

theorem slots_nodup : slots.Nodup := by
  decide

theorem slots_length : slots.length = rxCount := by
  decide

variable {s s' : State} {done todo waiting : List Frame} {lens : List Nat}

variable {id : UInt16} {blen : Nat} {out rest : List (UInt16 × UInt32)} {e : UInt16 × UInt32}

theorem desc_writeDesc (rx : Vring) {f : UInt16 → Desc} {id' : UInt16}
    (h : id' ≠ id → rx.desc id'.toNat = f id') : (rx.writeDesc id (f id)).desc id'.toNat = f id' := by
  show Function.update rx.desc id.toNat (f id) id'.toNat = f id'
  rcases eq_or_ne id' id with rfl | hne
  · exact Function.update_self ..
  · rw [Function.update_of_ne fun heq => hne (UInt16.toNat_inj.mp heq)]
    exact h hne

section Split

variable (h : s.Split done todo waiting lens)

include h

/-- The driver's position, as it is known. -/
theorem Split.at {pc : Pc} (hpc : s.pc = pc) : Split { s with pc } done todo waiting lens := by
  rw [← hpc]
  exact h

theorem Split.drained_length : s.drained.length = done.length + todo.length := by
  rw [h.drained, length_append, length_replicate, h.perDone]

theorem Split.got_length : s.usedChan.got.length = s.drained.length := by
  show ((s.completed.map Frame.key).take s.drained.length).length = _
  rw [length_take, length_map, h.drained_length, h.completed]
  simp only [length_append]
  omega

theorem Split.used_ahead : s.usedChan.ahead = waiting.map Frame.key := by
  show (s.completed.map Frame.key).drop s.usedChan.got.length = _
  rw [h.got_length, h.drained_length, ← map_drop, h.completed, ← length_append, drop_left]

theorem Split.perm :
    (s.availChan.ahead ++ s.held ++ waiting.map Frame.id ++ s.pc.owned).Perm slots :=
  perm_iff_count.mpr fun id => by
    simp only [count_append]
    exact h.owned id

theorem Split.count : s.availChan.ahead.length + s.held.length + waiting.length + s.pc.owned.length =
    rxCount := by
  have := h.perm.length_eq
  simpa only [length_append, length_map, slots_length] using this

/-- What the device holds is neither waiting nor with the driver. -/
theorem Split.apart {id' : UInt16} (hid : id ∈ s.held)
    (hid' : id' ∈ waiting.map Frame.id ∨ id' ∈ s.pc.owned) : id' ≠ id := by
  rintro rfl
  have hone := nodup_iff_count_le_one.mp slots_nodup id'
  have hheld := count_pos_iff.mpr hid
  have hsum := h.owned id'
  rcases hid' with hw | ho
  · have := count_pos_iff.mpr hw
    omega
  · have := count_pos_iff.mpr ho
    omega

theorem Split.held_mem (hid : id ∈ s.held) : id ∈ slots := by
  have hheld := count_pos_iff.mpr hid
  have hsum := h.owned id
  exact count_pos_iff.mp (by omega)

/-! ## The driver's steps -/

theorem Split.recv (hpc : s.pc = .idle) (blen : Nat) :
    Split { s with pc := .draining blen [] } done [] waiting lens := by
  have h := h.at hpc
  obtain rfl := map_eq_nil_iff.mp h.taken
  exact { h with taken := rfl, last := nofun, keptTodo := nofun }

/-- The drain loop ends. -/
theorem Split.drained_all (hpc : s.pc = .draining blen out) :
    Split { s with pc := .arming blen out } done todo waiting lens := by
  have h := h.at hpc
  exact { h with }

/-- One more completion is taken out. -/
theorem Split.pop (hpc : s.pc = .draining blen out) (hne : s.rx.usedIdx ≠ s.rx.usedTail)
    (hunfit : ¬ ∃ e ∈ out, Fits e blen) :
    ∃ f waiting', s.usedChan.slots (Ring.slot queueSize s.rx.usedTail) = f.key ∧
      Split (s.popped s.rx.advance blen out f.key)
        done (todo ++ [f]) waiting' lens := by
  have hlt := h.used.lt_of_ne hne
  have hahead := h.used.ahead_take Vring.queueSize_dvd hlt
  have htake := h.used.take Vring.queueSize_dvd hlt
  rw [h.used_ahead] at hahead
  -- the head of what is waiting is the element in the slot
  obtain ⟨f, waiting', rfl, hf, -⟩ := map_eq_cons_iff.mp hahead
  have hp := h.at hpc
  have hgot : s.usedChan.take.got = (s.completed.map Frame.key).take (s.drained ++ [blen]).length := by
    have hpre := prefix_iff_eq_take.mp htake.inOrder
    have hlen : s.usedChan.take.got.length = (s.drained ++ [blen]).length := by
      show (s.usedChan.got ++ [_]).length = _
      rw [length_append, length_append, h.got_length]
      rfl
    rw [hlen] at hpre
    exact hpre
  refine ⟨f, waiting', hf.symm, { h with
    used := ?_, completed := ?_, taken := ?_, drained := ?_, last := ?_, sized := ?_
    keptWaiting := fun g hg => h.keptWaiting g (mem_cons_of_mem _ hg)
    keptTodo := ?_, owned := ?_ }⟩
  · have hchan : (s.popped s.rx.advance blen out f.key).usedChan =
        s.usedChan.take := by
      show s.rx.advance.usedChan _ ((s.completed.map Frame.key).take (s.drained ++ [blen]).length) = _
      rw [← hgot]
      rfl
    rw [hchan]
    exact htake
  · show s.completed = _
    rw [h.completed, append_assoc, append_assoc, append_assoc]
    rfl
  · show (todo ++ [f]).map Frame.key = out ++ [f.key]
    rw [map_append, hp.taken]
    rfl
  · show s.drained ++ [blen] = lens ++ List.replicate (todo ++ [f]).length blen
    rw [hp.drained, append_assoc, length_append, length_singleton, replicate_succ']
    rfl
  · intro g hg
    rw [dropLast_concat] at hg
    intro hfit
    refine hunfit ⟨g.key, ?_, hfit⟩
    rw [show out = todo.map Frame.key from hp.taken.symm]
    exact List.mem_map_of_mem hg
  · rw [append_assoc]
    exact h.sized
  · exact forall_mem_append.mpr ⟨hp.keptTodo, forall_mem_singleton.mpr fun _ => h.keptWaiting f mem_cons_self⟩
  · intro id
    have hid : s.availChan.ahead.count id + s.held.count id + ((f :: waiting').map Frame.id).count id +
      (out.map Prod.fst).count id = _ := hp.owned id
    show s.availChan.ahead.count id + s.held.count id + (waiting'.map Frame.id).count id +
      ((out ++ [f.key]).map Prod.fst).count id = _
    simp only [map_append, map_cons, map_nil, count_append, count_cons,
      count_nil, Frame.key] at hid ⊢
    omega

/-- Nothing is left to look at. -/
theorem Split.none_left (hpc : s.pc = .arming blen []) :
    Split { s with pc := .idle } done todo waiting lens := by
  have h := h.at hpc
  obtain rfl := map_eq_nil_iff.mp h.taken
  exact { h with taken := rfl, last := nofun, keptTodo := nofun }

/-- A drained slot is published again. -/
theorem Split.rearm (hpc : s.pc = .arming blen (e :: rest)) :
    Split { s.rearm e.1 with pc := .copying blen e rest } done todo waiting lens := by
  have hp := h.at hpc
  have hcount := h.count
  have hlen : s.availChan.ahead.length = s.availChan.sent.length - s.availChan.got.length :=
    length_drop
  have hroom : s.availChan.sent.length < s.availChan.got.length + queueSize := by
    have hle := h.avail.taken
    simp only [rxCount, queueSize] at hcount ⊢
    omega
  have hchan : availChan { s.rearm e.1 with pc := .copying blen e rest } =
    (s.availChan.write e.1).publish := rfl
  refine { hp with avail := ?_, desc := ?_, owned := ?_ }
  · rw [hchan]
    exact h.avail.push Vring.queueSize_dvd hroom e.1
  · exact fun id hid => desc_writeDesc s.rx fun _ => h.desc id hid
  · intro id
    have hid : s.availChan.ahead.count id + s.held.count id + _ + ((e :: rest).map Prod.fst).count id = _ :=
      hp.owned id
    rw [hchan, h.avail.ahead_push]
    show _ + s.held.count id + (waiting.map Frame.id).count id + (rest.map Prod.fst).count id = _
    simp only [map_cons, count_append, count_cons, count_nil] at hid ⊢
    omega

/-- The first of the drained completions is dealt with. -/
theorem Split.deal (hpc : s.pc = .copying blen e rest) :
    ∃ f todo', todo = f :: todo' ∧ f.key = e ∧ todo'.map Frame.key = rest ∧
      s.drained = (lens ++ [blen]) ++ List.replicate todo'.length blen ∧
      (lens ++ [blen]).length = (done ++ [f]).length ∧
      (done ++ [f]).zip (lens ++ [blen]) = done.zip lens ++ [(f, blen)] := by
  have h := h.at hpc
  obtain ⟨f, todo', rfl, hf, hrest⟩ := map_eq_cons_iff.mp h.taken
  refine ⟨f, todo', rfl, hf, hrest, ?_, ?_, ?_⟩
  · rw [append_assoc]
    exact h.drained
  · rw [length_append, length_append, h.perDone]
    rfl
  · rw [zip_append h.perDone.symm]
    rfl

/-- A frame that fits is the last one that was drained, and it is returned. -/
theorem Split.deliver (hpc : s.pc = .copying blen e rest) (hfit : Fits e blen) :
    ∃ f, Split { s with
      returned := s.returned ++ [load s.mem (s.bufAddr e.1 + netHdrSize) (e.2.toNat - netHdrSize)]
      pc := .idle } (done ++ [f]) [] waiting (lens ++ [blen]) := by
  obtain ⟨f, todo', rfl, rfl, -, hdr, hlens, hzip⟩ := h.deal hpc
  have h := h.at hpc
  have hnil : todo' = [] := by
    cases todo' with
    | nil => rfl
    | cons g gs => exact absurd hfit (h.last f (mem_cons_self ..))
  subst hnil
  obtain rfl : rest = [] := (List.cons.inj h.taken).2.symm
  have hsize := h.sized f (mem_append_left _ (mem_cons_self ..))
  have hholds : load s.mem (s.bufAddr f.id) f.bytes.length = f.bytes :=
    h.keptTodo f (mem_cons_self ..) hfit
  have hbytes : f.key.2.toNat = f.bytes.length := by
    exact UInt32.toNat_ofNat_of_lt' (Nat.lt_of_le_of_lt hsize (by decide))
  have hframe : load s.mem (s.bufAddr f.key.1 + netHdrSize) (f.key.2.toNat - netHdrSize) =
      f.bytes.drop netHdrSize := by
    rw [hbytes, Memory.load_drop]
    exact congrArg (List.drop netHdrSize) hholds
  refine ⟨f, { h with
    completed := ?_, taken := rfl, drained := hdr, perDone := hlens, returned := ?_, last := nofun
    sized := fun g hg => h.sized g (mem_append_right _ hg)
    keptTodo := nofun }⟩
  · show s.completed = _
    rw [h.completed, append_nil]
  · show s.returned ++ [_] = _
    rw [hzip, filterMap_append, h.returned, hframe]
    refine congrArg _ ?_
    show _ = List.filterMap State.deliver [(f, blen)]
    rw [filterMap_cons, State.deliver, if_pos hfit]
    rfl

/-- A completion without a frame for the caller is passed over. -/
theorem Split.pass (hpc : s.pc = .copying blen e rest) (hfit : ¬ Fits e blen) :
    ∃ f todo', Split { s with pc := .arming blen rest } (done ++ [f]) todo' waiting
      (lens ++ [blen]) := by
  obtain ⟨f, todo', rfl, rfl, hrest, hdr, hlens, hzip⟩ := h.deal hpc
  have h := h.at hpc
  refine ⟨f, todo', { h with
    completed := ?_, taken := hrest, drained := hdr, perDone := hlens, returned := ?_, last := ?_
    sized := fun g hg => h.sized g (mem_cons_of_mem _ hg)
    keptTodo := fun g hg => h.keptTodo g (mem_cons_of_mem _ hg) }⟩
  · show s.completed = _
    rw [h.completed, append_assoc done [f]]
    rfl
  · show s.returned = _
    rw [hzip, filterMap_append, h.returned]
    show _ = _ ++ List.filterMap State.deliver [(f, blen)]
    rw [filterMap_cons, State.deliver, if_neg hfit]
    exact (append_nil _).symm
  · intro g hg
    cases todo' with
    | nil => cases hg
    | cons g' gs => exact h.last g (mem_cons_of_mem _ hg)

/-! ## The device's steps -/

theorem Split.fetch (hne : s.rx.availIdx ≠ s.tail) : Split s.fetch done todo waiting lens := by
  have hlt := h.avail.lt_of_ne hne
  have hahead := h.avail.ahead_take Vring.queueSize_dvd hlt
  have hchan : s.fetch.availChan = s.availChan.take := rfl
  refine { h with avail := ?_, owned := ?_ }
  · rw [hchan]
    exact h.avail.take Vring.queueSize_dvd hlt
  · intro id
    have hid := h.owned id
    rw [hahead] at hid
    have hid : (s.rx.headAt s.tail :: s.availChan.take.ahead).count id + _ + _ + _ = _ := hid
    rw [hchan]
    show _ + (s.held ++ [s.rx.headAt s.tail]).count id + _ + s.pc.owned.count id = _
    simp only [count_append, count_cons, count_nil] at hid ⊢
    omega

/-- The device writes into a buffer that it holds; all frames are in other buffers. -/
theorem Split.dma {off : Nat} {bytes : List UInt8} (hid : id ∈ s.held)
    (hlen : off + bytes.length ≤ (s.rx.desc id.toNat).len) (hg : s.InTime (.dma id off bytes)) :
    Split (s.dma id off bytes) done todo waiting lens := by
  have hdesc := h.desc id (h.held_mem hid)
  rw [hdesc] at hlen
  have hholds : ∀ {f : Frame}, f.bytes.length ≤ rxBufSize → f.id ≠ id → s.Holds f →
      (s.dma id off bytes).Holds f := by
    intro f hf hne hold
    show load (store s.mem ((s.rx.desc id.toNat).addr + off) bytes) (s.bufAddr f.id) _ = _
    have hne' : f.id.toNat ≠ id.toNat := fun heq => hne (UInt16.toNat_inj.mp heq)
    rw [hdesc, Memory.load_store_of_apart]
    · exact hold
    · show s.bufAddr f.id + f.bytes.length ≤ s.bufAddr id + off ∨
        s.bufAddr id + off + bytes.length ≤ s.bufAddr f.id
      have hlen : off + bytes.length ≤ rxBufSize := hlen
      simp only [bufAddr, rxBufSize] at hf hlen ⊢
      omega
  refine { h with keptWaiting := ?_, keptTodo := ?_ }
  · intro f hf
    exact hholds (h.sized f (mem_append_right _ hf))
      (h.apart hid (.inl (List.mem_map_of_mem hf))) (h.keptWaiting f hf)
  · intro f hf hfit
    refine hholds (h.sized f (mem_append_left _ hf)) ?_ (h.keptTodo f hf hfit)
    have hmem : f.key ∈ s.pc.todo := h.taken ▸ List.mem_map_of_mem hf
    have hapart : f.id ∈ s.pc.owned → f.id ≠ id := fun ho => h.apart hid (.inr ho)
    have hfit : Fits f.key s.pc.blen := hfit
    cases hpc : s.pc with
    | idle =>
      rw [hpc] at hmem
      cases hmem
    | draining blen out | arming blen rest =>
      rw [hpc] at hmem hapart
      exact hapart (List.mem_map_of_mem hmem)
    | copying blen e rest =>
      simp only [InTime, hpc] at hg
      rw [hpc] at hmem hapart hfit
      rcases mem_cons.mp hmem with rfl | hmem
      · exact hg hfit
      · exact hapart (List.mem_map_of_mem hmem)

theorem Split.complete {len : Nat} (hid : id ∈ s.held) (hlen : len ≤ (s.rx.desc id.toNat).len) :
    ∃ f, Split (s.complete id len) done todo (waiting ++ [f]) lens := by
  have hdesc := h.desc id (h.held_mem hid)
  have hcount := h.count
  have hahead : s.usedChan.sent.length - s.usedChan.got.length = waiting.length := by
    rw [← length_drop]
    exact (congrArg List.length h.used_ahead).trans (length_map _)
  have hroom : s.usedChan.sent.length < s.usedChan.got.length + queueSize := by
    have hle := h.used.taken
    simp only [rxCount, queueSize] at hcount ⊢
    omega
  rw [hdesc] at hlen
  have hkey : Frame.key ⟨id, load s.mem (s.rx.desc id.toNat).addr len⟩ = (id, .ofNat len) := by
    rw [Frame.key, Memory.load_length]
  have hchan : (s.complete id len).usedChan = (s.usedChan.write (id, .ofNat len)).publish := by
    have hle : s.drained.length ≤ (s.completed.map Frame.key).length := h.got_length ▸ h.used.taken
    rw [usedChan, usedChan, ← Vring.putUsed_usedChan]
    show Vring.usedChan _ ((s.completed ++ [_]).map Frame.key)
      (((s.completed ++ [_]).map Frame.key).take s.drained.length) = _
    rw [map_append, map_singleton, hkey, take_append_of_le_length hle]
    rfl
  refine ⟨⟨id, load s.mem (s.rx.desc id.toNat).addr len⟩, { h with
    used := ?_, completed := ?_, sized := ?_, keptWaiting := ?_, owned := ?_ }⟩
  · rw [hchan]
    exact h.used.push Vring.queueSize_dvd hroom _
  · show s.completed ++ [_] = _
    rw [h.completed, append_assoc _ waiting]
  · rw [← append_assoc]
    refine forall_mem_append.mpr ⟨h.sized, forall_mem_singleton.mpr ?_⟩
    rw [Memory.load_length]
    exact hlen
  · refine forall_mem_append.mpr ⟨h.keptWaiting, forall_mem_singleton.mpr ?_⟩
    show load s.mem (s.bufAddr id) (load s.mem _ len).length = _
    rw [Memory.load_length, hdesc]
    rfl
  · intro id'
    have howned := h.owned id'
    have hheld := (perm_cons_erase hid).count_eq id'
    rw [count_cons] at hheld
    show _ + (s.held.erase id).count id' + ((waiting ++ [_]).map Frame.id).count id' + _ = _
    rw [map_append, count_append, map_singleton, count_singleton, ← howned, hheld]
    show _ + _ + (_ + if id == id' then 1 else 0) + _ = _
    rw [show (s.complete id len).availChan.ahead = s.availChan.ahead from rfl,
      show (s.complete id len).pc = s.pc from rfl]
    omega

end Split

/-! ## Whole runs -/

/-- The slots are published one by one. -/
theorem foldl_rearm (mem : Mem) (ids : List UInt16) (hlen : ids.length ≤ queueSize) :
    ∃ rx : Vring, ids.foldl State.rearm (blank rxBase mem) = { blank rxBase mem with rx, published := ids } ∧
      rx.usedChan [] [] = Vring.new.usedChan [] [] ∧
      Ring.Sound (rx.availChan 0 ids []) ids.length ∧
      ∀ id ∈ ids, rx.desc id.toNat = (blank rxBase mem).bufDesc id := by
  induction ids using List.reverseRecOn with
  | nil => exact ⟨Vring.new, rfl, rfl, Ring.sound_empty _, nofun⟩
  | append_singleton ids id ih =>
    rw [length_append, length_singleton] at hlen
    obtain ⟨rx, hs, hused, havail, hdesc⟩ := ih (by omega)
    refine ⟨(rx.writeDesc id ((blank rxBase mem).bufDesc id)).publish id, ?_, hused, ?_, ?_⟩
    · rw [foldl_append, hs]
      rfl
    · exact havail.push Vring.queueSize_dvd (by show ids.length < 0 + queueSize; omega) id
    · refine fun id' hid' => desc_writeDesc rx fun hne => hdesc id' ?_
      exact (mem_append.mp hid').resolve_right fun hmem => hne (mem_singleton.mp hmem)

theorem split_start (mem : Mem) : Split (start rxBase mem) [] [] [] [] := by
  obtain ⟨rx, hs, hused, havail, hdesc⟩ := foldl_rearm rxBase mem slots (by decide)
  rw [start, hs]
  refine ⟨havail, ?_, hdesc, rfl, rfl, rfl, rfl, rfl, nofun, nofun, nofun, nofun, ?_⟩
  · show Ring.Sound (rx.usedChan [] []) 0
    rw [hused]
    exact Ring.sound_empty _
  · intro id
    rfl

/-- Every step in time keeps track of every slot and every completion. -/
theorem Split.step {e : Event} (h : s.Split done todo waiting lens) (hg : s.InTime e) (hst : s.Step e s') :
    ∃ done todo waiting lens, s'.Split done todo waiting lens := by
  cases e with
  | recv blen =>
    obtain ⟨hpc, ⟨⟩⟩ := Option.ite_none_right_eq_some.mp hst
    exact ⟨_, _, _, _, h.recv hpc blen⟩
  | drain =>
    cases hpc : s.pc with
    | draining blen out =>
      simp only [Step, next, InTime, hpc] at hst hg
      cases hst
      rw [drain, Vring.popUsed]
      split
      · rename_i hlen
        by_cases hidx : s.rx.usedIdx = s.rx.usedTail
        · rw [if_pos hidx]
          exact ⟨_, _, _, _, h.drained_all hpc⟩
        · rw [if_neg hidx]
          obtain ⟨f, waiting', hf, hs⟩ := h.pop hpc hidx fun hfit => hidx (hg hfit hlen)
          rw [← hf] at hs
          exact ⟨_, _, _, _, hs⟩
      · exact ⟨_, _, _, _, h.drained_all hpc⟩
    | _ => simp only [Step, next, hpc] at hst; cases hst
  | arm =>
    rw [Step, next] at hst
    split at hst
    · rename_i blen rest hpc
      cases hst
      cases rest with
      | nil => exact ⟨_, _, _, _, h.none_left hpc⟩
      | cons e rest => exact ⟨_, _, _, _, h.rearm hpc⟩
    · cases hst
  | copy =>
    rw [Step, next] at hst
    split at hst
    · rename_i blen e rest hpc
      cases hst
      rw [copy]
      split
      · rename_i hfit
        obtain ⟨f, hs⟩ := h.deliver hpc hfit
        exact ⟨_, _, _, _, hs⟩
      · rename_i hfit
        obtain ⟨f, todo', hs⟩ := h.pass hpc hfit
        exact ⟨_, _, _, _, hs⟩
    · cases hst
  | fetch =>
    obtain ⟨hne, ⟨⟩⟩ := Option.ite_none_right_eq_some.mp hst
    exact ⟨_, _, _, _, h.fetch hne⟩
  | dma id off bytes =>
    obtain ⟨⟨hid, hlen⟩, hst⟩ := Option.ite_none_right_eq_some.mp hst
    cases hst
    exact ⟨_, _, _, _, h.dma hid hlen hg⟩
  | complete id len =>
    obtain ⟨⟨hid, hlen⟩, hst⟩ := Option.ite_none_right_eq_some.mp hst
    cases hst
    obtain ⟨f, hs⟩ := h.complete hid hlen
    exact ⟨_, _, _, _, hs⟩

/-- Between two calls everything that was drained is dealt with. -/
theorem Split.lossless (h : s.Split done todo waiting lens) (hpc : s.pc = .idle) : s.Lossless := by
  have hp := h.at hpc
  obtain rfl := map_eq_nil_iff.mp hp.taken
  have hdr : s.drained = lens := h.drained.trans (append_nil _)
  constructor
  · rw [h.returned, h.completed, hdr, append_nil]
    refine congrArg _ ?_
    -- lengths were noted for what is done only
    have hz : (done ++ waiting).zip (lens ++ []) = done.zip lens ++ waiting.zip [] :=
      zip_append h.perDone.symm
    rw [append_nil, zip_nil_right, append_nil] at hz
    exact hz.symm
  · have hw : s.waiting = waiting.map Frame.id := by
      rw [State.waiting, h.used.between_eq Vring.queueSize_dvd (by decide), h.used_ahead, List.map_map]
      rfl
    rw [offered, h.avail.between_eq Vring.queueSize_dvd (by decide), hw]
    have howned : (_ ++ []).Perm slots := hp.perm
    rwa [append_nil] at howned

/-- In every run in which no completion is drained behind a frame that fits, and no buffer is
overwritten while it is copied, every frame that fits is returned once and in order, and no
slot is lost. -/
theorem lossless_of_inTime (mem : Mem) (es : List Event) (s : State)
    (h : LTS.Run (LTS.guarded Step InTime) (start rxBase mem) es s) (hidle : s.pc = .idle) :
    s.Lossless := by
  have hi : ∃ done todo waiting lens, s.Split done todo waiting lens := by
    refine h.invariant_guarded (I := fun s => ∃ done todo waiting lens, s.Split done todo waiting lens)
      ?_ ⟨_, _, _, _, split_start rxBase mem⟩
    rintro s e s' ⟨done, todo, waiting, lens, hs⟩ hg hst
    exact hs.step hg hst
  obtain ⟨done, todo, waiting, lens, hs⟩ := hi
  exact hs.lossless hidle

instance (s : State) : ∀ e, Decidable (s.InTime e)
  | .drain =>
    match h : s.pc with
    | .draining blen out =>
      decidable_of_iff ((∃ e ∈ out, Fits e blen) → out.length < drainMax → s.rx.usedIdx = s.rx.usedTail)
        (by simp only [InTime, h])
    | .idle | .arming _ _ | .copying _ _ _ => isTrue (by simp only [InTime, h])
  | .dma id _ _ =>
    match h : s.pc with
    | .copying blen e _ => decidable_of_iff (Fits e blen → e.1 ≠ id) (by simp only [InTime, h])
    | .idle | .arming _ _ | .draining _ _ => isTrue (by simp only [InTime, h])
  | .recv _ | .arm | .copy | .fetch | .complete _ _ => isTrue trivial

/-- One frame of eight bytes, behind a header of twelve. -/
def ping : List UInt8 :=
  List.replicate 12 0 ++ [1, 2, 3, 4, 5, 6, 7, 8]

/-- One frame is completed and received. -/
theorem lossless_of_inTime_ping :
    ∃ s, LTS.Run (LTS.guarded Step InTime) (start 0x50000 fun _ => 0)
      [.fetch, .dma 0 0 ping, .complete 0 20, .recv 1514, .drain, .drain, .arm, .copy] s ∧
      s.pc = .idle ∧ s.Lossless ∧ s.returned = [[1, 2, 3, 4, 5, 6, 7, 8]] := by
  refine LTS.Run.exists_and (LTS.Run.exists_of_guarded next InTime id _ _
    (fun s => s.pc = .idle ∧ s.returned = [[1, 2, 3, 4, 5, 6, 7, 8]]) (by decide +kernel)) ?_
  rintro s hrun ⟨hidle, hone⟩
  exact ⟨hidle, lossless_of_inTime _ _ _ _ hrun hidle, hone⟩

/-- Two frames are completed before the first call of `recv`: the call drains both and returns
one.  The second frame is returned by no call, and its slot is not published again. -/
theorem second_frame_lost :
    ¬ ∀ (rxBase : Nat) (mem : Mem) (es : List Event) (s : State),
      LTS.Run Step (start rxBase mem) es s → s.pc = .idle → s.Lossless := by
  intro hall
  obtain ⟨s, hrun, hidle, hone, htwo⟩ := LTS.Run.exists_of_exec next (S := Step) id (start 0x50000 fun _ => 0)
    [.fetch, .fetch, .dma 0 0 ping, .complete 0 20, .dma 1 0 ping, .complete 1 20, .recv 1514,
      .drain, .drain, .drain, .arm, .copy]
    (fun s => s.pc = .idle ∧ s.returned.length = 1 ∧
      ((s.completed.zip s.drained).filterMap deliver).length = 2) (by decide +kernel)
  have hlossless := hall _ _ _ s hrun hidle
  rw [← hlossless.returned, hone] at htwo
  cases htwo

end State

end Tanix.Drv.Nic
