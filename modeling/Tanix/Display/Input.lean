/-
# `Tanix.Display.Input` — tablet and keyboard events through a virtio queue

`Tablet::poll` and `Keyboard::poll` of `display/src/input.rs` over `drain_used` and
`add_empty_buffers` of `display/src/virtio.rs`.  The device has a ring of empty 8-byte buffers;
it writes one event into the buffer of the next descriptor and returns the descriptor.  A poll
takes up to eight descriptors out of the used ring, looks at one buffer for each, and adds as
many buffers again:

    poll   the used ring is drained
    look   one buffer is looked at: `EVBUF[id % QUEUE_SIZE]`
    add    n descriptors from `desc_head` on get the buffers 0 … n-1

The last line is where the two disagree: the descriptor that gets buffer `i` is
`desc_head + i`, so from the second refill on the device writes an event to one buffer and the
driver looks at another.  `faithful_of_ownBuffer` covers the runs in which the device only
fills descriptors that still have their own buffer.
-/
import Tanix.Lib.Ring
import Tanix.Lib.Run

namespace Tanix.Display

open List

/-- `QUEUE_SIZE` of `display/src/virtio.rs` -/
abbrev queueSize : Nat := 64

/-- the size of the array that a poll drains into -/
abbrev drainMax : Nat := 8

/-- `DESC_WRITE` -/
def descWrite : UInt16 := 2

structure InputEvent where
  kind : UInt16
  code : UInt16
  value : UInt32
  deriving DecidableEq, Repr

/-- `size_of::<InputEvent>()` -/
abbrev eventSize : Nat := 8

def evKey : UInt16 := 0x01
def evAbs : UInt16 := 0x03
def absX : UInt16 := 0x00
def absY : UInt16 := 0x01
def btnTouch : UInt16 := 0x14a
def btnMouse : UInt16 := 0x110

structure Pointer where
  x : UInt32
  y : UInt32
  buttons : UInt32
  deriving DecidableEq, Repr

variable (ev : InputEvent)

/-- What `Tablet::poll` does with an event. -/
def Pointer.apply (p : Pointer) (ev : InputEvent) : Pointer :=
  if ev.kind = evAbs ∧ ev.code = absX then { p with x := ev.value }
  else if ev.kind = evAbs ∧ ev.code = absY then { p with y := ev.value }
  else if ev.kind = evKey ∧ (ev.code = btnTouch ∨ ev.code = btnMouse) then
    { p with buttons := ev.value &&& 1 }
  else p

/-- What `Keyboard::poll` reports of an event. -/
def InputEvent.key : Option (UInt16 × UInt16) :=
  if ev.kind = evKey then some (ev.code, ev.value.toUInt16) else none

/-- The driver that polls the queue, with what it has made of the events so far. -/
inductive Driver
  | tablet (state : Pointer)
  | keyboard (reported : List (UInt16 × UInt16))
  deriving DecidableEq, Repr

/-- One event; `written` of `outLen` places of the caller's array are taken. -/
def Driver.handle (outLen written : Nat) (ev : InputEvent) : Driver → Driver × Nat
  | .tablet p => (.tablet (p.apply ev), written)
  | .keyboard reported =>
    match ev.key with
    | some k => if written < outLen then (.keyboard (reported ++ [k]), written + 1)
        else (.keyboard reported, written)
    | none => (.keyboard reported, written)

structure Desc where
  addr : Nat
  len : Nat
  flags : UInt16
  next : UInt16
  deriving DecidableEq, Repr

structure UsedElem where
  id : UInt32
  len : UInt32
  deriving DecidableEq, Repr

/-- Where a poll is: what is left of the drained descriptors, how many there were, and how many
places of the caller's array are taken. -/
inductive Pc
  | idle
  | looking (outLen : Nat) (todo : List (UInt16 × UInt32)) (n written : Nat)
  deriving DecidableEq, Repr

structure State where
  /-- address of the event buffers, and the event at each address -/
  base : Nat
  evbuf : Nat → InputEvent
  desc : Fin queueSize → Desc
  availIdx : UInt16
  availRing : Fin queueSize → UInt16
  usedIdx : UInt16
  usedRing : Fin queueSize → UsedElem
  usedTail : Nat
  descHead : Nat
  pc : Pc
  driver : Driver
  /-- the device's position in the avail ring -/
  tail : UInt16
  /-- the events that the device wrote and that polls looked at -/
  written : List InputEvent
  consumed : List InputEvent

inductive Event
  | poll (outLen : Nat)
  | look
  | add
  | emit (ev : InputEvent)
  deriving DecidableEq, Repr

namespace State

/-! ## `add_empty_buffers` -/

variable (s : State)

/-- The loop over the buffers that are added. -/
def addBuffers (count : Nat) : State :=
  { s with
    desc := Ring.fill s.desc s.descHead (fun i => ⟨s.base + i * eventSize, eventSize, descWrite, 0⟩) count
    availRing := Ring.fill s.availRing s.availIdx.toNat (fun i => .ofNat ((s.descHead + i) % queueSize)) count
    descHead := (s.descHead + count) % queueSize
    availIdx := .ofNat (s.availIdx.toNat + count) }

/-- `none`: the subtraction of the indices underflows. -/
def addEmptyBuffers (count : Nat) : Option State :=
  if s.availIdx.toNat < s.usedIdx.toNat then none
  else if queueSize < s.availIdx.toNat - s.usedIdx.toNat + count then some s
  else some (s.addBuffers count)

/-! ## `poll` -/

/-- How many elements `drain_used` takes out. -/
def drainCount : Nat :=
  min drainMax (s.usedIdx.toNat - s.usedTail)

def drainUsed : List (UInt16 × UInt32) :=
  (List.range s.drainCount).map fun i =>
    let elem := s.usedRing (Fin.ofNat queueSize (s.usedTail + i))
    (elem.id.toUInt16, elem.len)

def poll (outLen : Nat) : State :=
  { s with
    usedTail := s.usedTail + s.drainCount
    pc := if s.drainCount = 0 then .idle else .looking outLen s.drainUsed s.drainCount 0 }

/-- The buffer that a poll looks at for a descriptor. -/
def bufferOf (id : UInt16) : Nat :=
  s.base + id.toNat % queueSize * eventSize

def look (outLen : Nat) (id : UInt16) (rest : List (UInt16 × UInt32)) (n written : Nat) : State :=
  let ev := s.evbuf (s.bufferOf id)
  let (driver, written) := s.driver.handle outLen written ev
  { s with driver, consumed := s.consumed ++ [ev], pc := .looking outLen rest n written }

/-! ## The device -/

/-- The descriptor that the device fills next. -/
def nextDesc : UInt16 :=
  s.availRing (Ring.slot queueSize s.tail)

def emit (ev : InputEvent) : State :=
  { s with
    evbuf := Function.update s.evbuf (s.desc (Ring.slot queueSize s.nextDesc)).addr ev
    usedRing := Function.update s.usedRing (Ring.slot queueSize s.usedIdx) ⟨s.nextDesc.toUInt32, 8⟩
    usedIdx := s.usedIdx + 1
    tail := s.tail + 1
    written := s.written ++ [ev] }

def next : Event → Option State
  | .poll outLen => if s.pc = .idle then some (s.poll outLen) else none
  | .look =>
    match s.pc with
    | .looking outLen ((id, _) :: rest) n written => some (s.look outLen id rest n written)
    | _ => none
  | .add =>
    match s.pc with
    | .looking _ [] n _ => addEmptyBuffers { s with pc := .idle } n
    | _ => none
  | .emit ev => if s.availIdx ≠ s.tail then some (s.emit ev) else none

def Step (e : Event) (s' : State) : Prop :=
  s.next e = some s'

/-- A zeroed ring. -/
def blank (driver : Driver) (base : Nat) (evbuf : Nat → InputEvent) : State :=
  { base, evbuf, desc := fun _ => ⟨0, 0, 0, 0⟩, availIdx := 0, availRing := fun _ => 0, usedIdx := 0
    usedRing := fun _ => ⟨0, 0⟩, usedTail := 0, descHead := 0, pc := .idle, driver, tail := 0
    written := [], consumed := [] }

/-- A device that was just opened, with a full ring of buffers. -/
def start (driver : Driver) (base : Nat) (evbuf : Nat → InputEvent) : State :=
  (blank driver base evbuf).addBuffers queueSize

/-- The completions that a poll has drained and not looked at. -/
def todo (s : State) : List (UInt16 × UInt32) :=
  match s.pc with
  | .idle => []
  | .looking _ todo _ _ => todo

/-- What a driver makes of a list of events. -/
def Makes (init : Driver) (evs : List InputEvent) : Driver → Prop
  | .tablet p => ∃ p₀, init = .tablet p₀ ∧ p = evs.foldl Pointer.apply p₀
  | .keyboard reported => ∃ r₀, init = .keyboard r₀ ∧ reported = r₀ ++ evs.filterMap InputEvent.key

/-- The polls have looked at the first events that the device wrote, each once and in order,
and made of them what is to be made; the others are in the used ring. -/
structure Faithful (init : Driver) (s : State) : Prop where
  inOrder : s.consumed <+: s.written
  waiting : s.written.length - s.consumed.length = s.usedIdx.toNat - s.usedTail + s.todo.length
  handled : Makes init s.consumed s.driver

/-- There is a place in the caller's array for a key event that is looked at. -/
def HasPlace : Pc → Driver → Prop
  | .looking outLen ((id, _) :: _) _ written, .keyboard _ =>
    (s.evbuf (s.bufferOf id)).kind = evKey → written < outLen
  | _, _ => True

instance (pc : Pc) (d : Driver) : Decidable (s.HasPlace pc d) :=
  match pc, d with
  | .looking _ (_ :: _) _ _, .keyboard _ => inferInstanceAs (Decidable (_ → _))
  | .looking _ (_ :: _) _ _, .tablet _ => isTrue trivial
  | .looking _ [] _ _, _ => isTrue trivial
  | .idle, _ => isTrue trivial

/-- The device fills a descriptor that has its own buffer, before an index can wrap; and every
key event has its place. -/
def OwnBuffer : Event → Prop
  | .emit _ =>
    (s.desc (Ring.slot queueSize s.nextDesc)).addr = s.bufferOf s.nextDesc ∧
      s.usedIdx.toNat + 2 * queueSize < 2 ^ 16
  | .look => s.HasPlace s.pc s.driver
  | _ => True

instance (e : Event) : Decidable (s.OwnBuffer e) :=
  match e with
  | .emit _ => inferInstanceAs (Decidable (_ ∧ _))
  | .look => inferInstanceAs (Decidable (HasPlace _ _ _))
  | .poll _ => isTrue trivial
  | .add => isTrue trivial

/-! ## What a run of such steps keeps -/

/-- How many descriptors the poll at work has drained. -/
def inHand : Nat :=
  match s.pc with
  | .idle => 0
  | .looking _ _ n _ => n

/-- How many buffers were added, the ring of the beginning included. -/
def added : Nat :=
  queueSize + (s.usedTail - s.inHand)

/-- Descriptors go round in order: the `k`-th of them is `k % QUEUE_SIZE` in the avail ring, in
the used ring and in the hands of a poll, and the `k`-th event is in its buffer. -/
structure Inv (init : Driver) (s : State) : Prop where
  usedIdx : s.usedIdx = .ofNat s.written.length
  tail : s.tail = .ofNat s.written.length
  small : s.written.length + queueSize < 2 ^ 16
  availIdx : s.availIdx = .ofNat s.added
  descHead : s.descHead = s.added % queueSize
  drained : s.usedTail = s.consumed.length + s.todo.length
  hand : s.todo.length ≤ s.inHand
  hand' : s.inHand ≤ s.usedTail
  seen : s.usedTail ≤ s.written.length
  filled : s.written.length ≤ s.added
  avail : ∀ k, s.written.length ≤ k → k < s.added →
    s.availRing (Fin.ofNat queueSize k) = .ofNat (k % queueSize)
  used : ∀ k, s.usedTail ≤ k → k < s.written.length →
    (s.usedRing (Fin.ofNat queueSize k)).id.toUInt16 = .ofNat (k % queueSize)
  looked : ∀ (i : Nat) (x : UInt16 × UInt32), s.todo[i]? = some x →
    x.1 = .ofNat ((s.consumed.length + i) % queueSize)
  buffers : ∀ k ev, s.consumed.length ≤ k → s.written[k]? = some ev →
    s.evbuf (s.bufferOf (.ofNat (k % queueSize))) = ev
  inOrder : s.consumed <+: s.written
  handled : Makes init s.consumed s.driver


theorem bufferOf_slot (k : Nat) :
    s.bufferOf (.ofNat (k % queueSize)) = s.base + k % queueSize * eventSize := by
  have hlt : k % queueSize < 2 ^ 16 := Nat.lt_trans (Nat.mod_lt k (by decide)) (by decide)
  rw [bufferOf, UInt16.toNat_ofNat_of_lt' hlt, Nat.mod_mod]

variable {init : Driver} {s} {s' : State}

namespace Inv

theorem used_toNat (h : Inv init s) : s.usedIdx.toNat = s.written.length := by
  rw [h.usedIdx, UInt16.toNat_ofNat_of_lt' (Nat.lt_of_add_right_lt h.small)]

theorem added_le (h : Inv init s) : s.added < 2 ^ 16 := by
  have hsmall := h.small
  have hseen := h.seen
  show queueSize + (s.usedTail - s.inHand) < 2 ^ 16
  omega

theorem avail_toNat (h : Inv init s) : s.availIdx.toNat = s.added := by
  rw [h.availIdx, UInt16.toNat_ofNat_of_lt' h.added_le]

theorem poll (h : Inv init s) (hpc : s.pc = .idle) (outLen : Nat) : Inv init (s.poll outLen) := by
  have htodo : s.todo = [] := by rw [todo, hpc]
  have hhand : s.inHand = 0 := by rw [inHand, hpc]
  have hdrained := h.drained
  rw [htodo, length_nil, Nat.add_zero] at hdrained
  have hcount : s.drainCount ≤ s.written.length - s.usedTail := by
    rw [drainCount, h.used_toNat]
    exact Nat.min_le_right _ _
  have hseen := h.seen
  have hpc' : (s.poll outLen).todo = s.drainUsed ∧ (s.poll outLen).inHand = s.drainCount := by
    by_cases h0 : s.drainCount = 0
    · simp [todo, inHand, State.poll, drainUsed, h0]
    · simp [todo, inHand, State.poll, h0]
  obtain ⟨htodo', hhand'⟩ := hpc'
  have hlen : s.drainUsed.length = s.drainCount := by
    rw [drainUsed, length_map, length_range]
  have hadded : (s.poll outLen).added = s.added := by
    rw [added, hhand', added, hhand]
    show queueSize + (s.usedTail + s.drainCount - s.drainCount) = _
    rw [Nat.add_sub_cancel]
    rfl
  exact {
    h with
    availIdx := by rw [hadded]; exact h.availIdx
    descHead := by rw [hadded]; exact h.descHead
    drained := by
      rw [htodo', hlen]
      show s.usedTail + s.drainCount = s.consumed.length + s.drainCount
      rw [hdrained]
    hand := by rw [htodo', hhand', hlen]
    hand' := by rw [hhand']; exact Nat.le_add_left _ _
    seen := by
      show s.usedTail + s.drainCount ≤ s.written.length
      omega
    filled := by rw [hadded]; exact h.filled
    avail := by rw [hadded]; exact h.avail
    used := fun k hk => h.used k (Nat.le_trans (Nat.le_add_right _ _) hk)
    looked := by
      rw [htodo']
      intro i x hx
      obtain ⟨hi, rfl⟩ := List.getElem?_eq_some_iff.mp hx
      rw [hlen] at hi
      simp only [drainUsed, getElem_map, getElem_range]
      have := h.used (s.usedTail + i) (Nat.le_add_right _ _) (by omega)
      rw [this, hdrained]
      rfl
    handled := h.handled }

/-- One event more for the driver. -/
theorem makes_handle {evs : List InputEvent} {d : Driver} {ev : InputEvent} {outLen written : Nat}
    (hd : Makes init evs d)
    (hroom : ∀ r, d = .keyboard r → ev.kind = evKey → written < outLen) :
    Makes init (evs ++ [ev]) (d.handle outLen written ev).1 := by
  cases d with
  | tablet p =>
    obtain ⟨p₀, hp₀, hp⟩ := hd
    refine ⟨p₀, hp₀, ?_⟩
    rw [foldl_append, ← hp]
    rfl
  | keyboard reported =>
    obtain ⟨r₀, hr₀, hr⟩ := hd
    have hroom := hroom reported rfl
    rw [Driver.handle]
    by_cases hkey : ev.kind = evKey
    · have hk : ev.key = some (ev.code, ev.value.toUInt16) := if_pos hkey
      rw [hk]
      dsimp only
      rw [if_pos (hroom hkey)]
      refine ⟨r₀, hr₀, ?_⟩
      rw [filterMap_append, filterMap_cons_some hk, hr, append_assoc]
      rfl
    · have hk : ev.key = none := if_neg hkey
      rw [hk]
      refine ⟨r₀, hr₀, ?_⟩
      rw [filterMap_append, filterMap_cons_none hk, filterMap_nil, append_nil]
      exact hr

theorem look (h : Inv init s) {outLen n written : Nat} {id : UInt16} {len : UInt32}
    {rest : List (UInt16 × UInt32)} (hpc : s.pc = .looking outLen ((id, len) :: rest) n written)
    (hroom : ∀ r, s.driver = .keyboard r → (s.evbuf (s.bufferOf id)).kind = evKey → written < outLen) :
    Inv init (s.look outLen id rest n written) := by
  have htodo : s.todo = (id, len) :: rest := by rw [todo, hpc]
  have hhand : s.inHand = n := by rw [inHand, hpc]
  have hadded : (s.look outLen id rest n written).added = s.added := by
    rw [added, added, hhand]
    rfl
  have hdrained := h.drained
  have hle := h.hand
  rw [htodo, length_cons] at hdrained hle
  have hseen := h.seen
  have hid : id = .ofNat (s.consumed.length % queueSize) := by
    refine h.looked 0 (id, len) ?_
    rw [htodo]
    rfl
  have hlt : s.consumed.length < s.written.length := by omega
  -- the buffer holds the event that the device wrote for this descriptor
  have hev : s.evbuf (s.bufferOf id) = s.written[s.consumed.length] := by
    rw [hid]
    exact h.buffers _ _ (Nat.le_refl _) (getElem?_eq_getElem hlt)
  have hlen : (s.consumed ++ [s.evbuf (s.bufferOf id)]).length = s.consumed.length + 1 := by
    rw [length_append, length_singleton]
  exact {
    h with
    availIdx := by rw [hadded]; exact h.availIdx
    descHead := by rw [hadded]; exact h.descHead
    drained := by
      show s.usedTail = (s.consumed ++ [s.evbuf (s.bufferOf id)]).length + rest.length
      omega
    hand := by
      show rest.length ≤ n
      omega
    hand' := by
      have := h.hand'
      rw [hhand] at this
      exact this
    seen := hseen
    filled := by rw [hadded]; exact h.filled
    avail := by rw [hadded]; exact h.avail
    looked := by
      intro i x hx
      show x.1 = .ofNat (((s.consumed ++ [s.evbuf (s.bufferOf id)]).length + i) % queueSize)
      have := h.looked (i + 1) x (by rw [htodo]; exact hx)
      rw [this, hlen, Nat.add_assoc, Nat.add_comm 1 i]
    buffers := by
      intro k ev hk
      have hk : (s.consumed ++ [s.evbuf (s.bufferOf id)]).length ≤ k := hk
      exact h.buffers k ev (by omega)
    inOrder := by
      show s.consumed ++ [s.evbuf (s.bufferOf id)] <+: s.written
      rw [hev]
      exact Ring.prefix_concat h.inOrder (getElem?_eq_getElem hlt)
    handled := makes_handle h.handled hroom }

theorem add (h : Inv init s) {outLen n written : Nat} (hpc : s.pc = .looking outLen [] n written)
    (hadd : addEmptyBuffers { s with pc := .idle } n = some s') : Inv init s' := by
  have htodo : s.todo = [] := by rw [todo, hpc]
  have hhand : s.inHand = n := by rw [inHand, hpc]
  have hdrained := h.drained
  rw [htodo, length_nil, Nat.add_zero] at hdrained
  have hn := h.hand'
  rw [hhand] at hn
  have hadded : s.added = queueSize + (s.usedTail - n) := by rw [added, hhand]
  have hseen := h.seen
  have hfilled := h.filled
  have hsmall := h.small
  -- the n descriptors that were drained are out of the ring
  have hroom : s.added - s.written.length + n ≤ queueSize := by omega
  have hadd' : s' = addBuffers { s with pc := .idle } n := by
    rw [addEmptyBuffers] at hadd
    have hle : ¬ s.availIdx.toNat < s.usedIdx.toNat := by
      rw [h.avail_toNat, h.used_toNat]
      omega
    have hle' : ¬ queueSize < s.availIdx.toNat - s.usedIdx.toNat + n := by
      rw [h.avail_toNat, h.used_toNat]
      omega
    rw [if_neg hle, if_neg hle'] at hadd
    exact (Option.some.inj hadd).symm
  rw [hadd']
  have hadded' : (addBuffers { s with pc := .idle } n).added = s.added + n := by
    show queueSize + (s.usedTail - 0) = _
    omega
  exact {
    h with
    availIdx := by
      rw [hadded', ← h.avail_toNat]
      rfl
    descHead := by
      rw [hadded']
      show (s.descHead + n) % queueSize = _
      rw [h.descHead, Nat.mod_add_mod]
    drained := hdrained
    hand := Nat.le_refl 0
    hand' := Nat.zero_le _
    seen := hseen
    filled := by
      rw [hadded']
      exact Nat.le_trans hfilled (Nat.le_add_right _ _)
    avail := by
      intro k hk hk'
      rw [hadded'] at hk'
      show Ring.fill s.availRing s.availIdx.toNat _ n (Fin.ofNat queueSize k) = _
      rw [h.avail_toNat]
      have hk : s.written.length ≤ k := hk
      rcases Nat.lt_or_ge k s.added with hlt | hge
      · rw [Ring.fill_of_before _ _ hlt (by omega)]
        exact h.avail k hk hlt
      · obtain ⟨i, rfl⟩ := Nat.exists_eq_add_of_le hge
        rw [Ring.fill_of_lt _ _ _ (by omega) (by omega)]
        show UInt16.ofNat ((s.descHead + i) % queueSize) = _
        rw [h.descHead, Nat.mod_add_mod]
    looked := fun i x hx => nomatch hx
    handled := h.handled }

theorem emit (h : Inv init s) (hne : s.availIdx ≠ s.tail)
    (hown : (s.desc (Ring.slot queueSize s.nextDesc)).addr = s.bufferOf s.nextDesc)
    (hlim : s.usedIdx.toNat + 2 * queueSize < 2 ^ 16) (ev : InputEvent) : Inv init (s.emit ev) := by
  have hseen := h.seen
  have hdrained := h.drained
  have hhand := h.hand
  have hhand' := h.hand'
  have hfilled := h.filled
  have hadded : s.added = queueSize + (s.usedTail - s.inHand) := rfl
  rw [h.used_toNat] at hlim
  have hlt : s.written.length < s.added := by
    refine Nat.lt_of_le_of_ne hfilled fun heq => hne ?_
    rw [h.availIdx, h.tail, heq]
  have hnext : s.nextDesc = .ofNat (s.written.length % queueSize) := by
    rw [nextDesc, h.tail, Ring.slot_ofNat (by decide)]
    exact h.avail _ (Nat.le_refl _) hlt
  have hlen : (s.written ++ [ev]).length = s.written.length + 1 := by
    rw [length_append, length_singleton]
  exact {
    h with
    usedIdx := by
      show s.usedIdx + 1 = .ofNat (s.written ++ [ev]).length
      rw [hlen, h.usedIdx, Ring.counter_succ]
    tail := by
      show s.tail + 1 = .ofNat (s.written ++ [ev]).length
      rw [hlen, h.tail, Ring.counter_succ]
    small := by
      show (s.written ++ [ev]).length + queueSize < 2 ^ 16
      omega
    drained := hdrained
    hand := hhand
    hand' := hhand'
    seen := by
      show s.usedTail ≤ (s.written ++ [ev]).length
      omega
    filled := by
      show (s.written ++ [ev]).length ≤ s.added
      omega
    avail := by
      intro k hk
      have hk : (s.written ++ [ev]).length ≤ k := hk
      exact h.avail k (by omega)
    used := by
      intro k hk hk'
      have hk : s.usedTail ≤ k := hk
      have hk' : k < (s.written ++ [ev]).length := hk'
      show (Function.update s.usedRing (Ring.slot queueSize s.usedIdx) ⟨s.nextDesc.toUInt32, 8⟩
        (Fin.ofNat queueSize k)).id.toUInt16 = _
      rw [h.usedIdx, Ring.slot_ofNat (by decide)]
      rcases Nat.lt_or_ge k s.written.length with hold | hnew
      · rw [Function.update_of_ne (Ring.ofNat_ne hold (by omega))]
        exact h.used k hk hold
      · obtain rfl : k = s.written.length := by omega
        rw [Function.update_self, hnext]
        exact UInt16.toUInt16_toUInt32 _
    buffers := by
      intro k b hk hb
      have hk : s.consumed.length ≤ k := hk
      have hb : (s.written ++ [ev])[k]? = some b := hb
      show Function.update s.evbuf (s.desc (Ring.slot queueSize s.nextDesc)).addr ev
        (s.bufferOf (.ofNat (k % queueSize))) = b
      rw [hown, hnext]
      rcases Nat.lt_or_ge k s.written.length with hold | hnew
      · -- the two descriptors are in the ring together, so their buffers are two
        have hne : s.bufferOf (.ofNat (k % queueSize)) ≠ s.bufferOf (.ofNat (s.written.length % queueSize)) := by
          rw [bufferOf_slot, bufferOf_slot]
          intro heq
          have hmod := Nat.eq_of_mul_eq_mul_right (by decide) (Nat.add_left_cancel heq)
          exact Ring.ofNat_ne hold (by omega) (Fin.ext hmod)
        rw [Function.update_of_ne hne]
        rw [getElem?_append_left hold] at hb
        exact h.buffers k b hk hb
      · have hlt' := (List.getElem?_eq_some_iff.mp hb).1
        obtain rfl : k = s.written.length := by omega
        rw [getElem?_concat_length] at hb
        rw [Function.update_self]
        exact Option.some.inj hb
    inOrder := h.inOrder.trans (prefix_append _ _)
    handled := h.handled }

theorem step {e : Event} (h : Inv init s) (hown : s.OwnBuffer e) (hstep : s.Step e s') :
    Inv init s' := by
  cases e with
  | poll outLen =>
    obtain ⟨hpc, ⟨⟩⟩ := Option.ite_none_right_eq_some.mp hstep
    exact h.poll hpc outLen
  | look =>
    rw [Step, next] at hstep
    split at hstep
    · next outLen id len rest n written hpc =>
        cases hstep
        refine h.look hpc fun r hr => ?_
        rw [OwnBuffer, hpc, hr, HasPlace] at hown
        exact hown
    · cases hstep
  | add =>
    rw [Step, next] at hstep
    split at hstep
    · next hpc => exact h.add hpc hstep
    · cases hstep
  | emit ev =>
    obtain ⟨hne, ⟨⟩⟩ := Option.ite_none_right_eq_some.mp hstep
    exact h.emit hne hown.1 hown.2 ev

theorem faithful (h : Inv init s) : Faithful init s where
  inOrder := h.inOrder
  waiting := by
    have hdrained := h.drained
    have hseen := h.seen
    rw [h.used_toNat]
    omega
  handled := h.handled

end Inv

theorem makes_nil (d : Driver) : Makes d [] d := by
  cases d with
  | tablet p => exact ⟨p, rfl, rfl⟩
  | keyboard r => exact ⟨r, rfl, (append_nil r).symm⟩

theorem inv_start (driver : Driver) (base : Nat) (evbuf : Nat → InputEvent) :
    Inv driver (start driver base evbuf) where
  usedIdx := rfl
  tail := rfl
  small := show 0 + queueSize < 2 ^ 16 by decide
  availIdx := rfl
  descHead := rfl
  drained := rfl
  hand := Nat.le_refl 0
  hand' := Nat.le_refl 0
  seen := Nat.le_refl 0
  filled := Nat.zero_le _
  avail k _ hk := by
    have := Ring.fill_of_lt (n := queueSize) (fun _ => (0 : UInt16)) 0
      (fun i => .ofNat ((0 + i) % queueSize)) (Nat.le_refl queueSize) hk
    rw [Nat.zero_add] at this
    exact this
  used _ _ hk := absurd hk (Nat.not_lt_zero _)
  looked _ _ hx := nomatch hx
  buffers _ _ _ hx := nomatch hx
  inOrder := prefix_refl []
  handled := makes_nil driver

/-- Tablet or keyboard, however polls and events fall: the events that the polls looked at are
those that the device wrote, each once and in order, and every key event of them is reported
once. -/
theorem faithful_of_ownBuffer (driver : Driver) (base : Nat) (evbuf : Nat → InputEvent)
    (es : List Event) (s : State)
    (h : LTS.Run (LTS.guarded Step OwnBuffer) (start driver base evbuf) es s) : Faithful driver s :=
  (h.invariant_guarded (fun _ _ _ hi hown hst => hi.step hown hst) (inv_start driver base evbuf)).faithful

/-- A keyboard, and `n` events of it with a poll that looks at them. -/
def keyboard : State :=
  start (.keyboard []) 0x5000 fun _ => ⟨0, 0, 0⟩

def burst (n : Nat) (ev : InputEvent) : List Event :=
  List.replicate n (.emit ev) ++ [.poll 7] ++ List.replicate n .look ++ [.add]

def press : InputEvent := ⟨evKey, 30, 1⟩
def release : InputEvent := ⟨evKey, 30, 0⟩

/-- A key is pressed and released. -/
theorem faithful_of_ownBuffer_key :
    ∃ s, LTS.Run (LTS.guarded Step OwnBuffer) keyboard (burst 2 press ++ burst 1 release) s ∧
      s.driver = .keyboard [(30, 1), (30, 1), (30, 0)] ∧ Faithful (.keyboard []) s := by
  refine LTS.Run.exists_and (LTS.Run.exists_of_guarded next OwnBuffer id _ _
    (·.driver = .keyboard [(30, 1), (30, 1), (30, 0)]) (by decide +kernel)) ?_
  intro s hrun hs
  exact ⟨hs, faithful_of_ownBuffer _ _ _ _ s hrun⟩

/-- Two polls of one event each, and the next time round the second descriptor has the buffer
of the first: the release of a key goes there, and the poll finds the old press again. -/
def roundTwice : List Event :=
  burst 1 press ++ burst 1 press ++ (List.replicate 8 (burst 7 press)).flatten ++ burst 6 press ++
    burst 1 press ++ burst 1 release

theorem stale_press_reported :
    ∃ s, LTS.Run Step keyboard roundTwice s ∧ ¬ Faithful (.keyboard []) s := by
  obtain ⟨s, hrun, hw, hc, hlen⟩ := LTS.Run.exists_of_exec next (S := Step) id keyboard roundTwice
    (fun s => s.written.getLast? = some release ∧ s.consumed.getLast? = some press ∧
      s.consumed.length = s.written.length) (by decide +kernel)
  refine ⟨s, hrun, fun h => ?_⟩
  rw [h.inOrder.eq_of_length hlen, hw] at hc
  exact absurd hc (by decide)

end State

end Tanix.Display
