/-
# `Tanix.Display.Queue` — the legacy virtqueue of the display server

`submit`, `add_empty_buffers` and `drain_used` of `display/src/virtio.rs`, with a device that
takes chains from the avail ring in order and completes those it holds in any order, with any
length.  The k-th chain that is made available has the serial number k.

    submit     a request chain is made available, and the used ring is polled for its head
    poll       one round of that loop; after `MAX_POLL_ROUNDS` of them the result is 0
    add        empty buffers are made available, if the indices leave room
    drain      completions are taken out of the used ring
    fetch, complete   the device

The driver counts the used ring in a `usize` and compares it with the device's 16-bit index,
and it subtracts 16-bit indices as they are.  `Exact` is what it should do for ever;
`exact_of_inTime` has it as long as no index wraps, what is added was drained before, and the
device is faster than the poll loop.  After 2 ^ 16 buffers nothing is drained any more
(`wrapped_index_stalls`).
-/
import Tanix.Display.Input

namespace Tanix.Display.Queue

open List LTS

/-- `DESC_NEXT` -/
def descNext : UInt16 := 1

def maxPollRounds : Nat := 4000000

/-! ## The queue -/

structure VirtQueue where
  desc : Fin queueSize → Desc
  availIdx : UInt16
  availRing : Fin queueSize → UInt16
  usedIdx : UInt16
  usedRing : Fin queueSize → UsedElem
  usedTail : Nat
  descHead : Nat

/-- A zeroed ring. -/
def VirtQueue.new : VirtQueue where
  desc _ := ⟨0, 0, 0, 0⟩
  availIdx := 0
  availRing _ := 0
  usedIdx := 0
  usedRing _ := ⟨0, 0⟩
  usedTail := 0
  descHead := 0

namespace VirtQueue

variable (q : VirtQueue)

/-- The chain of a request: its buffers, each an address and a length, and the response. -/
def submit (request : List (Nat × Nat)) (response : Nat × Nat) : VirtQueue :=
  let chained (i : Nat) : Desc :=
    let buf := request.getD i (0, 0)
    ⟨buf.1, buf.2, descNext, .ofNat ((q.descHead + i + 1) % queueSize)⟩
  { q with
    desc := Function.update (Ring.fill q.desc q.descHead chained request.length)
      (Fin.ofNat queueSize (q.descHead + request.length)) ⟨response.1, response.2, descWrite, 0⟩
    descHead := (q.descHead + request.length + 1) % queueSize
    availRing := Function.update q.availRing (Ring.slot queueSize q.availIdx) (.ofNat q.descHead)
    availIdx := q.availIdx + 1 }

/-- The loop over `n` elements of the used ring, from `tail` on: the one that was looked for, and
the tail behind it. -/
def scan (ring : Fin queueSize → UsedElem) (head : Nat) : Nat → Nat → Option UsedElem × Nat
  | 0, tail => (none, tail)
  | n + 1, tail =>
    let elem := ring (Fin.ofNat queueSize tail)
    if elem.id.toNat = head then (some elem, tail + 1) else scan ring head n (tail + 1)

/-- The loop over the buffers that are added. -/
def addBuffers (base len count : Nat) : VirtQueue :=
  { q with
    desc := Ring.fill q.desc q.descHead (fun i => ⟨base + i * len, len, descWrite, 0⟩) count
    availRing := Ring.fill q.availRing q.availIdx.toNat (fun i => .ofNat ((q.descHead + i) % queueSize)) count
    descHead := (q.descHead + count) % queueSize
    availIdx := .ofNat (q.availIdx.toNat + count) }

/-- How many buffers were added.  `none`: the subtraction of the indices underflows. -/
def addEmptyBuffers (base len count : Nat) : Option (Nat × VirtQueue) :=
  if q.availIdx.toNat < q.usedIdx.toNat then none
  else if queueSize < q.availIdx.toNat - q.usedIdx.toNat + count then some (0, q)
  else some (count, q.addBuffers base len count)

def drainCount (outLen : Nat) : Nat :=
  min outLen (q.usedIdx.toNat - q.usedTail)

/-- The elements that a drain reads. -/
def drained (outLen : Nat) : List UsedElem :=
  (List.range (q.drainCount outLen)).map fun i => q.usedRing (Fin.ofNat queueSize (q.usedTail + i))

/-- What a drain writes into the caller's array. -/
def drainUsed (outLen : Nat) : List (UInt16 × UInt32) :=
  (q.drained outLen).map fun elem => (elem.id.toUInt16, elem.len)

end VirtQueue

/-! ## The queue of an input device -/

/-- The queue that the polls of an input device work on. -/
def ofInput (s : Display.State) : VirtQueue :=
  { desc := s.desc, availIdx := s.availIdx, availRing := s.availRing, usedIdx := s.usedIdx
    usedRing := s.usedRing, usedTail := s.usedTail, descHead := s.descHead }

theorem ofInput_drainUsed (s : Display.State) : s.drainUsed = (ofInput s).drainUsed drainMax := by
  rw [VirtQueue.drainUsed, VirtQueue.drained, List.map_map]
  rfl

theorem ofInput_addBuffers (s : Display.State) (count : Nat) :
    ofInput (s.addBuffers count) = (ofInput s).addBuffers s.base eventSize count :=
  rfl

/-! ## Driver and device -/

/-- Where the driver is: idle, or in the loop of `submit` for a head, with the serial number of
the request, the rounds so far and the tail. -/
inductive Pc
  | idle
  | polling (head serial rounds tail : Nat)
  deriving DecidableEq, Repr

structure State where
  q : VirtQueue
  pc : Pc
  /-- the device's position in the avail ring, and the chains it holds -/
  seen : UInt16
  pending : List (Nat × UInt16)
  /-- how many chains were made available, and how many the device has taken up -/
  made : Nat
  fetched : Nat
  /-- what the device completed, with the serial numbers -/
  completions : List (Nat × UsedElem)
  /-- what drains and `submit` took of it -/
  taken : List UsedElem
  /-- the serial number and the result of every `submit` that returned -/
  answers : List (Nat × UInt32)

inductive Event
  | submit (request : List (Nat × Nat)) (response : Nat × Nat)
  | poll
  | add (base len count : Nat)
  | drain (outLen : Nat)
  | fetch
  | complete (i : Nat) (len : UInt32)
  deriving DecidableEq, Repr

namespace State

def start : State where
  q := .new
  pc := .idle
  seen := 0
  pending := []
  made := 0
  fetched := 0
  completions := []
  taken := []
  answers := []

def submit (s : State) (request : List (Nat × Nat)) (response : Nat × Nat) : State :=
  { s with
    q := s.q.submit request response
    pc := .polling s.q.descHead s.made 0 s.q.usedTail
    made := s.made + 1 }

variable (s : State)

def poll (head serial rounds tail : Nat) : State :=
  match VirtQueue.scan s.q.usedRing head (s.q.usedIdx.toNat - tail) tail with
  | (some elem, tail) =>
    { s with
      q.usedTail := tail
      pc := .idle
      taken := s.taken ++ [elem]
      answers := s.answers ++ [(serial, elem.len)] }
  | (none, tail) =>
    if maxPollRounds ≤ rounds + 1 then
      { s with q.usedTail := tail, pc := .idle, answers := s.answers ++ [(serial, 0)] }
    else { s with pc := .polling head serial (rounds + 1) tail }

def add (base len count : Nat) : Option State :=
  (s.q.addEmptyBuffers base len count).map fun r => { s with q := r.2, made := s.made + r.1 }

def drain (outLen : Nat) : State :=
  { s with q.usedTail := s.q.usedTail + s.q.drainCount outLen, taken := s.taken ++ s.q.drained outLen }

def fetch : State :=
  { s with
    pending := s.pending ++ [(s.fetched, s.q.availRing (Ring.slot queueSize s.seen))]
    seen := s.seen + 1
    fetched := s.fetched + 1 }

/-- The device returns the chain `x`, the `i`-th that it holds. -/
def complete (i : Nat) (x : Nat × UInt16) (len : UInt32) : State :=
  { s with
    q.usedRing := Function.update s.q.usedRing (Ring.slot queueSize s.q.usedIdx) ⟨x.2.toUInt32, len⟩
    q.usedIdx := s.q.usedIdx + 1
    pending := s.pending.eraseIdx i
    completions := s.completions ++ [(x.1, ⟨x.2.toUInt32, len⟩)] }

def next : Event → Option State
  | .submit request response =>
    if s.pc = .idle ∧ request.length < queueSize then some (s.submit request response) else none
  | .poll =>
    match s.pc with
    | .idle => none
    | .polling head serial rounds tail => some (s.poll head serial rounds tail)
  | .add base len count => if s.pc = .idle then s.add base len count else none
  | .drain outLen => if s.pc = .idle then some (s.drain outLen) else none
  | .fetch => if s.seen ≠ s.q.availIdx then some s.fetch else none
  | .complete i len => s.pending[i]?.map fun x => s.complete i x len

def Step (e : Event) (s' : State) : Prop :=
  s.next e = some s'

/-! ## The property -/

/-- What the caller of a drain sees of a completion. -/
def report (c : Nat × UsedElem) : UInt16 × UInt32 :=
  (c.2.id.toUInt16, c.2.len)

structure Exact (s : State) : Prop where
  /-- a `submit` that returned gave the length of its own request -/
  answered : ∀ a ∈ s.answers, ∃ e, (a.1, e) ∈ s.completions ∧ e.len = a.2
  /-- once the device has completed the request, the next round returns -/
  returns : ∀ head serial rounds tail e, s.pc = .polling head serial rounds tail → (serial, e) ∈ s.completions →
    (s.poll head serial rounds tail).answers = s.answers ++ [(serial, e.len)]
  /-- what was taken are the first completions, each once and in order -/
  inOrder : s.taken <+: s.completions.map Prod.snd
  /-- a drain returns those that follow -/
  drains : ∀ outLen, s.q.drainUsed outLen = ((s.completions.drop s.taken.length).take outLen).map report
  /-- the free-space check does not underflow -/
  space : ∀ base len count, s.q.addEmptyBuffers base len count ≠ none

/-! ## The condition -/

/-- The round finds something, or it is not the last one. -/
def PollInTime (usedIdx : UInt16) : Pc → Prop
  | .idle => True
  | .polling _ _ rounds tail => tail < usedIdx.toNat ∨ rounds + 1 < maxPollRounds

/-- Indices do not wrap; a request is made when all that was made available was taken back, and
buffers are added for those that were drained; the device answers while it is polled. -/
def InTime : Event → Prop
  | .submit _ _ => s.q.usedTail = s.q.availIdx.toNat ∧ s.q.availIdx.toNat + 1 < 2 ^ 16
  | .add _ _ count => s.q.availIdx.toNat - s.q.usedIdx.toNat + count ≤ queueSize →
      s.q.availIdx.toNat + count < 2 ^ 16 ∧ s.q.availIdx.toNat + count ≤ s.q.usedTail + queueSize
  | .poll => PollInTime s.q.usedIdx s.pc
  | _ => True

/-! ## The invariant -/

/-- The used ring as a channel from the device to the driver. -/
def usedChan : Ring.Chan UsedElem queueSize :=
  ⟨s.q.usedRing, s.q.usedIdx, s.q.usedIdx, .ofNat s.taken.length, s.completions.map Prod.snd, s.taken⟩

/-- A request is out: it is the only chain, and wherever it is it has the head that is polled for. -/
structure Polling (s : State) (head serial tail : Nat) : Prop where
  tail : tail = serial
  taken : s.taken.length = serial
  made : s.made = serial + 1
  head_lt : head < queueSize
  earlier : ∀ c ∈ s.completions.take serial, c.1 < serial
  offered : s.fetched = serial → s.q.availRing (Fin.ofNat queueSize serial) = .ofNat head
  pending : ∀ x ∈ s.pending, x = (serial, .ofNat head)
  answer : ∀ c, s.completions[serial]? = some c → c.1 = serial ∧ c.2.id.toNat = head

structure Inv (s : State) : Prop where
  used : Ring.Sound s.usedChan s.completions.length
  tail : s.q.usedTail = s.taken.length
  avail : s.q.availIdx = .ofNat s.made
  small : s.made < 2 ^ 16
  seen : s.seen = .ofNat s.fetched
  held : s.pending.length + s.completions.length = s.fetched
  fetched : s.fetched ≤ s.made
  room : s.made ≤ s.taken.length + queueSize
  head : s.q.descHead < queueSize
  pendingSerial : ∀ x ∈ s.pending, x.1 < s.fetched
  serial : ∀ c ∈ s.completions, c.1 < s.fetched
  answered : ∀ a ∈ s.answers, ∃ e, (a.1, e) ∈ s.completions ∧ e.len = a.2
  polling : ∀ head serial rounds tail, s.pc = .polling head serial rounds tail → s.Polling head serial tail

variable {s} {s' : State}

namespace Inv

theorem taken_le (h : Inv s) : s.taken.length ≤ s.completions.length :=
  h.used.taken

theorem avail_toNat (h : Inv s) : s.q.availIdx.toNat = s.made := by
  rw [h.avail, UInt16.toNat_ofNat_of_lt' h.small]

theorem completions_le (h : Inv s) : s.completions.length ≤ s.made :=
  Nat.le_trans (Nat.le_of_add_left_le (Nat.le_of_eq h.held)) h.fetched

theorem used_toNat (h : Inv s) : s.q.usedIdx.toNat = s.completions.length := by
  have hidx : s.q.usedIdx = .ofNat s.completions.length := h.used.idx
  rw [hidx, UInt16.toNat_ofNat_of_lt' (Nat.lt_of_le_of_lt h.completions_le h.small)]

theorem start : Inv start where
  used := Ring.sound_empty _
  tail := rfl
  avail := rfl
  small := by decide
  seen := rfl
  held := rfl
  fetched := Nat.le_refl 0
  room := Nat.zero_le _
  head := by decide
  pendingSerial _ hx := absurd hx not_mem_nil
  serial _ hc := absurd hc not_mem_nil
  answered _ ha := absurd ha not_mem_nil
  polling _ _ _ _ hpc := by cases hpc

section

variable (h : Inv s)

include h

theorem all_taken (hall : s.taken.length = s.made) :
    s.pending = [] ∧ s.completions.length = s.made ∧ s.fetched = s.made := by
  have htaken := h.taken_le
  have hheld := h.held
  have hfetched := h.fetched
  exact ⟨length_eq_zero_iff.mp (by omega), by omega, by omega⟩

/-- Nothing is out: every chain was completed and taken. -/
theorem submit (hguard : s.InTime (.submit request response)) :
    Inv (s.submit request response) := by
  obtain ⟨hall, hlt⟩ := hguard
  rw [h.avail_toNat] at hall hlt
  have htail := h.tail
  obtain ⟨hpending, hcompletions, -⟩ := h.all_taken (htail.symm.trans hall)
  exact {
    h with
    avail := by
      show s.q.availIdx + 1 = .ofNat (s.made + 1)
      rw [h.avail, Ring.counter_succ]
    small := hlt
    fetched := Nat.le_succ_of_le h.fetched
    room := by
      show s.made + 1 ≤ s.taken.length + 64
      omega
    head := Nat.mod_lt _ (by decide)
    polling := by
      intro head serial rounds tail hpc
      cases hpc
      exact {
        tail := hall
        taken := htail.symm.trans hall
        made := rfl
        head_lt := h.head
        earlier := fun c hc => Nat.lt_of_lt_of_le (h.serial c (mem_of_mem_take hc)) h.fetched
        offered := by
          intro _
          show Function.update s.q.availRing (Ring.slot queueSize s.q.availIdx) _ _ = _
          rw [h.avail, Ring.slot_ofNat (by decide), Function.update_self]
        pending := by
          show ∀ x ∈ s.pending, _
          rw [hpending]
          exact fun x hx => absurd hx not_mem_nil
        answer := by
          intro c hc
          have hc : s.completions[s.made]? = some c := hc
          rw [getElem?_eq_none (by omega)] at hc
          cases hc } }

theorem fetch (hne : s.seen ≠ s.q.availIdx) : Inv s.fetch := by
  have hlt : s.fetched < s.made := by
    refine Nat.lt_of_le_of_ne h.fetched fun heq => hne ?_
    rw [h.seen, h.avail, heq]
  have hheld := h.held
  have htaken := h.taken_le
  exact {
    h with
    seen := by
      show s.seen + 1 = .ofNat (s.fetched + 1)
      rw [h.seen, Ring.counter_succ]
    held := by
      show (s.pending ++ [_]).length + s.completions.length = s.fetched + 1
      rw [length_append, length_singleton]
      omega
    fetched := hlt
    pendingSerial := forall_mem_append.mpr
      ⟨fun x hx => Nat.lt_succ_of_lt (h.pendingSerial x hx), forall_mem_singleton.mpr (Nat.lt_succ_self _)⟩
    serial := fun c hc => Nat.lt_succ_of_lt (h.serial c hc)
    polling := by
      intro head serial rounds tail hpc
      have hp := h.polling head serial rounds tail hpc
      have hmade := hp.made
      have htk := hp.taken
      have hserial : s.fetched = serial := by omega
      exact {
        hp with
        offered := fun hf => absurd (show s.fetched + 1 = serial from hf) (by omega)
        pending := by
          refine forall_mem_append.mpr ⟨hp.pending, forall_mem_singleton.mpr ?_⟩
          rw [h.seen, Ring.slot_ofNat (by decide), hserial, hp.offered hserial] } }

/-- The device puts a chain into the slot of its index. -/
theorem complete {i : Nat} {x : Nat × UInt16} (len : UInt32) (hx : s.pending[i]? = some x) :
    Inv (s.complete i x len) := by
  have hi := (List.getElem?_eq_some_iff.mp hx).1
  have hmem := mem_of_getElem? hx
  have hheld := h.held
  have htaken := h.taken_le
  have hfetched := h.fetched
  have hroom := h.room
  have hlen : s.usedChan.sent.length = s.completions.length := length_map _
  have hchan : (s.complete i x len).usedChan = (s.usedChan.write ⟨x.2.toUInt32, len⟩).publish := by
    rw [usedChan, State.complete, map_append]
    rfl
  have hfree : s.usedChan.sent.length < s.taken.length + queueSize := by omega
  exact {
    h with
    used := by
      rw [hchan, show (s.complete i x len).completions.length = _ from length_append]
      exact (h.used.write (by decide) hlen.symm hfree _).publish (by
        show _ < (_ ++ [_]).length
        rw [length_append, hlen]
        exact Nat.lt_succ_self _)
    held := by
      show (s.pending.eraseIdx i).length + (s.completions ++ [_]).length = s.fetched
      rw [length_eraseIdx_of_lt hi, length_append, length_singleton]
      omega
    pendingSerial := fun y hy => h.pendingSerial y (mem_of_mem_eraseIdx hy)
    serial := forall_mem_append.mpr ⟨h.serial, forall_mem_singleton.mpr (h.pendingSerial x hmem)⟩
    answered := by
      intro a ha
      obtain ⟨e, he, heq⟩ := h.answered a ha
      exact ⟨e, mem_append_left _ he, heq⟩
    polling := by
      intro head serial rounds tail hpc
      have hp := h.polling head serial rounds tail hpc
      have hmade := hp.made
      have htk := hp.taken
      have hserial : s.completions.length = serial := by omega
      exact {
        hp with
        earlier := by
          show ∀ c ∈ (s.completions ++ [(x.1, UsedElem.mk x.2.toUInt32 len)]).take serial, c.1 < serial
          rw [take_append_of_le_length (Nat.le_of_eq hserial.symm)]
          exact hp.earlier
        pending := fun y hy => hp.pending y (mem_of_mem_eraseIdx hy)
        answer := by
          intro c hc
          have hc : (s.completions ++ [(x.1, UsedElem.mk x.2.toUInt32 len)])[serial]? = some c := hc
          rw [← hserial, getElem?_concat_length] at hc
          cases hc
          rw [hp.pending x hmem]
          refine ⟨rfl, ?_⟩
          show (UInt16.ofNat head).toUInt32.toNat = head
          rw [UInt16.toNat_toUInt32, UInt16.toNat_ofNat_of_lt' (Nat.lt_trans hp.head_lt (by decide))] } }

/-- The used ring holds the answer to the request that is polled for. -/
theorem poll_found {head serial rounds tail : Nat} {c : Nat × UsedElem}
    (hp : s.Polling head serial tail) (hc : s.completions[serial]? = some c) :
    s.poll head serial rounds tail =
      { s with
        q.usedTail := serial + 1
        pc := .idle
        taken := s.taken ++ [c.2]
        answers := s.answers ++ [(serial, c.2.len)] } := by
  have hlt := (List.getElem?_eq_some_iff.mp hc).1
  have hle := h.completions_le
  have hmade := hp.made
  have hslot : s.q.usedRing (Fin.ofNat queueSize serial) = c.2 := by
    refine h.used.kept serial c.2 (Nat.le_of_eq hp.taken) ?_
    show (s.completions.map Prod.snd)[serial]? = some c.2
    rw [getElem?_map, hc]
    rfl
  have hcount : s.q.usedIdx.toNat - tail = 1 := by
    rw [h.used_toNat, hp.tail]
    omega
  have hscan : VirtQueue.scan s.q.usedRing head 1 tail = (some c.2, serial + 1) := by
    rw [VirtQueue.scan, hp.tail, hslot]
    exact if_pos (hp.answer c hc).2
  rw [State.poll, hcount, hscan]

theorem poll {head serial rounds tail : Nat} (hpc : s.pc = .polling head serial rounds tail)
    (hguard : s.InTime .poll) : Inv (s.poll head serial rounds tail) := by
  have hp := h.polling head serial rounds tail hpc
  have htaken := h.taken_le
  have htk := hp.taken
  have hle := h.completions_le
  have hmade := hp.made
  rcases Nat.lt_or_ge serial s.completions.length with hlt | hge
  · obtain ⟨⟨n, elem⟩, hc⟩ : ∃ c, s.completions[serial]? = some c := ⟨_, getElem?_eq_getElem hlt⟩
    obtain rfl : n = serial := (hp.answer _ hc).1
    have hlen : s.completions.length = n + 1 := by omega
    have hgot : (s.taken ++ [elem]).length = n + 1 := by
      rw [length_append, length_singleton, htk]
    have hprefix : s.taken ++ [elem] <+: s.completions.map Prod.snd := by
      refine Ring.prefix_concat h.used.inOrder ?_
      rw [htk, getElem?_map, hc]
      rfl
    rw [h.poll_found hp hc]
    exact {
      h with
      used := h.used.advance hprefix (by rw [hgot]; exact Nat.le_succ_of_le (Nat.le_of_eq htk))
        (Nat.le_of_eq (hgot.trans hlen.symm))
      tail := hgot.symm
      room := by
        show s.made ≤ (s.taken ++ [elem]).length + queueSize
        omega
      answered := forall_mem_append.mpr
        ⟨h.answered, forall_mem_singleton.mpr ⟨elem, mem_of_getElem? hc, rfl⟩⟩
      polling := fun _ _ _ _ hidle => by cases hidle }
  · have hlen : s.completions.length = serial := by omega
    have hrounds : ¬ maxPollRounds ≤ rounds + 1 := by
      rw [InTime, hpc, PollInTime, h.used_toNat, hp.tail] at hguard
      omega
    have hcount : s.q.usedIdx.toNat - tail = 0 := by
      rw [h.used_toNat, hp.tail]
      omega
    rw [State.poll, hcount, VirtQueue.scan]
    simp only [hrounds, if_false]
    refine { h with polling := fun head' serial' rounds' tail' heq => ?_ }
    cases heq
    exact { hp with }

theorem add {base len count : Nat} (hpc : s.pc = .idle) (hguard : s.InTime (.add base len count))
    (hs : s.add base len count = some s') : Inv s' := by
  obtain ⟨r, hr, rfl⟩ := Option.map_eq_some_iff.mp hs
  rw [VirtQueue.addEmptyBuffers] at hr
  split at hr
  · cases hr
  · split at hr
    · cases hr
      exact { h with }
    · rename_i hfree
      cases hr
      obtain ⟨hsmall, hroom⟩ := hguard (Nat.le_of_not_lt hfree)
      rw [h.avail_toNat] at hsmall hroom
      exact {
        h with
        avail := by
          show UInt16.ofNat (s.q.availIdx.toNat + count) = _
          rw [h.avail_toNat]
        small := hsmall
        fetched := Nat.le_add_right_of_le h.fetched
        room := by
          rw [h.tail] at hroom
          exact hroom
        head := Nat.mod_lt _ (by decide)
        polling := fun _ _ _ _ heq => by cases hpc.symm.trans heq }

/-- What a drain reads are the completions that follow. -/
theorem drained_eq (outLen : Nat) :
    s.q.drained outLen = ((s.completions.map Prod.snd).drop s.taken.length).take outLen := by
  have htaken := h.taken_le
  have hlen : (s.completions.map Prod.snd).length = s.completions.length := length_map _
  have hcount : s.q.drainCount outLen = min outLen (s.completions.length - s.taken.length) := by
    rw [VirtQueue.drainCount, h.used_toNat, h.tail]
  have hslots : (List.range (s.q.drainCount outLen)).map
      (fun i => s.q.usedRing (Fin.ofNat queueSize (s.taken.length + i))) =
      ((s.completions.map Prod.snd).drop s.taken.length).take (s.q.drainCount outLen) := by
    refine h.used.slots_from ?_
    show s.taken.length + s.q.drainCount outLen ≤ (s.completions.map Prod.snd).length
    omega
  rw [VirtQueue.drained, h.tail, hslots, hcount]
  -- to take more than there is, is to take all
  have hall : ((s.completions.map Prod.snd).drop s.taken.length).length ≤ s.completions.length - s.taken.length := by
    rw [length_drop, hlen]
  rw [← take_take, take_of_length_le hall]

theorem drain (hpc : s.pc = .idle) (outLen : Nat) : Inv (s.drain outLen) := by
  have hall : s.taken ++ s.q.drained outLen = (s.completions.map Prod.snd).take (s.taken.length + outLen) := by
    have htaken : s.taken = (s.completions.map Prod.snd).take s.taken.length :=
      prefix_iff_eq_take.mp h.used.inOrder
    rw [take_add, ← htaken, h.drained_eq]
  have hprefix : s.taken ++ s.q.drained outLen <+: s.completions.map Prod.snd := by
    rw [hall]
    exact take_prefix _ _
  have hpub : (s.taken ++ s.q.drained outLen).length ≤ s.completions.length := by
    have := hprefix.length_le
    rwa [length_map] at this
  have hlen : (s.taken ++ s.q.drained outLen).length = s.taken.length + s.q.drainCount outLen := by
    rw [length_append, VirtQueue.drained, length_map, length_range]
  have hle : s.taken.length ≤ (s.taken ++ s.q.drained outLen).length := by
    rw [hlen]
    exact Nat.le_add_right _ _
  exact {
    h with
    used := h.used.advance hprefix hle hpub
    tail := by
      show s.q.usedTail + s.q.drainCount outLen = (s.taken ++ s.q.drained outLen).length
      rw [hlen, h.tail]
    room := Nat.le_trans h.room (Nat.add_le_add_right hle queueSize)
    polling := fun _ _ _ _ heq => by cases hpc.symm.trans heq }

theorem step {e : Event} (hguard : s.InTime e) (hstep : Step s e s') : Inv s' := by
  cases e with
  | submit request response =>
    obtain ⟨-, ⟨⟩⟩ := Option.ite_none_right_eq_some.mp hstep
    exact h.submit hguard
  | poll =>
    rw [Step, next] at hstep
    split at hstep
    · cases hstep
    · rename_i head serial rounds tail hpc
      cases hstep
      exact h.poll hpc hguard
  | add base len count =>
    obtain ⟨hpc, hs⟩ := Option.ite_none_right_eq_some.mp hstep
    exact h.add hpc hguard hs
  | drain outLen =>
    obtain ⟨hpc, ⟨⟩⟩ := Option.ite_none_right_eq_some.mp hstep
    exact h.drain hpc outLen
  | fetch =>
    obtain ⟨hne, ⟨⟩⟩ := Option.ite_none_right_eq_some.mp hstep
    exact h.fetch hne
  | complete i len =>
    obtain ⟨x, hx, rfl⟩ := Option.map_eq_some_iff.mp hstep
    exact h.complete len hx

theorem exact : s.Exact where
  answered := h.answered
  returns head serial rounds tail e hpc he := by
    have hp := h.polling head serial rounds tail hpc
    obtain ⟨k, hk⟩ := mem_iff_getElem?.mp he
    have hlt := (List.getElem?_eq_some_iff.mp hk).1
    have hle := h.completions_le
    have hmade := hp.made
    -- the earlier completions have smaller serial numbers
    obtain rfl : k = serial := by
      by_contra hne
      have hmem : (serial, e) ∈ s.completions.take serial :=
        mem_of_getElem? ((getElem?_take_of_lt (by omega)).trans hk)
      exact Nat.lt_irrefl serial (hp.earlier _ hmem)
    rw [h.poll_found hp hk]
  inOrder := h.used.inOrder
  drains outLen := by
    rw [VirtQueue.drainUsed, h.drained_eq, ← map_drop, ← map_take, List.map_map]
    rfl
  space base len count hnone := by
    rw [VirtQueue.addEmptyBuffers, h.avail_toNat, h.used_toNat,
      if_neg (Nat.not_lt.mpr h.completions_le)] at hnone
    split at hnone <;> cases hnone

end

theorem of_run {es : List Event} (hrun : Run (guarded Step InTime) State.start es s) : Inv s :=
  hrun.invariant_guarded (fun _ _ _ hi hg hs => hi.step hg hs) Inv.start

end Inv

/-- As long as the steps are in time, the driver is exact. -/
theorem exact_of_inTime (es : List Event) (s : State) (h : Run (guarded Step InTime) start es s) :
    s.Exact :=
  (Inv.of_run h).exact

/-! ## Runs -/

instance (usedIdx : UInt16) : (pc : Pc) → Decidable (PollInTime usedIdx pc)
  | .idle => inferInstanceAs (Decidable True)
  | .polling _ _ rounds tail => inferInstanceAs (Decidable (tail < usedIdx.toNat ∨ rounds + 1 < maxPollRounds))

instance (s : State) : (e : Event) → Decidable (s.InTime e)
  | .submit _ _ => inferInstanceAs (Decidable (_ ∧ _))
  | .add _ _ _ => inferInstanceAs (Decidable (_ → _ ∧ _))
  | .poll => inferInstanceAs (Decidable (PollInTime s.q.usedIdx s.pc))
  | .drain _ | .fetch | .complete _ _ => inferInstanceAs (Decidable True)

/-- A request that is answered at the second round, and two event buffers that come back in the
other order. -/
theorem exact_of_inTime_request : ∃ s, Run (guarded Step InTime) start
      [.submit [(0x1000, 24)] (0x2000, 24), .poll, .fetch, .complete 0 24, .poll,
        .add 0x3000 8 2, .fetch, .fetch, .complete 1 8, .complete 0 6, .drain 8] s ∧
    s.answers = [(0, 24)] ∧ s.taken = [⟨0, 24⟩, ⟨3, 8⟩, ⟨2, 6⟩] ∧ s.Exact := by
  refine Run.exists_and (Run.exists_of_guarded next InTime id _ _
    (fun s => s.answers = [(0, 24)] ∧ s.taken = [⟨0, 24⟩, ⟨3, 8⟩, ⟨2, 6⟩]) (by decide +kernel)) ?_
  rintro s hrun ⟨hanswers, htaken⟩
  exact ⟨hanswers, htaken, exact_of_inTime _ s hrun⟩

/-- Everything was taken back: one buffer is added, filled and returned. -/
theorem Inv.offer (h : Inv s) (hpc : s.pc = .idle) (hall : s.taken.length = s.made) :
    ∃ s₁ s₂ s₃, Step s (.add 0 8 1) s₁ ∧ Step s₁ .fetch s₂ ∧ Step s₂ (.complete 0 8) s₃ ∧ s₃.pc = .idle ∧
      s₃.taken = s.taken ∧ s₃.made = s.made + 1 ∧ s₃.completions.length = s.completions.length + 1 ∧
      s₃.q.usedIdx = s.q.usedIdx + 1 := by
  obtain ⟨hpending, hcompletions, hfetched⟩ := h.all_taken hall
  let s₁ : State := { s with q := s.q.addBuffers 0 8 1, made := s.made + 1 }
  have hadd : Step s (.add 0 8 1) s₁ := by
    rw [Step, next, if_pos hpc, State.add, VirtQueue.addEmptyBuffers, h.avail_toNat, h.used_toNat,
      if_neg (by omega), if_neg (show ¬ 64 < s.made - s.completions.length + 1 by omega)]
    rfl
  have hfetch : Step s₁ .fetch s₁.fetch := by
    refine if_pos ?_
    show s.seen ≠ .ofNat (s.q.availIdx.toNat + 1)
    rw [h.seen, h.avail_toNat, hfetched]
    intro heq
    exact absurd (Ring.counter_inj (Nat.le_succ s.made) (by omega) heq) (by omega)
  have hx : s₁.fetch.pending[0]? = some (s.fetched, s₁.q.availRing (Ring.slot queueSize s.seen)) := by
    show (s.pending ++ [_])[0]? = _
    rw [hpending]
    rfl
  have hcomplete : Step s₁.fetch (.complete 0 8)
      (s₁.fetch.complete 0 (s.fetched, s₁.q.availRing (Ring.slot queueSize s.seen)) 8) := by
    rw [Step, next, hx]
    rfl
  exact ⟨s₁, s₁.fetch, _, hadd, hfetch, hcomplete, hpc, rfl, rfl, length_append, rfl⟩

/-- Up to 2 ^ 16 - 1 buffers can go round. -/
theorem exists_round (n : Nat) (hn : n < 2 ^ 16) :
    ∃ es s, Run (guarded Step InTime) start es s ∧ s.pc = .idle ∧ s.made = n ∧ s.taken.length = n := by
  induction n with
  | zero => exact ⟨[], start, .nil start, rfl, rfl, rfl⟩
  | succ n ih =>
    obtain ⟨es, s, hrun, hpc, hmade, htaken⟩ := ih (by omega)
    have hi := Inv.of_run hrun
    have htail := hi.tail
    obtain ⟨s₁, s₂, s₃, h₁, h₂, h₃, hpc₃, htaken₃, hmade₃, hlen₃, -⟩ := hi.offer hpc (htaken.trans hmade.symm)
    have hguard : s.InTime (.add 0 8 1) := by
      intro _
      rw [hi.avail_toNat]
      show _ ∧ _ ≤ s.q.usedTail + 64
      omega
    have hrun₃ : Run (guarded Step InTime) start (es ++ [.add 0 8 1, .fetch, .complete 0 8]) s₃ :=
      hrun.append (.cons ⟨hguard, h₁⟩ (.cons ⟨trivial, h₂⟩ (.single ⟨trivial, h₃⟩)))
    have hi₃ := Inv.of_run hrun₃
    have hdrain : guarded Step InTime s₃ (.drain 1) (s₃.drain 1) := ⟨trivial, if_pos hpc₃⟩
    have hcompletions := (hi.all_taken (htaken.trans hmade.symm)).2.1.trans hmade
    have hcount : s₃.q.drainCount 1 = 1 := by
      rw [VirtQueue.drainCount, hi₃.used_toNat, hi₃.tail, hlen₃, htaken₃, htaken, hcompletions,
        Nat.add_sub_cancel_left]
      rfl
    refine ⟨_, s₃.drain 1, hrun₃.append (.single hdrain), hpc₃, hmade₃.trans (by rw [hmade]), ?_⟩
    show (s₃.taken ++ s₃.q.drained 1).length = n + 1
    rw [length_append, VirtQueue.drained, length_map, length_range, hcount, htaken₃, htaken]

/-- After 2 ^ 16 buffers the index of the device is 0 again, and a drain finds nothing. -/
theorem wrapped_index_stalls : ¬ ∀ es s, Run Step start es s → s.Exact := by
  intro hall
  obtain ⟨es, s, hrun, hpc, hmade, htaken⟩ := exists_round 65535 (by decide)
  have hi := Inv.of_run hrun
  obtain ⟨s₁, s₂, s₃, h₁, h₂, h₃, -, htaken₃, -, hlen₃, hidx₃⟩ := hi.offer hpc (htaken.trans hmade.symm)
  have hrun₃ : Run Step start (es ++ [.add 0 8 1, .fetch, .complete 0 8]) s₃ :=
    (hrun.mono fun _ _ _ h => h.2).append (.cons h₁ (.cons h₂ (.single h₃)))
  have hcompletions := (hi.all_taken (htaken.trans hmade.symm)).2.1.trans hmade
  have hwrapped : s₃.q.usedIdx = 0 := by
    have hidx : s.q.usedIdx = .ofNat s.completions.length := hi.used.idx
    rw [hidx₃, hidx, hcompletions]
    decide
  have hnothing : s₃.q.drainUsed 1 = [] := by
    rw [VirtQueue.drainUsed, VirtQueue.drained, VirtQueue.drainCount, hwrapped, UInt16.toNat_zero, Nat.zero_sub]
    rfl
  have hone := congrArg List.length ((hall _ s₃ hrun₃).drains 1)
  rw [hnothing, htaken₃, length_map, length_take, length_drop, hlen₃] at hone
  simp only [length_nil] at hone
  omega

end State

end Tanix.Display.Queue
