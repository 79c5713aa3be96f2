/-
# `Tanix.Drv.Blk` — the virtio-blk driver and a device that takes its time

`VirtioBlk::read` and `write` of `libtanix-drv/src/blk.rs`.  There is one header, one data
buffer and one status byte, and every request is a chain of the same three descriptors.

    driver   fill the header, set the status to 0xFF, publish the chain
             sleep until an interrupt, look at the used ring, again and again, give up
             an element of the used ring: read the status, and for a read copy the data
    device   fetch a chain (the header as it is then), move the data, write the status,
             put the chain into the used ring; each at any time, for every chain it holds

A request that timed out stays with the device, and nothing tells its completion from that of
the next request.  `successes_right` is about the runs in which a request is issued only when
the device is done with all earlier ones.
-/
import Tanix.Drv.Vring
import Tanix.Lib.Memory
import Tanix.Lib.Run

namespace Tanix.Drv.Blk

open Memory (Mem load store)
open List LTS

/-- `SECTOR_SIZE` -/
abbrev sectorSize : Nat := 512

/-- `MAX_SECTORS` -/
abbrev maxSectors : Nat := 8

/-- `WAIT_ROUNDS` -/
abbrev waitRounds : Nat := 2000000

/-- `REQ_TYPE_IN` -/
def reqTypeIn : UInt32 := 0

/-- `REQ_TYPE_OUT` -/
def reqTypeOut : UInt32 := 1

def slotHeader : UInt16 := 0
def slotData : UInt16 := 1
def slotStatus : UInt16 := 2

/-- `S_OK` -/
def sOk : UInt8 := 0

structure BlkReq where
  typ : UInt32
  sector : Nat
  deriving DecidableEq, Repr

/-- A call that has passed the length check; `data` is what a write stores. -/
structure Request where
  write : Bool
  sector : Nat
  n : Nat
  data : List UInt8
  deriving DecidableEq, Repr

namespace Request

def len (r : Request) : Nat :=
  r.n * sectorSize

def header (r : Request) : BlkReq :=
  ⟨if r.write then reqTypeOut else reqTypeIn, r.sector⟩

end Request

/-- How far the device is with a chain. -/
inductive Phase
  | fetched
  | moved (st : UInt8)
  | reported
  | returned
  deriving DecidableEq, Repr

/-- The device is done with the buffers of the chain. -/
def Phase.Done : Phase → Prop
  | .reported | .returned => True
  | .fetched | .moved _ => False

instance : ∀ p, Decidable (Phase.Done p)
  | .reported | .returned => isTrue trivial
  | .fetched | .moved _ => isFalse id

/-- A chain as the device has read it. -/
structure Work where
  head : UInt16
  req : BlkReq
  len : Nat
  phase : Phase
  deriving DecidableEq, Repr

/-- Where `rw` is. -/
inductive Pc
  | idle
  | waiting (r : Request)
  | polling (r : Request) (rounds : Nat)
  | popped (r : Request) (id : UInt16)
  | copying (r : Request)
  deriving DecidableEq, Repr

/-- A call that returned `true`: the caller's buffer, and what is on the disk. -/
structure Success where
  request : Request
  buffer : List UInt8
  onDisk : List UInt8
  deriving DecidableEq, Repr

structure State where
  q : Vring
  header : BlkReq
  status : UInt8
  data : Mem
  media : Mem
  capacity : Nat
  /-- the device's position in the avail ring, and every chain it has fetched -/
  tail : UInt16
  works : List Work
  pc : Pc
  successes : List Success

inductive Event
  | read (sector n blen : Nat)
  | write (sector n : Nat) (buf : List UInt8)
  | wake
  | pop
  | check
  | copy
  | fetch
  | transfer (i : Nat)
  | fail (i : Nat) (st : UInt8) (bytes : List UInt8)
  | report (i : Nat)
  | complete (i : Nat) (len : UInt32)
  deriving DecidableEq, Repr

namespace State

def start (capacity : Nat) (media data : Mem) : State :=
  { q := Vring.new, header := ⟨0, 0⟩, status := 0, data, media, capacity, tail := 0, works := []
    pc := .idle, successes := [] }

/-! ## The driver -/

/-- The check that `read` and `write` begin with. -/
def Valid (n blen : Nat) : Prop :=
  n ≠ 0 ∧ n ≤ maxSectors ∧ n * sectorSize ≤ blen

instance (n blen : Nat) : Decidable (Valid n blen) :=
  inferInstanceAs (Decidable (_ ∧ _))

variable (s : State) (r : Request)

/-- `rw` up to the notification. -/
def issue : State :=
  let q := s.q.writeDesc slotHeader ⟨0, 16, descNext, slotData⟩
  let q := q.writeDesc slotData ⟨0, r.len, if r.write then descNext else descNext ||| descWrite, slotStatus⟩
  let q := q.writeDesc slotStatus ⟨0, 1, descWrite, 0⟩
  { s with header := r.header, status := 0xFF, q := q.publish slotHeader, pc := .waiting r }

def read (sector n blen : Nat) : State :=
  if Valid n blen then s.issue ⟨false, sector, n, []⟩ else s

def write (sector n : Nat) (buf : List UInt8) : State :=
  if Valid n buf.length then
    let bytes := buf.take (n * sectorSize)
    issue { s with data := store s.data 0 bytes } ⟨true, sector, n, bytes⟩
  else s

/-- A look at the used ring: before the loop (`rounds = 0`) or in it. -/
def pop (rounds : Nat) : State :=
  match s.q.popUsed with
  | (some (id, _), q) => { s with q, pc := .popped r id }
  | (none, _) => { s with pc := if waitRounds ≤ rounds then .idle else .polling r (rounds + 1) }

/-- The sectors of a request, as the disk has them. -/
def onDisk : List UInt8 :=
  load s.media (r.sector * sectorSize) r.len

def check (id : UInt16) : State :=
  if id = slotHeader ∧ s.status = sOk then
    if r.write then
      { s with pc := .idle, successes := s.successes ++ [⟨r, r.data, s.onDisk r⟩] }
    else { s with pc := .copying r }
  else { s with pc := .idle }

def copy : State :=
  { s with pc := .idle, successes := s.successes ++ [⟨r, load s.data 0 r.len, s.onDisk r⟩] }

/-! ## The device -/

/-- The device follows the chain to its data descriptor and reads the header. -/
def fetch : State :=
  let head := s.q.headAt s.tail
  let data := s.q.desc (s.q.desc head.toNat).next.toNat
  { s with tail := s.tail + 1, works := s.works ++ [⟨head, s.header, data.len, .fetched⟩] }

def setPhase (i : Nat) (w : Work) (phase : Phase) : State :=
  { s with works := s.works.set i { w with phase } }

/-- The bytes of a read go to the data buffer, those of a write to the disk. -/
def move (w : Work) (bytes : List UInt8) : State :=
  if w.req.typ = reqTypeIn then { s with data := store s.data 0 bytes }
  else { s with media := store s.media (w.req.sector * sectorSize) bytes }

/-- What a request that succeeds moves. -/
def payload (w : Work) : List UInt8 :=
  if w.req.typ = reqTypeIn then load s.media (w.req.sector * sectorSize) w.len
  else load s.data 0 w.len

def next : Event → Option State
  | .read sector n blen => if s.pc = .idle then some (s.read sector n blen) else none
  | .write sector n buf => if s.pc = .idle then some (s.write sector n buf) else none
  | .wake =>
    match s.pc with
    | .waiting r => some { s with pc := .polling r 0 }
    | _ => none
  | .pop =>
    match s.pc with
    | .polling r rounds => some (s.pop r rounds)
    | _ => none
  | .check =>
    match s.pc with
    | .popped r id => some (s.check r id)
    | _ => none
  | .copy =>
    match s.pc with
    | .copying r => some (s.copy r)
    | _ => none
  | .fetch => if s.q.availIdx ≠ s.tail then some s.fetch else none
  | .transfer i =>
    match s.works[i]? with
    | some w =>
      if w.phase = .fetched ∧ w.req.sector * sectorSize + w.len ≤ s.capacity * sectorSize then
        some ((s.move w (s.payload w)).setPhase i w (.moved sOk))
      else none
    | none => none
  | .fail i st bytes =>
    match s.works[i]? with
    | some w =>
      if w.phase = .fetched ∧ st ≠ sOk ∧ bytes.length ≤ w.len then
        some ((s.move w bytes).setPhase i w (.moved st))
      else none
    | none => none
  | .report i =>
    match s.works[i]? with
    | some w =>
      match w.phase with
      | .moved st => some ({ s with status := st }.setPhase i w .reported)
      | _ => none
    | none => none
  | .complete i len =>
    match s.works[i]? with
    | some w =>
      if w.phase = .reported then
        some ({ s with q := s.q.putUsed w.head len }.setPhase i w .returned)
      else none
    | none => none

def Step (e : Event) (s' : State) : Prop :=
  s.next e = some s'

/-- A read has the sectors' contents, and a write is on the disk. -/
def Right : Prop :=
  ∀ c ∈ s.successes, c.buffer = c.onDisk

/-- Nothing that was published is still to be fetched, moved or reported. -/
def Done (s : State) : Prop :=
  s.q.availIdx = s.tail ∧ ∀ w ∈ s.works, w.phase.Done

instance : Decidable s.Done :=
  inferInstanceAs (Decidable (_ ∧ _))

/-- A request is issued when the device is done with all earlier ones. -/
def Quiet : Event → Prop
  | .read _ n blen => Valid n blen → s.Done
  | .write _ n buf => Valid n buf.length → s.Done
  | _ => True

instance : ∀ e, Decidable (s.Quiet e)
  | .read _ n blen => inferInstanceAs (Decidable (Valid n blen → s.Done))
  | .write _ n buf => inferInstanceAs (Decidable (Valid n buf.length → s.Done))
  | .wake | .pop | .check | .copy | .fetch | .transfer _ | .fail _ _ _ | .report _ | .complete _ _ =>
    isTrue trivial

/-! ## The request that is being served -/

/-- What a request is for. -/
def Effect : Prop :=
  if r.write then s.onDisk r = r.data else load s.data 0 r.len = s.onDisk r

/-- The data of a write is in the buffer. -/
def Loaded : Prop :=
  r.write = true → load s.data 0 r.len = r.data

/-- The device is done with every chain but one. -/
def DoneBut (i : Nat) : Prop :=
  ∀ j w, s.works[j]? = some w → j ≠ i → w.phase.Done

/-- The one request that the device is not done with, if there is one, is `r`, and the status
says so until it is. -/
inductive Serving (s : State) (r : Request) : Prop
  | offered (havail : s.q.availIdx = s.tail + 1) (hhead : s.q.headAt s.tail = slotHeader)
      (hnext : (s.q.desc slotHeader.toNat).next = slotData)
      (hlen : (s.q.desc slotData.toNat).len = r.len) (hheader : s.header = r.header)
      (hdone : ∀ w ∈ s.works, w.phase.Done) (hst : s.status = 0xFF) (hdata : s.Loaded r)
  | fetched (havail : s.q.availIdx = s.tail) (i : Nat)
      (hwork : s.works[i]? = some ⟨slotHeader, r.header, r.len, .fetched⟩) (hbut : s.DoneBut i)
      (hst : s.status = 0xFF) (hdata : s.Loaded r)
  | moved (havail : s.q.availIdx = s.tail) (i : Nat) (st : UInt8)
      (hwork : s.works[i]? = some ⟨slotHeader, r.header, r.len, .moved st⟩) (hbut : s.DoneBut i)
      (hst : s.status = 0xFF) (heff : st = sOk → s.Effect r)
  | finished (hdone : s.Done) (heff : s.status = sOk → s.Effect r)

variable {s} {r}

theorem header_typ (r : Request) : r.header.typ = reqTypeIn ↔ r.write = false := by
  show (if r.write = true then reqTypeOut else reqTypeIn) = reqTypeIn ↔ _
  cases r.write <;> decide

/-- A status of zero is written for this request only. -/
theorem Serving.effect (h : s.Serving r) (hst : s.status = sOk) : s.Done ∧ s.Effect r := by
  cases h with
  | offered _ _ _ _ _ _ h0 => rw [h0] at hst; cases hst
  | fetched _ _ _ _ h0 => rw [h0] at hst; cases hst
  | moved _ _ _ _ _ h0 => rw [h0] at hst; cases hst
  | finished hdone heff => exact ⟨hdone, heff hst⟩

/-- The driver looks at the used ring. -/
theorem Serving.look (h : s.Serving r) (pc : Pc) : Serving { s with pc } r ∧
    Serving { s with q := s.q.advance, pc } r := by
  cases h with
  | offered h1 h2 h3 h4 h5 h6 h7 h8 =>
    exact ⟨.offered h1 h2 h3 h4 h5 h6 h7 h8, .offered h1 h2 h3 h4 h5 h6 h7 h8⟩
  | fetched h1 i h2 h3 h4 h5 => exact ⟨.fetched h1 i h2 h3 h4 h5, .fetched h1 i h2 h3 h4 h5⟩
  | moved h1 i st h2 h3 h4 h5 => exact ⟨.moved h1 i st h2 h3 h4 h5, .moved h1 i st h2 h3 h4 h5⟩
  | finished h1 h2 => exact ⟨.finished h1 h2, .finished h1 h2⟩

theorem issue_serving (hdone : s.Done) (hdata : s.Loaded r) : (s.issue r).Serving r := by
  obtain ⟨havail, hall⟩ := hdone
  refine .offered ?_ ?_ rfl rfl rfl hall rfl hdata
  · show s.q.availIdx + 1 = s.tail + 1
    rw [havail]
  · show Function.update s.q.availRing (Ring.slot queueSize s.q.availIdx) slotHeader
      (Ring.slot queueSize s.tail) = slotHeader
    rw [havail, Function.update_self]

/-! ## The device's steps -/

section Device

variable {i : Nat} {w : Work}

theorem getElem?_setPhase (s : State) (w' : Work) (phase : Phase) (j : Nat) (h : s.works[i]? = some w) :
    (s.setPhase i w' phase).works[j]? = if j = i then some { w' with phase } else s.works[j]? := by
  show (s.works.set i _)[j]? = _
  rw [getElem?_set]
  have hlt := (List.getElem?_eq_some_iff.mp h).1
  by_cases hj : i = j
  · rw [if_pos hj, if_pos hj.symm, if_pos hlt]
  · rw [if_neg hj, if_neg (Ne.symm hj)]

theorem mem_of_doneBut (h : s.works[i]? = some w) (hbut : s.DoneBut i) {phase : Phase} (hphase : phase.Done) :
    ∀ w' ∈ (s.setPhase i w phase).works, w'.phase.Done := by
  intro w' hw'
  obtain ⟨j, hj⟩ := mem_iff_getElem?.mp hw'
  rw [getElem?_setPhase s w phase j h] at hj
  split at hj
  · cases hj
    exact hphase
  · rename_i hne
    exact hbut j w' hj hne

/-- The chain that the device works on is the current one. -/
theorem DoneBut.eq (hbut : s.DoneBut i) {j : Nat} (h : s.works[j]? = some w) (hphase : ¬ w.phase.Done) :
    j = i := by
  by_contra hne
  exact hphase (hbut j w h hne)

theorem Serving.fetch (h : s.Serving r) (hne : s.q.availIdx ≠ s.tail) : s.fetch.Serving r := by
  cases h with
  | offered havail hhead hnext hlen hheader hdone hst hdata =>
    have hwork : s.fetch.works = s.works ++ [⟨slotHeader, r.header, r.len, .fetched⟩] := by
      show s.works ++ [_] = _
      rw [hhead, hnext, hlen, hheader]
    refine .fetched havail s.works.length ?_ ?_ hst hdata
    · rw [hwork, getElem?_concat_length]
    · intro j w' hw' hj
      rw [hwork] at hw'
      have hlt := (List.getElem?_eq_some_iff.mp hw').1
      rw [length_append, length_singleton] at hlt
      rw [getElem?_append_left (by omega)] at hw'
      exact hdone w' (mem_of_getElem? hw')
  | fetched havail => exact absurd havail hne
  | moved havail => exact absurd havail hne
  | finished hdone => exact absurd hdone.1 hne

theorem move_eq (s : State) (w : Work) (bytes : List UInt8) :
    ∃ data media, s.move w bytes = { s with data, media } := by
  rw [State.move]
  split
  · exact ⟨_, _, rfl⟩
  · exact ⟨_, _, rfl⟩

theorem move_effect {w : Work} (hreq : w.req = r.header) (hlen : w.len = r.len) (hdata : s.Loaded r) :
    (s.move w (s.payload w)).Effect r := by
  rw [State.move, State.payload, Effect, hreq, hlen]
  rcases hwr : r.write with _ | _
  · -- a read: the disk's contents are in the buffer
    have htyp : r.header.typ = reqTypeIn := (header_typ r).mpr hwr
    rw [if_pos htyp, if_pos htyp, if_neg (by decide)]
    exact Memory.load_store_self s.data 0 (Memory.load_length s.media _ _)
  · -- a write: the buffer's contents are on the disk
    have htyp : r.header.typ ≠ reqTypeIn := fun he => absurd (hwr.symm.trans ((header_typ r).mp he)) (by decide)
    rw [if_neg htyp, if_neg htyp, if_pos rfl]
    exact (Memory.load_store_self s.media _ (Memory.load_length s.data _ _)).trans (hdata hwr)

/-- Only the current request's data is moved. -/
theorem Serving.move (h : s.Serving r) (hw : s.works[i]? = some w) (hphase : w.phase = .fetched)
    (st : UInt8) (bytes : List UInt8) (hbytes : st = sOk → bytes = s.payload w) :
    ((s.move w bytes).setPhase i w (.moved st)).Serving r := by
  have hopen : ¬ w.phase.Done := by
    rw [hphase]
    exact id
  cases h with
  | offered _ _ _ _ _ hdone => exact absurd (hdone w (mem_of_getElem? hw)) hopen
  | finished hdone => exact absurd (hdone.2 w (mem_of_getElem? hw)) hopen
  | moved _ j _ hwork hbut =>
    obtain rfl := hbut.eq hw hopen
    rw [hw] at hwork
    cases hwork
    cases hphase
  | fetched havail j hwork hbut hst hdata =>
    obtain rfl := hbut.eq hw hopen
    rw [hw] at hwork
    cases hwork
    have heff : st = sOk → (s.move ⟨slotHeader, r.header, r.len, .fetched⟩ bytes).Effect r :=
      fun hok => hbytes hok ▸ move_effect rfl rfl hdata
    obtain ⟨data, media, hmove⟩ := move_eq s ⟨slotHeader, r.header, r.len, .fetched⟩ bytes
    rw [hmove] at heff ⊢
    refine .moved havail i st ((getElem?_setPhase s _ _ i hw).trans (if_pos rfl)) (fun j w' hw' hne => ?_) hst heff
    exact hbut j w' (((getElem?_setPhase s _ _ j hw).trans (if_neg hne)).symm.trans hw') hne

theorem Serving.report (h : s.Serving r) (hw : s.works[i]? = some w) {st : UInt8}
    (hphase : w.phase = .moved st) : ({ s with status := st }.setPhase i w .reported).Serving r := by
  have hopen : ¬ w.phase.Done := by
    rw [hphase]
    exact id
  cases h with
  | offered _ _ _ _ _ hdone => exact absurd (hdone w (mem_of_getElem? hw)) hopen
  | finished hdone => exact absurd (hdone.2 w (mem_of_getElem? hw)) hopen
  | fetched _ j hwork hbut =>
    obtain rfl := hbut.eq hw hopen
    rw [hw] at hwork
    cases hwork
    cases hphase
  | moved havail j st' hwork hbut hst heff =>
    obtain rfl := hbut.eq hw hopen
    rw [hw] at hwork
    cases hwork
    cases hphase
    exact .finished ⟨havail, mem_of_doneBut (s := { s with status := st }) hw hbut trivial⟩ heff

/-- The completion of an earlier chain changes nothing for the current one. -/
theorem Serving.complete (h : s.Serving r) (hw : s.works[i]? = some w) (hphase : w.phase = .reported)
    (len : UInt32) : ({ s with q := s.q.putUsed w.head len }.setPhase i w .returned).Serving r := by
  have hset := fun j => getElem?_setPhase { s with q := s.q.putUsed w.head len } w .returned j hw
  have hall : (∀ w ∈ s.works, w.phase.Done) →
      ∀ w' ∈ ({ s with q := s.q.putUsed w.head len }.setPhase i w .returned).works, w'.phase.Done :=
    fun hdone => mem_of_doneBut (s := { s with q := s.q.putUsed w.head len }) hw
      (fun j w' hj _ => hdone w' (mem_of_getElem? hj)) trivial
  -- a chain that is not done is another one
  have hkeep : ∀ {j v}, s.works[j]? = some v → ¬ v.phase.Done → s.DoneBut j →
      ({ s with q := s.q.putUsed w.head len }.setPhase i w .returned).works[j]? = some v ∧
      ({ s with q := s.q.putUsed w.head len }.setPhase i w .returned).DoneBut j := by
    intro j v hv hopen hbut
    have hne : j ≠ i := by
      rintro rfl
      rw [hw] at hv
      cases hv
      exact hopen (hphase ▸ trivial)
    refine ⟨by rw [hset, if_neg hne]; exact hv, fun k w' hk hkj => ?_⟩
    rw [hset] at hk
    split at hk
    · cases hk
      trivial
    · exact hbut k w' hk hkj
  cases h with
  | offered h1 h2 h3 h4 h5 hdone h7 h8 => exact .offered h1 h2 h3 h4 h5 (hall hdone) h7 h8
  | fetched h1 j hwork hbut h4 h5 =>
    obtain ⟨hv, hb⟩ := hkeep hwork id hbut
    exact .fetched h1 j hv hb h4 h5
  | moved h1 j st hwork hbut h4 h5 =>
    obtain ⟨hv, hb⟩ := hkeep hwork id hbut
    exact .moved h1 j st hv hb h4 h5
  | finished hdone heff => exact .finished ⟨hdone.1, hall hdone.2⟩ heff

end Device

/-! ## Whole runs -/

end State

/-- The request whose completion the driver waits for. -/
def Pc.request : Pc → Option Request
  | .idle | .copying _ => none
  | .waiting r | .polling r _ | .popped r _ => some r

namespace State

structure Inv (s : State) : Prop where
  serving : ∀ r, s.pc.request = some r → s.Serving r
  copying : ∀ r, s.pc = .copying r → s.Done ∧ s.Effect r ∧ r.write = false
  right : s.Right

variable {s s' : State} {r : Request} {i : Nat} {w : Work}

/-- Nothing is asked of a driver that is between two calls. -/
theorem Inv.ofIdle (hpc : s.pc = .idle) (hright : s.Right) : Inv s where
  serving _ h := by
    rw [hpc] at h
    cases h
  copying _ h := by
    rw [hpc] at h
    cases h
  right := hright

theorem Inv.ofServing (hpc : s.pc.request = some r) (hs : s.Serving r) (hright : s.Right) : Inv s where
  serving r' h := by
    rw [hpc] at h
    exact Option.some.inj h ▸ hs
  copying r' h := by
    rw [h] at hpc
    cases hpc
  right := hright

theorem Right.snoc (hright : s.Right) {c : Success} (hc : c.buffer = c.onDisk) :
    ∀ c' ∈ s.successes ++ [c], c'.buffer = c'.onDisk := by
  intro c' hc'
  rcases mem_append.mp hc' with hc' | hc'
  · exact hright c' hc'
  · rw [mem_singleton.mp hc']
    exact hc

section Driver

variable (hi : Inv s)

include hi

theorem Inv.read (sector n blen : Nat) (hpc : s.pc = .idle) (hq : Valid n blen → s.Done) :
    Inv (s.read sector n blen) := by
  rw [State.read]
  split
  · rename_i hv
    exact .ofServing rfl (issue_serving (hq hv) nofun) hi.right
  · exact .ofIdle hpc hi.right

theorem Inv.write (sector n : Nat) (buf : List UInt8) (hpc : s.pc = .idle)
    (hq : Valid n buf.length → s.Done) : Inv (s.write sector n buf) := by
  rw [State.write]
  split
  · rename_i hv
    refine .ofServing rfl (issue_serving (hq hv) fun _ => ?_) hi.right
    exact Memory.load_store_self s.data 0 (length_take_of_le hv.2.2)
  · exact .ofIdle hpc hi.right

theorem Inv.pop (rounds : Nat) (hpc : s.pc = .polling r rounds) : Inv (s.pop r rounds) := by
  have hs := hi.serving r (by rw [hpc]; rfl)
  rw [State.pop, Vring.popUsed]
  by_cases hidx : s.q.usedIdx = s.q.usedTail
  · rw [if_pos hidx]
    show Inv { s with pc := if waitRounds ≤ rounds then .idle else .polling r (rounds + 1) }
    split
    · exact .ofIdle rfl hi.right
    · exact .ofServing rfl (hs.look _).1 hi.right
  · rw [if_neg hidx]
    exact .ofServing rfl (hs.look _).2 hi.right

theorem Inv.check (id : UInt16) (hpc : s.pc = .popped r id) : Inv (s.check r id) := by
  have hs := hi.serving r (by rw [hpc]; rfl)
  rw [State.check]
  split
  · rename_i hok
    obtain ⟨hdone, heff⟩ := hs.effect hok.2
    split
    · rename_i hwr
      rw [Effect, if_pos hwr] at heff
      exact .ofIdle rfl (hi.right.snoc heff.symm)
    · rename_i hwr
      refine ⟨nofun, fun r' h => ?_, hi.right⟩
      cases h
      exact ⟨hdone, heff, Bool.not_eq_true _ ▸ hwr⟩
  · exact .ofIdle rfl hi.right

theorem Inv.copy (hpc : s.pc = .copying r) : Inv (s.copy r) := by
  obtain ⟨-, heff, hwr⟩ := hi.copying r hpc
  rw [Effect, hwr, if_neg (by decide)] at heff
  exact .ofIdle rfl (hi.right.snoc heff)

end Driver

/-- A step of the device: what holds of the current request is kept. -/
theorem Inv.device (hi : Inv s) (hpc : s'.pc = s.pc) (hlog : s'.successes = s.successes)
    (hserving : ∀ r, s.Serving r → s'.Serving r)
    (hdone : ∀ r, s.Done → s.Effect r → s'.Done ∧ s'.Effect r) : Inv s' where
  serving r h := hserving r (hi.serving r (hpc ▸ h))
  copying r h := by
    obtain ⟨hd, he, hwr⟩ := hi.copying r (hpc ▸ h)
    obtain ⟨hd', he'⟩ := hdone r hd he
    exact ⟨hd', he', hwr⟩
  right := by
    rw [Right, hlog]
    exact hi.right

theorem Inv.move (hi : Inv s) (hw : s.works[i]? = some w) (hphase : w.phase = .fetched) (st : UInt8)
    (bytes : List UInt8) (hbytes : st = sOk → bytes = s.payload w) :
    Inv ((s.move w bytes).setPhase i w (.moved st)) := by
  obtain ⟨data, media, hmove⟩ := move_eq s w bytes
  refine hi.device (by rw [hmove]; rfl) (by rw [hmove]; rfl)
    (fun r hs => hs.move hw hphase st bytes hbytes) fun r hd _ => ?_
  exact absurd (hd.2 w (mem_of_getElem? hw)) (by rw [hphase]; exact id)

theorem Inv.step {e : Event} (hi : Inv s) (hg : s.Quiet e) (h : s.Step e s') : Inv s' := by
  cases e with
  | read sector n blen =>
    obtain ⟨hpc, ⟨⟩⟩ := Option.ite_none_right_eq_some.mp h
    exact hi.read sector n blen hpc hg
  | write sector n buf =>
    obtain ⟨hpc, ⟨⟩⟩ := Option.ite_none_right_eq_some.mp h
    exact hi.write sector n buf hpc hg
  | wake =>
    rw [Step, next] at h
    split at h
    · rename_i r hpc
      cases h
      exact .ofServing rfl ((hi.serving r (by rw [hpc]; rfl)).look _).1 hi.right
    · cases h
  | pop =>
    rw [Step, next] at h
    split at h
    · rename_i r rounds hpc
      cases h
      exact hi.pop rounds hpc
    · cases h
  | check =>
    rw [Step, next] at h
    split at h
    · rename_i r id hpc
      cases h
      exact hi.check id hpc
    · cases h
  | copy =>
    rw [Step, next] at h
    split at h
    · rename_i r hpc
      cases h
      exact hi.copy hpc
    · cases h
  | fetch =>
    obtain ⟨hne, ⟨⟩⟩ := Option.ite_none_right_eq_some.mp h
    exact hi.device rfl rfl (fun r hs => hs.fetch hne) fun r hd _ => absurd hd.1 hne
  | transfer i =>
    rw [Step, next] at h
    split at h
    · rename_i w hw
      obtain ⟨⟨hphase, -⟩, h⟩ := Option.ite_none_right_eq_some.mp h
      cases h
      exact hi.move hw hphase sOk _ fun _ => rfl
    · cases h
  | fail i st bytes =>
    rw [Step, next] at h
    split at h
    · rename_i w hw
      obtain ⟨⟨hphase, hst, -⟩, h⟩ := Option.ite_none_right_eq_some.mp h
      cases h
      exact hi.move hw hphase st bytes fun hok => absurd hok hst
    · cases h
  | report i =>
    rw [Step, next] at h
    split at h
    · rename_i w hw
      split at h
      · rename_i st hphase
        cases h
        refine hi.device rfl rfl (fun r hs => hs.report hw hphase) fun r hd _ => ?_
        exact absurd (hd.2 w (mem_of_getElem? hw)) (by rw [hphase]; exact id)
      · cases h
    · cases h
  | complete i len =>
    rw [Step, next] at h
    split at h
    · rename_i w hw
      obtain ⟨hphase, ⟨⟩⟩ := Option.ite_none_right_eq_some.mp h
      refine hi.device rfl rfl (fun r hs => hs.complete hw hphase len) fun r hd he => ⟨⟨hd.1, ?_⟩, he⟩
      exact mem_of_doneBut (s := { s with q := s.q.putUsed w.head len }) hw
        (fun j w' hj _ => hd.2 w' (mem_of_getElem? hj)) trivial
    · cases h

/-- In every run in which a request is issued only when the device is done with all earlier
ones, a read that returns `true` has filled the buffer with the sectors' contents, and a write
that returns `true` is on the disk. -/
theorem successes_right (capacity : Nat) (media data : Mem) (es : List Event) (s : State)
    (h : Run (guarded Step Quiet) (start capacity media data) es s) : s.Right := by
  have hi : Inv s :=
    h.invariant_guarded (fun _ _ _ hi hg hst => hi.step hg hst) (.ofIdle rfl nofun)
  exact hi.right

/-- Sector 0 is full of ones, the others of twos. -/
def twoSectors : Mem :=
  fun a => if a < sectorSize then 1 else 2

/-- One sector is read. -/
theorem successes_right_oneRead :
    ∃ s, Run (guarded Step Quiet) (start 2 twoSectors fun _ => 0)
      [.read 1 1 512, .fetch, .transfer 0, .report 0, .complete 0 513, .wake, .pop, .check, .copy] s ∧
      s.Right ∧ s.successes.length = 1 := by
  refine Run.exists_and (Run.exists_of_guarded next Quiet id _ _ (·.successes.length = 1) (by decide +kernel)) ?_
  intro s hrun hone
  exact ⟨successes_right _ _ _ _ _ hrun, hone⟩

/-- A driver that finds nothing in the used ring gives up in the end. -/
theorem timeout_run (hidx : s.q.usedIdx = s.q.usedTail) (k rounds : Nat) (hk : k + rounds = waitRounds)
    (hpc : s.pc = .polling r rounds) :
    Run Step s (List.replicate (k + 1) .pop) { s with pc := .idle } := by
  have hpop : ∀ (t : State) (n : Nat), t.pc = .polling r n → t.q = s.q →
      t.next .pop = some { t with pc := if waitRounds ≤ n then .idle else .polling r (n + 1) } := by
    intro t n ht hq
    simp only [next, ht, State.pop, Vring.popUsed, hq, if_pos hidx]
  induction k generalizing s rounds with
  | zero =>
    refine .single ((hpop s rounds hpc rfl).trans ?_)
    rw [if_pos (by omega)]
  | succ k ih =>
    have hone := hpop s rounds hpc rfl
    rw [if_neg (by omega)] at hone
    exact .cons hone (ih (s := { s with pc := .polling r (rounds + 1) }) hidx (rounds + 1) (by omega) rfl hpop)

/-- A read of sector 0 times out, and the device finishes it during the read of sector 1. -/
theorem late_completion_returns_wrong_sector :
    ¬ ∀ (capacity : Nat) (media data : Mem) (es : List Event) (s : State),
      Run Step (start capacity media data) es s → s.Right := by
  intro hall
  let before : List Event := [.read 0 1 512, .fetch, .wake]
  let after : List Event :=
    [.read 1 1 512, .transfer 0, .report 0, .complete 0 513, .wake, .pop, .check, .copy]
  let late : Request := ⟨false, 0, 1, []⟩
  obtain ⟨s, hbefore, hpc, hidx, htest⟩ := Run.exists_of_exec next (S := Step) id
    (start 2 twoSectors fun _ => 0) before
    (fun s => s.pc = .polling late 0 ∧ s.q.usedIdx = s.q.usedTail ∧
      (exec next { s with pc := .idle } after).any fun s' =>
        ∃ c ∈ s'.successes, c.buffer.head? ≠ c.onDisk.head?) (by decide +kernel)
  obtain ⟨s', hafter, c, hc, hne⟩ := Run.exists_of_exec next (S := Step) id _ _ _ htest
  have hrun := (hbefore.append (timeout_run hidx waitRounds 0 rfl hpc)).append hafter
  exact hne (congrArg List.head? (hall _ _ _ _ _ hrun c hc))

end State

end Tanix.Drv.Blk
