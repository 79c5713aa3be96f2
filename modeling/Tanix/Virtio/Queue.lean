/-
# `Tanix.Virtio.Queue` — the split virtqueue between the kernel and a guest

`Virtqueue` of `kernel/src/virtio/mod.rs`.  Kernel and guest share a descriptor table and two
rings of 16 slots, and each keeps two 16-bit counters of its own.  The two sides run at the
same time, so a step of the machine is one access to the shared region:

    kernel   `post_avail`         fill the descriptor, write the slot, publish the index
             `poll_used`          read the index, and if it moved the slot, and again
    guest    `guest_poll_avail`   read the index once, then slot after slot up to it
             `guest_put_used`     write the slot, publish the index

Each side's accesses happen in program order.  The four lists record what was posted, seen,
returned and reported since the beginning.

Both directions are the ring of `Tanix.Lib.Ring`: `availChan` with the kernel writing,
`usedChan` with the guest writing.
-/
import Tanix.Lib.Ring
import Tanix.Lib.Run

namespace Tanix.Virtio

open List LTS

/-- `QUEUE_SIZE` -/
abbrev queueSize : Nat := 16

/-- `BUF_SIZE` -/
abbrev bufSize : Nat := 256

structure Descriptor where
  addr : UInt64
  len : UInt32
  flags : UInt16
  next : UInt16
  deriving DecidableEq, Repr

structure UsedElem where
  id : UInt32
  len : UInt32
  deriving DecidableEq, Repr

/-- The counters that one side keeps for itself. -/
structure Virtqueue where
  availIdx : UInt16
  lastUsedIdx : UInt16
  deriving DecidableEq, Repr

/-- Where the kernel is. -/
inductive KernelPc
  | idle
  | filled (d : Fin queueSize)  -- `post_avail`, before the slot
  | slotted  -- `post_avail`, before the index
  | polling  -- `poll_used`, before the index
  | reading  -- `poll_used`, before the slot
  deriving DecidableEq, Repr

/-- Where the guest is. -/
inductive GuestPc
  | idle
  | polling (availIdx : UInt16)  -- `guest_poll_avail`, with the index it has read
  | slotted  -- `guest_put_used`, before the index
  deriving DecidableEq, Repr

structure State where
  bufs : UInt64
  desc : Fin queueSize → Descriptor
  availIdx : UInt16
  availRing : Fin queueSize → UInt16
  usedIdx : UInt16
  usedRing : Fin queueSize → UsedElem
  kernel : Virtqueue
  kernelPc : KernelPc
  guest : Virtqueue
  guestPc : GuestPc
  posted : List UInt16
  seen : List UInt16
  returned : List (UInt16 × UInt32)
  reported : List (UInt16 × UInt32)

inductive Event
  | post (d : Fin queueSize) (len : UInt32)
  | postSlot
  | postIdx
  | poll
  | pollIdx
  | pollSlot
  | guestPoll
  | guestTurn
  | guestDone
  | putUsed (d : UInt16) (written : UInt32)
  | putIdx
  deriving DecidableEq, Repr

namespace State

/-- A queue set up by `init_queue`, with both sides at zero. -/
def start (bufs : UInt64) (desc : Fin queueSize → Descriptor) (availRing : Fin queueSize → UInt16)
    (usedRing : Fin queueSize → UsedElem) : State :=
  { bufs, desc, availIdx := 0, availRing, usedIdx := 0, usedRing, kernel := ⟨0, 0⟩
    kernelPc := .idle, guest := ⟨0, 0⟩, guestPc := .idle, posted := [], seen := [], returned := []
    reported := [] }

/-! ## `post_avail` -/

variable (s : State)

def postFill (d : Fin queueSize) (len : UInt32) : State :=
  let addr := s.bufs + UInt64.ofNat (d * bufSize)
  { s with desc := Function.update s.desc d ⟨addr, len, 0, 0⟩, kernelPc := .filled d }

def postSlot (d : Fin queueSize) : State :=
  { s with
    availRing := Function.update s.availRing (Ring.slot queueSize s.kernel.availIdx) (.ofNat d)
    posted := s.posted ++ [.ofNat d]
    kernelPc := .slotted }

def postIdx : State :=
  { s with
    kernel := { s.kernel with availIdx := s.kernel.availIdx + 1 }
    availIdx := s.kernel.availIdx + 1
    kernelPc := .idle }

/-! ## `poll_used` -/

def pollIdx : State :=
  { s with kernelPc := if s.usedIdx = s.kernel.lastUsedIdx then .idle else .reading }

def pollSlot : State :=
  let elem := s.usedRing (Ring.slot queueSize s.kernel.lastUsedIdx)
  { s with
    reported := s.reported ++ [(elem.id.toUInt16, elem.len)]
    kernel := { s.kernel with lastUsedIdx := s.kernel.lastUsedIdx + 1 }
    kernelPc := .polling }

/-! ## `guest_poll_avail` -/

def guestTurn : State :=
  { s with
    seen := s.seen ++ [s.availRing (Ring.slot queueSize s.guest.availIdx)]
    guest := { s.guest with availIdx := s.guest.availIdx + 1 } }

/-! ## `guest_put_used` -/

def putSlot (d : UInt16) (written : UInt32) : State :=
  { s with
    usedRing := Function.update s.usedRing (Ring.slot queueSize s.guest.lastUsedIdx)
      ⟨d.toUInt32, written⟩
    returned := s.returned ++ [(d, written)]
    guestPc := .slotted }

def putIdx : State :=
  { s with
    guest := { s.guest with lastUsedIdx := s.guest.lastUsedIdx + 1 }
    usedIdx := s.guest.lastUsedIdx + 1
    guestPc := .idle }

end State

/-- One access to the shared region. -/
inductive Step : State → Event → State → Prop
  | post {s : State} {d : Fin queueSize} {len : UInt32} (h : s.kernelPc = .idle) :
      Step s (.post d len) (s.postFill d len)
  | postSlot {s : State} {d : Fin queueSize} (h : s.kernelPc = .filled d) :
      Step s .postSlot (s.postSlot d)
  | postIdx {s : State} (h : s.kernelPc = .slotted) : Step s .postIdx s.postIdx
  | poll {s : State} (h : s.kernelPc = .idle) : Step s .poll { s with kernelPc := .polling }
  | pollIdx {s : State} (h : s.kernelPc = .polling) : Step s .pollIdx s.pollIdx
  | pollSlot {s : State} (h : s.kernelPc = .reading) : Step s .pollSlot s.pollSlot
  | guestPoll {s : State} (h : s.guestPc = .idle) :
      Step s .guestPoll { s with guestPc := .polling s.availIdx }
  | guestTurn {s : State} {v : UInt16} (h : s.guestPc = .polling v) (hne : s.guest.availIdx ≠ v) :
      Step s .guestTurn s.guestTurn
  | guestDone {s : State} {v : UInt16} (h : s.guestPc = .polling v) (he : s.guest.availIdx = v) :
      Step s .guestDone { s with guestPc := .idle }
  | putUsed {s : State} {d : UInt16} {written : UInt32} (h : s.guestPc = .idle) :
      Step s (.putUsed d written) (s.putSlot d written)
  | putIdx {s : State} (h : s.guestPc = .slotted) : Step s .putIdx s.putIdx

/-- At most 16 descriptors are outstanding, and the guest returns no more than it was given. -/
def Allowed (s : State) : Event → Prop
  | .post _ _ => s.posted.length < s.reported.length + queueSize
  | .putUsed _ _ => s.returned.length < s.seen.length
  | _ => True

namespace State

variable (s : State)

/-- The descriptors whose index is out. -/
def published : List UInt16 :=
  if s.kernelPc = .slotted then s.posted.dropLast else s.posted

def answered : List (UInt16 × UInt32) :=
  if s.guestPc = .slotted then s.returned.dropLast else s.returned

/-- The kernel writes, the guest reads. -/
def availChan : Ring.Chan UInt16 queueSize :=
  ⟨s.availRing, s.availIdx, s.kernel.availIdx, s.guest.availIdx, s.posted, s.seen⟩

/-- The guest writes, the kernel reads. -/
def usedChan : Ring.Chan (UInt16 × UInt32) queueSize :=
  ⟨fun i => ((s.usedRing i).id.toUInt16, (s.usedRing i).len), s.usedIdx, s.guest.lastUsedIdx,
    s.kernel.lastUsedIdx, s.returned, s.reported⟩

structure Inv (s : State) : Prop where
  avail : Ring.Sound s.availChan s.published.length
  used : Ring.Sound s.usedChan s.answered.length
  outstanding : s.posted.length ≤ s.reported.length + queueSize
  held : s.returned.length ≤ s.seen.length
  filled : ∀ d, s.kernelPc = .filled d → s.posted.length < s.reported.length + queueSize
  slotted : s.kernelPc = .slotted → s.posted ≠ []
  reading : s.kernelPc = .reading → s.reported.length < s.answered.length
  returning : s.guestPc = .slotted → s.returned ≠ []
  polling : ∀ v, s.guestPc = .polling v →
    ∃ lim, v = UInt16.ofNat lim ∧ s.seen.length ≤ lim ∧ lim ≤ s.published.length

variable {s} {s' : State}

theorem published_of_ne (h : s.kernelPc ≠ .slotted) : s.published = s.posted :=
  if_neg h

theorem length_unpublished {α : Type} {c : Prop} [Decidable c] {l : List α} (h : c) (hne : l ≠ []) :
    (if c then l.dropLast else l).length + 1 = l.length := by
  have hpos := length_pos_iff.mpr hne
  rw [if_pos h, length_dropLast]
  omega

theorem prefix_unpublished {α : Type} (c : Prop) [Decidable c] (l : List α) :
    (if c then l.dropLast else l) <+: l := by
  split
  · exact dropLast_prefix l
  · exact prefix_refl l

theorem answered_of_ne (h : s.guestPc ≠ .slotted) : s.answered = s.returned :=
  if_neg h

variable (s)

theorem published_posted : s.published <+: s.posted :=
  prefix_unpublished ..

/-! ## The channels under the steps -/

theorem putSlot_usedChan (d : UInt16) (written : UInt32) :
    (s.putSlot d written).usedChan = s.usedChan.write (d, written) := by
  have hslots := Function.comp_update (fun e : UsedElem => (e.id.toUInt16, e.len)) s.usedRing
    (Ring.slot queueSize s.guest.lastUsedIdx) ⟨d.toUInt32, written⟩
  rw [UInt16.toUInt16_toUInt32] at hslots
  exact congrArg (Ring.Chan.mk · _ _ _ _ _) hslots

/-! ## The invariant -/

theorem Inv.start (bufs : UInt64) (desc : Fin queueSize → Descriptor)
    (availRing : Fin queueSize → UInt16) (usedRing : Fin queueSize → UsedElem) :
    Inv (start bufs desc availRing usedRing) where
  avail := Ring.sound_empty availRing
  used := Ring.sound_empty _
  outstanding := Nat.zero_le _
  held := Nat.le_refl 0
  filled _ h := nomatch h
  slotted h := nomatch h
  reading h := nomatch h
  returning h := nomatch h
  polling _ h := nomatch h

/-- 16 slots divide the range of a counter. -/
theorem queueSize_dvd : queueSize ∣ 2 ^ 16 := by
  decide

variable {s}

section Kernel

variable (hi : Inv s)

include hi

/-- The kernel turns to something else, with no slot written whose index is not out. -/
theorem Inv.turn {p : KernelPc} (h : s.kernelPc ≠ .slotted) (hpc : p ≠ .slotted)
    (hfilled : ∀ d, p = .filled d → s.posted.length < s.reported.length + queueSize)
    (hreading : p = .reading → s.reported.length < s.answered.length) :
    Inv { s with kernelPc := p } := by
  have hpub : s.published = published { s with kernelPc := p } := by
    rw [published_of_ne h, published_of_ne hpc]
  refine ⟨?_, hi.used, hi.outstanding, hi.held, hfilled, fun hc => absurd hc hpc, hreading,
    hi.returning, ?_⟩
  · rw [← hpub]
    exact hi.avail
  · rw [← hpub]
    exact hi.polling

theorem Inv.postSlot {d : Fin queueSize} (h : s.kernelPc = .filled d) : Inv (s.postSlot d) := by
  have hpub := published_of_ne (s := s) (by rw [h]; nofun)
  have hpub' : (s.postSlot d).published = s.posted := by
    show (s.posted ++ [_]).dropLast = _
    exact dropLast_concat
  have hroom := hi.filled d h
  have hreported : s.reported.length ≤ s.returned.length := hi.used.inOrder.length_le
  have hheld := hi.held
  refine ⟨?_, hi.used, ?_, hi.held, nofun, ?_, nofun, hi.returning, ?_⟩
  · rw [hpub']
    have hs := hi.avail
    rw [hpub] at hs
    refine hs.write queueSize_dvd rfl ?_ _
    show s.posted.length < s.seen.length + queueSize
    omega
  · show (s.posted ++ [_]).length ≤ s.reported.length + queueSize
    rw [length_append]
    exact hroom
  · exact fun _ => concat_ne_nil _ _
  · rw [hpub', ← hpub]
    exact hi.polling

theorem Inv.postIdx (h : s.kernelPc = .slotted) : Inv s.postIdx := by
  have hlen : s.published.length + 1 = s.posted.length := length_unpublished h (hi.slotted h)
  have hpub' : s.postIdx.published = s.posted := published_of_ne (by nofun)
  refine ⟨?_, hi.used, hi.outstanding, hi.held, nofun, nofun, nofun, hi.returning, ?_⟩
  · rw [hpub', ← hlen]
    refine hi.avail.publish ?_
    show s.published.length < s.posted.length
    omega
  · intro v hv
    obtain ⟨lim, hl, hseen, hle⟩ := hi.polling v hv
    refine ⟨lim, hl, hseen, ?_⟩
    rw [hpub']
    omega

/-- The index has moved exactly when there is something to report. -/
theorem Inv.usedIdx_eq_iff : s.usedIdx = s.kernel.lastUsedIdx ↔ s.reported.length = s.answered.length :=
  hi.used.idx_eq_iff (by decide)

theorem Inv.pollIdx (h : s.kernelPc = .polling) : Inv s.pollIdx := by
  unfold State.pollIdx
  split
  · exact hi.turn (by rw [h]; nofun) nofun nofun nofun
  · rename_i hne
    refine hi.turn (by rw [h]; nofun) nofun nofun fun _ => ?_
    have hle : s.reported.length ≤ s.answered.length := hi.used.taken
    exact Nat.lt_of_le_of_ne hle fun he => hne (hi.usedIdx_eq_iff.mpr he)

theorem Inv.pollSlot (h : s.kernelPc = .reading) : Inv s.pollSlot := by
  have hpub : s.published = s.pollSlot.published := by
    rw [published_of_ne (by rw [h]; nofun), published_of_ne (by nofun)]
    rfl
  have hgrow : s.reported.length ≤ s.pollSlot.reported.length :=
    (prefix_append _ _).length_le
  refine ⟨?_, ?_, ?_, hi.held, nofun, nofun, nofun, hi.returning, ?_⟩
  · rw [← hpub]
    exact hi.avail
  · exact hi.used.take queueSize_dvd (hi.reading h)
  · exact Nat.le_trans hi.outstanding (Nat.add_le_add_right hgrow _)
  · rw [← hpub]
    exact hi.polling

end Kernel

variable {v : UInt16}

section Guest

variable (hi : Inv s)

include hi

/-- The guest turns to something else, with no slot written whose index is not out. -/
theorem Inv.look {p : GuestPc} (h : s.guestPc ≠ .slotted) (hpc : p ≠ .slotted)
    (hpolling : ∀ v, p = .polling v →
      ∃ lim, v = UInt16.ofNat lim ∧ s.seen.length ≤ lim ∧ lim ≤ s.published.length) :
    Inv { s with guestPc := p } := by
  have hans : s.answered = answered { s with guestPc := p } := by
    rw [answered_of_ne h, answered_of_ne hpc]
  refine { hi with used := ?_, reading := ?_, returning := fun hc => absurd hc hpc, polling := hpolling }
  · rw [← hans]
    exact hi.used
  · rw [← hans]
    exact hi.reading

theorem Inv.guestPoll (h : s.guestPc = .idle) : Inv { s with guestPc := .polling s.availIdx } := by
  refine hi.look (by rw [h]; nofun) nofun ?_
  rintro _ ⟨⟩
  exact ⟨_, hi.avail.idx, hi.avail.taken, Nat.le_refl _⟩

theorem Inv.behind {lim : Nat} (hv : v = UInt16.ofNat lim) (hseen : s.seen.length ≤ lim)
    (hlim : lim ≤ s.published.length) : s.guest.availIdx ≠ v ↔ s.seen.length < lim := by
  rw [hv]
  exact hi.avail.behind (by decide) lim hseen hlim

theorem Inv.guestTurn (h : s.guestPc = .polling v) (hne : s.guest.availIdx ≠ v) :
    Inv s.guestTurn := by
  obtain ⟨lim, hv, hseen, hlim⟩ := hi.polling v h
  have hlt := (hi.behind hv hseen hlim).mp hne
  have hlen : s.guestTurn.seen.length = s.seen.length + 1 := by
    show (s.seen ++ [_]).length = _
    rw [length_append]
    rfl
  refine ⟨?_, hi.used, hi.outstanding, ?_, hi.filled, hi.slotted, hi.reading, hi.returning, ?_⟩
  · exact hi.avail.take queueSize_dvd (Nat.lt_of_lt_of_le hlt hlim)
  · rw [hlen]
    exact Nat.le_succ_of_le hi.held
  · intro v' hv'
    have hv' : s.guestPc = .polling v' := hv'
    rw [h] at hv'
    cases hv'
    exact ⟨lim, hv, by omega, hlim⟩

theorem Inv.putSlot {d : UInt16} {written : UInt32} (h : s.guestPc = .idle)
    (hheld : s.returned.length < s.seen.length) : Inv (s.putSlot d written) := by
  have hans := answered_of_ne (s := s) (by rw [h]; nofun)
  have hans' : (s.putSlot d written).answered = s.returned := by
    show (s.returned ++ [_]).dropLast = _
    exact dropLast_concat
  have hseen : s.seen.length ≤ s.posted.length := hi.avail.inOrder.length_le
  have hout := hi.outstanding
  refine ⟨hi.avail, ?_, hi.outstanding, ?_, hi.filled, hi.slotted, ?_, ?_, nofun⟩
  · rw [hans', putSlot_usedChan]
    have hs := hi.used
    rw [hans] at hs
    refine hs.write queueSize_dvd rfl ?_ _
    show s.returned.length < s.reported.length + queueSize
    omega
  · show (s.returned ++ [_]).length ≤ s.seen.length
    rw [length_append]
    exact hheld
  · rw [hans', ← hans]
    exact hi.reading
  · exact fun _ => concat_ne_nil _ _

theorem Inv.putIdx (h : s.guestPc = .slotted) : Inv s.putIdx := by
  have hlen : s.answered.length + 1 = s.returned.length := length_unpublished h (hi.returning h)
  have hans' : s.putIdx.answered = s.returned := answered_of_ne (by nofun)
  refine ⟨hi.avail, ?_, hi.outstanding, hi.held, hi.filled, hi.slotted, ?_, nofun, nofun⟩
  · rw [hans', ← hlen]
    refine hi.used.publish ?_
    show s.answered.length < s.returned.length
    omega
  · intro hr
    have := hi.reading hr
    rw [hans']
    show s.reported.length < s.returned.length
    omega

end Guest

variable {e : Event}

theorem Inv.step (hi : Inv s) (ha : Allowed s e) (h : Step s e s') : Inv s' := by
  cases h with
  | @post d _ h =>
    have ht := hi.turn (p := .filled d) (by rw [h]; nofun) nofun (fun _ _ => ha) nofun
    exact { ht with }
  | postSlot h => exact hi.postSlot h
  | postIdx h => exact hi.postIdx h
  | poll h => exact hi.turn (by rw [h]; nofun) nofun nofun nofun
  | pollIdx h => exact hi.pollIdx h
  | pollSlot h => exact hi.pollSlot h
  | guestPoll h => exact hi.guestPoll h
  | guestTurn h hne => exact hi.guestTurn h hne
  | guestDone h he => exact hi.look (by rw [h]; nofun) nofun nofun
  | putUsed h => exact hi.putSlot h ha
  | putIdx h => exact hi.putIdx h

/-! ## Polls that return -/

theorem posted_step (h : Step s e s') : s.posted <+: s'.posted := by
  cases h with
  | postSlot h => exact prefix_append _ _
  | _ => exact prefix_refl _

theorem seen_step (h : Step s e s') : s.seen.length ≤ s'.seen.length := by
  cases h with
  | guestTurn h hne => exact (prefix_append _ _).length_le
  | _ => exact Nat.le_refl _

theorem published_step (h : Step s e s') : s.published.length ≤ s'.published.length := by
  have hall (hne : s'.kernelPc ≠ .slotted) : s.published.length ≤ s'.published.length := by
    rw [published_of_ne hne]
    exact ((published_posted s).trans (posted_step h)).length_le
  cases h with
  | post | postIdx | poll | pollSlot => exact hall nofun
  | postSlot h =>
    rw [published_of_ne (s := s) (by rw [h]; nofun)]
    show s.posted.length ≤ (s.posted ++ [_]).dropLast.length
    rw [dropLast_concat]
  | pollIdx h =>
    refine hall ?_
    show (if s.usedIdx = s.kernel.lastUsedIdx then KernelPc.idle else .reading) ≠ .slotted
    split <;> nofun
  | guestPoll | guestTurn | guestDone | putUsed | putIdx => exact Nat.le_refl _

/-- The guest is on its way to the first `p` descriptors. -/
def Heads (p : Nat) (s : State) : Prop :=
  ∃ v lim, s.guestPc = .polling v ∧ v = UInt16.ofNat lim ∧ s.seen.length ≤ lim ∧ p ≤ lim ∧
    lim ≤ s.published.length

theorem Heads.step {p : Nat} (hi : Inv s) (hh : Heads p s) (h : Step s e s') :
    if e = .guestDone then p ≤ s'.seen.length else Heads p s' := by
  obtain ⟨v, lim, hpc, hv, hseen, hp, hlim⟩ := hh
  have hpub := Nat.le_trans hlim (published_step h)
  cases h with
  | guestDone h he =>
    rw [hpc] at h
    cases h
    rw [if_pos rfl]
    refine Nat.le_trans hp (Nat.not_lt.mp fun hlt => ?_)
    exact (hi.behind hv hseen hlim).mpr hlt he
  | guestTurn h hne =>
    rw [hpc] at h
    cases h
    have hlt := (hi.behind hv hseen hlim).mp hne
    refine ⟨v, lim, hpc, hv, ?_, hp, hpub⟩
    show (s.seen ++ [_]).length ≤ lim
    rw [length_append]
    exact hlt
  | guestPoll h | putUsed h | putIdx h =>
    rw [hpc] at h
    cases h
  | _ => exact ⟨v, lim, hpc, hv, hseen, hp, hpub⟩

/-- When the poll is over, it has seen them. -/
theorem Heads.run {p : Nat} {es : List Event} (h : Run (guarded Step Allowed) s es s')
    (hi : Inv s) (hh : Heads p s ∨ p ≤ s.seen.length) :
    (Heads p s' ∨ p ≤ s'.seen.length) ∧ (.guestDone ∈ es → p ≤ s'.seen.length) := by
  induction h with
  | nil s => exact ⟨hh, nofun⟩
  | @cons s s₁ s' e es hstep hrun ih =>
    have hi₁ := hi.step hstep.1 hstep.2
    have hstay : p ≤ s₁.seen.length → p ≤ s'.seen.length := by
      intro hle
      refine (ih hi₁ (Or.inr hle)).1.elim ?_ id
      rintro ⟨v, lim, -, -, hseen, -⟩
      exact Nat.le_trans hle (Run.invariant (I := fun t => s₁.seen.length ≤ t.seen.length)
        (fun _ _ _ hI hst => Nat.le_trans hI (seen_step hst.2)) hrun (Nat.le_refl _))
    have hnext : (Heads p s₁ ∨ p ≤ s₁.seen.length) ∧ (e = .guestDone → p ≤ s₁.seen.length) := by
      rcases hh with hh | hle
      · have hs := hh.step hi hstep.2
        split at hs
        · exact ⟨Or.inr hs, fun _ => hs⟩
        · rename_i hne
          exact ⟨Or.inl hs, fun he => absurd he hne⟩
      · have hle' := Nat.le_trans hle (seen_step hstep.2)
        exact ⟨Or.inr hle', fun _ => hle'⟩
    refine ⟨(ih hi₁ hnext.1).1, fun hmem => ?_⟩
    rcases mem_cons.mp hmem with he | hmem
    · exact hstay (hnext.2 he.symm)
    · exact (ih hi₁ hnext.1).2 hmem

/-- In every interleaving the guest sees what was posted and the kernel is told what was returned,
each once and in order; a guest poll that is over has seen all that was out when it began, and when
`poll_used` is over the kernel has been told all that was out. -/
theorem exactly_once {bufs : UInt64} {desc : Fin queueSize → Descriptor}
    {availRing : Fin queueSize → UInt16} {usedRing : Fin queueSize → UsedElem} {es : List Event}
    (h : Run (guarded Step Allowed) (start bufs desc availRing usedRing) es s) :
    s.seen <+: s.posted ∧ s.reported <+: s.returned ∧
    (∀ es' s', Run (guarded Step Allowed) s (.guestPoll :: es') s' → .guestDone ∈ es' →
      s.published <+: s'.seen) ∧
    (∀ s', Step s .pollIdx s' → s'.kernelPc = .idle → s'.reported = s.answered) := by
  have hi : Inv s := h.invariant_guarded (fun _ _ _ hi ha hs => hi.step ha hs) (.start _ _ _ _)
  refine ⟨hi.avail.inOrder, hi.used.inOrder, fun es' s' hrun hdone => ?_, fun s' hstep hpc => ?_⟩
  · cases hrun with
    | @cons _ s₁ _ _ _ hstep hrest =>
      obtain ⟨ha, hstep⟩ := hstep
      have hi₁ := hi.step ha hstep
      have hposted : s.posted <+: s'.posted :=
        (posted_step hstep).trans (hrest.invariant (I := fun t => s₁.posted <+: t.posted)
          (fun _ _ _ hI hst => hI.trans (posted_step hst.2)) (prefix_refl _))
      have hseen : s'.seen <+: s'.posted :=
        (hrest.invariant_guarded (fun _ _ _ hi ha hs => Inv.step hi ha hs) hi₁).avail.inOrder
      have hheads : Heads s.published.length s₁ := by
        cases hstep with
        | guestPoll h => exact ⟨_, _, rfl, hi.avail.idx, hi.avail.taken, Nat.le_refl _, Nat.le_refl _⟩
      have hle := (Heads.run hrest hi₁ (Or.inl hheads)).2 hdone
      exact prefix_of_prefix_length_le ((published_posted s).trans hposted) hseen hle
  · cases hstep with
    | pollIdx h =>
      have hpc : (if s.usedIdx = s.kernel.lastUsedIdx then KernelPc.idle else .reading) = .idle := hpc
      split at hpc
      · rename_i he
        have hlen := hi.usedIdx_eq_iff.mp he
        have hans : s.answered <+: s.returned := prefix_unpublished ..
        have hrep : s.reported <+: s.returned := hi.used.inOrder
        exact (prefix_of_prefix_length_le hrep hans hlen.le).eq_of_length hlen
      · cases hpc

/-! ## Running the steps -/

/-- The allowed step of an event, if there is one. -/
def next (s : State) : Event → Option State
  | .post d len =>
    if s.kernelPc = .idle ∧ s.posted.length < s.reported.length + queueSize then
      some (s.postFill d len)
    else none
  | .postSlot =>
    match s.kernelPc with
    | .filled d => some (s.postSlot d)
    | _ => none
  | .postIdx => if s.kernelPc = .slotted then some s.postIdx else none
  | .poll => if s.kernelPc = .idle then some { s with kernelPc := .polling } else none
  | .pollIdx => if s.kernelPc = .polling then some s.pollIdx else none
  | .pollSlot => if s.kernelPc = .reading then some s.pollSlot else none
  | .guestPoll => if s.guestPc = .idle then some { s with guestPc := .polling s.availIdx } else none
  | .guestTurn =>
    match s.guestPc with
    | .polling v => if s.guest.availIdx ≠ v then some s.guestTurn else none
    | _ => none
  | .guestDone =>
    match s.guestPc with
    | .polling v => if s.guest.availIdx = v then some { s with guestPc := .idle } else none
    | _ => none
  | .putUsed d written =>
    if s.guestPc = .idle ∧ s.returned.length < s.seen.length then some (s.putSlot d written)
    else none
  | .putIdx => if s.guestPc = .slotted then some s.putIdx else none

theorem next_step (h : s.next e = some s') : guarded Step Allowed s e s' := by
  cases e with
  | post d len =>
    obtain ⟨⟨hpc, hroom⟩, ⟨⟩⟩ := Option.ite_none_right_eq_some.mp h
    exact ⟨hroom, .post hpc⟩
  | postSlot =>
    rw [next] at h
    split at h
    · rename_i d hpc
      cases h
      exact ⟨trivial, .postSlot hpc⟩
    · cases h
  | postIdx | poll | pollIdx | pollSlot | guestPoll | putIdx =>
    obtain ⟨hpc, ⟨⟩⟩ := Option.ite_none_right_eq_some.mp h
    refine ⟨trivial, ?_⟩
    constructor
    exact hpc
  | guestTurn =>
    rw [next] at h
    split at h
    · rename_i v hpc
      obtain ⟨hne, ⟨⟩⟩ := Option.ite_none_right_eq_some.mp h
      exact ⟨trivial, .guestTurn hpc hne⟩
    · cases h
  | guestDone =>
    rw [next] at h
    split at h
    · rename_i v hpc
      obtain ⟨he, ⟨⟩⟩ := Option.ite_none_right_eq_some.mp h
      exact ⟨trivial, .guestDone hpc he⟩
    · cases h
  | putUsed d written =>
    obtain ⟨⟨hpc, hheld⟩, ⟨⟩⟩ := Option.ite_none_right_eq_some.mp h
    exact ⟨hheld, .putUsed hpc⟩

/-- Descriptor 3 goes to the guest and comes back. -/
def oneMessage : List Event :=
  [.post 3 20, .postSlot, .postIdx, .guestPoll, .guestTurn, .guestDone, .putUsed 3 8, .putIdx, .poll,
    .pollIdx, .pollSlot]

theorem exactly_once_oneMessage : ∃ s, Run (guarded Step Allowed)
    (start 0 (fun _ => ⟨0, 0, 0, 0⟩) (fun _ => 0) fun _ => ⟨0, 0⟩) oneMessage s ∧
    s.posted = [3] ∧ s.seen = [3] ∧ s.seen <+: s.posted ∧
    s.returned = [(3, 8)] ∧ s.reported = [(3, 8)] ∧ s.reported <+: s.returned := by
  refine Run.exists_and (Run.exists_of_exec next next_step _ _
    (fun s => s.posted = [3] ∧ s.seen = [3] ∧ s.returned = [(3, 8)] ∧ s.reported = [(3, 8)])
    (by decide +kernel)) ?_
  rintro s hrun ⟨hposted, hseen, hreturned, hreported⟩
  obtain ⟨hsp, hrr, -⟩ := exactly_once hrun
  exact ⟨hposted, hseen, hsp, hreturned, hreported, hrr⟩

end State

end Tanix.Virtio
