/-
# `Tanix.Virtio.Replies` — `poll_replies` against a guest that writes what it likes

`VirtioTransport::poll_replies` of `kernel/src/virtio/transport.rs` over the used ring and the
message buffers, which the guest can write at any time.  A step is one access:

    kernel   `post_avail`      one descriptor more is outstanding
             `poll_replies`    read the used index, and if it moved
                               the slot of `last_used_idx`,
                               the first byte of that descriptor's buffer,
                               and for an echo four bytes more; then again
    guest    the used index, a slot of the used ring, or a byte of a buffer, with any value

The descriptor index comes out of the used ring as it is and is multiplied by `BUF_SIZE`, and
the loop goes on until the index it reads equals its own counter.  `contained_of_honest` says
what the guest has to keep to for the kernel to stay inside the buffers and to stop in time.
-/
import Tanix.Virtio.Queue

namespace Tanix.Virtio.Replies

/-- `Opcode` of `virtio/channel.rs` -/
inductive Opcode
  | print
  | echo
  deriving DecidableEq, Repr

/-- `Msg::opcode` -/
def Opcode.ofByte (b : UInt8) : Option Opcode :=
  if b = 0x01 then some .print else if b = 0x02 then some .echo else none

/-- Where `poll_replies` is. -/
inductive Pc
  | idle
  | polling  -- before the used index
  | reading  -- before the slot
  | message (d : UInt16)  -- before the opcode
  | echo (d : UInt16)  -- before the four bytes of the reply
  deriving DecidableEq, Repr

structure State where
  /-- address of the buffer area -/
  bufs : Nat
  mem : Nat → UInt8
  usedIdx : UInt16
  usedRing : Fin queueSize → UsedElem
  vq : Virtqueue
  pc : Pc
  /-- descriptors posted and entries finished since the beginning -/
  posted : Nat
  reported : Nat
  /-- descriptors outstanding when the call began, and entries it has taken up -/
  outstanding : Nat
  processed : Nat
  /-- addresses of the buffer bytes the kernel has read -/
  accesses : List Nat
  replies : List (UInt16 × Opcode × UInt32)

inductive Event
  | post
  | poll
  | pollIdx
  | pollSlot
  | readOpcode
  | readEcho
  | guestIdx (v : UInt16)
  | guestSlot (i : Fin queueSize) (e : UsedElem)
  | guestByte (k : Fin (queueSize * bufSize)) (b : UInt8)
  deriving DecidableEq, Repr

namespace State

/-- A region that `VirtioTransport::new` has set up over zeroed memory. -/
def start (bufs : Nat) (mem : Nat → UInt8) : State :=
  { bufs, mem, usedIdx := 0, usedRing := fun _ => ⟨0, 0⟩, vq := ⟨0, 0⟩, pc := .idle, posted := 0
    reported := 0, outstanding := 0, processed := 0, accesses := [], replies := [] }

variable (s : State)

variable (d : UInt16)

/-- The buffer of a descriptor index, however large. -/
def bufPtr : Nat :=
  s.bufs + d.toNat * bufSize

def post : State :=
  { s with vq := { s.vq with availIdx := s.vq.availIdx + 1 }, posted := s.posted + 1 }

def poll : State :=
  { s with pc := .polling, outstanding := s.posted - s.reported, processed := 0 }

def pollIdx : State :=
  { s with pc := if s.usedIdx = s.vq.lastUsedIdx then .idle else .reading }

def pollSlot : State :=
  let elem := s.usedRing (Ring.slot queueSize s.vq.lastUsedIdx)
  { s with pc := .message elem.id.toUInt16, processed := s.processed + 1 }

/-- The end of a turn of `poll_used`. -/
def finish : State :=
  { s with
    vq := { s.vq with lastUsedIdx := s.vq.lastUsedIdx + 1 }
    reported := s.reported + 1
    pc := .polling }

def readOpcode : State :=
  let s' := { s with accesses := s.accesses ++ [s.bufPtr d] }
  match Opcode.ofByte (s.mem (s.bufPtr d)) with
  | some .echo => { s' with pc := .echo d }
  | some .print => finish { s' with replies := s.replies ++ [(d, .print, 0)] }
  | none => s'.finish

/-- `Msg::read_echo` -/
def echoOf : UInt32 :=
  let b := fun k => (s.mem (s.bufPtr d + k)).toUInt32
  b 4 ||| b 5 <<< 8 ||| b 6 <<< 16 ||| b 7 <<< 24

def readEcho : State :=
  finish { s with
    accesses := s.accesses ++ [4, 5, 6, 7].map (s.bufPtr d + ·)
    replies := s.replies ++ [(d, .echo, s.echoOf d)] }

def next : Event → Option State
  | .post => if s.pc = .idle then some s.post else none
  | .poll => if s.pc = .idle then some s.poll else none
  | .pollIdx => if s.pc = .polling then some s.pollIdx else none
  | .pollSlot => if s.pc = .reading then some s.pollSlot else none
  | .readOpcode =>
    match s.pc with
    | .message d => some (s.readOpcode d)
    | _ => none
  | .readEcho =>
    match s.pc with
    | .echo d => some (s.readEcho d)
    | _ => none
  | .guestIdx v => some { s with usedIdx := v }
  | .guestSlot i e => some { s with usedRing := Function.update s.usedRing i e }
  | .guestByte k b => some { s with mem := Function.update s.mem (s.bufs + k) b }

def Step (e : Event) (s' : State) : Prop :=
  s.next e = some s'

/-- What the guest must not do to the kernel. -/
structure Contained (s : State) : Prop where
  inside : ∀ a ∈ s.accesses, s.bufs ≤ a ∧ a < s.bufs + queueSize * bufSize
  bounded : s.processed ≤ s.outstanding

/-- The guest names one of the 16 descriptors, and moves the used index neither back nor past
what was posted.  The kernel posts only while its 16-bit counters can still tell how many
descriptors are outstanding. -/
def Honest : Event → Prop
  | .post => s.posted < s.reported + 65535
  | .guestIdx v =>
    s.usedIdx - s.vq.lastUsedIdx ≤ v - s.vq.lastUsedIdx ∧
      v - s.vq.lastUsedIdx ≤ s.vq.availIdx - s.vq.lastUsedIdx
  | .guestSlot _ e => e.id.toUInt16.toNat < queueSize
  | _ => True

/-! ## The invariant -/

/-- The descriptor whose entry the kernel has taken up. -/
def Busy : Prop :=
  s.pc = .message d ∨ s.pc = .echo d

structure Inv (s : State) : Prop where
  avail : s.vq.availIdx = .ofNat s.posted
  last : s.vq.lastUsedIdx = .ofNat s.reported
  room : s.posted ≤ s.reported + 65535
  idx : ∃ k, s.usedIdx = .ofNat k ∧ s.reported ≤ k ∧ k ≤ s.posted
  ids : ∀ i, (s.usedRing i).id.toUInt16.toNat < queueSize
  moved : s.pc = .reading → s.reported < s.posted ∧ s.usedIdx ≠ s.vq.lastUsedIdx
  busy : ∀ d, s.Busy d → d.toNat < queueSize ∧ s.usedIdx ≠ s.vq.lastUsedIdx ∧
    s.outstanding + s.reported + 1 = s.posted + s.processed
  counted : s.pc = .polling ∨ s.pc = .reading →
    s.outstanding + s.reported = s.posted + s.processed
  inside : ∀ a ∈ s.accesses, s.bufs ≤ a ∧ a < s.bufs + queueSize * bufSize
  bounded : s.processed ≤ s.outstanding

variable {s} {s' : State}

theorem ofNat_add_sub (v : UInt16) (b : Nat) :
    UInt16.ofNat (b + (v - UInt16.ofNat b).toNat) = v := by
  refine UInt16.toNat_inj.mp ?_
  have := v.toNat_lt
  rw [UInt16.toNat_ofNat', UInt16.toNat_sub, UInt16.toNat_ofNat']
  omega

theorem Inv.start (bufs : Nat) (mem : Nat → UInt8) : Inv (start bufs mem) where
  avail := rfl
  last := rfl
  room := Nat.zero_le _
  idx := ⟨0, rfl, Nat.le_refl 0, Nat.le_refl 0⟩
  ids _ := by show 0 < queueSize; decide
  moved h := nomatch h
  busy := by rintro _ (hd | hd) <;> cases hd
  counted := by rintro (hd | hd) <;> cases hd
  inside _ h := nomatch h
  bounded := Nat.le_refl 0

variable {d}

section Kernel

variable (hi : Inv s)

include hi

theorem Inv.reported_lt (h : s.usedIdx ≠ s.vq.lastUsedIdx) : s.reported < s.posted := by
  obtain ⟨k, hk, hge, hle⟩ := hi.idx
  refine Nat.lt_of_le_of_ne (Nat.le_trans hge hle) fun heq => h ?_
  rw [hk, hi.last, show k = s.reported by omega]

theorem Inv.post (h : s.pc = .idle) (hroom : s.posted < s.reported + 65535) : Inv s.post := by
  obtain ⟨k, hk, hge, hle⟩ := hi.idx
  refine ⟨?_, hi.last, hroom, ⟨k, hk, hge, Nat.le_succ_of_le hle⟩, hi.ids, ?_, ?_, ?_, hi.inside,
    hi.bounded⟩
  · show s.vq.availIdx + 1 = _
    rw [hi.avail, Ring.counter_succ]
    rfl
  · exact fun hpc => nomatch h.symm.trans hpc
  · rintro d (hd | hd) <;> cases h.symm.trans hd
  · rintro (hd | hd) <;> cases h.symm.trans hd

theorem Inv.poll : Inv s.poll := by
  obtain ⟨k, hk, hge, hle⟩ := hi.idx
  refine ⟨hi.avail, hi.last, hi.room, hi.idx, hi.ids, nofun, ?_, ?_, hi.inside, Nat.zero_le _⟩
  · rintro d (hd | hd) <;> cases hd
  · intro _
    show s.posted - s.reported + s.reported = s.posted + 0
    omega

theorem Inv.pollIdx (h : s.pc = .polling) : Inv s.pollIdx := by
  have hcount := hi.counted (.inl h)
  refine ⟨hi.avail, hi.last, hi.room, hi.idx, hi.ids, ?_, ?_, fun _ => hcount, hi.inside, hi.bounded⟩
  · intro hpc
    have hpc : (if s.usedIdx = s.vq.lastUsedIdx then Pc.idle else .reading) = .reading := hpc
    split at hpc
    · cases hpc
    · rename_i hne
      exact ⟨hi.reported_lt hne, hne⟩
  · intro d hd
    have hd : (if s.usedIdx = s.vq.lastUsedIdx then Pc.idle else .reading) = .message d ∨
      (if s.usedIdx = s.vq.lastUsedIdx then Pc.idle else .reading) = .echo d := hd
    split at hd <;> rcases hd with hd | hd <;> cases hd

theorem Inv.pollSlot (h : s.pc = .reading) : Inv s.pollSlot := by
  have hcount := hi.counted (.inr h)
  obtain ⟨hlt, hne⟩ := hi.moved h
  refine ⟨hi.avail, hi.last, hi.room, hi.idx, hi.ids, nofun, ?_, ?_, hi.inside, ?_⟩
  · rintro _ (hd | hd) <;> cases hd
    refine ⟨hi.ids _, hne, ?_⟩
    show s.outstanding + s.reported + 1 = s.posted + (s.processed + 1)
    omega
  · rintro (hd | hd) <;> cases hd
  · show s.processed + 1 ≤ s.outstanding
    omega

/-- A turn ends with one more entry finished. -/
theorem Inv.finish (h : s.Busy d) : Inv s.finish := by
  obtain ⟨-, hne, hcount⟩ := hi.busy d h
  obtain ⟨k, hk, hge, hle⟩ := hi.idx
  have hlt := hi.reported_lt hne
  have hk' : k ≠ s.reported := fun heq => hne (by rw [hk, hi.last, heq])
  refine ⟨hi.avail, ?_, Nat.le_trans hi.room (by show _ ≤ s.reported + 1 + 65535; omega),
    ⟨k, hk, by show s.reported + 1 ≤ k; omega, hle⟩, hi.ids, nofun, ?_, ?_, hi.inside, hi.bounded⟩
  · show s.vq.lastUsedIdx + 1 = _
    rw [hi.last, Ring.counter_succ]
    rfl
  · rintro d (hd | hd) <;> cases hd
  · intro _
    show s.outstanding + (s.reported + 1) = s.posted + s.processed
    omega

/-- Reads inside the buffer of a descriptor, with whatever the kernel notes about them. -/
theorem Inv.access (h : s.Busy d) (ks : List Nat) (hks : ∀ k ∈ ks, k < bufSize)
    (replies : List (UInt16 × Opcode × UInt32)) :
    Inv { s with accesses := s.accesses ++ ks.map (s.bufPtr d + ·), replies } := by
  refine { hi with inside := List.forall_mem_append.mpr ⟨hi.inside, List.forall_mem_map.mpr fun k hk => ?_⟩ }
  have hd := (hi.busy d h).1
  have hk := hks k hk
  simp only [bufPtr, queueSize, bufSize] at hd hk ⊢
  omega

theorem Inv.readOpcode (h : s.pc = .message d) : Inv (s.readOpcode d) := by
  have hread := fun replies => hi.access (.inl h) [0] (by decide) replies
  rw [State.readOpcode]
  split
  · refine ⟨hi.avail, hi.last, hi.room, hi.idx, hi.ids, nofun, ?_, nofun, (hread s.replies).inside,
      hi.bounded⟩
    rintro _ (hd | hd) <;> cases hd
    exact hi.busy d (.inl h)
  · exact (hread _).finish (.inl h)
  · exact (hread s.replies).finish (.inl h)

theorem Inv.readEcho (h : s.pc = .echo d) : Inv (s.readEcho d) :=
  (hi.access (.inr h) [4, 5, 6, 7] (by decide) _).finish (.inr h)

end Kernel

section Guest

variable (hi : Inv s)

include hi

theorem Inv.guestIdx {v : UInt16} (hfwd : s.usedIdx - s.vq.lastUsedIdx ≤ v - s.vq.lastUsedIdx)
    (hpast : v - s.vq.lastUsedIdx ≤ s.vq.availIdx - s.vq.lastUsedIdx) :
    Inv { s with usedIdx := v } := by
  obtain ⟨k, hk, hge, hle⟩ := hi.idx
  have hroom := hi.room
  rw [UInt16.le_iff_toNat_le, hi.last] at hfwd hpast
  rw [hk, Ring.counter_sub hge (by omega)] at hfwd
  rw [hi.avail, Ring.counter_sub (by omega) (by omega)] at hpast
  have hv := ofNat_add_sub v s.reported
  -- an index that had moved has still moved
  have hmoved : s.usedIdx ≠ s.vq.lastUsedIdx → v ≠ s.vq.lastUsedIdx := by
    intro hne heq
    rw [heq, hi.last, Ring.counter_sub (Nat.le_refl _) (by omega)] at hfwd
    exact hne (by rw [hk, hi.last, show k = s.reported by omega])
  refine ⟨hi.avail, hi.last, hroom, ⟨_, hv.symm, Nat.le_add_right _ _, ?_⟩, hi.ids, ?_, ?_,
    hi.counted, hi.inside, hi.bounded⟩
  · show s.reported + (v - .ofNat s.reported).toNat ≤ s.posted
    omega
  · intro hpc
    obtain ⟨hlt, hne⟩ := hi.moved hpc
    exact ⟨hlt, hmoved hne⟩
  · intro d hd
    obtain ⟨hlt, hne, hcount⟩ := hi.busy d hd
    exact ⟨hlt, hmoved hne, hcount⟩

theorem Inv.guestSlot {i : Fin queueSize} {e : UsedElem} (he : e.id.toUInt16.toNat < queueSize) :
    Inv { s with usedRing := Function.update s.usedRing i e } := by
  have hids : ∀ j, (Function.update s.usedRing i e j).id.toUInt16.toNat < queueSize :=
    (Function.forall_update_iff s.usedRing fun _ e => e.id.toUInt16.toNat < queueSize).mpr
      ⟨he, fun j _ => hi.ids j⟩
  exact { hi with ids := hids }

end Guest

theorem Inv.step {e : Event} (hi : Inv s) (hg : s.Honest e) (h : s.Step e s') : Inv s' := by
  cases e with
  | post =>
    obtain ⟨hpc, ⟨⟩⟩ := Option.ite_none_right_eq_some.mp h
    exact hi.post hpc hg
  | poll =>
    obtain ⟨-, ⟨⟩⟩ := Option.ite_none_right_eq_some.mp h
    exact hi.poll
  | pollIdx =>
    obtain ⟨hpc, ⟨⟩⟩ := Option.ite_none_right_eq_some.mp h
    exact hi.pollIdx hpc
  | pollSlot =>
    obtain ⟨hpc, ⟨⟩⟩ := Option.ite_none_right_eq_some.mp h
    exact hi.pollSlot hpc
  | readOpcode =>
    rw [Step, next] at h
    split at h
    · rename_i hpc
      cases h
      exact hi.readOpcode hpc
    · cases h
  | readEcho =>
    rw [Step, next] at h
    split at h
    · rename_i hpc
      cases h
      exact hi.readEcho hpc
    · cases h
  | guestIdx v =>
    cases h
    exact hi.guestIdx hg.1 hg.2
  | guestSlot i e =>
    cases h
    exact hi.guestSlot hg
  | guestByte k b =>
    cases h
    exact { hi with }

/-- As long as the guest keeps to the protocol, the kernel reads message buffers only and takes
up no more entries than were outstanding. -/
theorem contained_of_honest (bufs : Nat) (mem : Nat → UInt8) (es : List Event) (s : State)
    (h : LTS.Run (LTS.guarded Step Honest) (start bufs mem) es s) : s.Contained := by
  have hi : Inv s := h.invariant_guarded (fun _ _ _ hi hg hst => hi.step hg hst) (.start bufs mem)
  exact ⟨hi.inside, hi.bounded⟩

instance (s : State) : ∀ e, Decidable (s.Honest e)
  | .post => inferInstanceAs (Decidable (_ < _))
  | .guestIdx _ => inferInstanceAs (Decidable (_ ∧ _))
  | .guestSlot _ _ => inferInstanceAs (Decidable (_ < _))
  | .poll | .pollIdx | .pollSlot | .readOpcode | .readEcho | .guestByte _ _ =>
    inferInstanceAs (Decidable True)

/-- One echo: the guest answers the descriptor it was given. -/
theorem contained_of_honest_echo :
    ∃ s, LTS.Run (LTS.guarded Step Honest) (start 0x2000 fun _ => 0)
      [.post, .guestByte 0 2, .guestSlot 0 ⟨0, 8⟩, .guestIdx 1, .poll, .pollIdx, .pollSlot,
        .readOpcode, .readEcho, .pollIdx] s ∧ s.Contained ∧ s.processed = 1 ∧ s.accesses.length = 5 := by
  refine LTS.Run.exists_and (LTS.Run.exists_of_guarded next Honest id _ _
    (fun s => s.processed = 1 ∧ s.accesses.length = 5) (by decide +kernel)) ?_
  intro s hrun htest
  exact ⟨contained_of_honest _ _ _ _ hrun, htest⟩

/-- One posted descriptor, and a guest that returns the number 16: the kernel reads behind the
buffers.  With an index two ahead the kernel takes up two entries. -/
theorem hostile_guest_misdirects :
    ¬ (∀ (bufs : Nat) (mem : Nat → UInt8) (es : List Event) (s : State),
        LTS.Run Step (start bufs mem) es s → s.Contained) ∧
      ∃ es s, LTS.Run Step (start 0x2000 fun _ => 0) es s ∧ s.outstanding = 1 ∧ s.processed = 2 := by
  constructor
  · intro hall
    obtain ⟨s, hrun, htest⟩ := LTS.Run.exists_of_exec next (S := Step) id (start 0x2000 fun _ => 0)
      [.post, .guestSlot 0 ⟨16, 8⟩, .guestIdx 1, .poll, .pollIdx, .pollSlot, .readOpcode]
      (fun s => s.accesses = [0x3000] ∧ s.bufs = 0x2000) (by decide +kernel)
    have hin := (hall _ _ _ s hrun).inside 0x3000
      (by rw [htest.1]; exact List.mem_singleton_self _)
    rw [htest.2] at hin
    simp only [queueSize, bufSize] at hin
    omega
  · obtain ⟨s, htest⟩ := LTS.Run.exists_of_exec next (S := Step) id (start 0x2000 fun _ => 0)
      [.post, .guestIdx 2, .poll, .pollIdx, .pollSlot, .readOpcode, .pollIdx, .pollSlot]
      (fun s => s.outstanding = 1 ∧ s.processed = 2) (by decide +kernel)
    exact ⟨_, s, htest⟩

end State

end Tanix.Virtio.Replies
