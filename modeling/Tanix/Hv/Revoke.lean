/-
# `Tanix.Hv.Revoke` — what is left of a VM that was destroyed

A `World` is the hypervisor with the log of what was created for whom and of the VMs whose
`vm_destroy` returned `Ok`.  `Revoked` is what should hold in every state of every run:

    a queue made for such a VM       takes no send and gives no message
    a doorbell made for such a VM    does not ring
    a table that has no free slot    is full of entries of VMs that were not destroyed

`vm_destroy` frees the VM's own slot and nothing else: its queues and doorbells stay
(`queue_outlives_vm`).  With a VM destroyed only while it owns none, the property holds
(`revoked_of_unowned`).  What the calls do to the tables is said once, in `Effect`.
-/
import Tanix.Hv.Backend
import Tanix.Lib.Run

namespace Tanix.Hv

open List Option

/-! ## Calls -/

inductive Call where
  | vmCreate (c : VmConfig)
  | vmDestroy (vm : Nat)
  | vcpuRun (vm vcpu : Nat)
  | vmYield
  | tickGuest
  | vcpuStop (vm vcpu : Nat)
  | msgqCreate (vm depth : Nat)
  | msgqSend (mq : Nat) (msg : List UInt8)
  | msgqRecv (mq cap : Nat)
  | doorbellCreate (ownerVm irq : Nat)
  | register (ownerVm irq : Nat)
  | doorbellSend (bell : Nat)
  | doorbellSetMask (bell enableMask ackMask : Nat)
  | noteDelivery (intid : Nat)
  | memShare (phys size : Nat)
  | enableGuestPreemption (quantumTicks : Nat)
  | disableGuestPreemption
  deriving DecidableEq, Repr

/-- The hypervisor, and what happened so far: each queue and doorbell with its owner first. -/
structure World where
  hv : Backend
  destroyed : List Nat
  queues : List (Nat × Nat)
  bells : List (Nat × Nat)
  deriving DecidableEq, Repr

def World.start : World :=
  { hv := .new, destroyed := [], queues := [], bells := [] }

/-- Log a result that is `Ok`. -/
def note {ε α β : Type} (entry : α → β) (log : List β) : Except ε α → List β
  | .ok a => entry a :: log
  | .error _ => log

def World.next (w : World) : Call → Option World
  | .vmCreate c => (w.hv.vmCreate c).map fun r => { w with hv := r.2 }
  | .vmDestroy vm =>
    let r := w.hv.vmDestroy vm
    some { w with hv := r.2, destroyed := note (fun _ => vm) w.destroyed r.1 }
  | .vcpuRun vm vcpu => (w.hv.vcpuRun vm vcpu).map fun r => { w with hv := r.2 }
  | .vmYield => w.hv.vmYield.map fun r => { w with hv := r.2 }
  | .tickGuest => some { w with hv := w.hv.tickGuest.2 }
  | .vcpuStop vm _ => some { w with hv := (w.hv.vcpuStop vm).2 }
  | .msgqCreate vm depth =>
    (w.hv.msgqCreate vm depth).map fun r => { w with hv := r.2, queues := note (vm, ·) w.queues r.1 }
  | .msgqSend mq msg => some { w with hv := (w.hv.msgqSend mq msg).2 }
  | .msgqRecv mq cap => (w.hv.msgqRecv mq cap).map fun r => { w with hv := r.2 }
  | .doorbellCreate ownerVm irq =>
    (w.hv.doorbellCreate ownerVm irq).map fun r => { w with hv := r.2, bells := note (ownerVm, ·) w.bells r.1 }
  | .register ownerVm irq =>
    (w.hv.register ownerVm irq).map fun r => { w with hv := r.2, bells := note (ownerVm, ·) w.bells r.1 }
  | .doorbellSend bell => (w.hv.doorbellSend bell).map fun r => { w with hv := r.2 }
  | .doorbellSetMask bell enableMask ackMask =>
    some { w with hv := (w.hv.doorbellSetMask bell enableMask ackMask).2 }
  | .noteDelivery intid => (w.hv.noteDelivery intid).map fun hv => { w with hv := hv }
  | .memShare phys size => some { w with hv := (w.hv.memShare phys size).2 }
  | .enableGuestPreemption quantumTicks => some { w with hv := w.hv.enableGuestPreemption quantumTicks }
  | .disableGuestPreemption => some { w with hv := w.hv.disableGuestPreemption }

def Step (w : World) (c : Call) (w' : World) : Prop :=
  w.next c = some w'

/-! ## The property -/

structure Revoked (w : World) : Prop where
  send : ∀ vm ∈ w.destroyed, ∀ mq, (vm, mq) ∈ w.queues → ∀ msg,
    (w.hv.msgqSend mq msg).1 = .error .invalidHandle
  recv : ∀ vm ∈ w.destroyed, ∀ mq, (vm, mq) ∈ w.queues → ∀ cap,
    (w.hv.msgqRecv mq cap).map Prod.fst = some (.error .invalidHandle)
  ring : ∀ vm ∈ w.destroyed, ∀ bell, (vm, bell) ∈ w.bells →
    (w.hv.doorbellSend bell).map Prod.fst = some (.error .invalidHandle)
  vmSlots : ∀ c, (w.hv.vmCreate c).map Prod.fst = some (.error .noMemory) →
    ∀ o ∈ w.hv.vms, ∃ r, o = some r ∧ r.handle ∉ w.destroyed
  queueSlots : ∀ vm depth, (w.hv.msgqCreate vm depth).map Prod.fst = some (.error .noMemory) →
    ∀ o ∈ w.hv.msgqs, ∃ q, o = some q ∧ q.owner ∉ w.destroyed
  bellSlots : ∀ vm irq, (w.hv.doorbellCreate vm irq).map Prod.fst = some (.error .noMemory) →
    ∀ o ∈ w.hv.doorbells, ∃ e, o = some e ∧ e.ownerVm ∉ w.destroyed

/-! ## The keys of the tables -/

/-- Who holds the slots: the VMs, and for the queues and doorbells the owner and the handle. -/
structure Keys where
  vms : List Nat
  queues : List (Nat × Nat)
  bells : List (Nat × Nat)
  nextHandle : Nat
  nextDoorbell : Nat

namespace Backend

variable {s s' : Backend} {vm mq bell : Nat}

def keys (s : Backend) : Keys where
  vms := s.vms.reduceOption.map (·.handle)
  queues := s.msgqs.reduceOption.map fun q => (q.owner, q.handle)
  bells := s.doorbells.reduceOption.map fun e => (e.ownerVm, e.handle)
  nextHandle := s.nextHandle
  nextDoorbell := s.nextDoorbell

theorem keys_setVm (s : Backend) (vm : Nat) {f : VmRecord → VmRecord} (hf : ∀ r, (f r).handle = r.handle) :
    (s.setVm vm f).keys = s.keys := by
  have hvms := Pool.map_modify (p := (·.handle == vm)) (t := s.vms) (k := (·.handle)) fun r _ => hf r
  exact congrArg (fun l => { s.keys with vms := l }) hvms

theorem keys_setMsgq (s : Backend) (mq : Nat) {f : MsgqRecord → MsgqRecord}
    (hf : ∀ q, s.findMsgq mq = some q → ((f q).owner, (f q).handle) = (q.owner, q.handle)) :
    (s.setMsgq mq f).keys = s.keys := by
  have hqueues := Pool.map_modify (p := (·.handle == mq)) (t := s.msgqs) (k := fun q => (q.owner, q.handle)) hf
  exact congrArg (fun l => { s.keys with queues := l }) hqueues

theorem keys_doorbells (s : Backend) (p : DoorbellEntry → Bool) {f : DoorbellEntry → DoorbellEntry}
    (hf : ∀ e, ((f e).ownerVm, (f e).handle) = (e.ownerVm, e.handle)) :
    Backend.keys { s with doorbells := Pool.modify p f s.doorbells } = s.keys := by
  have hbells := Pool.map_modify (p := p) (t := s.doorbells) (k := fun e => (e.ownerVm, e.handle)) fun e _ => hf e
  exact congrArg (fun l => { s.keys with bells := l }) hbells

theorem findVm_mem {r : VmRecord} (h : s.findVm vm = some r) : vm ∈ s.keys.vms := by
  have hfound := find?_some h
  have hmem : r.handle ∈ s.keys.vms := List.mem_map_of_mem (mem_of_find?_eq_some h)
  rwa [beq_iff_eq.mp hfound] at hmem

theorem bump_eq {w n m : Nat} (h : bump w n = some m) : m = n + 1 := by
  rw [bump] at h
  split at h
  · exact (Option.some.inj h).symm
  · cases h

variable {r : Except HvError Nat}

/-- A new VM, or only a handle that is used up. -/
theorem keys_vmCreate {c : VmConfig} (h : s.vmCreate c = some (r, s')) :
    ∃ vms, s'.keys = { s.keys with vms := vms, nextHandle := s.nextHandle + 1 } ∧
      (vms = s.keys.vms ∨ vms.Perm (s.nextHandle :: s.keys.vms)) := by
  obtain ⟨next, hnext, h⟩ := map_eq_some_iff.mp h
  cases bump_eq hnext
  split at h
  · cases h
    exact ⟨s.keys.vms, rfl, Or.inl rfl⟩
  · rename_i vms hvms
    cases h
    exact ⟨_, rfl, Or.inr ((Pool.reduceOption_insert hvms).map _)⟩

/-- The handle leaves the table, or nothing happens. -/
theorem keys_vmDestroy (s : Backend) (vm : Nat) :
    ((∃ e, (s.vmDestroy vm).1 = .error e) ∧ (s.vmDestroy vm).2 = s) ∨
      (s.vmDestroy vm).1 = .ok () ∧ vm ∈ s.keys.vms ∧
        (s.vmDestroy vm).2.keys = { s.keys with vms := s.keys.vms.erase vm } := by
  rw [vmDestroy]
  split
  · exact Or.inl ⟨⟨_, rfl⟩, rfl⟩
  · rename_i r hr
    split
    · exact Or.inl ⟨⟨_, rfl⟩, rfl⟩
    · refine Or.inr ⟨rfl, findVm_mem hr, congrArg (fun l => { s.keys with vms := l }) ?_⟩
      rw [Pool.reduceOption_erase, keys, erase_eq_eraseP', eraseP_map]
      rfl

/-- A new queue of a VM that is there, or nothing happens. -/
theorem keys_msgqCreate {depth : Nat} (h : s.msgqCreate vm depth = some (r, s')) :
    ((∃ e, r = .error e) ∧ s' = s) ∨
      r = .ok s.nextHandle ∧ vm ∈ s.keys.vms ∧ ∃ queues, queues.Perm ((vm, s.nextHandle) :: s.keys.queues) ∧
        s'.keys = { s.keys with queues := queues, nextHandle := s.nextHandle + 1 } := by
  rw [msgqCreate] at h
  split at h
  · cases h
    exact Or.inl ⟨⟨_, rfl⟩, rfl⟩
  · rename_i r hr
    split at h
    · cases h
      exact Or.inl ⟨⟨_, rfl⟩, rfl⟩
    · rename_i msgqs hmsgqs
      obtain ⟨next, hnext, h⟩ := map_eq_some_iff.mp h
      cases bump_eq hnext
      cases h
      exact Or.inr ⟨rfl, findVm_mem hr, _, (Pool.reduceOption_insert hmsgqs).map _, rfl⟩

theorem keys_register {irq : Nat} (h : s.register vm irq = some (r, s')) :
    ((∃ e, r = .error e) ∧ s' = s) ∨
      r = .ok s.nextDoorbell ∧ ∃ bells, bells.Perm ((vm, s.nextDoorbell) :: s.keys.bells) ∧
        s'.keys = { s.keys with bells := bells, nextDoorbell := s.nextDoorbell + 1 } := by
  rw [register] at h
  split at h
  · cases h
    exact Or.inl ⟨⟨_, rfl⟩, rfl⟩
  · rename_i doorbells hdoorbells
    obtain ⟨next, hnext, h⟩ := map_eq_some_iff.mp h
    cases bump_eq hnext
    cases h
    exact Or.inr ⟨rfl, _, (Pool.reduceOption_insert hdoorbells).map _, rfl⟩

theorem keys_vcpuExit (s : Backend) (vm : Nat) : (s.vcpuExit vm).keys = s.keys :=
  keys_setVm s vm fun _ => rfl

theorem keys_tickGuest (s : Backend) : s.tickGuest.2.keys = s.keys := by
  rw [tickGuest]
  split
  · split
    · rfl
    · split
      · rfl
      · split
        · exact keys_setVm s _ fun _ => rfl
        · exact keys_vcpuExit s _
  · rfl

theorem keys_vcpuRun {vcpu : Nat} {r : Except HvError Unit} (h : s.vcpuRun vm vcpu = some (r, s')) :
    s'.keys = s.keys := by
  rw [vcpuRun] at h
  split at h
  · cases h
    rfl
  · split at h
    · cases h
      rfl
    · split at h
      · cases h
        rfl
      · split at h
        · cases h
        · cases h
          exact keys_setVm s vm fun _ => rfl

theorem keys_vcpuStop (s : Backend) (vm : Nat) : (s.vcpuStop vm).2.keys = s.keys := by
  rw [vcpuStop]
  split
  · rfl
  · split
    · rfl
    · exact keys_setVm s vm fun _ => rfl

theorem keys_msgqSend (s : Backend) (mq : Nat) (msg : List UInt8) : (s.msgqSend mq msg).2.keys = s.keys := by
  rw [msgqSend]
  split
  · rfl
  · rename_i q hq
    split
    · rfl
    · rename_i ready q' hsent
      refine keys_setMsgq s mq fun q₁ hq₁ => ?_
      cases hq.symm.trans hq₁
      rw [enqueue] at hsent
      split at hsent
      · cases hsent
      · split at hsent
        · cases hsent
        · cases hsent
          rfl

theorem keys_msgqRecv {cap : Nat} {r : Except HvError (List UInt8 × Bool)}
    (h : s.msgqRecv mq cap = some (r, s')) : s'.keys = s.keys := by
  rw [msgqRecv] at h
  split at h
  · cases h
    rfl
  · rename_i q hq
    obtain ⟨out, hout, h⟩ := map_eq_some_iff.mp h
    split at h
    · cases h
      rfl
    · rename_i got q'
      cases h
      refine keys_setMsgq s mq fun q₁ hq₁ => ?_
      cases hq.symm.trans hq₁
      rw [dequeue] at hout
      split at hout
      · cases hout
      · obtain ⟨msg, -, hout⟩ := map_eq_some_iff.mp hout
        cases hout
        rfl

theorem keys_doorbellSend {r : Except HvError Unit} (h : s.doorbellSend bell = some (r, s')) :
    s'.keys = s.keys := by
  rw [doorbellSend] at h
  split at h
  · cases h
    rfl
  · obtain ⟨rings, -, h⟩ := map_eq_some_iff.mp h
    cases h
    exact keys_doorbells s _ fun _ => rfl

theorem keys_doorbellSetMask (s : Backend) (bell enableMask ackMask : Nat) :
    (s.doorbellSetMask bell enableMask ackMask).2.keys = s.keys := by
  rw [doorbellSetMask]
  split
  · rfl
  · exact keys_doorbells s _ fun _ => rfl

theorem keys_noteDelivery {intid : Nat} (h : s.noteDelivery intid = some s') : s'.keys = s.keys := by
  rw [noteDelivery] at h
  split at h
  · cases h
    rfl
  · obtain ⟨deliveries, -, h⟩ := map_eq_some_iff.mp h
    cases h
    exact keys_doorbells s _ fun _ => rfl

end Backend

/-! ## What a call does -/

/-- The keys and the log. -/
structure View where
  keys : Keys
  destroyed : List Nat
  queues : List (Nat × Nat)
  bells : List (Nat × Nat)

def World.view (w : World) : View :=
  { keys := w.hv.keys, destroyed := w.destroyed, queues := w.queues, bells := w.bells }

/-- All that a call can do to the keys. -/
inductive Effect (v : View) : Call → View → Prop
  | same {c : Call} : Effect v c v
  | create {c : VmConfig} {vms : List Nat}
      (h : vms = v.keys.vms ∨ vms.Perm (v.keys.nextHandle :: v.keys.vms)) :
      Effect v (.vmCreate c) { v with keys.vms := vms, keys.nextHandle := v.keys.nextHandle + 1 }
  | destroy {vm : Nat} (h : vm ∈ v.keys.vms) :
      Effect v (.vmDestroy vm) { v with keys.vms := v.keys.vms.erase vm, destroyed := vm :: v.destroyed }
  | queue {vm depth : Nat} {queues : List (Nat × Nat)} (h : vm ∈ v.keys.vms)
      (hq : queues.Perm ((vm, v.keys.nextHandle) :: v.keys.queues)) :
      Effect v (.msgqCreate vm depth)
        { v with
          keys.queues := queues
          keys.nextHandle := v.keys.nextHandle + 1
          queues := (vm, v.keys.nextHandle) :: v.queues }
  | bell {c : Call} {vm irq : Nat} {bells : List (Nat × Nat)}
      (hc : c = .doorbellCreate vm irq ∧ vm ∈ v.keys.vms ∨ c = .register vm irq)
      (hb : bells.Perm ((vm, v.keys.nextDoorbell) :: v.keys.bells)) :
      Effect v c
        { v with
          keys.bells := bells
          keys.nextDoorbell := v.keys.nextDoorbell + 1
          bells := (vm, v.keys.nextDoorbell) :: v.bells }

variable {c : Call}

theorem Effect.of_view {v : View} {hv : Backend} {k : Keys} {destroyed : List Nat}
    {queues bells : List (Nat × Nat)} (h : hv.keys = k)
    (he : Effect v c ⟨k, destroyed, queues, bells⟩) :
    Effect v c (World.view ⟨hv, destroyed, queues, bells⟩) := by
  cases h
  exact he

variable {w : World}

theorem Effect.of_keys {hv : Backend} (h : hv.keys = w.hv.keys) :
    Effect w.view c (World.view { w with hv := hv }) :=
  .of_view h .same

/-- A doorbell for a VM, by either way. -/
theorem Effect.of_register {vm irq : Nat} {r : Except HvError Nat × Backend}
    (hc : c = .doorbellCreate vm irq ∧ vm ∈ w.hv.keys.vms ∨ c = .register vm irq)
    (h : w.hv.register vm irq = some r) :
    Effect w.view c (World.view { w with hv := r.2, bells := note (vm, ·) w.bells r.1 }) := by
  obtain ⟨r, s'⟩ := r
  obtain ⟨⟨e, rfl⟩, rfl⟩ | ⟨rfl, bells, hbells, hkeys⟩ := Backend.keys_register h
  · exact .same
  · exact .of_view hkeys (.bell hc hbells)

theorem Step.effect {w' : World} (h : Step w c w') : Effect w.view c w'.view := by
  cases c with
  | vmCreate c =>
    obtain ⟨⟨r, s'⟩, hr, rfl⟩ := map_eq_some_iff.mp h
    obtain ⟨vms, hkeys, hvms⟩ := Backend.keys_vmCreate hr
    exact .of_view hkeys (.create hvms)
  | vmDestroy vm =>
    cases h
    obtain ⟨⟨e, he⟩, hs⟩ | ⟨hok, hmem, hkeys⟩ := w.hv.keys_vmDestroy vm
    · rw [he, hs]
      exact .same
    · rw [hok]
      exact .of_view hkeys (.destroy hmem)
  | vcpuRun vm vcpu =>
    obtain ⟨r, hr, rfl⟩ := map_eq_some_iff.mp h
    exact .of_keys (Backend.keys_vcpuRun hr)
  | vmYield =>
    obtain ⟨r, hr, rfl⟩ := map_eq_some_iff.mp h
    obtain ⟨v, -, rfl⟩ := map_eq_some_iff.mp hr
    exact .of_keys (w.hv.keys_vcpuExit v.handle)
  | tickGuest =>
    cases h
    exact .of_keys w.hv.keys_tickGuest
  | vcpuStop vm vcpu =>
    cases h
    exact .of_keys (w.hv.keys_vcpuStop vm)
  | msgqCreate vm depth =>
    obtain ⟨⟨r, s'⟩, hr, rfl⟩ := map_eq_some_iff.mp h
    obtain ⟨⟨e, rfl⟩, rfl⟩ | ⟨rfl, hmem, queues, hqueues, hkeys⟩ := Backend.keys_msgqCreate hr
    · exact .same
    · exact .of_view hkeys (.queue hmem hqueues)
  | msgqSend mq msg =>
    cases h
    exact .of_keys (w.hv.keys_msgqSend mq msg)
  | msgqRecv mq cap =>
    obtain ⟨r, hr, rfl⟩ := map_eq_some_iff.mp h
    exact .of_keys (Backend.keys_msgqRecv hr)
  | doorbellCreate vm irq =>
    obtain ⟨r, hr, rfl⟩ := map_eq_some_iff.mp h
    rw [Backend.doorbellCreate] at hr
    split at hr
    · cases hr
      exact .same
    · rename_i rec hrec
      exact .of_register (Or.inl ⟨rfl, Backend.findVm_mem hrec⟩) hr
  | register vm irq =>
    obtain ⟨r, hr, rfl⟩ := map_eq_some_iff.mp h
    exact .of_register (Or.inr rfl) hr
  | doorbellSend bell =>
    obtain ⟨r, hr, rfl⟩ := map_eq_some_iff.mp h
    exact .of_keys (Backend.keys_doorbellSend hr)
  | doorbellSetMask bell enableMask ackMask =>
    cases h
    exact .of_keys (w.hv.keys_doorbellSetMask bell enableMask ackMask)
  | noteDelivery intid =>
    obtain ⟨hv, hhv, rfl⟩ := map_eq_some_iff.mp h
    exact .of_keys (Backend.keys_noteDelivery hhv)
  | memShare | enableGuestPreemption | disableGuestPreemption =>
    cases h
    exact .same

/-! ## The condition -/

/-- A VM is destroyed while it owns no queue and no doorbell, and a doorbell is registered
only for a VM that is there or whose handle is still to come. -/
def Unowned (w : World) : Call → Prop
  | .vmDestroy vm =>
    (∀ q ∈ w.hv.msgqs.reduceOption, q.owner ≠ vm) ∧ ∀ e ∈ w.hv.doorbells.reduceOption, e.ownerVm ≠ vm
  | .register vm _ => (w.hv.findVm vm).isSome ∨ w.hv.nextHandle ≤ vm
  | _ => True

/-- The same, over the keys. -/
def View.Unowned (v : View) : Call → Prop
  | .vmDestroy vm => (∀ q ∈ v.keys.queues, q.1 ≠ vm) ∧ ∀ b ∈ v.keys.bells, b.1 ≠ vm
  | .register vm _ => vm ∈ v.keys.vms ∨ v.keys.nextHandle ≤ vm
  | _ => True

theorem Unowned.view (h : Unowned w c) : w.view.Unowned c := by
  cases c with
  | vmDestroy vm =>
    exact ⟨List.forall_mem_map.mpr h.1, List.forall_mem_map.mpr h.2⟩
  | register vm irq =>
    obtain hsome | hlt := h
    · obtain ⟨r, hr⟩ := isSome_iff_exists.mp hsome
      exact Or.inl (Backend.findVm_mem hr)
    · exact Or.inr hlt
  | _ => trivial

/-! ## The invariant -/

/-- The objects of one table: owners that are not destroyed, handles below the counter, and
each handle made for one owner only. -/
structure Owned (destroyed : List Nat) (next : Nat) (held made : List (Nat × Nat)) : Prop where
  live : ∀ k ∈ held, k.1 ∉ destroyed
  held_lt : ∀ k ∈ held, k.2 < next
  made_lt : ∀ k ∈ made, k.2 < next
  owner : ∀ k ∈ held, ∀ r ∈ made, r.2 = k.2 → r.1 = k.1

section Owned

variable {destroyed : List Nat} {next vm : Nat} {held held' made : List (Nat × Nat)}

theorem Owned.add (h : Owned destroyed next held made) (hvm : vm ∉ destroyed)
    (hp : held'.Perm ((vm, next) :: held)) : Owned destroyed (next + 1) held' ((vm, next) :: made) := by
  have hlt := Nat.lt_succ_self next
  refine ⟨Pool.forall_of_perm hp hvm h.live, Pool.forall_of_perm hp hlt fun k hk => Nat.lt_succ_of_lt (h.held_lt k hk),
    forall_mem_cons.mpr ⟨hlt, fun k hk => Nat.lt_succ_of_lt (h.made_lt k hk)⟩, Pool.forall_of_perm hp ?_ ?_⟩
  · exact forall_mem_cons.mpr ⟨fun _ => rfl, fun r hr hkr => absurd hkr (Nat.ne_of_lt (h.made_lt r hr))⟩
  · exact fun k hk => forall_mem_cons.mpr
      ⟨fun hkr => absurd hkr.symm (Nat.ne_of_lt (h.held_lt k hk)), h.owner k hk⟩

theorem Owned.mono {next' : Nat} (h : Owned destroyed next held made) (hle : next ≤ next') :
    Owned destroyed next' held made :=
  ⟨h.live, fun k hk => Nat.lt_of_lt_of_le (h.held_lt k hk) hle,
    fun k hk => Nat.lt_of_lt_of_le (h.made_lt k hk) hle, h.owner⟩

theorem Owned.destroy (h : Owned destroyed next held made) (hvm : ∀ k ∈ held, k.1 ≠ vm) :
    Owned (vm :: destroyed) next held made := by
  refine ⟨fun k hk hmem => ?_, h.held_lt, h.made_lt, h.owner⟩
  obtain heq | hmem := mem_cons.mp hmem
  · exact hvm k hk heq
  · exact h.live k hk hmem

/-- What was made for a VM that is gone is not held. -/
theorem Owned.not_held {handle : Nat} (h : Owned destroyed next held made) (hvm : vm ∈ destroyed)
    (hmade : (vm, handle) ∈ made) : ∀ k ∈ held, k.2 ≠ handle := by
  intro k hk heq
  have howner : vm = k.1 := h.owner k hk (vm, handle) hmade heq.symm
  exact h.live k hk (howner ▸ hvm)

end Owned

structure Inv (v : View) : Prop where
  nodup : v.keys.vms.Nodup
  vms_lt : ∀ vm ∈ v.keys.vms, vm < v.keys.nextHandle
  destroyed_lt : ∀ vm ∈ v.destroyed, vm < v.keys.nextHandle
  vms_live : ∀ vm ∈ v.keys.vms, vm ∉ v.destroyed
  queues : Owned v.destroyed v.keys.nextHandle v.keys.queues v.queues
  bells : Owned v.destroyed v.keys.nextDoorbell v.keys.bells v.bells

theorem Inv.start : Inv World.start.view := by
  refine ⟨nodup_nil, ?_, ?_, ?_, ⟨?_, ?_, ?_, ?_⟩, ⟨?_, ?_, ?_, ?_⟩⟩ <;>
    exact fun x hx => absurd hx not_mem_nil

theorem Inv.step {v v' : View} (hi : Inv v) (hg : v.Unowned c) (he : Effect v c v') : Inv v' := by
  cases he with
  | same => exact hi
  | create h =>
    have hvms := fun vm hvm => Nat.lt_succ_of_lt (hi.vms_lt vm hvm)
    have hgone := fun vm hvm => Nat.lt_succ_of_lt (hi.destroyed_lt vm hvm)
    have hqueues := hi.queues.mono (Nat.le_succ _)
    obtain rfl | hp := h
    · exact ⟨hi.nodup, hvms, hgone, hi.vms_live, hqueues, hi.bells⟩
    · have hfresh : v.keys.nextHandle ∉ v.keys.vms := fun h => Nat.lt_irrefl _ (hi.vms_lt _ h)
      exact ⟨hp.nodup_iff.mpr (nodup_cons.mpr ⟨hfresh, hi.nodup⟩), Pool.forall_of_perm hp (Nat.lt_succ_self _) hvms,
        hgone, Pool.forall_of_perm hp (fun h => Nat.lt_irrefl _ (hi.destroyed_lt _ h)) hi.vms_live, hqueues, hi.bells⟩
  | @destroy vm h =>
    refine ⟨hi.nodup.erase vm, fun u hu => hi.vms_lt u (mem_of_mem_erase hu),
      forall_mem_cons.mpr ⟨hi.vms_lt vm h, hi.destroyed_lt⟩, fun u hu hmem => ?_, hi.queues.destroy hg.1,
      hi.bells.destroy hg.2⟩
    · obtain ⟨hne, hu⟩ := hi.nodup.mem_erase_iff.mp hu
      exact (mem_cons.mp hmem).elim hne (hi.vms_live u hu)
  | queue h hq =>
    exact ⟨hi.nodup, fun u hu => Nat.lt_succ_of_lt (hi.vms_lt u hu),
      fun u hu => Nat.lt_succ_of_lt (hi.destroyed_lt u hu), hi.vms_live,
      hi.queues.add (hi.vms_live _ h) hq, hi.bells⟩
  | @bell _ vm irq bells hc hb =>
    have hvm : vm ∉ v.destroyed := by
      obtain ⟨rfl, hmem⟩ | rfl := hc
      · exact hi.vms_live vm hmem
      · exact hg.elim (hi.vms_live vm) fun hle hmem => Nat.not_lt.mpr hle (hi.destroyed_lt vm hmem)
    exact ⟨hi.nodup, hi.vms_lt, hi.destroyed_lt, hi.vms_live, hi.queues, hi.bells.add hvm hb⟩

/-! ## From the invariant to the property -/

namespace Backend

variable {s : Backend} {vm mq bell : Nat}

theorem findMsgq_eq_none (h : ∀ k ∈ s.keys.queues, k.2 ≠ mq) : s.findMsgq mq = none := by
  refine find?_eq_none.mpr fun q hq hmq => ?_
  exact h _ (List.mem_map_of_mem hq) (beq_iff_eq.mp hmq)

theorem findDoorbell_eq_none (h : ∀ k ∈ s.keys.bells, k.2 ≠ bell) : s.findDoorbell bell = none := by
  refine find?_eq_none.mpr fun e he hbell => ?_
  exact h _ (List.mem_map_of_mem he) (beq_iff_eq.mp hbell)

theorem vms_full {c : VmConfig} (h : (s.vmCreate c).map Prod.fst = some (.error .noMemory)) : none ∉ s.vms := by
  obtain ⟨r, hr, hfst⟩ := map_eq_some_iff.mp h
  obtain ⟨next, -, rfl⟩ := map_eq_some_iff.mp hr
  split at hfst
  · rename_i hnone
    exact Pool.insert_eq_none.mp hnone
  · cases hfst

theorem msgqs_full {depth : Nat} (h : (s.msgqCreate vm depth).map Prod.fst = some (.error .noMemory)) :
    none ∉ s.msgqs := by
  obtain ⟨r, hr, hfst⟩ := map_eq_some_iff.mp h
  rw [msgqCreate] at hr
  split at hr
  · cases hr
    cases hfst
  · split at hr
    · rename_i hnone
      exact Pool.insert_eq_none.mp hnone
    · obtain ⟨next, -, rfl⟩ := map_eq_some_iff.mp hr
      cases hfst

theorem doorbells_full {irq : Nat} (h : (s.doorbellCreate vm irq).map Prod.fst = some (.error .noMemory)) :
    none ∉ s.doorbells := by
  obtain ⟨r, hr, hfst⟩ := map_eq_some_iff.mp h
  rw [doorbellCreate] at hr
  split at hr
  · cases hr
    cases hfst
  · rw [register] at hr
    split at hr
    · rename_i hnone
      exact Pool.insert_eq_none.mp hnone
    · obtain ⟨next, -, rfl⟩ := map_eq_some_iff.mp hr
      cases hfst

end Backend

theorem Inv.revoked (hi : Inv w.view) : Revoked w where
  send vm hvm mq hmq msg := by
    rw [Backend.msgqSend, Backend.findMsgq_eq_none (hi.queues.not_held hvm hmq)]
  recv vm hvm mq hmq cap := by
    rw [Backend.msgqRecv, Backend.findMsgq_eq_none (hi.queues.not_held hvm hmq)]
    rfl
  ring vm hvm bell hbell := by
    rw [Backend.doorbellSend, Backend.findDoorbell_eq_none (hi.bells.not_held hvm hbell)]
    rfl
  vmSlots c hfull o ho := by
    obtain ⟨r, rfl, hr⟩ := Pool.exists_entry (Backend.vms_full hfull) ho
    exact ⟨r, rfl, hi.vms_live r.handle (List.mem_map_of_mem hr)⟩
  queueSlots vm depth hfull o ho := by
    obtain ⟨q, rfl, hq⟩ := Pool.exists_entry (Backend.msgqs_full hfull) ho
    exact ⟨q, rfl, hi.queues.live (q.owner, q.handle) (List.mem_map_of_mem hq)⟩
  bellSlots vm irq hfull o ho := by
    obtain ⟨e, rfl, he⟩ := Pool.exists_entry (Backend.doorbells_full hfull) ho
    exact ⟨e, rfl, hi.bells.live (e.ownerVm, e.handle) (List.mem_map_of_mem he)⟩

/-- In every run in which a VM is destroyed only while it owns nothing. -/
theorem revoked_of_unowned {calls : List Call} {w : World}
    (h : LTS.Run (LTS.guarded Step Unowned) World.start calls w) : Revoked w := by
  refine Inv.revoked (h.invariant_guarded (I := fun w => Inv w.view) ?_ Inv.start)
  exact fun w c w' hi hg hs => hi.step hg.view hs.effect

/-! ## Runs -/

def config : VmConfig :=
  { ramBase := 0x40000000, ramSize := 0x200000, entry := 0x40000000, boot := (0, 0) }

instance (w : World) : (c : Call) → Decidable (Unowned w c)
  | .vmDestroy vm => inferInstanceAs (Decidable
      ((∀ q ∈ w.hv.msgqs.reduceOption, q.owner ≠ vm) ∧ ∀ e ∈ w.hv.doorbells.reduceOption, e.ownerVm ≠ vm))
  | .register vm _ => inferInstanceAs (Decidable ((w.hv.findVm vm).isSome ∨ w.hv.nextHandle ≤ vm))
  | .vmCreate _ | .vcpuRun _ _ | .vmYield | .tickGuest | .vcpuStop _ _ | .msgqCreate _ _ | .msgqSend _ _
  | .msgqRecv _ _ | .doorbellCreate _ _ | .doorbellSend _ | .doorbellSetMask _ _ _ | .noteDelivery _
  | .memShare _ _ | .enableGuestPreemption _ | .disableGuestPreemption => inferInstanceAs (Decidable True)

/-- A VM that is destroyed, beside one with a queue. -/
theorem revoked_of_unowned_bare : ∃ w, LTS.Run (LTS.guarded Step Unowned) World.start
      [.vmCreate config, .vmCreate config, .msgqCreate 2 8, .vmDestroy 1] w ∧
    w.destroyed = [1] ∧ Revoked w := by
  refine LTS.Run.exists_and (LTS.Run.exists_of_guarded World.next Unowned id _ _ (·.destroyed = [1]) (by decide +kernel)) ?_
  intro w hrun htest
  exact ⟨htest, revoked_of_unowned hrun⟩

/-- A queue takes a message for a VM that is gone. -/
theorem queue_outlives_vm : ¬ ∀ calls w, LTS.Run Step World.start calls w → Revoked w := by
  intro hall
  obtain ⟨w, hrun, hgone, hqueue, hsent⟩ := LTS.Run.exists_of_exec World.next (S := Step) id World.start
    [.vmCreate config, .msgqCreate 1 8, .vmDestroy 1]
    (fun w => 1 ∈ w.destroyed ∧ (1, 2) ∈ w.queues ∧ (w.hv.msgqSend 2 []).1 = .ok true) (by decide +kernel)
  have hrefused := (hall _ w hrun).send 1 hgone 2 hqueue []
  rw [hsent] at hrefused
  cases hrefused

end Tanix.Hv
