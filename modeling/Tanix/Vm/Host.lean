/-
# `Tanix.Vm.Host` — VMs and shared regions, and the frames they are made of

`create_and_load` of `kernel/src/vm/mod.rs` and `kernel/src/vm/shmem.rs`.  Both take frames
first and look for a slot in their table last; what they have taken by then they do not give
back when they fail (`traceless_iff`).

`region_for` finds a region by the handle of `mem_share`, which is the exclusive or of its
address and its size.  Regions of one size have different handles (`identified_of_sameSize`),
and regions of different sizes may not (`handles_collide`).
-/
import Tanix.Hv.Backend
import Tanix.Lib.Run
import Tanix.Vm.Loader
import Mathlib.Data.List.Nodup
import Mathlib.Data.Nat.Bitwise

namespace Tanix.Vm

def maxShmem : Nat := 8

structure ShmemRegion where
  handle : Nat
  phys : Nat
  size : Nat
  deriving DecidableEq

/-- `Vm`, without its name. -/
structure VmEntry where
  handle : Nat
  ramBase : Nat
  ramSize : Nat
  entry : Nat
  boot : Nat × Nat
  deriving DecidableEq

structure Host where
  frames : FrameAllocator
  hv : Hv.Backend
  vms : List (Option VmEntry)
  shmem : List (Option ShmemRegion)

namespace Host

/-- `alloc_shmem` -/
def allocShmem (h : Host) (pages : Nat) : Except Hv.HvError Nat × Host :=
  match h.frames.allocContiguous pages with
  | none => (.error .noMemory, h)
  | some (frames, phys) =>
    let size := pages * pageSize
    let h := { h with frames := frames }
    match h.hv.memShare phys size with
    | (.error e, hv) => (.error e, { h with hv := hv })
    | (.ok handle, hv) =>
      match Pool.insert ⟨handle, phys, size⟩ h.shmem with
      | none => (.error .noMemory, { h with hv := hv })
      | some shmem => (.ok handle, { h with hv := hv, shmem := shmem })

def regionFor (h : Host) (handle : Nat) : Option ShmemRegion :=
  Pool.find (·.handle == handle) h.shmem

end Host

/-- `load_flat` into RAM that has been zeroed -/
def loadFlat (image : List UInt8) (ramBase ramSize : Nat) : Except Stop Nat :=
  (loadFlatFull image ramBase ramSize ⟨ramBase, ramBase + ramSize⟩ fun _ => 0).map (·.2.entry)

/-- The loader's errors among those of the hypervisor. -/
def HvError.up : HvError → Hv.HvError
  | .noMemory => .noMemory
  | .notSupported => .notSupported

namespace Host

/-- `create_and_load`; `none` is a panic, or an image that leads the loader astray. -/
def createAndLoad (h : Host) (image : List UInt8) (ramPages : Nat) (boot : Nat × Nat) :
    Option (Except Hv.HvError Nat × Host) :=
  match h.frames.allocContiguous ramPages with
  | none => some (.error .noMemory, h)
  | some (frames, ramBase) =>
    let ramSize := ramPages * pageSize
    match loadFlat image ramBase ramSize with
    | .error (.err e) => some (.error e.up, { h with frames := frames })
    | .error _ => none
    | .ok entry =>
      match h.hv.vmCreate ⟨ramBase, ramSize, entry, boot⟩ with
      | none => none
      | some (.error e, hv) => some (.error e, { h with frames := frames, hv := hv })
      | some (.ok handle, hv) =>
        match Pool.insert ⟨handle, ramBase, ramSize, entry, boot⟩ h.vms with
        | none => some (.error .noMemory, { h with frames := frames, hv := hv })
        | some vms => some (.ok handle, { h with frames := frames, hv := hv, vms := vms })

/-! ## Failure -/

/-- A result that is an error comes with the allocator and the tables as they were. -/
def Traceless (h : Host) (r : Except Hv.HvError Nat × Host) : Prop :=
  ∀ e, r.1 = .error e → r.2.frames = h.frames ∧ r.2.hv = h.hv ∧ r.2.vms = h.vms ∧ r.2.shmem = h.shmem

variable {h : Host} {frames : FrameAllocator} {pages base : Nat}

/-- Once frames are taken, only success is without a trace. -/
theorem traceless_taken {r : Except Hv.HvError Nat × Host} (ha : h.frames.allocContiguous pages = some (frames, base))
    (hr : r.2.frames = frames) : Traceless h r ↔ ∃ v, r.1 = .ok v := by
  constructor
  · intro ht
    cases hres : r.1 with
    | ok v => exact ⟨v, rfl⟩
    | error e =>
      -- frames that were taken are missed
      obtain ⟨s, -, hn, hfree, -, rfl⟩ := FrameAllocator.allocContiguous_some ha
      have hs := hfree s (Nat.le_refl s) (by omega)
      rw [← hr.symm.trans (ht e hres).1, FrameAllocator.setUsedRange_free] at hs
      simp [hn] at hs
  · rintro ⟨v, hv⟩ e he
    cases hv.symm.trans he

/-- A region is recorded if there are frames for it. -/
def ShmemRoom (h : Host) (pages : Nat) : Prop :=
  ∀ taken, h.frames.allocContiguous pages = some taken → none ∈ h.shmem

/-- The image loads and the VM gets its two slots if there are frames for it. -/
def VmRoom (h : Host) (image : List UInt8) (pages : Nat) : Prop :=
  ∀ frames base, h.frames.allocContiguous pages = some (frames, base) →
    (∃ entry, loadFlat image base (pages * pageSize) = .ok entry) ∧ none ∈ h.hv.vms ∧ none ∈ h.vms

theorem allocShmem_traceless_iff : Traceless h (h.allocShmem pages) ↔ ShmemRoom h pages := by
  unfold allocShmem
  split
  · rename_i hnone
    refine iff_of_true (fun _ _ => ⟨rfl, rfl, rfl, rfl⟩) fun taken ht => ?_
    rw [hnone] at ht
    cases ht
  · rename_i frames phys ha
    simp only [Hv.Backend.memShare]
    split
    · rename_i hfull
      rw [traceless_taken ha rfl]
      refine iff_of_false (fun ⟨v, hv⟩ => by cases hv) fun hroom => ?_
      exact Pool.insert_eq_none.mp hfull (hroom _ ha)
    · rename_i shmem hins
      rw [traceless_taken ha rfl]
      exact iff_of_true ⟨_, rfl⟩ fun _ _ => Pool.mem_of_insert hins

/-- `vm_create` succeeds when there is a slot. -/
theorem vmCreate_ok_iff {s s' : Hv.Backend} {c : Hv.VmConfig} {r : Except Hv.HvError Nat}
    (hr : s.vmCreate c = some (r, s')) : (∃ v, r = .ok v) ↔ none ∈ s.vms := by
  obtain ⟨next, -, hr⟩ := Option.map_eq_some_iff.mp hr
  split at hr
  · rename_i hfull
    cases hr
    exact iff_of_false (fun ⟨v, hv⟩ => by cases hv) (Pool.insert_eq_none.mp hfull)
  · rename_i vms hins
    cases hr
    exact iff_of_true ⟨_, rfl⟩ (Pool.mem_of_insert hins)

theorem createAndLoad_traceless_iff {image : List UInt8} {boot : Nat × Nat} {r : Except Hv.HvError Nat × Host}
    (hr : h.createAndLoad image pages boot = some r) : Traceless h r ↔ VmRoom h image pages := by
  unfold createAndLoad at hr
  split at hr
  · rename_i hnone
    cases hr
    refine iff_of_true (fun _ _ => ⟨rfl, rfl, rfl, rfl⟩) fun frames base ht => ?_
    rw [hnone] at ht
    cases ht
  · rename_i frames base ha
    have hroom : VmRoom h image pages ↔ (∃ entry, loadFlat image base (pages * pageSize) = .ok entry) ∧
        none ∈ h.hv.vms ∧ none ∈ h.vms := by
      refine ⟨fun hroom => hroom frames base ha, fun hroom frames' base' ha' => ?_⟩
      cases ha.symm.trans ha'
      exact hroom
    rw [hroom]
    simp only at hr
    split at hr
    · rename_i hload
      cases hr
      rw [traceless_taken ha rfl, hload]
      exact iff_of_false (fun ⟨v, hv⟩ => by cases hv) fun ⟨⟨v, hv⟩, _⟩ => by cases hv
    · cases hr
    · rename_i entry hload
      rw [hload]
      split at hr
      · cases hr
      · rename_i hcreate
        cases hr
        rw [traceless_taken ha rfl, ← vmCreate_ok_iff hcreate]
        exact iff_of_false (fun ⟨v, hv⟩ => by cases hv) fun ⟨_, ⟨v, hv⟩, _⟩ => by cases hv
      · rename_i hcreate
        have hslot := (vmCreate_ok_iff hcreate).mp ⟨_, rfl⟩
        split at hr
        · rename_i hfull
          cases hr
          rw [traceless_taken ha rfl]
          exact iff_of_false (fun ⟨v, hv⟩ => by cases hv) fun ⟨_, _, hfree⟩ => Pool.insert_eq_none.mp hfull hfree
        · rename_i vms hins
          cases hr
          rw [traceless_taken ha rfl]
          exact iff_of_true ⟨_, rfl⟩ ⟨⟨entry, rfl⟩, hslot, Pool.mem_of_insert hins⟩

/-- An error of `alloc_shmem` or `create_and_load` leaves no trace exactly where the call fails for
want of frames or does not fail. -/
theorem traceless_iff (h : Host) : (∀ pages, Traceless h (h.allocShmem pages) ↔ ShmemRoom h pages) ∧
    ∀ image pages boot r, h.createAndLoad image pages boot = some r →
      (Traceless h r ↔ VmRoom h image pages) :=
  ⟨fun _ => allocShmem_traceless_iff, fun _ _ _ _ => createAndLoad_traceless_iff⟩

/-- Sixteen free frames, and empty tables. -/
def bareHost : Host where
  frames := ⟨0x50000000, 0x10000, 16, fun i => decide (i < 16), 16⟩
  hv := .new
  vms := List.replicate Hv.maxVms none
  shmem := List.replicate maxShmem none

theorem traceless_iff_bare : Traceless bareHost (bareHost.allocShmem 1) ∧
    ∃ r, bareHost.createAndLoad [1, 2, 3] 2 (0, 0) = some r ∧ Traceless bareHost r := by
  have hsome : (bareHost.createAndLoad [1, 2, 3] 2 (0, 0)).isSome = true := rfl
  obtain ⟨r, hr⟩ := Option.isSome_iff_exists.mp hsome
  refine ⟨((traceless_iff bareHost).1 1).mpr fun _ _ => by decide, r, hr,
    ((traceless_iff bareHost).2 _ _ _ r hr).mpr ?_⟩
  rintro frames base ⟨⟩
  exact ⟨⟨_, rfl⟩, by decide, by decide⟩

/-- The ninth region finds no slot, and its frame is lost. -/
theorem ninth_region_leaks : ¬ ∀ (h : Host) (pages : Nat), Traceless h (h.allocShmem pages) := by
  intro hall
  have hroom := allocShmem_traceless_iff.mp
    (hall { bareHost with shmem := List.replicate maxShmem (some ⟨0, 0, 0⟩) } 1)
  exact absurd (hroom _ rfl) (by decide)

/-! ## Handles -/

/-- The regions that are recorded. -/
def regions (h : Host) : List ShmemRegion :=
  h.shmem.reduceOption

def Step (h : Host) (pages : Nat) (h' : Host) : Prop :=
  (h.allocShmem pages).2 = h'

/-- Handles tell the regions apart. -/
structure Identified (h : Host) : Prop where
  handles : (h.regions.map (·.handle)).Nodup
  found : ∀ g ∈ h.regions, h.regionFor g.handle = some g

/-- RAM is below 4 GiB, and the regions that are recorded have the size asked for. -/
def SameSize (h : Host) (pages : Nat) : Prop :=
  h.frames.ramStart + h.frames.totalFrames * pageSize ≤ 2 ^ 32 ∧
    ∀ g ∈ h.regions, g.size = pages * pageSize

/-- The regions start at frames of their own that are taken, and have one size. -/
structure Inv (h : Host) : Prop where
  handle : ∀ g ∈ h.regions, g.handle = g.phys ^^^ g.size % 2 ^ 32
  taken : ∀ g ∈ h.regions, ∃ i, h.frames.free i = false ∧ g.phys = h.frames.ramStart + i * pageSize
  apart : (h.regions.map (·.phys)).Nodup
  size : ∀ g ∈ h.regions, ∀ g' ∈ h.regions, g.size = g'.size

theorem Inv.step (hi : Inv h) (hsize : SameSize h pages) : Inv (h.allocShmem pages).2 := by
  unfold allocShmem
  split
  · exact hi
  · rename_i frames phys ha
    obtain ⟨s, hs, hn, hfree, rfl, rfl⟩ := FrameAllocator.allocContiguous_some ha
    have hstart := (FrameAllocator.sameWindow_setUsedRange h.frames s pages).start
    have hfirst := hfree s (Nat.le_refl s) (by omega)
    have hused : (h.frames.setUsedRange s pages).free s = false := by
      rw [FrameAllocator.setUsedRange_free]
      simp [hn]
    have htaken : ∀ g ∈ h.regions, ∃ i, (h.frames.setUsedRange s pages).free i = false ∧
        g.phys = (h.frames.setUsedRange s pages).ramStart + i * pageSize := by
      intro g hg
      obtain ⟨i, hi, hphys⟩ := hi.taken g hg
      exact ⟨i, by rw [FrameAllocator.setUsedRange_free, hi, Bool.false_and], by rw [hstart, hphys]⟩
    simp only [Hv.Backend.memShare]
    split
    · exact ⟨hi.handle, htaken, hi.apart, hi.size⟩
    · rename_i shmem hins
      have hp := Pool.reduceOption_insert hins
      refine ⟨Pool.forall_of_perm hp ?_ hi.handle, Pool.forall_of_perm hp ⟨s, hused, by rw [hstart]⟩ htaken, ?_,
        Pool.forall_of_perm hp ?_ fun g hg => ?_⟩
      · show _ % _ ^^^ _ = _
        rw [Nat.mod_eq_of_lt]
        have hram := hsize.1
        simp only [pageSize] at hram ⊢
        omega
      · refine (hp.map _).nodup_iff.mpr (List.nodup_cons.mpr ⟨fun hin => ?_, hi.apart⟩)
        obtain ⟨g, hg, hphys⟩ := List.mem_map.mp hin
        obtain ⟨i, hi, hphys'⟩ := hi.taken g hg
        have hsame : i = s := by
          simp only [pageSize] at hphys hphys'
          omega
        rw [← hsame, hi] at hfirst
        cases hfirst
      · exact Pool.forall_of_perm hp rfl fun g' hg' => (hsize.2 g' hg').symm
      · exact Pool.forall_of_perm hp (hsize.2 g hg) (hi.size g hg)

theorem Inv.identified (hi : Inv h) : Identified h := by
  have hinj : ∀ g ∈ h.regions, ∀ g' ∈ h.regions, g.handle = g'.handle → g = g' := by
    intro g hg g' hg' he
    rw [hi.handle g hg, hi.handle g' hg', hi.size g hg g' hg'] at he
    exact List.inj_on_of_nodup_map hi.apart hg hg' (Nat.xor_left_inj.mp he)
  refine ⟨List.Nodup.map_on hinj (List.Nodup.of_map _ hi.apart), fun g hg => ?_⟩
  have hsome : (h.regionFor g.handle).isSome = true :=
    List.find?_isSome.mpr ⟨g, hg, beq_self_eq_true g.handle⟩
  obtain ⟨g', hg'⟩ := Option.isSome_iff_exists.mp hsome
  have hhandle := List.find?_some hg'
  rw [hg', hinj g' (List.mem_of_find?_eq_some hg') g hg (beq_iff_eq.mp hhandle)]

/-- In every run in which all regions have one size, handles identify them. -/
theorem identified_of_sameSize {h₀ h : Host} {calls : List Nat} (hstart : h₀.shmem = List.replicate maxShmem none)
    (hrun : LTS.Run (LTS.guarded Step SameSize) h₀ calls h) : Identified h := by
  have hnone : h₀.regions = [] := by
    rw [regions, hstart]
    rfl
  have h₀inv : Inv h₀ := by
    refine ⟨?_, ?_, ?_, ?_⟩ <;> rw [hnone] <;> simp
  exact (hrun.invariant_guarded (fun _ _ _ hi hg hs => hs ▸ hi.step hg) h₀inv).identified

instance (h : Host) (pages : Nat) : Decidable (SameSize h pages) :=
  inferInstanceAs (Decidable (_ ∧ _))

theorem identified_of_sameSize_three : ∃ h, LTS.Run (LTS.guarded Step SameSize) bareHost [2, 2, 2] h ∧
    h.regions.map (·.handle) = [0x50002000, 0x50000000, 0x50006000] ∧ Identified h := by
  obtain ⟨h, hrun, hhandles⟩ := LTS.Run.exists_of_guarded
    (fun h pages => some (h.allocShmem pages).2) SameSize (S := Step) Option.some.inj bareHost [2, 2, 2]
    (fun h => h.regions.map (·.handle) = [0x50002000, 0x50000000, 0x50006000]) (by decide +kernel)
  exact ⟨h, hrun, hhandles, identified_of_sameSize rfl hrun⟩

/-- Two pages, one page and one page: the first and the last region get one handle. -/
theorem handles_collide : ¬ ∀ h₀ h calls, h₀.shmem = List.replicate maxShmem none →
    LTS.Run Step h₀ calls h → Identified h := by
  intro hall
  obtain ⟨h, hrun, hhandles⟩ := LTS.Run.exists_of_exec (fun h pages => some (h.allocShmem pages).2)
    (S := Step) Option.some.inj bareHost [2, 1, 1]
    (fun h => h.regions.map (·.handle) = [0x50002000, 0x50003000, 0x50002000]) (by decide +kernel)
  have hnodup := (hall bareHost h _ rfl hrun).handles
  rw [hhandles] at hnodup
  exact absurd hnodup (by decide)

end Host

end Tanix.Vm
