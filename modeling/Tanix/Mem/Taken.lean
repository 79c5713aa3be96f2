/-
# `Tanix.Mem.Taken` — operations that only take frames

All of the page-table code but `free_task_tables` asks the allocator for frames and
gives none back.  `Taken r r'` says so: the RAM window is the same and no frame is free
in `r'` that was not free in `r`.  It holds of every mapping helper, of the clone of the
kernel's tables, of spawning and of the fault path, whatever the memory holds.
-/
import Tanix.Lib.Gives
import Tanix.Mem.Calls
import Tanix.Mem.VmFault

namespace Tanix

structure Taken (r r' : Ram) : Prop where
  window : FrameAllocator.SameWindow r.frames r'.frames
  bits : ∀ i, r'.frames.free i = true → r.frames.free i = true

namespace Taken

theorem refl (r : Ram) : Taken r r :=
  ⟨.refl _, fun _ => id⟩

theorem trans {r r' r'' : Ram} (h : Taken r r') (h' : Taken r' r'') : Taken r r'' :=
  ⟨h.window.trans h'.window, fun i hi => h.bits i (h'.bits i hi)⟩

/-- Writing to memory takes nothing. -/
theorem of_frames {r r' : Ram} (h : r'.frames = r.frames) : Taken r r' := by
  refine ⟨h ▸ .refl _, fun i hi => ?_⟩
  rwa [h] at hi

end Taken

open Except (Ensures)
open FrameAllocator

theorem taken_setUsedRange (r : Ram) (s n : Nat) :
    Taken r { r with frames := r.frames.setUsedRange s n } := by
  refine ⟨sameWindow_setUsedRange _ s n, fun i hi => ?_⟩
  rw [setUsedRange_free, Bool.and_eq_true] at hi
  exact hi.1

theorem taken_reserveRegion (r : Ram) (start size : Nat) :
    Taken r { r with frames := r.frames.reserveRegion start size } := by
  unfold reserveRegion
  simp only
  split
  · exact .refl r
  · exact taken_setUsedRange r _ _

namespace Ram

variable {r r' : Ram}


theorem taken_loadRegion (r : Ram) (base : Nat) (img : Image) : Taken r (r.loadRegion base img) :=
  .of_frames rfl

variable {p base : Nat}

theorem taken_allocFrame (h : r.allocFrame = some (r', p)) : Taken r r' := by
  unfold allocFrame at h
  obtain ⟨⟨a, q⟩, ha, he⟩ := Option.map_eq_some_iff.mp h
  cases he
  obtain ⟨i, -, -, -, rfl⟩ := alloc_some ha
  refine ⟨sameWindow_setUsed _ i, fun j hj => ?_⟩
  rw [setUsed_free, Bool.and_eq_true] at hj
  exact hj.1

theorem taken_allocFrames {n : Nat} (h : r.allocFrames n = some (r', p)) : Taken r r' := by
  unfold allocFrames at h
  obtain ⟨⟨a, q⟩, ha, he⟩ := Option.map_eq_some_iff.mp h
  cases he
  obtain ⟨s, -, -, -, -, rfl⟩ := allocContiguous_some ha
  exact taken_setUsedRange r s n

variable (r)

/-- A computation whose memory afterwards has no frame free that `r` had not. -/
abbrev Takes {α : Type} (c : Except Panic (Ram × α)) : Prop :=
  c.Ensures fun x => Taken r x.1

theorem taken_allocTable : Takes r r.allocTable := by
  unfold allocTable
  split
  · exact .error
  · rename_i r₁ q hq
    exact .ok ((taken_allocFrame hq).trans (.of_frames rfl))

theorem taken_allocTableFrame : Takes r r.allocTableFrame := by
  unfold allocTableFrame
  split
  · exact .error
  · rename_i r₁ q hq
    exact .ok ((taken_allocFrame hq).trans (taken_reserveRegion r₁ q pageSize))

theorem taken_ensureTable (tbl : Nat) (i : Idx) : Takes r (r.ensureTable tbl i) := by
  refine .ite (.ok (.refl r)) ((taken_allocTable r).bind fun x hx => ?_)
  exact .ok (hx.trans (.of_frames rfl))

theorem taken_mapPage (l0 va pa flags : Nat) : (r.mapPage l0 va pa flags).Ensures (Taken r) := by
  refine .ite .error ((taken_ensureTable r _ _).bind fun x hx => ?_)
  refine (taken_ensureTable x.1 _ _).bind fun y hy => .ite (.ok (hx.trans hy)) ?_
  refine (taken_ensureTable y.1 _ _).bind fun z hz => ?_
  exact .ok (((hx.trans hy).trans hz).trans (.of_frames rfl))

variable {r}

theorem taken_cloneLevel (rem : Nat) : ∀ (r : Ram) (src : Nat), Takes r (cloneLevel rem r src) := by
  induction rem with
  | zero =>
    intro r src
    refine (taken_allocTableFrame r).bind fun x hx => ?_
    refine (Ensures.foldlM (R := Taken) .refl .trans fun s i _ => ?_).bind fun r₂ h₂ =>
      .ok (hx.trans h₂)
    exact .ok (.of_frames rfl)
  | succ rem ih =>
    intro r src
    refine (taken_allocTableFrame r).bind fun x hx => ?_
    refine (Ensures.foldlM (R := Taken) .refl .trans fun s i _ => ?_).bind fun r₂ h₂ =>
      .ok (hx.trans h₂)
    refine .ite ((ih s _).bind fun y hy => .ok (hy.trans (.of_frames rfl))) ?_
    exact .ok (.of_frames rfl)

variable (r)

theorem taken_splitBlock (l2 cur : Nat) : (r.splitBlock l2 cur).Ensures (Taken r) := by
  refine .ite ((taken_allocTableFrame r).bind fun x hx => ?_) (.ok (.refl r))
  exact .ok (hx.trans (.of_frames rfl))

theorem taken_mapUserPage (l2 va offset flags : Nat) :
    (r.mapUserPage l2 va offset flags).Ensures (Taken r) := by
  refine Ensures.after fun cur => (taken_splitBlock r l2 cur).bind fun r₁ h₁ => ?_
  refine (taken_ensureTable r₁ _ _).bind fun x hx => ?_
  exact .ok ((h₁.trans hx).trans (.of_frames rfl))

theorem taken_mapUserPages (root va size flags : Nat) :
    (r.mapUserPages root va size flags).Ensures (Taken r) := by
  refine .ite .error ((taken_ensureTable r _ _).bind fun x hx => ?_)
  refine (taken_ensureTable x.1 _ _).bind fun y hy r' h => (hx.trans hy).trans ?_
  exact Ensures.foldlM (R := Taken) .refl .trans (fun s i _ => taken_mapUserPage s _ _ _ _) h

theorem taken_mapIfUser (root va size flags : Nat) :
    (r.mapIfUser root va size flags).Ensures (Taken r) :=
  .ite (taken_mapUserPages r _ _ _ _) (.ok (.refl r))

theorem taken_mapUserFrame (root va pa flags : Nat) :
    (r.mapUserFrame root va pa flags).Ensures (Taken r) := by
  refine .ite .error ((taken_ensureTable r _ _).bind fun x hx => ?_)
  refine (taken_ensureTable x.1 _ _).bind fun y hy => ?_
  refine (taken_ensureTable y.1 _ _).bind fun z hz => ?_
  exact .ok (((hx.trans hy).trans hz).trans (.of_frames rfl))

/-! ## Calls -/

theorem taken_mapDevicePages (l0 base pages : Nat) :
    (r.mapDevicePages l0 base pages).Ensures (Taken r) :=
  Ensures.foldlM (R := Taken) .refl .trans fun s _ _ => taken_mapPage s _ _ _ _

theorem taken_sysAllocFrames (ttbr0 : Nat) (pages : UInt32) :
    Takes r (r.sysAllocFrames ttbr0 pages) := by
  unfold sysAllocFrames
  split
  · exact .ok (.refl r)
  · rename_i r₁ base h₁
    exact (taken_mapIfUser r₁ _ _ _ _).bind fun r₂ h₂ => .ok ((taken_allocFrames h₁).trans h₂)

variable (b : Board) (name : String) (dst : Option Nat) (ttbr0 : Nat)

theorem taken_sysMapDevice (phys pages : UInt64) :
    Takes r (r.sysMapDevice b name ttbr0 phys pages) := by
  refine .ite (.ok (.refl r)) (.ite (.ok (.refl r)) (.ite (.ok (.refl r)) ?_))
  refine (taken_mapDevicePages r _ _ _).bind fun r₁ h₁ => ?_
  exact (taken_mapIfUser r₁ _ _ _ _).bind fun r₂ h₂ => .ok (h₁.trans h₂)

theorem taken_sysMapCap (idx : UInt64) : Takes r (r.sysMapCap b name ttbr0 idx) := by
  refine .ite (.ok (.refl r)) ?_
  split
  · exact .ok (.refl r)
  · refine .ite (.ok (.refl r)) ((taken_mapDevicePages r _ _ _).bind fun r₁ h₁ => ?_)
    exact (taken_mapIfUser r₁ _ _ _ _).bind fun r₂ h₂ => .ok (h₁.trans h₂)

theorem taken_sysMapCow (phys : UInt64) (pages : UInt32) :
    Takes r (r.sysMapCow dst phys pages) := by
  refine .ite (.ok (.refl r)) (.ite (.ok (.refl r)) (.after fun fin => ?_))
  refine .ite (.ok (.refl r)) ?_
  cases dst with
  | none => exact .ok (.refl r)
  | some ttbr0 => exact (taken_mapIfUser r _ _ _ _).bind fun r₁ h₁ => .ok h₁

theorem taken_sysShareFrames (base : UInt64) (pages : UInt32) :
    Takes r (r.sysShareFrames dst base pages) := by
  refine .ite (.ok (.refl r)) ?_
  cases dst with
  | none => exact .ok (.refl r)
  | some ttbr0 => exact (taken_mapIfUser r _ _ _ _).bind fun r₁ h₁ => .ok h₁

theorem taken_sysUnshareFrames (base : UInt64) (pages : UInt32) :
    Takes r (r.sysUnshareFrames dst base pages) := by
  refine .ite (.ok (.refl r)) ?_
  cases dst with
  | none => exact .ok (.refl r)
  | some ttbr0 =>
    refine .ite (.ok (.refl r)) (.bind (P := Taken r) ?_ fun r₁ h₁ => .ok h₁)
    refine Ensures.foldlM (R := Taken) .refl .trans fun s i _ => ?_
    exact .after fun va => taken_mapUserPages s _ _ _ _

/-! ## Spawning and faults -/

variable {b : Board} {name : String}

variable {r}

theorem taken_userSpace {bootPage ttbr0 : Nat}
    (h : b.userSpace r name base bootPage = .ok (r', ttbr0)) : Taken r r' := by
  obtain ⟨-, -, r₁, r₂, r₃, r₄, h₁, h₂, h₃, h₄, h₅⟩ := Board.userSpace_ok h
  have ht := (((taken_cloneLevel 3 _ _ h₁).trans (taken_mapUserPages _ _ _ _ _ h₂)).trans
    (taken_mapUserPages _ _ _ _ _ h₃)).trans (taken_mapUserPages _ _ _ _ _ h₄)
  rcases h₅ with rfl | h₅
  · exact ht
  · exact ht.trans (taken_mapUserPages _ _ _ _ _ h₅)

theorem taken_spawning {s s' : Scheduler} {res : Except Int32 UInt32}
    (h : b.Spawning s r name s' r' res) : Taken r r' := by
  cases h with
  | unknown => exact .refl r
  | refused => exact .of_frames rfl
  | full _ _ _ _ _ _ _ hspace => exact (taken_loadRegion r _ _).trans (taken_userSpace hspace)
  | spawned _ _ _ _ _ _ _ _ _ hspace =>
    exact ((taken_loadRegion r _ _).trans (taken_userSpace hspace)).trans (.of_frames rfl)

theorem taken_openPage {zeroPage ttbr0 page : Nat} {kind : RegionKind} {handled : Bool}
    (h : r.openPage zeroPage ttbr0 page kind = .ok (r', handled)) : Taken r r' := by
  cases kind with
  | none =>
    cases h
    exact .refl r
  | stack | demand =>
    obtain ⟨r₁, h₁, h⟩ := bind_eq_ok.mp h
    cases h
    exact taken_mapUserFrame _ _ _ _ _ h₁

theorem taken_cowSplit (r : Ram) (root va entry : Nat) : Taken r (r.cowSplit root va entry).1 := by
  unfold cowSplit
  split
  · exact .refl r
  · rename_i r₁ fresh h₁
    exact (taken_allocFrame h₁).trans (.of_frames rfl)

theorem taken_resolveUserFault {zeroPage ttbr0 far esr : Nat}
    {regions : Fin taskRegions → TaskRegion} {handled : Bool}
    (h : r.resolveUserFault zeroPage ttbr0 regions far esr = .ok (r', handled)) : Taken r r' := by
  cases (resolveUserFault_ok h).1 with
  | refused => exact .refl r
  | opened _ _ _ _ _ ho => exact taken_openPage ho
  | split => exact taken_cowSplit r _ _ _
  | flagged => exact .of_frames rfl

end Ram

end Tanix
