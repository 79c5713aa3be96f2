/-
# `Tanix.Mem.VmFault` — repairing user faults

`resolve_user_fault` of `kernel/src/mem/vm_fault.rs`: demand pages, stack growth
and copy-on-write, for a data abort at `far` with syndrome `esr`, taken by a task
with root `ttbr0` and the windows `regions`.

    fault class (bits [5:0])   what is repaired
    4-7   translation          a page of a stack or demand window
    12-15 permission           a copy-on-write page, else a page of a window
    8-11  access flag          a copy-on-write page, else a clear access flag
-/
import Tanix.Sched.Lifecycle
import Tanix.Mem.PageTable

namespace Tanix

/-- `in_class` -/
def inClass (dfsc first : Nat) : Bool :=
  decide (first ≤ dfsc) && decide (dfsc ≤ first + 3)

/-- Does the window hold this page? -/
def TaskRegion.covers (w : TaskRegion) (page : Nat) : Bool :=
  decide (w.base ≤ page) && decide (page < w.base + w.pages * pageSize)

namespace Ram

/-- Open a page of a window: the frame itself for a stack, the zero page for a demand window. -/
def openPage (r : Ram) (zeroPage ttbr0 page : Nat) : RegionKind → Except Panic (Ram × Bool)
  | .none => .ok (r, false)
  | .stack => do
      let r ← r.mapUserFrame ttbr0 page page flagsUserRwx
      return (r, true)
  | .demand => do
      let r ← r.mapUserFrame ttbr0 page zeroPage flagsUserCow
      return (r, true)

/-- `cow_split` -/
def cowSplit (r : Ram) (root va entry : Nat) : Ram × Bool :=
  match r.allocFrame with
  | none => (r, false)
  | some (r', fresh) =>
    let r' := r'.setPage fresh (r'.mem (addrOf entry))
    (r'.writeUserPage root va (fresh ||| flagsUserRwx), true)

/-- `resolve_user_fault`: the memory afterwards, and whether the instruction may run again. -/
def resolveUserFault (r : Ram) (zeroPage ttbr0 : Nat) (regions : Fin taskRegions → TaskRegion)
    (far esr : Nat) : Except Panic (Ram × Bool) :=
  let d := esr % 64
  let page := pageDown far
  if ttbr0 = 0 then .ok (r, false)
  else if inClass d 0b000100 then
    match (List.finRange taskRegions).find? fun i =>
        (regions i).kind != .none && (regions i).covers page with
    | none => .ok (r, false)
    | some i => r.openPage zeroPage ttbr0 page (regions i).kind
  else if inClass d 0b001100 then
    let entry := r.readUserPage ttbr0 page
    if isValid entry && isCow entry then .ok (r.cowSplit ttbr0 page entry)
    else
      match (List.finRange taskRegions).find? fun i => (regions i).covers page with
      | none => .ok (r, false)
      | some i => r.openPage zeroPage ttbr0 page (regions i).kind
  else if inClass d 0b001000 then
    let entry := r.readUserPage ttbr0 page
    if isValid entry && isCow entry then .ok (r.cowSplit ttbr0 page entry)
    else if isValid entry && !isCow entry && (entry &&& descAf == 0) then
      .ok (r.writeUserPage ttbr0 page (entry ||| descAf), true)
    else .ok (r, false)
  else .ok (r, false)

/-- What `resolve_user_fault` can do: nothing, open a page of a window, split a copy-on-write
page, or set an access flag. -/
inductive Resolves (r : Ram) (zeroPage ttbr0 : Nat) (regions : Fin taskRegions → TaskRegion)
    (far : Nat) : Ram → Bool → Prop
  | refused : Resolves r zeroPage ttbr0 regions far r false
  | opened (i : Fin taskRegions) (r' : Ram) (h : Bool) (h0 : ttbr0 ≠ 0)
      (hcovers : (regions i).covers (pageDown far) = true)
      (ho : r.openPage zeroPage ttbr0 (pageDown far) (regions i).kind = .ok (r', h)) :
      Resolves r zeroPage ttbr0 regions far r' h
  | split (h0 : ttbr0 ≠ 0) (hvalid : isValid (r.readUserPage ttbr0 (pageDown far)) = true)
      (hcow : isCow (r.readUserPage ttbr0 (pageDown far)) = true) :
      Resolves r zeroPage ttbr0 regions far
        (r.cowSplit ttbr0 (pageDown far) (r.readUserPage ttbr0 (pageDown far))).1
        (r.cowSplit ttbr0 (pageDown far) (r.readUserPage ttbr0 (pageDown far))).2
  | flagged (h0 : ttbr0 ≠ 0) (hvalid : isValid (r.readUserPage ttbr0 (pageDown far)) = true) :
      Resolves r zeroPage ttbr0 regions far (r.writeUserPage ttbr0 (pageDown far)
        (r.readUserPage ttbr0 (pageDown far) ||| descAf)) true

/-- The faults that `resolve_user_fault` repairs. -/
def repairable (r : Ram) (ttbr0 : Nat) (regions : Fin taskRegions → TaskRegion) (far esr : Nat) :
    Bool :=
  let d := esr % 64
  let page := pageDown far
  let entry := r.readUserPage ttbr0 page
  if ttbr0 = 0 then false
  else if inClass d 0b000100 then
    (List.finRange taskRegions).any fun i => (regions i).kind != .none && (regions i).covers page
  else if inClass d 0b001100 then
    if isValid entry && isCow entry then r.allocFrame.isSome
    else ((List.finRange taskRegions).find? fun i => (regions i).covers page).any fun i =>
      (regions i).kind != .none
  else if inClass d 0b001000 then
    if isValid entry && isCow entry then r.allocFrame.isSome
    else isValid entry && (entry &&& descAf == 0)
  else false

theorem openPage_handled {r r' : Ram} {zeroPage ttbr0 page : Nat} {kind : RegionKind} {h : Bool}
    (ho : r.openPage zeroPage ttbr0 page kind = .ok (r', h)) : h = (kind != .none) := by
  cases kind with
  | none =>
    cases ho
    rfl
  | stack | demand =>
    obtain ⟨r₁, -, ho⟩ := bind_eq_ok.mp ho
    cases ho
    rfl

theorem cowSplit_handled (r : Ram) (root va entry : Nat) :
    (r.cowSplit root va entry).2 = r.allocFrame.isSome := by
  unfold cowSplit
  split
  · rename_i hr
    rw [hr]
    rfl
  · rename_i hr
    rw [hr]
    rfl

theorem resolveUserFault_ok {r r' : Ram} {zeroPage ttbr0 far esr : Nat}
    {regions : Fin taskRegions → TaskRegion} {h : Bool}
    (hr : r.resolveUserFault zeroPage ttbr0 regions far esr = .ok (r', h)) :
    Resolves r zeroPage ttbr0 regions far r' h ∧ h = r.repairable ttbr0 regions far esr := by
  unfold resolveUserFault at hr
  unfold repairable
  simp only at hr ⊢
  split at hr
  · rename_i h0
    cases hr
    exact ⟨.refused, by rw [if_pos h0]⟩
  rename_i h0
  rw [if_neg h0]
  have hsplit : (isValid (r.readUserPage ttbr0 (pageDown far)) &&
      isCow (r.readUserPage ttbr0 (pageDown far))) = true →
      Except.ok (ε := Panic) (r.cowSplit ttbr0 (pageDown far)
        (r.readUserPage ttbr0 (pageDown far))) = .ok (r', h) →
      Resolves r zeroPage ttbr0 regions far r' h ∧ h = r.allocFrame.isSome := by
    intro hcow he
    obtain ⟨hv, hc⟩ := Bool.and_eq_true_iff.mp hcow
    have hres : Resolves r zeroPage ttbr0 regions far _ _ := .split h0 hv hc
    rw [← cowSplit_handled r ttbr0 (pageDown far) (r.readUserPage ttbr0 (pageDown far))]
    rw [Except.ok.inj he] at hres ⊢
    exact ⟨hres, rfl⟩
  split at hr
  · rename_i htrans
    rw [if_pos htrans]
    split at hr
    · rename_i hfind
      cases hr
      exact ⟨.refused, by simpa using hfind⟩
    · rename_i i hfind
      have hp := List.find?_some hfind
      refine ⟨.opened i r' h h0 (Bool.and_eq_true_iff.mp hp).2 hr, ?_⟩
      rw [openPage_handled hr, (Bool.and_eq_true_iff.mp hp).1]
      exact (List.any_eq_true.mpr ⟨i, List.mem_finRange i, hp⟩).symm
  rename_i htrans
  rw [if_neg htrans]
  split at hr
  · rename_i hperm
    rw [if_pos hperm]
    split at hr
    · rename_i hcow
      rw [if_pos hcow]
      exact hsplit hcow hr
    · rename_i hcow
      rw [if_neg hcow]
      split at hr
      · rename_i hfind
        cases hr
        exact ⟨.refused, by rw [hfind]; rfl⟩
      · rename_i i hfind
        have hp := List.find?_some hfind
        exact ⟨.opened i r' h h0 hp hr, by rw [openPage_handled hr, hfind]; rfl⟩
  rename_i hperm
  rw [if_neg hperm]
  split at hr
  · rename_i hflag
    rw [if_pos hflag]
    split at hr
    · rename_i hcow
      rw [if_pos hcow]
      exact hsplit hcow hr
    · rename_i hcow
      rw [if_neg hcow]
      split at hr
      · rename_i haf
        cases hr
        simp only [Bool.and_eq_true] at haf
        exact ⟨.flagged h0 haf.1.1, by rw [haf.1.1, haf.2]; rfl⟩
      · rename_i haf
        cases hr
        refine ⟨.refused, ?_⟩
        cases hv : isValid (r.readUserPage ttbr0 (pageDown far)) with
        | false => rfl
        | true =>
          rw [hv, Bool.true_and] at hcow haf
          rw [Bool.not_eq_true] at hcow
          rw [hcow] at haf
          simpa using haf
  · rename_i hflag
    cases hr
    exact ⟨.refused, by rw [if_neg hflag]⟩

end Ram

end Tanix
