/-
# `Tanix.Vm.Tenants` — the co-tenant scheduler

`run` of `kernel/src/vm/sched.rs`: the tenants take slices in turn until all of them have
parked or the passes are used up.  A step is one turn of the code: into a pass, a slice, or
out of a loop.  What a slice brings is up to the guest and the backend, so every step comes
with an `Outcome`, which is looked at when a vCPU is run.

    two tenants that have not parked are at most one slice apart,
    and a tenant that was seen parked is not run again              (`slices_even`)
    preemption is disarmed on return iff no vCPU failed             (`disarmed_iff`)

The tenants before the cursor are one slice ahead of those from the cursor on (`Ahead`).
-/
import Tanix.Lib.Run
import Tanix.Hv.Backend

namespace Tanix.Vm

open Hv (Backend)
open Option LTS

/-- `VcpuExit`, with the exits of every backend -/
inductive Exit where
  | irq
  | trappedCall (func arg1 arg2 arg3 : UInt64)
  | powerOff
  | yielded
  | preempted
  deriving DecidableEq, Repr

/-- The statistics of a tenant; its VM and its channel are behind the outcomes. -/
structure Tenant where
  runs : Nat
  preempts : Nat
  yields : Nat
  echoes : Nat
  parked : Bool
  deriving DecidableEq, Repr

def Tenant.new : Tenant :=
  { runs := 0, preempts := 0, yields := 0, echoes := 0, parked := false }

def guestParked : UInt32 := 2

/-- What `vcpu_run` returns, whether the print was echoed, and the state word of the guest. -/
structure Outcome where
  exit : Except Hv.HvError Exit
  echoed : Bool
  state : UInt32

/-- At the `while`, in the `for` with `left` turns to go, or back at the caller. -/
inductive Pc where
  | top
  | slices (left : Nat)
  | returned (r : Except Hv.HvError Unit)
  deriving DecidableEq

structure Rota where
  tenants : List Tenant
  maxPasses : Nat
  cursor : Nat
  pass : Nat
  parked : Nat
  hv : Backend
  pc : Pc

/-- The next tenant that has not parked, `left` tenants from `idx` on. -/
def seek (ts : List Tenant) : (left idx : Nat) → Option Nat
  | 0, _ => none
  | left + 1, idx =>
    if ts[idx]?.any Tenant.parked then seek ts left ((idx + 1) % ts.length) else some idx

/-- The statistics after a slice. -/
def Tenant.after (t : Tenant) (x : Exit) (o : Outcome) : Tenant where
  runs := t.runs + 1
  preempts := if x = .preempted then t.preempts + 1 else t.preempts
  yields := if x = .yielded then t.yields + 1 else t.yields
  echoes := if o.echoed then t.echoes + 1 else t.echoes
  parked := t.parked || o.state == guestParked

namespace Rota

def start (tenants : List Tenant) (quantumTicks maxPasses : Nat) (hv : Backend) : Rota where
  tenants := tenants
  maxPasses := maxPasses
  cursor := 0
  pass := 0
  parked := 0
  hv := hv.enableGuestPreemption quantumTicks
  pc := .top

def finish (s : Rota) : Rota :=
  { s with hv := s.hv.disableGuestPreemption, pc := .returned (.ok ()) }

/-- The tenant whose vCPU the next step runs. -/
def due (s : Rota) : Option Nat :=
  match s.pc with
  | .slices (_ + 1) => seek s.tenants s.tenants.length s.cursor
  | _ => none

/-- One slice; `none` where a digit of `round_text` leaves its byte. -/
def slice (s : Rota) (idx left : Nat) (o : Outcome) : Option Rota :=
  let s := { s with cursor := (idx + 1) % s.tenants.length }
  if 208 ≤ s.pass / 1000 % 256 then none
  else
    match o.exit with
    | .error e => some { s with pc := .returned (.error e) }
    | .ok x =>
      some { s with
        tenants := s.tenants.modify idx fun t => t.after x o
        parked := if o.state = guestParked then s.parked + 1 else s.parked
        pc := .slices left }

def next (s : Rota) (o : Outcome) : Option Rota :=
  match s.pc with
  | .returned _ => none
  | .top =>
    if s.pass < s.maxPasses then
      let s := { s with pass := s.pass + 1 }
      if s.tenants.length ≤ s.parked then some s.finish
      else some { s with pc := .slices s.tenants.length }
    else some s.finish
  | .slices 0 => some { s with pc := .top }
  | .slices (left + 1) =>
    match seek s.tenants s.tenants.length s.cursor with
    | none => some { s with pc := .top }
    | some idx => s.slice idx left o

def Step (s : Rota) (o : Outcome) (s' : Rota) : Prop :=
  next s o = some s'

/-! ## What a step does -/

inductive Moves (s : Rota) (o : Outcome) : Rota → Prop
  | on {pass : Nat} {pc : Pc} (hpc : ∀ r, pc ≠ .returned r) (hdue : s.due = none) :
      Moves s o { s with pass := pass, pc := pc }
  | finished {pass : Nat} (hdue : s.due = none) : Moves s o { s with pass := pass }.finish
  | failed {idx : Nat} {e : Hv.HvError} (hdue : s.due = some idx) (hexit : o.exit = .error e) :
      Moves s o { s with cursor := (idx + 1) % s.tenants.length, pc := .returned (.error e) }
  | ran {idx left parked : Nat} {x : Exit} (hdue : s.due = some idx) (hexit : o.exit = .ok x) :
      Moves s o { s with
        tenants := s.tenants.modify idx fun t => t.after x o
        cursor := (idx + 1) % s.tenants.length
        parked := parked
        pc := .slices left }

variable {s s' : Rota} {o : Outcome} {os : List Outcome} {ts : List Tenant} {i : Nat}

theorem moves (h : Step s o s') : (∀ r, s.pc ≠ .returned r) ∧ Moves s o s' := by
  unfold Step next at h
  split at h
  · cases h
  · rename_i hpc
    have hdue : s.due = none := by rw [due, hpc]
    refine ⟨by simp [hpc], ?_⟩
    simp only at h
    split at h
    · split at h <;> cases h
      · exact .finished hdue
      · exact .on (by simp) hdue
    · cases h
      exact .finished hdue
  · rename_i hpc
    cases h
    exact ⟨by simp [hpc], .on (by simp) (by rw [due, hpc])⟩
  · rename_i left hpc
    have hdue : s.due = seek s.tenants s.tenants.length s.cursor := by rw [due, hpc]
    refine ⟨by simp [hpc], ?_⟩
    split at h
    · rename_i hseek
      cases h
      exact .on (by simp) (hdue.trans hseek)
    · rename_i idx hseek
      unfold slice at h
      simp only at h
      split at h
      · cases h
      · split at h <;> cases h
        · rename_i e hexit
          exact .failed (hdue.trans hseek) hexit
        · rename_i x hexit
          exact .ran (hdue.trans hseek) hexit

/-! ## Slices -/

theorem seek_free {left idx j : Nat} (h : seek ts left idx = some j) :
    ts[j]?.any Tenant.parked = false := by
  induction left generalizing idx with
  | zero => cases h
  | succ left ih =>
    unfold seek at h
    split at h
    · exact ih h
    · rename_i hfree
      cases h
      exact Bool.eq_false_iff.mpr hfree

/-- All tenants from `idx` up to the one found have parked, around the end of the list. -/
theorem seek_some {left idx j : Nat} (hidx : idx < ts.length) (h : seek ts left idx = some j) :
    j < ts.length ∧ ∀ k t, ts[k]? = some t → t.parked = false →
      if idx ≤ j then ¬ (idx ≤ k ∧ k < j) else j ≤ k ∧ k < idx := by
  have hfree := seek_free h
  induction left generalizing idx with
  | zero => cases h
  | succ left ih =>
    unfold seek at h
    split at h
    · rename_i hparked
      obtain ⟨hj, hbetween⟩ := ih (Nat.mod_lt (idx + 1) (Nat.zero_lt_of_lt hidx)) h
      refine ⟨hj, fun k t hk ht => ?_⟩
      have hlt := (List.getElem?_eq_some_iff.mp hk).1
      -- neither of the two is the parked tenant passed over
      have hki : k ≠ idx := by
        rintro rfl
        rw [hk, any_some, ht] at hparked
        cases hparked
      have hji : j ≠ idx := by
        rintro rfl
        rw [hfree] at hparked
        cases hparked
      have hother := hbetween k t hk ht
      by_cases hin : idx + 1 < ts.length
      · rw [Nat.mod_eq_of_lt hin] at hother
        split_ifs at hother ⊢ <;> omega
      · rw [show idx + 1 = ts.length by omega, Nat.mod_self] at hother
        split_ifs at hother ⊢ <;> omega
    · cases h
      refine ⟨hidx, fun k t _ _ => ?_⟩
      rw [if_pos (Nat.le_refl _)]
      omega

theorem due_cursor (h : s.due = some i) : seek s.tenants s.tenants.length s.cursor = some i := by
  unfold due at h
  split at h
  · exact h
  · cases h

theorem length_pos (h : s.due = some i) : 0 < s.tenants.length := by
  refine Nat.pos_of_ne_zero fun h0 => ?_
  have hseek := due_cursor h
  rw [h0] at hseek
  cases hseek

/-- The slices of tenant `i`, with the cursor at `c` in round `k`. -/
def share (c k i : Nat) : Nat :=
  if i < c then k + 1 else k

/-- The tenant found was the next in line. -/
theorem share_next {n c idx j : Nat} (k : Nat) (hc : c < n) (hidx : idx < n) (hj : j < n)
    (hpast : if c ≤ idx then ¬ (c ≤ j ∧ j < idx) else idx ≤ j ∧ j < c) :
    share c k j + (if idx = j then 1 else 0) =
      share ((idx + 1) % n) (if c ≤ idx ∧ idx + 1 < n then k else k + 1) j := by
  unfold share
  by_cases hin : idx + 1 < n
  · rw [Nat.mod_eq_of_lt hin]
    split_ifs at hpast ⊢ <;> omega
  · rw [show idx + 1 = n by omega, Nat.mod_self]
    split_ifs at hpast ⊢ <;> omega

/-- Every tenant that has not parked has its share.  A run that failed has moved the cursor past
a tenant that got no slice. -/
def Ahead (ts : List Tenant) (s : Rota) : Prop :=
  ∃ c k, ((∀ r, s.pc ≠ .returned r) → s.cursor = c) ∧ (0 < s.tenants.length → c < s.tenants.length) ∧
    ∀ i t t₀, s.tenants[i]? = some t → ts[i]? = some t₀ → t.parked = false →
      t.runs = t₀.runs + share c k i

theorem ahead_step (h : Ahead ts s) (hstep : Step s o s') : Ahead ts s' := by
  obtain ⟨hpc, hm⟩ := moves hstep
  obtain ⟨c, k, hc, hlt, hruns⟩ := h
  obtain rfl := hc hpc
  cases hm with
  | on | finished => exact ⟨s.cursor, k, fun _ => rfl, hlt, hruns⟩
  | failed => exact ⟨s.cursor, k, fun hr => absurd rfl (hr _), hlt, hruns⟩
  | @ran idx left parked x hdue hexit =>
    have hpos := length_pos hdue
    obtain ⟨hidx, hbetween⟩ := seek_some (hlt hpos) (due_cursor hdue)
    refine ⟨_, if s.cursor ≤ idx ∧ idx + 1 < s.tenants.length then k else k + 1, fun _ => rfl,
      fun _ => ?_, ?_⟩
    · show _ < (s.tenants.modify idx _).length
      rw [List.length_modify]
      exact Nat.mod_lt _ hpos
    · intro j t t₀ ht ht₀ hnot
      change (s.tenants.modify idx _)[j]? = some t at ht
      rw [List.getElem?_modify] at ht
      obtain ⟨u, hu, rfl⟩ := map_eq_some_iff.mp ht
      have hup : u.parked = false := by
        split at hnot
        · exact (Bool.or_eq_false_iff.mp hnot).1
        · exact hnot
      have hj := (List.getElem?_eq_some_iff.mp hu).1
      rw [← share_next k (hlt hpos) hidx hj (hbetween j u hu hup), ← Nat.add_assoc,
        ← hruns j u t₀ hu ht₀ hup]
      split <;> rfl

/-- Not in the rotation any more. -/
def Retired (i : Nat) (s : Rota) : Prop :=
  s.tenants[i]?.any Tenant.parked = true

theorem Retired.not_due (h : Retired i s) : s.due ≠ some i := by
  intro hdue
  have hfree := seek_free (due_cursor hdue)
  rw [show s.tenants[i]?.any Tenant.parked = true from h] at hfree
  cases hfree

theorem Retired.step (h : Retired i s) (hstep : Step s o s') : Retired i s' := by
  cases (moves hstep).2 with
  | on | finished | failed => exact h
  | ran =>
    unfold Retired at h ⊢
    rw [List.getElem?_modify]
    cases hi : s.tenants[i]? with
    | none =>
      rw [hi] at h
      cases h
    | some t =>
      rw [hi, any_some] at h
      rw [map_eq_map, map_some, any_some]
      split
      · exact Bool.or_eq_true_iff.mpr (Or.inl h)
      · exact h

theorem Ahead.retires (h : Ahead ts s) {x : Exit} (hdue : s.due = some i) (hexit : o.exit = .ok x)
    (hstate : o.state = guestParked) (hstep : Step s o s') : Retired i s' := by
  obtain ⟨hpc, hm⟩ := moves hstep
  cases hm with
  | on _ hno | finished hno =>
    rw [hdue] at hno
    cases hno
  | failed _ hfail =>
    rw [hexit] at hfail
    cases hfail
  | @ran idx left parked y hrun =>
    cases hdue.symm.trans hrun
    obtain ⟨c, k, hc, hlt, -⟩ := h
    obtain rfl := hc hpc
    have hi := (seek_some (hlt (length_pos hdue)) (due_cursor hdue)).1
    unfold Retired
    rw [List.getElem?_modify, List.getElem?_eq_getElem hi, map_eq_map, map_some,
      any_some, if_pos rfl]
    simp [Tenant.after, hstate]

/-! ## Fairness -/

/-- Slices given since the run started, to two tenants that have not parked. -/
def Even (ts : List Tenant) (s : Rota) : Prop :=
  ∀ (i j : Nat) (t u t₀ u₀ : Tenant), s.tenants[i]? = some t → s.tenants[j]? = some u →
    ts[i]? = some t₀ → ts[j]? = some u₀ → t.parked = false → u.parked = false →
      t.runs - t₀.runs ≤ u.runs - u₀.runs + 1

variable {quantumTicks maxPasses : Nat} {hv : Backend}

theorem ahead_start : Ahead ts (start ts quantumTicks maxPasses hv) := by
  refine ⟨0, 0, fun _ => rfl, id, fun i t t₀ ht ht₀ _ => ?_⟩
  cases ht.symm.trans ht₀
  rfl

theorem slices_even (h : Run Step (start ts quantumTicks maxPasses hv) os s) :
    Even ts s ∧ ∀ i o x s₁ os' s₂, s.due = some i → o.exit = .ok x → o.state = guestParked →
      Step s o s₁ → Run Step s₁ os' s₂ → s₂.due ≠ some i := by
  have hahead := h.invariant (I := Ahead ts) (fun _ _ _ => ahead_step) ahead_start
  constructor
  · obtain ⟨c, k, -, -, hruns⟩ := hahead
    intro i j t u t₀ u₀ ht hu ht₀ hu₀ hpt hpu
    have hi := hruns i t t₀ ht ht₀ hpt
    have hj := hruns j u u₀ hu hu₀ hpu
    unfold share at hi hj
    split at hi <;> split at hj <;> omega
  · intro i o x s₁ os' s₂ hdue hexit hstate hstep hrest
    have hretired := hahead.retires hdue hexit hstate hstep
    exact (hrest.invariant (I := Retired i) (fun _ _ _ => Retired.step) hretired).not_due

/-- Two tenants, three slices. -/
theorem slices_even_two : ∃ s : Rota, s.tenants.map Tenant.runs = [2, 1] ∧ Even [.new, .new] s := by
  obtain ⟨s, hrun, hs⟩ := Run.exists_of_exec next id (start [.new, .new] 2 200 .new)
    (List.replicate 6 ⟨.ok .yielded, true, 0⟩) (fun s => s.tenants.map Tenant.runs = [2, 1])
    (by decide +kernel)
  exact ⟨s, hs, (slices_even hrun).1⟩

/-! ## Disarming -/

def Disarmed (s : Rota) : Prop :=
  s.hv.preemptEnabled = false ∧ s.hv.quantumTicks = 0

/-- The vCPU that is run does not fail. -/
def Succeeds (s : Rota) (o : Outcome) : Prop :=
  s.due ≠ none → ∃ x, o.exit = .ok x

theorem returned_stays {r : Except Hv.HvError Unit} (hr : s.pc = .returned r)
    (h : Run Step s os s') : os = [] ∧ s' = s := by
  cases h with
  | nil => exact ⟨rfl, rfl⟩
  | cons hstep => exact absurd hr ((moves hstep).1 r)

/-- A run that ends disarmed has met no error: it would have ended there. -/
theorem succeeds_of_disarmed (h : Run Step s os s') (harmed : s.hv.preemptEnabled = true)
    (hd : Disarmed s') : Run (guarded Step Succeeds) s os s' := by
  induction h with
  | nil s => exact .nil s
  | @cons s s₁ s' o os hstep hrest ih =>
    cases (moves hstep).2 with
    | on _ hdue => exact .cons ⟨fun hne => absurd hdue hne, hstep⟩ (ih harmed hd)
    | finished hdue =>
      obtain ⟨rfl, rfl⟩ := returned_stays rfl hrest
      exact .cons ⟨fun hne => absurd hdue hne, hstep⟩ (.nil _)
    | failed =>
      obtain ⟨rfl, rfl⟩ := returned_stays rfl hrest
      cases harmed.symm.trans hd.1
    | ran _ hexit => exact .cons ⟨fun _ => ⟨_, hexit⟩, hstep⟩ (ih harmed hd)

theorem disarmed_step (hg : Succeeds s o) (hstep : Step s o s') {r : Except Hv.HvError Unit}
    (hr : s'.pc = .returned r) : Disarmed s' := by
  cases (moves hstep).2 with
  | on hpc => exact absurd hr (hpc r)
  | finished => exact ⟨rfl, rfl⟩
  | failed hdue hfail =>
    obtain ⟨x, hx⟩ := hg (by simp [hdue])
    cases hx.symm.trans hfail
  | ran => cases hr

/-- When the scheduler has returned, preemption is off exactly if every vCPU that was run came
back without an error. -/
theorem disarmed_iff (h : Run Step (start ts quantumTicks maxPasses hv) os s)
    {r : Except Hv.HvError Unit} (hr : s.pc = .returned r) :
    Disarmed s ↔ Run (guarded Step Succeeds) (start ts quantumTicks maxPasses hv) os s := by
  constructor
  · exact succeeds_of_disarmed h rfl
  · intro hg
    refine hg.invariant_guarded (I := fun s => ∀ r, s.pc = .returned r → Disarmed s) ?_ ?_ r hr
    · exact fun _ _ _ _ hg hstep r hr => disarmed_step hg hstep hr
    · exact fun r hr => by cases hr

theorem disarmed_iff_one :
    ∃ s : Rota, s.pc = .returned (.ok ()) ∧ (Disarmed s ↔ Run (guarded Step Succeeds)
      (start [.new] 2 1 .new) (List.replicate 4 ⟨.ok .preempted, false, 0⟩) s) := by
  obtain ⟨s, hrun, hs⟩ := Run.exists_of_exec next id (start [.new] 2 1 .new)
    (List.replicate 4 ⟨.ok .preempted, false, 0⟩) (fun s => s.pc = .returned (.ok ()))
    (by decide +kernel)
  exact ⟨s, hs, disarmed_iff hrun hs⟩

/-- The first vCPU fails, and the error goes to the caller past the end of `run`. -/
theorem error_stays_armed :
    ¬ ∀ (ts : List Tenant) (quantumTicks maxPasses : Nat) (hv : Backend) (os : List Outcome) (s : Rota)
        (r : Except Hv.HvError Unit), Run Step (start ts quantumTicks maxPasses hv) os s →
      s.pc = .returned r → Disarmed s := by
  intro hall
  obtain ⟨s, hrun, hs, harmed⟩ := Run.exists_of_exec next id (start [.new] 2 200 .new)
    (List.replicate 2 ⟨.error .badState, false, 0⟩)
    (fun s => s.pc = .returned (.error .badState) ∧ s.hv.preemptEnabled = true) (by decide +kernel)
  cases harmed.symm.trans (hall _ _ _ _ _ s _ hrun hs).1

end Rota

end Tanix.Vm
