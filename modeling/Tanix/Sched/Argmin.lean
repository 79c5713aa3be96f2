/-
# `Tanix.Sched.Argmin` — which slot the pickers choose

The loops of `pick_next` and `pick_next_rr` keep the best candidate so far (`Tanix.Lib.Best`).
What they choose is said here without the loop: the candidate that comes first, by priority and
then by the number of steps that a walk around the table takes to it from the current slot.  The
current slot itself comes last in that walk, after a full turn.

    pick_next       least (priority, steps)    `pickNext_argmin`
    pick_next_rr    least steps                `pickNextRr_argmin`
-/
import Tanix.Sched.Table
import Tanix.Lib.Best
import Mathlib.Data.Prod.Lex

namespace Tanix.Scheduler

open Option

variable {s : Scheduler} {cpu : Cpu} {cur i j : Slot}

/-! ## The walk around the table -/

/-- The steps from the current slot forward to a slot, at least one. -/
def stepsTo (cur i : Slot) : Nat :=
  if cur < i then i.val - cur.val else i.val + maxTasks - cur.val

theorem forward_succ (cur i : Slot) : forward cur i + 1 = stepsTo cur i := by
  have hcur := cur.isLt
  have hi := i.isLt
  rw [forward, stepsTo]
  simp only [Fin.lt_def, maxTasks] at *
  split
  · omega
  · omega

theorem stepsTo_inj (h : stepsTo cur i = stepsTo cur j) : i = j := by
  have hi := i.isLt
  have hj := j.isLt
  have hcur := cur.isLt
  rw [stepsTo, stepsTo] at h
  simp only [Fin.lt_def, maxTasks] at *
  apply Fin.ext
  split at h
  · split at h
    · omega
    · omega
  · split at h
    · omega
    · omega

/-- A walk comes to any other slot before it is back. -/
theorem stepsTo_lt_self (h : i ≠ cur) : stepsTo cur i < stepsTo cur cur := by
  have hi := i.isLt
  have hne : i.val ≠ cur.val := fun he => h (Fin.ext he)
  rw [stepsTo, stepsTo, if_neg (lt_irrefl cur)]
  simp only [Fin.lt_def, maxTasks] at *
  split
  · omega
  · omega

/-- From a slot that the walk comes to before `i`, there are fewer steps left to `i`. -/
theorem stepsTo_lt_of_lt (h : stepsTo cur j < stepsTo cur i) : stepsTo j i < stepsTo cur i := by
  have hi := i.isLt
  have hj := j.isLt
  have hcur := cur.isLt
  simp only [stepsTo, Fin.lt_def, maxTasks] at *
  rcases Nat.lt_or_ge cur.val j.val with hcj | hcj
  · rw [if_pos hcj] at h
    rcases Nat.lt_or_ge cur.val i.val with hci | hci
    · rw [if_pos hci] at h
      rw [if_pos hci, if_pos (by omega)]
      omega
    · rw [if_neg (Nat.not_lt.mpr hci)] at h
      rw [if_neg (Nat.not_lt.mpr hci), if_neg (by omega)]
      omega
  · rw [if_neg (Nat.not_lt.mpr hcj)] at h
    rcases Nat.lt_or_ge cur.val i.val with hci | hci
    · rw [if_pos hci] at h
      omega
    · rw [if_neg (Nat.not_lt.mpr hci)] at h
      rw [if_neg (Nat.not_lt.mpr hci), if_pos (by omega)]
      omega

/-! ## Candidates -/

/-- A Ready slot from 1 up that the CPU may run. -/
def Candidate (s : Scheduler) (cpu : Cpu) (i : Slot) : Prop :=
  i ≠ 0 ∧ s.Runnable cpu i

def priorityAt (s : Scheduler) (i : Slot) : Nat :=
  ((s.tasks i).map fun t => t.priority.toNat).getD 0

/-- What `pick_next` goes by: the priority, and the steps where priorities are equal. -/
def rank (s : Scheduler) (cur i : Slot) : Nat ×ₗ Nat :=
  toLex (s.priorityAt i, stepsTo cur i)

theorem eligible_iff {t : Task} : eligible cpu t = true ↔
    t.state = .ready ∧ (t.cpuAffinity = none ∨ t.cpuAffinity = some cpu) := by
  rw [eligible, Bool.and_eq_true, beq_iff_eq, and_comm]
  cases t.cpuAffinity with
  | none => simp
  | some aff => simp

/-- The candidate that a slot gives to the loop. -/
def offer (s : Scheduler) (cpu : Cpu) (i : Slot) : Option (UInt8 × Slot) :=
  ((s.tasks i).filter (eligible cpu)).map fun t => (t.priority, i)

theorem offer_eq_some {b : UInt8 × Slot} :
    s.offer cpu i = some b ↔ s.Runnable cpu i ∧ b.2 = i ∧ b.1.toNat = s.priorityAt i := by
  rw [offer, map_eq_some_iff]
  constructor
  · rintro ⟨t, ht, rfl⟩
    obtain ⟨ht, he⟩ := filter_eq_some_iff.mp ht
    refine ⟨runnable_of_eligible ht he, rfl, ?_⟩
    rw [priorityAt, ht]
    rfl
  · rintro ⟨⟨t, ht, hstate, haff⟩, hslot, hprio⟩
    refine ⟨t, filter_eq_some_iff.mpr ⟨ht, eligible_iff.mpr ⟨hstate, haff⟩⟩, ?_⟩
    rw [priorityAt, ht] at hprio
    exact Prod.ext (UInt8.toNat_inj.mp hprio.symm) hslot.symm

theorem offer_of_runnable (h : s.Runnable cpu i) :
    ∃ b, s.offer cpu i = some b ∧ b.2 = i ∧ b.1.toNat = s.priorityAt i := by
  obtain ⟨t, ht, hstate, haff⟩ := h
  have hoffer : s.offer cpu i = some (t.priority, i) := by
    rw [offer, ht, filter_some, if_pos (eligible_iff.mpr ⟨hstate, haff⟩)]
    rfl
  exact ⟨_, hoffer, (offer_eq_some.mp hoffer).2⟩

/-- The slots of the loop are those from 1 up. -/
theorem mem_slots : i ∈ (List.finRange maxTasks).tail ↔ i ≠ 0 := by
  revert i
  decide

/-! ## `pick_next` -/

/-- The order of the comparison in `pick_next`. -/
def pickKey (cur : Slot) (b : UInt8 × Slot) : Nat ×ₗ Nat :=
  toLex (b.1.toNat, stepsTo cur b.2)

theorem pickKey_lt_iff {b b' : UInt8 × Slot} : pickKey cur b < pickKey cur b' ↔
    b.1 < b'.1 ∨ (b.1 = b'.1 ∧ forward cur b.2 < forward cur b'.2) := by
  rw [pickKey, pickKey, Prod.Lex.toLex_lt_toLex, ← forward_succ, ← forward_succ, Nat.succ_lt_succ_iff,
    UInt8.lt_iff_toNat_lt, UInt8.toNat_inj]

theorem pickNextTurn_eq (s : Scheduler) (cpu : Cpu) (cur : Slot) :
    s.pickNextTurn cpu cur = Best.turn (s.offer cpu) (pickKey cur) := by
  funext best i
  rw [pickNextTurn, Best.turn, offer]
  cases s.tasks i with
  | none => rfl
  | some t =>
    by_cases he : eligible cpu t = true
    · rw [filter_some, if_pos he]
      dsimp only [map_some]
      rw [if_pos he]
      cases best with
      | none => rfl
      | some b =>
        rw [Best.better]
        simp only [pickKey_lt_iff]
        split
        · rfl
        · rfl
    · rw [filter_some, if_neg he]
      dsimp only [map_none]
      rw [if_neg he]

theorem pickKey_eq_rank {b : UInt8 × Slot} (hprio : b.1.toNat = s.priorityAt b.2) :
    pickKey cur b = s.rank cur b.2 := by
  rw [pickKey, rank, hprio]

/-- `pick_next` returns the idle slot where there is no candidate, and otherwise the candidate of
least rank. -/
theorem pickNext_cases (s : Scheduler) (cpu : Cpu) (cur : Slot) :
    (s.pickNext cpu cur = idleSlot cpu ∧ ∀ i, ¬ s.Candidate cpu i) ∨
      (s.Candidate cpu (s.pickNext cpu cur) ∧
        ∀ i, s.Candidate cpu i → i ≠ s.pickNext cpu cur → s.rank cur (s.pickNext cpu cur) < s.rank cur i) := by
  rw [pickNext, pickNextTurn_eq]
  cases hfold : (List.finRange maxTasks).tail.foldl (Best.turn (s.offer cpu) (pickKey cur)) none with
  | none =>
    obtain ⟨-, hno⟩ := Best.foldl_eq_none_iff.mp hfold
    refine Or.inl ⟨rfl, fun k hk => ?_⟩
    obtain ⟨b, hoffer, -⟩ := offer_of_runnable hk.2
    rw [hno k (mem_slots.mpr hk.1)] at hoffer
    cases hoffer
  | some b =>
    obtain ⟨hfrom, -, hmin⟩ := Best.of_foldl_eq_some hfold
    obtain ⟨a, ha, hoffer⟩ := hfrom.resolve_left (some_ne_none b ∘ Eq.symm)
    obtain ⟨hrun, rfl, hprio⟩ := offer_eq_some.mp hoffer
    refine Or.inr ⟨⟨mem_slots.mp ha, hrun⟩, ?_⟩
    rintro i ⟨hi0, hi⟩ hne
    obtain ⟨b', hoffer', rfl, hprio'⟩ := offer_of_runnable hi
    have hle := hmin _ (mem_slots.mpr hi0) b' hoffer'
    rw [pickKey_eq_rank hprio, pickKey_eq_rank hprio'] at hle
    refine lt_of_le_of_ne hle fun heq => hne ?_
    exact stepsTo_inj (congrArg (fun r => (ofLex r).2) heq).symm

theorem pickNext_least {k : Slot} (hk : s.Candidate cpu k) (cur : Slot) :
    s.Candidate cpu (s.pickNext cpu cur) ∧
      ∀ i, s.Candidate cpu i → i ≠ s.pickNext cpu cur → s.rank cur (s.pickNext cpu cur) < s.rank cur i :=
  (s.pickNext_cases cpu cur).resolve_left fun h => h.2 k hk

/-- `pick_next` does not go past a candidate when every better one comes before it. -/
theorem pickNext_before (hi : s.Candidate cpu i)
    (h : ∀ j, s.Candidate cpu j → s.priorityAt j < s.priorityAt i → stepsTo cur j < stepsTo cur i) :
    s.pickNext cpu cur = i ∨ stepsTo cur (s.pickNext cpu cur) < stepsTo cur i := by
  obtain ⟨hpick, hmin⟩ := pickNext_least hi cur
  rcases eq_or_ne i (s.pickNext cpu cur) with heq | hne
  · exact Or.inl heq.symm
  · have hlt := hmin i hi hne
    rw [rank, rank, Prod.Lex.toLex_lt_toLex] at hlt
    rcases hlt with hprio | ⟨-, hsteps⟩
    · exact Or.inr (h _ hpick hprio)
    · exact Or.inr hsteps

/-- `pick_next` chooses the candidate of least rank, and the idle slot where there is none; the
current slot only when every other candidate has a worse priority. -/
theorem pickNext_argmin (s : Scheduler) (cpu : Cpu) (cur : Slot) :
    ((∃ i, s.Candidate cpu i) → s.Candidate cpu (s.pickNext cpu cur) ∧
      ∀ i, s.Candidate cpu i → i ≠ s.pickNext cpu cur → s.rank cur (s.pickNext cpu cur) < s.rank cur i) ∧
    ((∀ i, ¬ s.Candidate cpu i) → s.pickNext cpu cur = idleSlot cpu) ∧
    (s.pickNext cpu cur = cur → ∀ i, s.Candidate cpu i → i ≠ cur → s.priorityAt cur < s.priorityAt i) := by
  refine ⟨?_, ?_, ?_⟩
  · rintro ⟨k, hk⟩
    exact pickNext_least hk cur
  · intro hno
    rcases s.pickNext_cases cpu cur with ⟨hidle, -⟩ | ⟨hcand, -⟩
    · exact hidle
    · exact absurd hcand (hno _)
  · intro hcur i hi hne
    obtain ⟨-, hmin⟩ := pickNext_least hi cur
    have hlt := hmin i hi (by rw [hcur]; exact hne)
    rw [hcur, rank, rank, Prod.Lex.toLex_lt_toLex] at hlt
    -- at equal priorities another slot comes before the current one
    refine hlt.resolve_right fun ⟨_, hsteps⟩ => ?_
    exact absurd (stepsTo_lt_self hne) (Nat.lt_asymm hsteps)

/-! ## `pick_next_rr` -/

/-- The candidate that a slot gives to the loop of `pick_next_rr`. -/
def offerRr (s : Scheduler) (cpu : Cpu) (exclude i : Slot) : Option Slot :=
  if i = exclude then none else (s.offer cpu i).map Prod.snd

theorem offerRr_eq_some {exclude k : Slot} :
    s.offerRr cpu exclude i = some k ↔ i ≠ exclude ∧ s.Runnable cpu i ∧ k = i := by
  rw [offerRr]
  split
  · next h => exact ⟨fun hk => (by cases hk), fun hk => absurd h hk.1⟩
  · next h =>
    rw [map_eq_some_iff]
    constructor
    · rintro ⟨b, hb, rfl⟩
      obtain ⟨hrun, hslot, -⟩ := offer_eq_some.mp hb
      exact ⟨h, hrun, hslot⟩
    · rintro ⟨-, hrun, rfl⟩
      obtain ⟨b, hb, hslot, -⟩ := offer_of_runnable hrun
      exact ⟨b, hb, hslot⟩

theorem pickNextRrTurn_eq (s : Scheduler) (cpu : Cpu) (cur exclude : Slot) :
    s.pickNextRrTurn cpu cur exclude = Best.turn (s.offerRr cpu exclude) (stepsTo cur) := by
  funext best i
  rw [pickNextRrTurn.eq_def, Best.turn, offerRr]
  split
  · rfl
  · rw [offer]
    cases s.tasks i with
    | none => rfl
    | some t =>
      rw [filter_some]
      dsimp only
      split
      · cases best with
        | none => rfl
        | some b =>
          dsimp only [map_some]
          rw [Best.better, ← forward_succ, ← forward_succ]
          simp only [Nat.succ_lt_succ_iff]
          split
          · rfl
          · rfl
      · rfl

/-- `pick_next_rr` returns the idle slot where there is no candidate other than `exclude`, and
otherwise the one that the walk comes to first. -/
theorem pickNextRr_cases (s : Scheduler) (cpu : Cpu) (cur exclude : Slot) :
    (s.pickNextRr cpu cur exclude = idleSlot cpu ∧ ∀ i, s.Candidate cpu i → i = exclude) ∨
      (s.Candidate cpu (s.pickNextRr cpu cur exclude) ∧ s.pickNextRr cpu cur exclude ≠ exclude ∧
        ∀ i, s.Candidate cpu i → i ≠ exclude → stepsTo cur (s.pickNextRr cpu cur exclude) ≤ stepsTo cur i) := by
  rw [pickNextRr, pickNextRrTurn_eq]
  cases hfold : (List.finRange maxTasks).tail.foldl (Best.turn (s.offerRr cpu exclude) (stepsTo cur)) none with
  | none =>
    obtain ⟨-, hno⟩ := Best.foldl_eq_none_iff.mp hfold
    refine Or.inl ⟨rfl, fun k hk => ?_⟩
    by_contra hne
    have hoffer := offerRr_eq_some.mpr ⟨hne, hk.2, rfl⟩
    rw [hno k (mem_slots.mpr hk.1)] at hoffer
    cases hoffer
  | some b =>
    obtain ⟨hfrom, -, hmin⟩ := Best.of_foldl_eq_some hfold
    obtain ⟨a, ha, hoffer⟩ := hfrom.resolve_left (some_ne_none b ∘ Eq.symm)
    obtain ⟨hex, hrun, rfl⟩ := offerRr_eq_some.mp hoffer
    refine Or.inr ⟨⟨mem_slots.mp ha, hrun⟩, hex, ?_⟩
    rintro i ⟨hi0, hi⟩ hi'
    exact hmin i (mem_slots.mpr hi0) i (offerRr_eq_some.mpr ⟨hi', hi, rfl⟩)

theorem pickNextRr_argmin {k exclude : Slot} (hk : s.Candidate cpu k) (hne : k ≠ exclude) (cur : Slot) :
    s.Candidate cpu (s.pickNextRr cpu cur exclude) ∧ s.pickNextRr cpu cur exclude ≠ exclude ∧
      ∀ i, s.Candidate cpu i → i ≠ exclude → stepsTo cur (s.pickNextRr cpu cur exclude) ≤ stepsTo cur i :=
  (s.pickNextRr_cases cpu cur exclude).resolve_left fun h => hne (h.2 k hk)

theorem pickNextRr_before {exclude : Slot} (hi : s.Candidate cpu i) (hne : i ≠ exclude) (cur : Slot) :
    s.pickNextRr cpu cur exclude = i ∨ stepsTo cur (s.pickNextRr cpu cur exclude) < stepsTo cur i := by
  obtain ⟨-, -, hmin⟩ := pickNextRr_argmin hi hne cur
  rcases Nat.lt_or_eq_of_le (hmin i hi hne) with hlt | heq
  · exact Or.inr hlt
  · exact Or.inl (stepsTo_inj heq)

end Tanix.Scheduler
