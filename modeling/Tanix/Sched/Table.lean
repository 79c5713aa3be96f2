/-
# `Tanix.Sched.Table` — reading and writing the task table

The methods of `Scheduler` in `kernel/src/sched/task.rs`.  Every write to an
occupied slot goes through `modify`, so one lemma says what a write does to
the slot it names and that it leaves the others alone.

The two pickers run the source's loop over the slots `1 .. 31`: a fold that
keeps the best candidate so far.  What they choose is said in
`Tanix.Sched.Argmin`.
-/
import Tanix.Fallible
import Tanix.Sched.Task

namespace Tanix

namespace Scheduler

/-! ## Looking tasks up -/

variable (s : Scheduler)

/-- `task_idx`: the first slot that holds a task with this id. -/
def taskIdx (id : UInt32) : Option Slot :=
  (List.finRange maxTasks).find? fun i => (s.tasks i).any fun t => t.id == id

/-- `task_by_id` -/
def taskById (id : UInt32) : Option Task :=
  (s.taskIdx id).bind s.tasks

variable (i : Slot)

/-- `current_id`, for the slot the calling CPU runs. -/
def idAt : UInt32 :=
  ((s.tasks i).map (·.id)).getD 0

/-- `current_name` -/
def nameAt : String :=
  ((s.tasks i).map (·.name)).getD "?"

/-- `current_ttbr0` -/
def ttbr0At : Nat :=
  ((s.tasks i).map (·.ttbr0)).getD 0

def regionsAt : Fin taskRegions → TaskRegion :=
  ((s.tasks i).map (·.regions)).getD fun _ => .empty

/-- `priority_and_name`, the priority, with the callers' default. -/
def prioAt : UInt8 :=
  ((s.tasks i).map (·.priority)).getD 255

variable (st : TaskState)

/-- The task in slot `i` is in state `st`. -/
def stateIs : Bool :=
  (s.tasks i).any fun t => t.state == st

variable {s} {s' : Scheduler} {i} {j k : Slot}

theorem stateIs_iff {st : TaskState} :
    s.stateIs i st = true ↔ ∃ t, s.tasks i = some t ∧ t.state = st := by
  unfold stateIs
  cases h : s.tasks i with
  | none => simp
  | some t => simp

theorem idAt_eq {t : Task} (ht : s.tasks i = some t) : s.idAt i = t.id := by
  rw [idAt, ht]
  rfl

theorem state_of_stateIs {t : Task} {st : TaskState} (ht : s.tasks i = some t)
    (h : s.stateIs i st = true) : t.state = st := by
  obtain ⟨t', ht', hst⟩ := stateIs_iff.mp h
  cases ht.symm.trans ht'
  exact hst

theorem taskIdx_some {id : UInt32} (h : s.taskIdx id = some i) :
    ∃ t, s.tasks i = some t ∧ t.id = id := by
  have hp := List.find?_some h
  cases ht : s.tasks i with
  | none => simp [ht] at hp
  | some t => exact ⟨t, rfl, by simpa [ht] using hp⟩

theorem taskIdx_none {id : UInt32} (h : s.taskIdx id = none) :
    ∀ i t, s.tasks i = some t → t.id ≠ id := by
  intro i t ht hid
  have hp := List.find?_eq_none.mp h i (List.mem_finRange i)
  simp [ht, hid] at hp

/-- No two slots hold tasks with the same id. -/
def UniqueIds (s : Scheduler) : Prop :=
  ∀ i j t u, s.tasks i = some t → s.tasks j = some u → t.id = u.id → i = j

variable {t : Task}

/-- With distinct ids, a lookup finds exactly the slot of the task. -/
theorem taskIdx_eq (hu : s.UniqueIds) (ht : s.tasks i = some t) : s.taskIdx t.id = some i := by
  cases h : s.taskIdx t.id with
  | none => exact absurd rfl (taskIdx_none h i t ht)
  | some j =>
    obtain ⟨u, hu', hid⟩ := taskIdx_some h
    rw [hu j i u t hu' ht hid]

/-! ## Writing a slot -/

variable (f : Task → Task) (s i)

/-- Rewrite the task in slot `i`; an empty slot stays empty. -/
def modify : Scheduler :=
  { s with tasks := fun j => if j = i then (s.tasks i).map f else s.tasks j }

/-- `set_state` -/
def setState : Scheduler :=
  s.modify i fun t => { t with state := st }

/-- `set_woken` -/
def setWoken : Scheduler :=
  { s with woken := some i }

theorem modify_tasks (j : Slot) (f : Task → Task) :
    (s.modify i f).tasks j = if j = i then (s.tasks i).map f else s.tasks j := rfl

@[simp] theorem modify_tasks_same : (s.modify i f).tasks i = (s.tasks i).map f := by
  rw [modify_tasks, if_pos rfl]

variable {i}

theorem modify_tasks_ne (h : j ≠ i) : (s.modify i f).tasks j = s.tasks j := by
  rw [modify_tasks, if_neg h]

@[simp] theorem setWoken_tasks (i : Slot) : (s.setWoken i).tasks = s.tasks := rfl

variable {f}

variable {s}

/-- What stands in a slot after a write: the old task, rewritten in the slot written. -/
theorem modify_some {u : Task} (h : (s.modify i f).tasks j = some u) :
    ∃ t, s.tasks j = some t ∧ u = if j = i then f t else t := by
  rw [modify_tasks] at h
  by_cases hj : j = i
  · subst hj
    rw [if_pos rfl] at h
    obtain ⟨t, ht, rfl⟩ := Option.map_eq_some_iff.mp h
    exact ⟨t, ht, by rw [if_pos rfl]⟩
  · rw [if_neg hj] at h
    exact ⟨u, h, by rw [if_neg hj]⟩

/-- Every queue entry of the second table is from a task of the first. -/
def Sources (s s' : Scheduler) : Prop :=
  ∀ d u q p, s'.tasks d = some u → u.pendingSenders q = some p →
    ∃ i t, s.tasks i = some t ∧ t.id = p.src

theorem Sources.modify {s' : Scheduler} {k : Slot} (h : Sources s s') (hf : ∀ t q p, (f t).pendingSenders q = some p →
    t.pendingSenders q = some p ∨ ∃ i t', s.tasks i = some t' ∧ t'.id = p.src) : Sources s (s'.modify k f) := by
  intro d u q p hu hp
  obtain ⟨u₀, hu₀, rfl⟩ := modify_some hu
  split at hp
  · exact (hf u₀ q p hp).elim (h d u₀ q p hu₀) id
  · exact h d u₀ q p hu₀ hp

/-- A field that the write keeps reads the same everywhere. -/
theorem map_modify {α : Type} {g : Task → α} (hg : ∀ t, g (f t) = g t) (j : Slot) :
    ((s.modify k f).tasks j).map g = (s.tasks j).map g := by
  rw [modify_tasks]
  split
  · rename_i hj
    subst hj
    simp [Option.map_map, Function.comp_def, hg]
  · rfl

variable (s)

theorem stateIs_modify_ne (f : Task → Task) (st : TaskState) (h : j ≠ i) :
    (s.modify i f).stateIs j st = s.stateIs j st := by
  rw [stateIs, modify_tasks_ne s f h, stateIs]

theorem stateIs_modify_keep (i j : Slot) (hf : ∀ t, (f t).state = t.state) (st : TaskState) :
    (s.modify i f).stateIs j st = s.stateIs j st := by
  by_cases h : j = i
  · subst h
    rw [stateIs, modify_tasks_same, stateIs]
    cases s.tasks j <;> simp [hf]
  · exact stateIs_modify_ne s f st h

variable {s}

theorem stateIs_modify_same (ht : s.tasks i = some t) (f : Task → Task) (st : TaskState) :
    (s.modify i f).stateIs i st = ((f t).state == st) := by
  rw [stateIs, modify_tasks_same, ht]
  rfl

/-- A write that brings nobody into a state. -/
theorem stateIs_of_modify {st : TaskState} (hf : ∀ t, (f t).state = st → t.state = st)
    (h : (s.modify i f).stateIs j st = true) : s.stateIs j st = true := by
  obtain ⟨u, hu, hst⟩ := stateIs_iff.mp h
  obtain ⟨t, ht, rfl⟩ := modify_some hu
  refine stateIs_iff.mpr ⟨t, ht, ?_⟩
  split at hst
  · exact hf t hst
  · exact hst

theorem stateIs_setState_same (ht : s.tasks i = some t) (st st' : TaskState) :
    (s.setState i st).stateIs i st' = (st == st') :=
  stateIs_modify_same ht _ st'

variable (s)

theorem stateIs_setState_ne (st' : TaskState) (h : j ≠ i) :
    (s.setState i st).stateIs j st' = s.stateIs j st' :=
  stateIs_modify_ne s _ st' h

@[simp] theorem stateIs_setWoken (i j : Slot) (st : TaskState) :
    (s.setWoken i).stateIs j st = s.stateIs j st := rfl

/-- The same tasks stand in the same slots. -/
def SameIds (s' : Scheduler) : Prop :=
  ∀ k, (s'.tasks k).map (·.id) = (s.tasks k).map (·.id)

variable {s}

section

variable (h : SameIds s s')

include h

theorem SameIds.fwd (ht : s.tasks k = some t) : ∃ t', s'.tasks k = some t' ∧ t'.id = t.id := by
  have hk := h k
  rw [ht] at hk
  exact Option.map_eq_some_iff.mp hk

theorem SameIds.bwd {t' : Task} (ht : s'.tasks k = some t') :
    ∃ t, s.tasks k = some t ∧ t.id = t'.id := by
  have hk := h k
  rw [ht] at hk
  exact Option.map_eq_some_iff.mp hk.symm

theorem SameIds.uniqueIds (hu : s.UniqueIds) : s'.UniqueIds := by
  intro i j t u ht hu' hid
  obtain ⟨t₀, ht₀, hti⟩ := h.bwd ht
  obtain ⟨u₀, hu₀, hui⟩ := h.bwd hu'
  exact hu i j t₀ u₀ ht₀ hu₀ (by rw [hti, hui, hid])

theorem SameIds.trans {s'' : Scheduler} (h' : SameIds s' s'') : SameIds s s'' :=
  fun k => (h' k).trans (h k)

/-- An id that some task has, some task has still. -/
theorem SameIds.known {x : UInt32} (hx : ∃ i t, s.tasks i = some t ∧ t.id = x) :
    ∃ i t, s'.tasks i = some t ∧ t.id = x := by
  obtain ⟨i, t, ht, hid⟩ := hx
  obtain ⟨t', ht', hid'⟩ := h.fwd ht
  exact ⟨i, t', ht', hid'.trans hid⟩

end

variable (s)

theorem sameIds_modify (k : Slot) (hf : ∀ t, (f t).id = t.id) : SameIds s (s.modify k f) :=
  map_modify hf

theorem sameIds_setState (k : Slot) (st : TaskState) : SameIds s (s.setState k st) :=
  map_modify fun _ => rfl

theorem setState_tasks_ne (h : j ≠ i) : (s.setState i st).tasks j = s.tasks j :=
  modify_tasks_ne s _ h

variable {s}

theorem setState_tasks_same (ht : s.tasks i = some t) (st : TaskState) :
    (s.setState i st).tasks i = some { t with state := st } := by
  rw [setState, modify_tasks_same, ht]
  rfl

/-! ## Picking the next task -/

variable (cur : Slot)

/-- Forward distance from the CPU's current slot, as both pickers compute it. -/
def forward (idx : Slot) : Nat :=
  (idx.val + maxTasks - cur.val - 1) % maxTasks

variable (cpu : Cpu)

/-- May CPU `cpu` run this task? -/
def eligible (t : Task) : Bool :=
  !(t.cpuAffinity.any fun aff => aff != cpu) && t.state == .ready

variable (s)

/-- One turn of the loop of `pick_next`. -/
def pickNextTurn (cur : Slot) (best : Option (UInt8 × Slot)) (idx : Slot) : Option (UInt8 × Slot) :=
  match s.tasks idx with
  | none => best
  | some t =>
    if eligible cpu t then
      match best with
      | none => some (t.priority, idx)
      | some (bp, bi) =>
        if t.priority < bp ∨ (t.priority = bp ∧ forward cur idx < forward cur bi) then
          some (t.priority, idx)
        else some (bp, bi)
    else best

/-- `pick_next`: best priority first, then the rotation from `cur`. -/
def pickNext (cur : Slot) : Slot :=
  match (List.finRange maxTasks).tail.foldl (s.pickNextTurn cpu cur) none with
  | some (_, idx) => idx
  | none => idleSlot cpu

/-- One turn of the loop of `pick_next_rr`. -/
def pickNextRrTurn (cur exclude : Slot) (best : Option Slot) (idx : Slot) : Option Slot :=
  if idx = exclude then best
  else
    match s.tasks idx with
    | none => best
    | some t =>
      if eligible cpu t then
        match best with
        | none => some idx
        | some bi => if forward cur idx < forward cur bi then some idx else some bi
      else best

/-- `pick_next_rr`: the rotation alone, skipping `exclude`. -/
def pickNextRr (cur exclude : Slot) : Slot :=
  match (List.finRange maxTasks).tail.foldl (s.pickNextRrTurn cpu cur exclude) none with
  | some idx => idx
  | none => idleSlot cpu

/-- Slot `i` holds a Ready task that CPU `cpu` may run. -/
def Runnable (i : Slot) : Prop :=
  ∃ t, s.tasks i = some t ∧ t.state = .ready ∧ (t.cpuAffinity = none ∨ t.cpuAffinity = some cpu)

variable {s}

theorem runnable_of_eligible {cpu : Cpu} (ht : s.tasks i = some t) (he : eligible cpu t = true) :
    s.Runnable cpu i := by
  simp only [eligible, Bool.and_eq_true, Bool.not_eq_true', beq_iff_eq] at he
  refine ⟨t, ht, he.2, ?_⟩
  cases ha : t.cpuAffinity with
  | none => exact Or.inl rfl
  | some aff =>
    have : aff = cpu := by simpa [ha] using he.1
    exact Or.inr (congrArg some this)

end Scheduler

end Tanix
