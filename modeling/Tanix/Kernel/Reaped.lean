/-
# `Tanix.Kernel.Reaped` — when a killed task leaves its CPU

A task that runs on one CPU can be killed by a call on another.  The kill marks it
Zombie and the victim goes on at EL0; only the next tick of its own CPU is
to take it off.

`tick_preempt` leaves a dead task only for a slot that `pick_next` finds, and not
for the idle slot.  So a victim with nobody to take its place stays at EL0 at every
tick (`killed_task_runs_on`).  And a dead task may come back to life by the ways
listed in `Tanix.Kernel.Absorbing`.

`killed_reaped`: when neither happens at any step (`Reaping`), the victim is at EL0
on no CPU from its CPU's next tick on.
-/
import Tanix.Kernel.Absorbing
import Tanix.Kernel.Current
import Tanix.Sched.Argmin

namespace Tanix

open Scheduler LTS

namespace Kernel

/-- Some CPU runs slot `v` at EL0. -/
def AtEl0 (k : Kernel) (v : Slot) : Prop :=
  ∃ c, k.cur c = v ∧ (k.cpus c).mode = .user

/-- From the next tick of CPU `c` on, slot `v` is at EL0 no more. -/
def ReapedAtTick (step : Kernel → Event → Kernel → Prop) (k : Kernel) (c : Cpu) (v : Slot) : Prop :=
  ∀ es k₁ k₂ es' k', Run step k es k₁ → (∀ e ∈ es, e ≠ .tick c) → step k₁ (.tick c) k₂ →
    Run step k₂ es' k' → ¬ AtEl0 k' v

/-- A task that CPU `c` may run, Ready or about to be woken by the tick, with a better priority than
the idle slot of `c`. -/
def Relief (k : Kernel) (c : Cpu) : Prop :=
  ∃ i, (k.sched.tasks i).any (fun t => (t.state == .ready || t.expired (k.ticks + 1)) &&
    (t.cpuAffinity == none || t.cpuAffinity == some c) &&
    decide (t.priority < k.sched.prioAt (idleSlot c))) = true ∧ i ≠ 0

/-- A tick on a dead task finds somebody to run in its place. -/
def Relieved (k : Kernel) : Event → Prop
  | .tick c => k.sched.stateIs (k.cur c) .zombie = true → Relief k c
  | _ => True

/-- Nobody is revived, and the dead are relieved. -/
structure Reaping (k : Kernel) (e : Event) : Prop where
  noRevival : NoRevival k e
  relieved : Relieved k e

section Tick

variable {b : Board} {k : Kernel} {c : Cpu}

/-- With somebody to take its place, `pick_next` does not choose the idle slot. -/
theorem pickNext_of_relief (hidle : ∃ t, k.sched.tasks (idleSlot c) = some t) (h : Relief k c) (cur : Slot) :
    ((k.sched.wakeSleepers (k.ticks + 1)).1.Candidate c
        ((k.sched.wakeSleepers (k.ticks + 1)).1.pickNext c cur)) ∧
      (k.sched.wakeSleepers (k.ticks + 1)).1.pickNext c cur ≠ idleSlot c := by
  obtain ⟨i, hi, hi0⟩ := h
  obtain ⟨t, ht, hp⟩ := (Option.any_eq_true ..).mp hi
  simp only [Bool.and_eq_true, Bool.or_eq_true, beq_iff_eq, decide_eq_true_eq] at hp
  obtain ⟨⟨hready, haff⟩, hprio⟩ := hp
  obtain ⟨u, hu⟩ := hidle
  have hcand := candidate_wakeSleepers hi0 ht hready haff
  obtain ⟨hpick, hmin⟩ := pickNext_least hcand cur
  refine ⟨hpick, fun heq => ?_⟩
  have hlt : k.sched.priorityAt i < k.sched.priorityAt (idleSlot c) := by
    rw [← prioAt_toNat hu, priorityAt, ht]
    exact UInt8.lt_iff_toNat_lt.mp hprio
  have hne : i ≠ (k.sched.wakeSleepers (k.ticks + 1)).1.pickNext c cur := by
    rintro he
    rw [he, heq] at hlt
    exact Nat.lt_irrefl _ hlt
  -- the idle slot would rank before a task of better priority
  have hrank := hmin i hcand hne
  rw [heq, rank, rank, Prod.Lex.toLex_lt_toLex, priorityAt_wakeSleepers, priorityAt_wakeSleepers] at hrank
  rcases hrank with hr | ⟨hr, -⟩
  · exact Nat.lt_asymm hlt hr
  · exact Nat.lt_irrefl _ (hlt.trans_eq hr)

/-- `tick_preempt` on a dead task, with somebody to take its place. -/
theorem tickPreempt_dead (hz : k.woken.sched.stateIs (k.cur c) .zombie = true)
    (hne : k.woken.sched.pickNext c (k.cur c) ≠ k.cur c)
    (hidle : k.woken.sched.pickNext c (k.cur c) ≠ idleSlot c) (fromEl0 : Bool) (pc : Resume) :
    k.tickPreempt c fromEl0 pc =
      .switch k.woken (k.cur c) (k.woken.sched.pickNext c (k.cur c)) pc := by
  rw [Kernel.tickPreempt]
  exact (if_pos hz).trans (if_pos ⟨hne, hidle⟩)

/-- A tick takes its CPU off a dead task. -/
theorem Scheduled.tick_leaves {k' : Kernel} (h : Scheduled k) (hr : Reaping k (.tick c))
    (hz : k.sched.stateIs (k.cur c) .zombie = true) (hs : Step b k (.tick c) k') :
    k'.cur c ≠ k.cur c := by
  obtain ⟨hpick, hidle⟩ := pickNext_of_relief (h.sound.idle c) (hr.relieved hz) (k.cur c)
  have hz' := stays_wakeSleepers hr.noRevival.harmless (k.cur c) hz
  obtain ⟨-, t, ht, hready, -⟩ := hpick
  have hne : (k.sched.wakeSleepers (k.ticks + 1)).1.pickNext c (k.cur c) ≠ k.cur c := by
    intro heq
    rw [heq] at ht
    rw [stateIs, ht] at hz'
    simp [hready] at hz'
  obtain ⟨o, ho, rfl⟩ := hs
  simp only [Kernel.critical] at ho
  split at ho
  · cases ho
    rw [tickPreempt_dead (k := { k with ticks := k.ticks + 1 }) hz' hne hidle]
    exact (cur_apply_switch _ c _ _ _).trans_ne hne
  · cases ho

end Tick

/-! ## Runs -/

/-- Slot `v` is dead and current on no CPU but those in `S`. -/
structure Dead (k : Kernel) (v : Slot) (S : Cpu → Prop) : Prop where
  scheduled : Scheduled k
  zombie : k.sched.stateIs v .zombie = true
  gone : ∀ c, k.cur c = v → S c

theorem Dead.step {b : Board} {k k' : Kernel} {v : Slot} {S : Cpu → Prop} {e : Event} (h : Dead k v S)
    (hn : Reaping k e) (hs : Step b k e k') : Dead k' v S := by
  obtain ⟨s₁, hto, -, hfrom⟩ := h.scheduled.buried hn.noRevival hs
  have hz := hfrom v (hto v h.zombie)
  exact ⟨h.scheduled.step hn.noRevival.hint hs, hz, fun c hc => h.gone c (hs.cur_alive hz hc)⟩

/-- In every run from boot of steps that meet the condition, a task that is killed from another CPU
while it runs at EL0 is at EL0 no more from the next tick of its own CPU on. -/
theorem killed_reaped {b : Board} {n : Nat} {k₀ k k₁ : Kernel} {es : List Event} {e : Event} {c : Cpu}
    (hboot : Boot n k₀) (hrun : Run (guarded (Step b) Reaping) k₀ es k)
    (huser : (k.cpus c).mode = .user) (hother : e.cpu ≠ c) (hkill : Marks k e (k.cur c))
    (hstep : guarded (Step b) Reaping k e k₁) :
    ReapedAtTick (guarded (Step b) Reaping) k₁ c (k.cur c) := by
  intro es₁ k₂ k₃ es₂ k₄ hrun₁ _ htick hrun₂
  have hk : Scheduled k :=
    hrun.invariant_guarded (fun _ _ _ hk hn hs => hk.step hn.noRevival.hint hs) hboot.scheduled
  have h0 : k.cur c ≠ 0 := (hk.user c (by rw [huser]; rfl)).ne_zero
  -- the kill leaves the victim dead and current on its own CPU only
  have hdead : Dead k₁ (k.cur c) (· = c) := by
    obtain ⟨hn, hs⟩ := hstep
    obtain ⟨s₁, -, hmarks, hfrom⟩ := hk.buried hn.noRevival hs
    have hz := hfrom _ (hmarks _ hkill)
    refine ⟨hk.step hn.noRevival.hint hs, hz, fun c' hc' => ?_⟩
    have hold := hs.cur_alive hz hc'
    exact hk.exclusive c' c hold (by rw [hold]; exact h0)
  have hbefore : Dead k₂ (k.cur c) (· = c) :=
    hrun₁.invariant_guarded (I := (Dead · (k.cur c) (· = c))) (fun _ _ _ => Dead.step) hdead
  -- the tick takes it off that one
  have hafter : Dead k₃ (k.cur c) (fun _ => False) := by
    obtain ⟨hn, hs⟩ := htick
    obtain ⟨hsched, hz, hgone⟩ := hbefore.step hn hs
    refine ⟨hsched, hz, fun c' hc' => ?_⟩
    obtain rfl := hgone c' hc'
    have hcur := hs.cur_alive hz hc'
    refine hbefore.scheduled.tick_leaves hn ?_ hs (hc'.trans hcur.symm)
    rw [hcur]
    exact hbefore.zombie
  have hend : Dead k₄ (k.cur c) (fun _ => False) :=
    hrun₂.invariant_guarded (I := (Dead · (k.cur c) fun _ => False)) (fun _ _ _ => Dead.step) hafter
  rintro ⟨c', hc', -⟩
  exact hend.gone c' hc'

instance (k : Kernel) (c : Cpu) : Decidable (Relief k c) :=
  inferInstanceAs (Decidable (∃ i, (k.sched.tasks i).any (fun t =>
    (t.state == .ready || t.expired (k.ticks + 1)) &&
      (t.cpuAffinity == none || t.cpuAffinity == some c) &&
      decide (t.priority < k.sched.prioAt (idleSlot c))) = true ∧ i ≠ 0))

instance (k : Kernel) (e : Event) : Decidable (Relieved k e) :=
  match e with
  | .tick c => inferInstanceAs (Decidable (k.sched.stateIs (k.cur c) .zombie = true → Relief k c))
  | .enter | .idle _ | .syscall _ _ | .abort _ _ _ | .fault _ | .irq _ _ | .wake _ | .restore _ =>
    inferInstanceAs (Decidable True)

/-- The step function, for the steps that meet the condition. -/
def nextReaping (b : Board) (k : Kernel) (e : Event) : Option Kernel :=
  if Relieved k e then k.nextNoRevival b e else none

theorem nextReaping_step {b : Board} {k k' : Kernel} {e : Event} (h : k.nextReaping b e = some k') :
    guarded (Step b) Reaping k e k' := by
  obtain ⟨hr, h⟩ := Option.ite_none_right_eq_some.mp h
  obtain ⟨hn, hs⟩ := nextNoRevival_step h
  exact ⟨⟨hn, hr⟩, hs⟩

/-- A message that wakes `net`. -/
def wakeNet : Call := .send 6 ⟨0, 7, Vector.replicate 8 5⟩

/-- `ping` wakes `net` and kills `hog`, which runs on CPU 0; the next tick on CPU 0 leaves `hog` for
`net`. -/
theorem killed_reaped_hog : ∃ k k₁ k₂ k', Run (guarded (Step bareBoard) Reaping) sbsaBoot
      (fourServers ++ [.restore 1, .syscall 1 wakeNet]) k ∧
    (k.cpus 0).mode = .user ∧ k.cur 0 = 7 ∧
    guarded (Step bareBoard) Reaping k (.syscall 1 (.exitTask 7)) k₁ ∧
    guarded (Step bareBoard) Reaping k₁ (.tick 0) k₂ ∧
    Run (guarded (Step bareBoard) Reaping) k₂ [.restore 0] k' ∧ ¬ AtEl0 k' 7 := by
  obtain ⟨k, hrun, ⟨huser, hcur, hidx⟩, hp⟩ := Run.exists_of_exec (nextReaping bareBoard) nextReaping_step sbsaBoot
    (fourServers ++ [.restore 1, .syscall 1 wakeNet])
    (fun k => ((k.cpus 0).mode = .user ∧ k.cur 0 = 7 ∧ k.sched.taskIdx 7 = some 7) ∧
      (k.nextReaping bareBoard (.syscall 1 (.exitTask 7))).any fun k₁ =>
        (k₁.nextReaping bareBoard (.tick 0)).any fun k₂ =>
          (exec (nextReaping bareBoard) k₂ [.restore 0]).isSome) (by decide +kernel)
  obtain ⟨k₁, hk₁, hp⟩ := (Option.any_eq_true ..).mp hp
  obtain ⟨k₂, hk₂, hp⟩ := (Option.any_eq_true ..).mp hp
  obtain ⟨k', hk'⟩ := Option.isSome_iff_exists.mp hp
  have hrun' := Run.of_exec (fun _ _ _ => nextReaping_step) hk'
  have hkill : Marks k (.syscall 1 (.exitTask 7)) (k.cur 0) := Or.inr ⟨7, rfl, by rw [hcur, hidx]⟩
  have hreaped := killed_reaped boot_sbsaBoot hrun huser (by decide) hkill (nextReaping_step hk₁)
  rw [hcur] at hreaped
  exact ⟨k, k₁, k₂, k', hrun, huser, hcur, nextReaping_step hk₁, nextReaping_step hk₂, hrun',
    hreaped [] k₁ k₂ _ k' (.nil k₁) (by simp) (nextReaping_step hk₂) hrun'⟩

/-- `ping` kills `hog`, which runs on CPU 0, and every other task runs or waits: the tick on CPU 0
finds the idle slot only, and returns to `hog`. -/
theorem killed_task_runs_on : ¬ ∀ (b : Board) (n : Nat) (k₀ k k₁ : Kernel) (es : List Event)
    (e : Event) (c : Cpu), Boot n k₀ → Run (Step b) k₀ es k → (k.cpus c).mode = .user →
    e.cpu ≠ c → Marks k e (k.cur c) → Step b k e k₁ → ReapedAtTick (Step b) k₁ c (k.cur c) := by
  intro hall
  obtain ⟨k, hrun, ⟨huser, hcur, hidx⟩, hp⟩ := Run.exists_of_exec (next bareBoard) step_iff_next.mpr sbsaBoot
    (fourServers ++ [.restore 1])
    (fun k => ((k.cpus 0).mode = .user ∧ k.cur 0 = 7 ∧ k.sched.taskIdx 7 = some 7) ∧
      (k.next bareBoard (.syscall 1 (.exitTask 7))).any fun k₁ =>
        (k₁.next bareBoard (.tick 0)).any fun k₂ =>
          decide (k₂.cur 0 = 7 ∧ (k₂.cpus 0).mode = .user)) (by decide +kernel)
  obtain ⟨k₁, hk₁, hp⟩ := (Option.any_eq_true ..).mp hp
  obtain ⟨k₂, hk₂, hp⟩ := (Option.any_eq_true ..).mp hp
  have hkill : Marks k (.syscall 1 (.exitTask 7)) (k.cur 0) := Or.inr ⟨7, rfl, by rw [hcur, hidx]⟩
  have hreaped := hall bareBoard 10 sbsaBoot k k₁ _ (.syscall 1 (.exitTask 7)) 0 boot_sbsaBoot hrun huser
    (by decide) hkill (step_iff_next.mpr hk₁)
  rw [hcur] at hreaped
  exact hreaped [] k₁ k₂ [] k₂ (.nil k₁) (by simp) (step_iff_next.mpr hk₂) (.nil k₂) ⟨0, of_decide_eq_true hp⟩

end Kernel

end Tanix
