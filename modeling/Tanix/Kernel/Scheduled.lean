/-
# `Tanix.Kernel.Scheduled` — every critical section decides legally

`Scheduled k` is the invariant of the running machine: the task table is sound
for the slots the CPUs run, a CPU at EL0 or in the wait loop runs a user slot,
and the wake hint names a user slot.

A critical section of CPU `c` is legal (`Legal`) when it stays in such a state,
or switches, from a table that is sound with `c` between two tasks, to `c`'s own
idle slot or a Ready user slot.  One lemma for each scheduling function and each
call says that its outcome is legal; `Legal.apply` carries the decision out.

The only outcome that needs more than the invariant is the syscall tail, which
follows the wake hint without looking at the state of the task it names.
`HintOk` is what it needs.
-/
import Tanix.Kernel.Effects

namespace Tanix

open Scheduler

namespace Kernel

/-- The slots the CPUs run. -/
def curs (k : Kernel) : Cpu → Option Slot :=
  fun c => some (k.cur c)

/-- EL0, or the wait loop of `sys_wait_irq`. -/
def Mode.atUser : Mode → Bool
  | .user | .waitIrq _ => true
  | .boot | .idle _ | .halted | .restoring _ => false

structure Scheduled (k : Kernel) : Prop where
  sound : Sound k.sched k.curs
  user : ∀ c, Mode.atUser (k.cpus c).mode = true → IsUser (k.cur c)
  hint : UserHint k.sched

/-- A legal switch of CPU `c`. -/
structure LegalSwitch (k : Kernel) (c : Cpu) (frm next : Slot) (pc : Resume) : Prop where
  sound : Sound k.sched (Function.update k.curs c none)
  user : ∀ c', c' ≠ c → Mode.atUser (k.cpus c').mode = true → IsUser (k.cur c')
  hint : UserHint k.sched
  saved : pc.isUser = true → IsUser frm
  target : MaySwitch k.sched c next

def Legal (c : Cpu) : Outcome → Prop
  | .stay k => Scheduled k
  | .switch k frm next pc => LegalSwitch k c frm next pc

/-! ## Carrying a decision out -/

theorem curs_switchTo (k : Kernel) (c : Cpu) (frm next : Slot) (pc : Resume) :
    (k.switchTo c frm next pc).curs
      = Function.update (Function.update k.curs c none) c (some next) := by
  rw [Function.update_idem]
  funext c'
  rcases eq_or_ne c' c with rfl | hcc
  · simp [curs, cur, switchTo]
  · simp [curs, cur, switchTo, hcc]

theorem Legal.apply {c : Cpu} {o : Outcome} (h : Legal c o) : Scheduled (apply c o) := by
  cases o with
  | stay k => exact h
  | switch k frm next pc =>
    refine ⟨?_, ?_, h.hint⟩
    · rw [Kernel.apply, curs_switchTo]
      refine (h.sound.saveCtx ⟨pc, (k.cpus c).ttbr0⟩ h.saved).install (Function.update_self ..) ?_
      refine h.target.mono fun hr => ?_
      rw [stateIs_modify_keep k.sched frm next (f := Task.saveCtx _) fun _ => rfl]
      exact hr
    · intro c' hm
      rcases eq_or_ne c' c with rfl | hcc
      · simp [Kernel.apply, switchTo, Mode.atUser] at hm
      · have hcpu : (Kernel.apply c (.switch k frm next pc)).cpus c' = k.cpus c' := by
          simp [Kernel.apply, switchTo, hcc]
        rw [hcpu] at hm
        rw [cur, hcpu]
        exact h.user c' hcc hm

/-! ## Changes that leave the CPUs alone -/

section Same

variable {k k' : Kernel} {c : Cpu}

theorem curs_eq (hc : k'.cpus = k.cpus) : k'.curs = k.curs := by
  funext c'
  rw [curs, cur, hc]
  rfl

/-- The CPU goes on at EL0, or in the wait loop, with the slot it has. -/
theorem Scheduled.setCpu (h : Scheduled k) {st : CpuState} (hcur : st.current = k.cur c)
    (hu : Mode.atUser st.mode = true → IsUser (k.cur c)) : Scheduled (k.setCpu c st) := by
  have hcurs : ∀ c', (k.setCpu c st).cur c' = k.cur c' := by
    intro c'
    rcases eq_or_ne c' c with rfl | hcc
    · simpa [cur, Kernel.setCpu] using hcur
    · simp [cur, Kernel.setCpu, hcc]
  refine ⟨?_, ?_, h.hint⟩
  · have heq : (k.setCpu c st).curs = k.curs := by
      funext c'
      rw [curs, hcurs]
      rfl
    rw [heq]
    exact h.sound
  · intro c' hm
    rw [hcurs]
    rcases eq_or_ne c' c with rfl | hcc
    · refine hu ?_
      simpa [Kernel.setCpu] using hm
    · refine h.user c' ?_
      simpa [Kernel.setCpu, hcc] using hm

theorem Scheduled.reply (h : Scheduled k) (hu : IsUser (k.cur c)) (x : UInt64) :
    Scheduled (k.reply c x) :=
  h.setCpu rfl fun _ => hu

theorem Scheduled.setMode (h : Scheduled k) {m : Mode}
    (hu : Mode.atUser m = true → IsUser (k.cur c)) : Scheduled (k.setMode c m) :=
  h.setCpu rfl hu

@[simp] theorem cur_setCpu (k : Kernel) (c : Cpu) (st : CpuState) :
    (k.setCpu c st).cur c = st.current := by
  simp [cur, Kernel.setCpu]

@[simp] theorem cur_reply (k : Kernel) (c : Cpu) (x : UInt64) : (k.reply c x).cur c = k.cur c := by
  rw [Kernel.reply, cur_setCpu]
  rfl

end Same

/-! ## The scheduling functions -/

section Decisions

variable {k : Kernel} {c : Cpu}

section

variable (h : Scheduled k)

include h

variable {pc : Resume}

theorem Scheduled.switch {frm next : Slot} (hpc : pc.isUser = true → IsUser frm)
    (hn : MaySwitch k.sched c next) : Legal c (.switch k frm next pc) :=
  ⟨h.sound.release c, fun c' _ => h.user c', h.hint, hpc, hn⟩

/-- The current task is made Ready on the way out. -/
theorem Scheduled.switch_ready {next : Slot} (h0 : k.cur c ≠ 0)
    (hpc : pc.isUser = true → IsUser (k.cur c)) (hn : MaySwitch k.sched c next)
    (hne : next ≠ k.cur c) :
    Legal c (.switch { k with sched := k.sched.setState (k.cur c) .ready } (k.cur c) next pc) where
  sound := (h.sound.release c).setState .ready
    (fun _ => h.sound.quiet_release (c := c) rfl h0) (h.sound.current_awake (c := c) rfl)
  user := fun c' _ => h.user c'
  hint := h.hint
  saved := hpc
  target := hn.mono fun hr => by
    rw [stateIs_setState_ne k.sched _ _ hne]
    exact hr

/-- `switch_away`, once the caller has been parked or is dead. -/
theorem Scheduled.switchAway {k' : Kernel} (hc : k'.cpus = k.cpus)
    (hs : Sound k'.sched (Function.update k.curs c none)) (hh : UserHint k'.sched)
    (hpc : pc.isUser = true → IsUser (k.cur c)) : Legal c (k'.switchAway c pc) where
  sound := by
    rw [curs_eq hc]
    exact hs
  user := by
    intro c' _ hm
    rw [cur, hc]
    rw [hc] at hm
    exact h.user c' hm
  hint := hh
  saved := by
    rw [cur, hc]
    exact hpc
  target := hs.maySwitch_pickNext c _

theorem Scheduled.switchBest (strict : Bool) (hpc : pc.isUser = true → IsUser (k.cur c)) :
    Legal c (k.switchBest c strict pc) := by
  rcases switchBest_cases k c strict pc with he | ⟨next, hnext, h0, -, hne, he⟩ <;> rw [he]
  · exact h
  · refine h.switch_ready h0 hpc ?_ hne
    rcases hnext with ⟨-, rfl⟩ | ⟨-, rfl⟩
    · exact h.sound.maySwitch_pickNext c _
    · exact h.sound.maySwitch_pickNextRr c _ _

theorem Scheduled.woken : Scheduled k.woken :=
  ⟨h.sound.wakeSleepers k.ticks, h.user, h.hint⟩

theorem Scheduled.tickPreempt (fromEl0 : Bool) (hpc : pc.isUser = true → IsUser (k.cur c)) :
    Legal c (k.tickPreempt c fromEl0 pc) := by
  rcases tickPreempt_cases k c fromEl0 pc with he | ⟨-, he⟩ | ⟨-, he⟩ <;> rw [he]
  · exact h.woken
  · exact h.woken.switch hpc (h.woken.sound.maySwitch_pickNext c _)
  · exact h.woken.switchBest false hpc

/-- `reschedule` switches to whatever the hint names. -/
theorem Scheduled.reschedule (hg : GoodHint k.sched (k.cur c)) (hu : IsUser (k.cur c))
    (pc : Resume) : Legal c (k.reschedule c pc) := by
  have ht : Scheduled { k with sched := k.sched.takeWoken } :=
    ⟨h.sound.takeWoken, h.user, fun w hw => by cases hw⟩
  rcases reschedule_cases k c pc with he | he | ⟨w, hw, hlt, hne, he⟩ <;> rw [he]
  · exact h
  · exact ht
  · exact ht.switch_ready hu.ne_zero (fun _ => hu) (Or.inr ⟨h.hint w hw, hg w hw hlt⟩) hne

theorem Scheduled.tail (hg : GoodHint k.sched (k.cur c)) (hu : IsUser (k.cur c)) (x : UInt64) :
    Legal c (k.tail c x) := by
  refine (h.reply hu x).reschedule ?_ ?_ (.tail x)
  · rw [cur_reply]
    exact hg
  · rw [cur_reply]
    exact hu

theorem Scheduled.enter : Legal 0 k.enter := by
  rcases enter_cases k with he | he <;> rw [he]
  · exact h.setMode fun hm => by cases hm
  · exact h.switch (fun hpc => by cases hpc) (h.sound.maySwitch_pickNext 0 _)

/-- A turn of the idle loop; `own` is the CPU whose loop it is. -/
theorem Scheduled.idleTurn (own : Cpu) : Legal c (k.idleTurn c own) := by
  rcases idleTurn_cases k c own with he | ⟨hne, he⟩ <;> rw [he]
  · exact h
  · -- not the idle slot, so a Ready user slot
    obtain ⟨hu, hr⟩ := (h.sound.maySwitch_pickNext own (k.cur c)).resolve_left hne
    have hidle : Sound (k.sched.setState (idleSlot own) .ready) k.curs :=
      h.sound.setState .ready (fun hu => absurd rfl (hu own)) (h.sound.idle_awake own)
    have h₁ : Scheduled { k with sched := k.sched.setState (idleSlot own) .ready } :=
      ⟨hidle, h.user, h.hint⟩
    refine h₁.switch (fun hpc => by cases hpc) (Or.inr ⟨hu, ?_⟩)
    rw [stateIs_setState_ne k.sched _ _ hne]
    exact hr

end

end Decisions

end Kernel

end Tanix
