/-
# `Tanix.Kernel.Stable` — properties that scheduling does not touch

Most invariants of the task table and the memory do not depend on who runs: they are
kept by every write of the scheduler itself (`Stable`).  What is left to show for such a
property is what a step does besides scheduling (`MainKeeps`): the body of a call, the
call that parks its caller, the repair of a fault, the death of a task at a fault.
`stable_step` is the rule.

It comes from a rule for properties of the whole kernel (`switching_step`) that asks
less of them: `Switching` is what a switch and a return to EL0 do, and the two places
where deadlines go, the tick and the end of `sys_sleep`, are left to show.
-/
import Tanix.Kernel.Effects

namespace Tanix

open Scheduler

/-- The writes that go with a switch or a return to EL0. -/
inductive Inert : (Task → Task) → Prop
  | ctx (ctx : Context) : Inert (Task.saveCtx ctx)
  | irqWait (irq : Option UInt32) : Inert (Task.setIrqWait irq)
  | deadline : Inert Task.clearDeadline

/-- A property of the table and the memory that scheduling keeps. -/
structure Stable (P : Scheduler → Ram → Prop) : Prop where
  hint : ∀ s r w, P s r → P { s with woken := w } r
  state : ∀ s r i st, st = .ready ∨ st = .running → P s r → P (s.setState i st) r
  wake : ∀ s r now, P s r → P (s.wakeSleepers now).1 r
  inert : ∀ s r i f, Inert f → P s r → P (s.modify i f) r

/-- The property at the moment of the decision. -/
def Outcome.Meets (P : Kernel → Prop) : Outcome → Prop
  | .stay k => P k
  | .switch k _ _ _ => P k

namespace Kernel

/-- What a step does besides scheduling leaves `P`; `rest` is for the steps that do no more. -/
structure MainKeeps (b : Board) (k : Kernel) (e : Event) (P : Scheduler → Ram → Prop) : Prop where
  rest : (∀ c call, e = .syscall c call → call.hasTail = false) → P k.sched k.ram
  body : ∀ c call k₁, e = .syscall c call → Body b k c call k₁ → P k₁.sched k₁.ram
  parks : ∀ c call k₁ pc, e = .syscall c call → Parks k c call k₁ pc → P k₁.sched k₁.ram
  faults : ∀ c ram, Faults b k c e ram → P (k.sched.modify (k.cur c) Task.faulted) ram
  repairs : ∀ c ram, Repairs b k c e ram → P k.sched ram

/-! ## Properties of the whole kernel -/

/-- A property of the kernel that switching and returning to EL0 keep. -/
structure Switching (P : Kernel → Prop) : Prop where
  cpus : ∀ k cpus, P k → P { k with cpus := cpus }
  pending : ∀ k pending, P k → P { k with pending := pending }
  hint : ∀ k w, P k → P { k with sched := { k.sched with woken := w } }
  state : ∀ k i st, st = .ready ∨ st = .running → P k → P { k with sched := k.sched.setState i st }
  ctx : ∀ k i ctx, P k → P { k with sched := k.sched.modify i (Task.saveCtx ctx) }
  irqWait : ∀ k i irq, P k → P { k with sched := k.sched.modify i (Task.setIrqWait irq) }

/-- What a step does besides switching leaves `P`; `rest` is for the steps that do no more. -/
structure MainStep (b : Board) (k : Kernel) (e : Event) (P : Kernel → Prop) : Prop where
  rest : (∀ c call, e = .syscall c call → call.hasTail = false) → (∀ c, e ≠ .tick c) → P k
  tick : ∀ c, e = .tick c → P { k with ticks := k.ticks + 1 }.woken
  clear : ∀ c, e = .restore c → P { k with sched := k.sched.modify (k.cur c) Task.clearDeadline }
  body : ∀ c call k₁, e = .syscall c call → Body b k c call k₁ → P k₁
  parks : ∀ c call k₁ pc, e = .syscall c call → Parks k c call k₁ pc → P k₁
  faults : ∀ c ram, Faults b k c e ram →
    P { k with sched := k.sched.modify (k.cur c) Task.faulted, ram := ram }
  repairs : ∀ c ram, Repairs b k c e ram → P { k with ram := ram }

section Rules

variable {P : Kernel → Prop} {k : Kernel} {c : Cpu}

section

variable (hP : Switching P)

include hP

theorem Switching.apply {o : Outcome} (h : o.Meets P) : P (Kernel.apply c o) := by
  cases o with
  | stay k => exact h
  | switch k frm next pc =>
    exact hP.cpus _ _ (hP.state _ _ _ (Or.inr rfl) (hP.ctx _ _ _ h))

theorem Switching.switchBest (h : P k) (strict : Bool) (pc : Resume) :
    (k.switchBest c strict pc).Meets P := by
  rcases switchBest_cases k c strict pc with he | ⟨next, -, -, -, -, he⟩ <;> rw [he]
  · exact h
  · exact hP.state _ _ _ (Or.inl rfl) h

theorem Switching.tickPreempt (hw : P k.woken) (fromEl0 : Bool) (pc : Resume) :
    (k.tickPreempt c fromEl0 pc).Meets P := by
  rcases tickPreempt_cases k c fromEl0 pc with he | ⟨-, he⟩ | ⟨-, he⟩ <;> rw [he]
  · exact hw
  · exact hw
  · exact hP.switchBest hw false pc

theorem Switching.reschedule (h : P k) (pc : Resume) : (k.reschedule c pc).Meets P := by
  have ht : P { k with sched := k.sched.takeWoken } := hP.hint _ none h
  rcases reschedule_cases k c pc with he | he | ⟨w, -, -, -, he⟩ <;> rw [he]
  · exact h
  · exact ht
  · exact hP.state _ _ _ (Or.inl rfl) ht

theorem Switching.idleTurn (h : P k) (own : Cpu) : (k.idleTurn c own).Meets P := by
  rcases idleTurn_cases k c own with he | ⟨-, he⟩ <;> rw [he]
  · exact h
  · exact hP.state _ _ _ (Or.inl rfl) h

theorem Switching.enter (h : P k) : k.enter.Meets P := by
  rcases enter_cases k with he | he <;> rw [he]
  · exact hP.cpus _ _ h
  · exact h

theorem Switching.restore (h : P k)
    (hclear : P { k with sched := k.sched.modify (k.cur c) Task.clearDeadline }) {k' : Kernel}
    (hk : k.restore c = .ok k') : P k' := by
  unfold Kernel.restore at hk
  split at hk
  · cases hk
  · rename_i t _
    have h₁ : P (k.setCpu c { k.cpus c with ttbr0 := t.ctx.ttbr0 }) := hP.cpus _ _ h
    have hcur : (k.setCpu c { k.cpus c with ttbr0 := t.ctx.ttbr0 }).cur c = k.cur c := by
      simp [cur, setCpu]
    simp only [hcur] at hk
    split at hk <;> cases hk <;> first
      | exact hP.cpus _ _ h₁
      | exact hP.cpus _ _ (hP.cpus _ _ hclear)

theorem Switching.performed {b : Board} {call : Call} {o : Outcome}
    (hm : MainStep b k (.syscall c call) P) (hp : Performed b k c call o) : o.Meets P := by
  have hrest : call.hasTail = false → P k := fun ht =>
    hm.rest (fun _ _ he => by cases he; exact ht) fun _ he => by cases he
  cases hp with
  | tail x hb => exact hP.reschedule (hP.cpus _ _ (hm.body c call _ rfl hb)) _
  | park hp => exact hm.parks c call _ _ rfl hp
  | yield => exact hP.switchBest (hP.cpus _ _ (hrest rfl)) true _
  | answered => exact hP.cpus _ _ (hP.pending _ _ (hrest rfl))
  | waiting irq => exact hP.cpus _ _ (hP.irqWait _ _ _ (hrest rfl))

/-- A property that switching keeps holds after a step when the rest of the step keeps it. -/
theorem switching_step {b : Board} {e : Event} {k' : Kernel} (hm : MainStep b k e P)
    (hs : Step b k e k') : P k' := by
  obtain ⟨o, ho, rfl⟩ := hs
  refine hP.apply ?_
  cases handled ho with
  | enter => exact hP.enter (hm.rest (fun _ _ he => by cases he) fun _ he => by cases he)
  | idle c own => exact hP.idleTurn (hm.rest (fun _ _ he => by cases he) fun _ he => by cases he) own
  | tick c => exact hP.tickPreempt (hm.tick c rfl) _ _
  | syscall c call _ hp => exact hP.performed hm hp
  | repaired c far esr ram hr => exact hm.repairs c ram hr
  | died c ram _ _ hf => exact hm.faults c ram hf
  | irq => exact hP.pending _ _ (hm.rest (fun _ _ he => by cases he) fun _ he => by cases he)
  | wake =>
    have h := hm.rest (fun _ _ he => by cases he) fun _ he => by cases he
    exact hP.cpus _ _ (hP.pending _ _ (hP.irqWait _ _ _ h))
  | restore c k₁ hr =>
    have h := hm.rest (fun _ _ he => by cases he) fun _ he => by cases he
    exact hP.restore h (hm.clear c rfl) hr

end

end Rules

/-! ## Properties of the table and the memory -/

/-- A property that scheduling keeps holds after a step when the rest of the step keeps it. -/
theorem stable_step {P : Scheduler → Ram → Prop} {b : Board} {k k' : Kernel} {e : Event}
    (hP : Stable P) (hm : MainKeeps b k e P) (hs : Step b k e k') : P k'.sched k'.ram := by
  have hswitch : Switching fun k => P k.sched k.ram :=
    { cpus := fun _ _ h => h
      pending := fun _ _ h => h
      hint := fun _ w h => hP.hint _ _ w h
      state := fun _ i st hst h => hP.state _ _ i st hst h
      ctx := fun _ i ctx h => hP.inert _ _ i _ (.ctx ctx) h
      irqWait := fun _ i irq h => hP.inert _ _ i _ (.irqWait irq) h }
  refine switching_step hswitch ⟨fun h _ => hm.rest h, ?_, ?_, hm.body, hm.parks, hm.faults,
    hm.repairs⟩ hs
  · rintro c rfl
    exact hP.wake _ _ _ (hm.rest fun _ _ he => by cases he)
  · rintro c rfl
    exact hP.inert _ _ _ _ .deadline (hm.rest fun _ _ he => by cases he)

end Kernel

end Tanix
