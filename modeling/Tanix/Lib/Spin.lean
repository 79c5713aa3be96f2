/-
# `Tanix.Lib.Spin` — kernel code around one spinlock

Several CPUs run kernel code that shares some data, one spinlock and a table of
saved contexts.  The lock need not be released by the code that took it: a
context switch saves the running code in the table, releases the lock, and goes
on with the code saved in another slot, which may have been saved by another CPU.

`Prog` is such code.  It is a monad, so that code can be written down as the
source has it; what a switch saves is the rest of the program, whatever that is.

    Meets Q p h     run from `h` (does this CPU hold the lock?), `p` takes the lock
                    only where it is not held, releases it and switches only where
                    it is held, and ends with `Q result held`

`Meets` looks at one program alone.  `balanced_of_run` is about the machine: if
all code that a CPU may start meets its contract, then in every run, on any number
of CPUs, no CPU waits for the lock while it holds it, none releases a lock it does
not hold, and none that is at rest holds it.  Interrupts have to be taken at rest;
where they are on in the middle of a program, the handler runs on top of it.
-/
import Tanix.Lib.Run
import Mathlib.Logic.Function.Basic

namespace Spin

/-- Kernel code with results in `α`, on the CPUs `κ`, over the data `σ`, with contexts in the
slots `ι`.  Outside of its programs a CPU rests in a place of `π`. -/
inductive Prog (κ σ ι π α : Type) where
  | done (a : α)
  /-- the machine is stopped from here -/
  | stop
  /-- work on the data; `next` sees the data as they were -/
  | act (f : κ → σ → σ) (next : κ → σ → Prog κ σ ι π α)
  | lock (next : Prog κ σ ι π α)
  | unlock (next : Prog κ σ ι π α)
  /-- switch interrupts on or off -/
  | irqs (on : Bool) (next : Prog κ σ ι π α)
  /-- make a new context, to start in a place with interrupts on -/
  | fresh (i : ι) (place : π) (next : Prog κ σ ι π α)
  /-- save the rest in `frm`, release the lock, go on with `dst` -/
  | switch (frm dst : ι) (next : Prog κ σ ι π α)
  /-- the last two thirds of a switch -/
  | release (dst : ι)
  /-- the last third of a switch -/
  | restore (dst : ι)

namespace Prog

variable {κ σ ι π α β : Type}

def bind : Prog κ σ ι π α → (α → Prog κ σ ι π β) → Prog κ σ ι π β
  | .done a, g => g a
  | .stop, _ => .stop
  | .act f next, g => .act f fun c s => (next c s).bind g
  | .lock next, g => .lock (next.bind g)
  | .unlock next, g => .unlock (next.bind g)
  | .irqs on next, g => .irqs on (next.bind g)
  | .fresh i p next, g => .fresh i p (next.bind g)
  | .switch frm dst next, g => .switch frm dst (next.bind g)
  | .release dst, _ => .release dst
  | .restore dst, _ => .restore dst

instance : Monad (Prog κ σ ι π) where
  pure := .done
  bind := bind

/-- Look at the data. -/
def read (f : κ → σ → α) : Prog κ σ ι π α :=
  .act (fun _ s => s) fun c s => .done (f c s)

/-- Change the data. -/
def modify (f : κ → σ → σ) : Prog κ σ ι π Unit :=
  .act f fun _ _ => .done ()

/-- Work on the data that may stop the machine. -/
def attempt {ε : Type} (f : κ → σ → Except ε (σ × α)) : Prog κ σ ι π α :=
  .act (fun c s => match f c s with | .ok r => r.1 | .error _ => s)
    fun c s => match f c s with | .ok r => .done r.2 | .error _ => .stop

/-- Run from `held`, the program keeps the lock discipline and ends as `Q` says. -/
def Meets (Q : α → Bool → Prop) : Prog κ σ ι π α → Bool → Prop
  | .done a, held => Q a held
  | .stop, _ => True
  | .act _ next, held => ∀ c s, (next c s).Meets Q held
  | .lock next, held => held = false ∧ next.Meets Q true
  | .unlock next, held => held = true ∧ next.Meets Q false
  | .irqs _ next, held => next.Meets Q held
  | .fresh _ _ next, held => next.Meets Q held
  | .switch _ _ next, held => held = true ∧ next.Meets Q false
  | .release _, held => held = true
  | .restore _, held => held = false

/-- The contract of a program that leaves the lock free. -/
def Frees (_ : α) (held : Bool) : Prop :=
  held = false

theorem Meets.mono {Q R : α → Bool → Prop} (hQR : ∀ a h, Q a h → R a h) {p : Prog κ σ ι π α}
    {h : Bool} (hp : p.Meets Q h) : p.Meets R h := by
  induction p generalizing h with
  | done a => exact hQR a h hp
  | stop => exact trivial
  | act f next ih => exact fun c s => ih c s (hp c s)
  | lock _ ih | unlock _ ih | switch _ _ _ ih => exact ⟨hp.1, ih hp.2⟩
  | irqs _ _ ih | fresh _ _ _ ih => exact ih hp
  | release | restore => exact hp

/-- One program after another. -/
@[simp]
theorem meets_bind {Q : β → Bool → Prop} {p : Prog κ σ ι π α} {g : α → Prog κ σ ι π β} {h : Bool} :
    (p >>= g).Meets Q h ↔ p.Meets (fun a h' => (g a).Meets Q h') h := by
  show (p.bind g).Meets Q h ↔ _
  induction p generalizing h with
  | done | stop | release | restore => exact Iff.rfl
  | act f next ih => exact forall_congr' fun c => forall_congr' fun s => ih c s
  | lock _ ih | unlock _ ih | switch _ _ _ ih => exact and_congr_right fun _ => ih
  | irqs _ _ ih | fresh _ _ _ ih => exact ih

section Rules

variable {Q : α → Bool → Prop} {h : Bool}

@[simp]
theorem meets_pure {a : α} : (pure a : Prog κ σ ι π α).Meets Q h ↔ Q a h :=
  Iff.rfl

@[simp]
theorem meets_read {f : κ → σ → α} :
    (read f : Prog κ σ ι π α).Meets Q h ↔ ∀ c s, Q (f c s) h :=
  Iff.rfl

@[simp]
theorem meets_modify {Q : Unit → Bool → Prop} {f : κ → σ → σ} :
    (modify f : Prog κ σ ι π Unit).Meets Q h ↔ ∀ (_ : κ) (_ : σ), Q () h :=
  Iff.rfl

@[simp]
theorem meets_attempt {ε : Type} {f : κ → σ → Except ε (σ × α)} :
    (attempt f : Prog κ σ ι π α).Meets Q h ↔ ∀ c s r, f c s = .ok r → Q r.2 h := by
  refine forall_congr' fun c => forall_congr' fun s => ?_
  dsimp only
  cases f c s with
  | ok r =>
    refine ⟨fun hQ r' he => ?_, fun hQ => hQ r rfl⟩
    cases he
    exact hQ
  | error e =>
    refine ⟨fun _ r' he => ?_, fun _ => trivial⟩
    cases he

@[simp]
theorem meets_ite {P : Prop} [Decidable P] {p q : Prog κ σ ι π α} :
    (if P then p else q).Meets Q h ↔ (P → p.Meets Q h) ∧ (¬P → q.Meets Q h) := by
  split <;> simp [*]

end Rules

end Prog

/-! ## The machine -/

section Machine

variable (κ σ ι π : Type)

/-- A saved context: whether it runs with interrupts on, and its code. -/
structure Saved where
  irqsOn : Bool
  code : Prog κ σ ι π π

structure Machine where
  data : σ
  /-- the CPU that has the lock -/
  holder : Option κ
  saved : ι → Saved κ σ ι π
  code : κ → Prog κ σ ι π π
  irqsOn : κ → Bool

/-- What starts code on a CPU at rest: `trap` out of its place, `irq` in between. -/
structure System (ε : Type) where
  trap : π → ε → κ → σ → Option (Prog κ σ ι π π)
  /-- leaving this place switches interrupts off -/
  masks : π → Bool
  /-- the interrupt handler, with the place it interrupts, if it is one -/
  irq : ε → Option π → Prog κ σ ι π Unit

/-- A CPU goes on with its code, leaves its place, or is interrupted. -/
inductive Event (ε : Type) where
  | run (c : κ)
  | trap (c : κ) (e : ε)
  | irq (c : κ) (e : ε)

end Machine

variable {κ σ ι π ε : Type}

/-- The place a CPU rests in. -/
def Prog.place : Prog κ σ ι π π → Option π
  | .done pl => some pl
  | _ => none

@[simp]
theorem Prog.place_done (pl : π) : (Prog.done pl : Prog κ σ ι π π).place = some pl :=
  rfl

theorem Prog.place_eq_some {p : Prog κ σ ι π π} {pl : π} (h : p.place = some pl) :
    p = .done pl := by
  cases p with
  | done a =>
    cases h
    rfl
  | stop | act | lock | unlock | irqs | fresh | switch | release | restore => cases h

namespace Machine

variable [DecidableEq κ]

section Step

variable [DecidableEq ι]

/-- One step of the code of a CPU. -/
def advance (m : Machine κ σ ι π) (c : κ) : Option (Machine κ σ ι π) :=
  let goto (p : Prog κ σ ι π π) := Function.update m.code c p
  match m.code c with
  | .done _ | .stop => none
  | .act f next => some { m with data := f c m.data, code := goto (next c m.data) }
  | .lock next => if m.holder = none then some { m with holder := some c, code := goto next } else none
  | .unlock next => some { m with holder := none, code := goto next }
  | .irqs on next => some { m with irqsOn := Function.update m.irqsOn c on, code := goto next }
  | .fresh i pl next =>
    some { m with saved := Function.update m.saved i ⟨true, .done pl⟩, code := goto next }
  | .switch frm dst next =>
    some { m with saved := Function.update m.saved frm ⟨false, next⟩, code := goto (.release dst) }
  | .release dst => some { m with holder := none, code := goto (.restore dst) }
  | .restore dst =>
    some { m with
      irqsOn := Function.update m.irqsOn c (m.saved dst).irqsOn
      code := goto (m.saved dst).code }

def next (S : System κ σ ι π ε) (m : Machine κ σ ι π) : Event κ ε → Option (Machine κ σ ι π)
  | .run c => m.advance c
  | .trap c e =>
    (m.code c).place.bind fun pl => (S.trap pl e c m.data).map fun p =>
      { m with
        irqsOn := Function.update m.irqsOn c (m.irqsOn c && !S.masks pl)
        code := Function.update m.code c p }
  | .irq c e =>
    if m.irqsOn c then
      some { m with
        irqsOn := Function.update m.irqsOn c false
        code := Function.update m.code c
          (S.irq e (m.code c).place >>= fun _ => .irqs true (m.code c)) }
    else none

def Step (S : System κ σ ι π ε) (m : Machine κ σ ι π) (e : Event κ ε) (m' : Machine κ σ ι π) :
    Prop :=
  m.next S e = some m'

end Step

/-- Does this CPU hold the lock? -/
def holds (m : Machine κ σ ι π) (c : κ) : Bool :=
  decide (m.holder = some c)

/-- An interrupt comes to a CPU at rest. -/
def AtRest (m : Machine κ σ ι π) (e : Event κ ε) : Prop :=
  ∀ c x, e = .irq c x → ((m.code c).place).isSome = true

instance (m : Machine κ σ ι π) (e : Event κ ε) : Decidable (m.AtRest e) :=
  match e with
  | .run _ => .isTrue fun _ _ h => nomatch h
  | .trap _ _ => .isTrue fun _ _ h => nomatch h
  | .irq c _ => decidable_of_iff ((m.code c).place.isSome = true)
      ⟨fun h _ _ he => by cases he; exact h, fun h => h c _ rfl⟩

/-- The lock is used as it should be. -/
structure Balanced (m : Machine κ σ ι π) : Prop where
  /-- no CPU is about to take the lock while it holds it -/
  acquire : ∀ c p, m.code c = .lock p → m.holder ≠ some c
  /-- no CPU is about to release the lock without holding it -/
  unlock : ∀ c p, m.code c = .unlock p → m.holder = some c
  release : ∀ c dst, m.code c = .release dst → m.holder = some c
  /-- a CPU at rest does not hold the lock -/
  rest : ∀ c pl, m.code c = .done pl → m.holder ≠ some c

/-- Every CPU is inside code that meets its contract, and so is every saved context, from the
moment it is resumed. -/
structure Inv (m : Machine κ σ ι π) : Prop where
  code : ∀ c, (m.code c).Meets Prog.Frees (m.holds c)
  saved : ∀ i, (m.saved i).code.Meets Prog.Frees false

theorem holds_iff {m : Machine κ σ ι π} {c : κ} : m.holds c = true ↔ m.holder = some c :=
  decide_eq_true_iff

theorem Inv.balanced {m : Machine κ σ ι π} (h : m.Inv) : m.Balanced where
  acquire c p hp hc := by
    have hm := h.code c
    rw [hp, holds_iff.mpr hc] at hm
    exact Bool.noConfusion hm.1
  unlock c p hp := by
    have hm := h.code c
    rw [hp] at hm
    exact holds_iff.mp hm.1
  release c dst hp := by
    have hm := h.code c
    rw [hp] at hm
    exact holds_iff.mp hm
  rest c pl hp hc := by
    have hm := h.code c
    rw [hp, holds_iff.mpr hc] at hm
    exact Bool.noConfusion hm

/-- Moving one CPU: its new code has to fit the lock as it is afterwards, and the lock of the
others must be as it was. -/
theorem Inv.move {m m' : Machine κ σ ι π} (h : m.Inv) (c : κ) (p : Prog κ σ ι π π)
    (hcode : m'.code = Function.update m.code c p) (hp : p.Meets Prog.Frees (m'.holds c))
    (hothers : ∀ c', c' ≠ c → m'.holds c' = m.holds c')
    (hsaved : ∀ i, (m'.saved i).code.Meets Prog.Frees false) : m'.Inv where
  code c' := by
    rw [hcode]
    rcases eq_or_ne c' c with rfl | hc
    · rw [Function.update_self]
      exact hp
    · rw [Function.update_of_ne hc, hothers c' hc]
      exact h.code c'
  saved := hsaved

/-- Releasing a lock one holds changes nothing for the others. -/
theorem holds_of_release {m m' : Machine κ σ ι π} {c : κ} (hc : m.holds c = true)
    (hm' : m'.holder = none) : ∀ c', c' ≠ c → m'.holds c' = m.holds c' := by
  intro c' hne
  have hother : m.holder ≠ some c' := by
    rw [holds_iff.mp hc]
    intro he
    exact hne (Option.some.inj he).symm
  simp [holds, hm', hother]

/-- Taking a free lock changes nothing for the others. -/
theorem holds_of_acquire {m m' : Machine κ σ ι π} {c : κ} (hm : m.holder = none)
    (hm' : m'.holder = some c) : ∀ c', c' ≠ c → m'.holds c' = m.holds c' := by
  intro c' hne
  have hother : some c ≠ some c' := fun he => hne (Option.some.inj he).symm
  simp [holds, hm, hm', hother]

theorem Inv.save [DecidableEq ι] {m : Machine κ σ ι π} (h : m.Inv) (i : ι) {x : Saved κ σ ι π}
    (hx : x.code.Meets Prog.Frees false) :
    ∀ j, (Function.update m.saved i x j).code.Meets Prog.Frees false :=
  (Function.forall_update_iff m.saved fun _ x => x.code.Meets Prog.Frees false).mpr
    ⟨hx, fun j _ => h.saved j⟩

theorem Inv.advance [DecidableEq ι] {m m' : Machine κ σ ι π} {c : κ} (h : m.Inv) (hs : m.advance c = some m') :
    m'.Inv := by
  have hc := h.code c
  unfold Machine.advance at hs
  cases hp : m.code c with
  | done | stop =>
    rw [hp] at hs
    cases hs
  | act f next =>
    rw [hp] at hs hc
    cases hs
    exact h.move c _ rfl (hc c m.data) (fun _ _ => rfl) h.saved
  | lock next =>
    rw [hp] at hs hc
    obtain ⟨hfree, ⟨⟩⟩ := Option.ite_none_right_eq_some.mp hs
    refine h.move c next rfl ?_ (holds_of_acquire hfree rfl) h.saved
    rw [holds_iff.mpr rfl]
    exact hc.2
  | unlock next =>
    rw [hp] at hs hc
    cases hs
    exact h.move c next rfl hc.2 (holds_of_release hc.1 rfl) h.saved
  | irqs on next =>
    rw [hp] at hs hc
    cases hs
    exact h.move c next rfl hc (fun _ _ => rfl) h.saved
  | fresh i pl next =>
    rw [hp] at hs hc
    cases hs
    exact h.move c next rfl hc (fun _ _ => rfl) (h.save i rfl)
  | switch frm dst next =>
    rw [hp] at hs hc
    cases hs
    -- what is saved is the rest of the program, which is resumed without the lock
    exact h.move c (.release dst) rfl hc.1 (fun _ _ => rfl) (h.save frm hc.2)
  | release dst =>
    rw [hp] at hs hc
    cases hs
    exact h.move c (.restore dst) rfl rfl (holds_of_release hc rfl) h.saved
  | restore dst =>
    rw [hp] at hs hc
    cases hs
    refine h.move c _ rfl ?_ (fun _ _ => rfl) h.saved
    have hfree : m.holds c = false := hc
    show (m.saved dst).code.Meets Prog.Frees (m.holds c)
    rw [hfree]
    exact h.saved dst

end Machine

/-- Everything that can start on a CPU keeps the lock discipline. -/
structure System.Disciplined (S : System κ σ ι π ε) : Prop where
  trap : ∀ pl e c s p, S.trap pl e c s = some p → p.Meets Prog.Frees false
  irq : ∀ e pl, (S.irq e pl).Meets Prog.Frees false

namespace Machine

variable [DecidableEq κ] {S : System κ σ ι π ε}

/-- A CPU at rest is without the lock. -/
theorem Inv.free_at_rest {m : Machine κ σ ι π} (h : m.Inv) {c : κ} {pl : π}
    (hp : (m.code c).place = some pl) : m.holds c = false := by
  have hm := h.code c
  rw [Prog.place_eq_some hp] at hm
  exact hm

theorem Inv.step [DecidableEq ι] (hS : S.Disciplined) {m m' : Machine κ σ ι π} {e : Event κ ε} (h : m.Inv)
    (hrest : m.AtRest e) (hs : Step S m e m') : m'.Inv := by
  unfold Step next at hs
  cases e with
  | run c => exact h.advance hs
  | trap c x =>
    obtain ⟨pl, hpl, hs⟩ := Option.bind_eq_some_iff.mp hs
    obtain ⟨p, hp, rfl⟩ := Option.map_eq_some_iff.mp hs
    refine h.move c p rfl ?_ (fun _ _ => rfl) h.saved
    show p.Meets Prog.Frees (m.holds c)
    rw [h.free_at_rest hpl]
    exact hS.trap pl x c m.data p hp
  | irq c x =>
    obtain ⟨-, ⟨⟩⟩ := Option.ite_none_right_eq_some.mp hs
    obtain ⟨pl, hpl⟩ := Option.isSome_iff_exists.mp (hrest c x rfl)
    refine h.move c _ rfl ?_ (fun _ _ => rfl) h.saved
    -- the handler finds the lock not held, and leaves it so for the interrupted place
    have hfree := h.free_at_rest hpl
    show Prog.Meets Prog.Frees _ (m.holds c)
    rw [hfree]
    refine Prog.meets_bind.mpr ((hS.irq x _).mono fun _ held hheld => ?_)
    show (m.code c).Meets Prog.Frees held
    rw [Prog.place_eq_some hpl]
    exact hheld

/-- In every run whose interrupts come at rest, the lock stays balanced. -/
theorem balanced_of_run [DecidableEq ι] (hS : S.Disciplined) {m m' : Machine κ σ ι π} {es : List (Event κ ε)}
    (h : m.Inv) (hrun : LTS.Run (LTS.guarded (Step S) AtRest) m es m') : m'.Balanced :=
  (hrun.invariant_guarded (fun _ _ _ hI hG hs => hI.step hS hG hs) h).balanced

end Machine

end Spin
