/-
# `Tanix.Lib.Run` — labelled runs and what every run preserves

A step relation `step : σ → ε → σ → Prop` says what one labelled step may do.
A `Run` chains steps and keeps their labels in order.  Everything a development
says about "every interleaving" or "every reachable state" goes through the
rules below: an invariant is shown for one step, and the induction over the
run is done here once.

    holds at the start, kept by every step           ⟹  holds at the end   (`Run.invariant`)
    the same, for the runs whose steps meet a guard   ⟹  holds at the end   (`Run.invariant_guarded`)
    a step function computes a state                  ⟹  a run leads there  (`Run.of_exec`)

`guarded step G` is the step relation cut down to the steps that satisfy `G`
before they are taken, so a run of it is a run all of whose steps meet `G`.
-/
import Mathlib.Logic.Basic

namespace LTS

variable {σ ε : Type}

/-- A run: the labels of its steps, first step first. -/
inductive Run (step : σ → ε → σ → Prop) : σ → List ε → σ → Prop
  | nil (s : σ) : Run step s [] s
  | cons {s s' s'' : σ} {e : ε} {es : List ε} :
      step s e s' → Run step s' es s'' → Run step s (e :: es) s''

/-- The steps that meet a guard in the state they start from. -/
def guarded (step : σ → ε → σ → Prop) (G : σ → ε → Prop) : σ → ε → σ → Prop :=
  fun s e s' => G s e ∧ step s e s'

variable {step : σ → ε → σ → Prop}

theorem Run.single {s s' : σ} {e : ε} (h : step s e s') : Run step s [e] s' :=
  .cons h (.nil s')

theorem Run.append {s s' s'' : σ} {es es' : List ε}
    (h : Run step s es s') (h' : Run step s' es' s'') : Run step s (es ++ es') s'' := by
  induction h with
  | nil _ => exact h'
  | cons hstep _ ih => exact .cons hstep (ih h')

/-- A weaker step relation has at least the same runs. -/
theorem Run.mono {step' : σ → ε → σ → Prop} (hle : ∀ s e s', step s e s' → step' s e s')
    {s s' : σ} {es : List ε} (h : Run step s es s') : Run step' s es s' := by
  induction h with
  | nil s => exact .nil s
  | cons hstep _ ih => exact .cons (hle _ _ _ hstep) ih

/-- Run a step function over a list of labels. -/
def exec (next : σ → ε → Option σ) (s : σ) (es : List ε) : Option σ :=
  es.foldlM next s

/-- What a step function computes is a run of the relation it computes steps of. -/
theorem Run.of_exec {next : σ → ε → Option σ} (hn : ∀ s e s', next s e = some s' → step s e s')
    {s s' : σ} {es : List ε} (h : exec next s es = some s') : Run step s es s' := by
  induction es generalizing s with
  | nil =>
    cases h
    exact .nil _
  | cons e es ih =>
    rw [exec, List.foldlM_cons] at h
    obtain ⟨s₁, hs₁, h⟩ := Option.bind_eq_some_iff.mp h
    exact .cons (hn s e s₁ hs₁) (ih h)

/-- A computed state that passes a test. -/
theorem exec_any (next : σ → ε → Option σ) (s : σ) (es : List ε) (p : σ → Bool)
    (h : (exec next s es).any p = true) : ∃ s', exec next s es = some s' ∧ p s' = true := by
  cases hs : exec next s es with
  | none =>
    rw [hs] at h
    cases h
  | some s' =>
    rw [hs] at h
    exact ⟨s', rfl, h⟩

/-- A computed state with a decidable property, and the run that leads there. -/
theorem Run.exists_of_exec (next : σ → ε → Option σ) {S : σ → ε → σ → Prop}
    (hn : ∀ {s e s'}, next s e = some s' → S s e s') (s : σ) (es : List ε) (p : σ → Prop) [DecidablePred p]
    (h : (exec next s es).any (fun s' => decide (p s')) = true) : ∃ s', Run S s es s' ∧ p s' := by
  obtain ⟨s', hs, hp⟩ := exec_any next s es _ h
  exact ⟨s', Run.of_exec (fun _ _ _ => hn) hs, of_decide_eq_true hp⟩

/-- A step function cut down to the steps that meet a guard. -/
def nextGuarded (next : σ → ε → Option σ) (G : σ → ε → Prop) [∀ s e, Decidable (G s e)] (s : σ) (e : ε) :
    Option σ :=
  if G s e then next s e else none

theorem guarded_of_nextGuarded {next : σ → ε → Option σ} {S : σ → ε → σ → Prop} {G : σ → ε → Prop}
    [∀ s e, Decidable (G s e)] {s s' : σ} {e : ε} (hn : next s e = some s' → S s e s')
    (h : nextGuarded next G s e = some s') : guarded S G s e s' := by
  obtain ⟨hg, hs⟩ := Option.ite_none_right_eq_some.mp h
  exact ⟨hg, hn hs⟩

/-- The same, for a run of steps that meet a guard. -/
theorem Run.exists_of_guarded (next : σ → ε → Option σ) (G : σ → ε → Prop) [∀ s e, Decidable (G s e)]
    {S : σ → ε → σ → Prop} (hn : ∀ {s e s'}, next s e = some s' → S s e s') (s : σ) (es : List ε)
    (p : σ → Prop) [DecidablePred p]
    (h : (exec (nextGuarded next G) s es).any (fun s' => decide (p s')) = true) :
    ∃ s', Run (guarded S G) s es s' ∧ p s' :=
  exists_of_exec (nextGuarded next G) (guarded_of_nextGuarded hn) s es p h

/-- A run that ends in a state with a property `Q`, which follows from one that can be computed. -/
theorem Run.exists_and {S : σ → ε → σ → Prop} {s : σ} {es : List ε} {p Q : σ → Prop}
    (h : ∃ s', Run S s es s' ∧ p s') (hQ : ∀ s', Run S s es s' → p s' → Q s') : ∃ s', Run S s es s' ∧ Q s' := by
  obtain ⟨s', hrun, hp⟩ := h
  exact ⟨s', hrun, hQ s' hrun hp⟩

/-- What every step keeps, every run keeps. -/
theorem Run.invariant {I : σ → Prop} (hI : ∀ s e s', I s → step s e s' → I s')
    {s s' : σ} {es : List ε} (h : Run step s es s') (hs : I s) : I s' := by
  induction h with
  | nil _ => exact hs
  | cons hstep _ ih => exact ih (hI _ _ _ hs hstep)

/-- What every step that meets the guard keeps, every run of such steps keeps. -/
theorem Run.invariant_guarded {G : σ → ε → Prop} {I : σ → Prop}
    (hI : ∀ s e s', I s → G s e → step s e s' → I s')
    {s s' : σ} {es : List ε} (h : Run (guarded step G) s es s') (hs : I s) : I s' :=
  Run.invariant (fun s e s' hIs hst => hI s e s' hIs hst.1 hst.2) h hs

end LTS
