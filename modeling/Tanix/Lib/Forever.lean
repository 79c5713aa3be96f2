/-
# `Tanix.Lib.Forever` — runs without an end

An infinite run is a sequence of states and a sequence of labels, each state
one step after the other.  Three rules serve liveness and its refutations:

    held at the start, kept by every step             ⟹  held at every time   (`Forever.invariant`)
    a rank that never grows                           ⟹  drops finitely often (`not_drops_forever`)
    a stem and a loop that comes back to its start    ⟹  an infinite run      (`Forever.of_lasso`)

A step relation may move parts of the state that the loop does not come back
to (a log, say).  So the lasso is run on a view of the state, and
`Forever.of_lasso` lifts it along any view that a step function commutes with.
-/
import Tanix.Lib.Run
import Mathlib.Tactic.Choose

namespace LTS

open List

variable {σ ε : Type} {step : σ → ε → σ → Prop}

/-- An infinite run: its states and the labels of its steps. -/
def Forever (step : σ → ε → σ → Prop) (ρ : Nat → σ) (ev : Nat → ε) : Prop :=
  ∀ n, step (ρ n) (ev n) (ρ (n + 1))

/-- What every step keeps holds at every time. -/
theorem Forever.invariant {ρ : Nat → σ} {ev : Nat → ε} (h : Forever step ρ ev) {I : σ → Prop}
    (hI : ∀ n s', I (ρ n) → step (ρ n) (ev n) s' → I s') (h0 : I (ρ 0)) (n : Nat) : I (ρ n) := by
  induction n with
  | zero => exact h0
  | succ n ih => exact hI n _ ih (h n)

/-- A rank that never grows cannot drop infinitely often. -/
theorem not_drops_forever (rank : Nat → Nat) {drops : Nat → Prop} {n₀ : Nat}
    (hle : ∀ n, n₀ ≤ n → rank (n + 1) ≤ rank n)
    (hlt : ∀ n, n₀ ≤ n → drops n → rank (n + 1) < rank n)
    (hinf : ∀ n, ∃ k, n ≤ k ∧ drops k) : False := by
  have hmono : ∀ n, n₀ ≤ n → ∀ k, rank (n + k) ≤ rank n := by
    intro n hn k
    induction k with
    | zero => exact Nat.le_refl _
    | succ k ih => exact Nat.le_trans (hle (n + k) (by omega)) ih
  -- every number would be below the rank, at every time
  have hbelow : ∀ r n, n₀ ≤ n → r ≤ rank n := by
    intro r
    induction r with
    | zero => exact fun n _ => Nat.zero_le _
    | succ r ih =>
      intro n hn
      obtain ⟨k, hk, hdrop⟩ := hinf n
      obtain ⟨j, rfl⟩ := Nat.exists_eq_add_of_le hk
      have hdec := hlt (n + j) (by omega) hdrop
      have hr := ih (n + j + 1) (by omega)
      have hm := hmono n hn j
      omega
  have := hbelow (rank n₀ + 1) n₀ (Nat.le_refl _)
  omega

/-! ## Lassos -/

/-- The place in `stem ++ loop` that time `n` stands at. -/
def turn (p c n : Nat) : Nat :=
  if n < p then n else p + (n - p) % c

theorem turn_zero (p c : Nat) : turn p c 0 = 0 := by
  unfold turn
  split
  · rfl
  · rw [Nat.zero_sub, Nat.zero_mod]
    omega

theorem turn_stem (p c : Nat) : turn p c p = p := by
  rw [turn, if_neg (Nat.lt_irrefl p), Nat.sub_self, Nat.zero_mod, Nat.add_zero]

theorem turn_lt {p c : Nat} (hc : 0 < c) (n : Nat) : turn p c n < p + c := by
  unfold turn
  split
  · omega
  · have := Nat.mod_lt (n - p) hc
    omega

theorem turn_succ {p c : Nat} (hc : 0 < c) (n : Nat) :
    turn p c (n + 1) = turn p c n + 1 ∨ (turn p c n + 1 = p + c ∧ turn p c (n + 1) = p) := by
  unfold turn
  by_cases hn : n < p
  · rw [if_pos hn]
    left
    split
    · rfl
    · rw [show n + 1 - p = 0 by omega, Nat.zero_mod]
      omega
  · rw [if_neg hn, if_neg (by omega), show n + 1 - p = n - p + 1 by omega, ← Nat.mod_add_mod]
    have hlt := Nat.mod_lt (n - p) hc
    rcases Nat.lt_or_eq_of_le (Nat.succ_le_of_lt hlt) with hl | hl
    · left
      rw [Nat.mod_eq_of_lt hl]
      rfl
    · right
      rw [Nat.succ_eq_add_one] at hl
      rw [hl, Nat.mod_self]
      exact ⟨by omega, rfl⟩

/-- Every place of the loop comes again and again. -/
theorem turn_often {p c k : Nat} (hk : k < c) (n : Nat) : ∃ m, n ≤ m ∧ turn p c m = p + k := by
  refine ⟨p + (k + c * n), ?_, ?_⟩
  · have : n ≤ c * n := Nat.le_mul_of_pos_left n (by omega)
    omega
  · rw [turn, if_neg (by omega), Nat.add_sub_cancel_left, Nat.add_mul_mod_self_left,
      Nat.mod_eq_of_lt hk]

variable {κ : Type} {next : κ → ε → Option κ}

theorem exec_take_succ (next : κ → ε → Option κ) (s : κ) {es : List ε} {k : Nat} (hk : k < es.length) :
    exec next s (es.take (k + 1)) = (exec next s (es.take k)).bind (next · (es.get ⟨k, hk⟩)) := by
  rw [take_succ_eq_append_getElem hk, exec, foldlM_append]
  simp only [exec]
  congr 1
  funext s'
  simp

/-- A computed run passes through all its prefixes. -/
theorem exec_take_some {s s' : κ} {es : List ε} (h : exec next s es = some s') (k : Nat) :
    ∃ s'', exec next s (es.take k) = some s'' := by
  rw [← take_append_drop k es, exec, foldlM_append] at h
  obtain ⟨s'', hs'', _⟩ := Option.bind_eq_some_iff.mp h
  exact ⟨s'', hs''⟩

/-- Every step of a computed run passes a test. -/
def passes (next : κ → ε → Option κ) (p : κ → ε → Bool) (s : κ) : List ε → Bool
  | [] => true
  | e :: es => p s e && (next s e).any fun s' => passes next p s' es

theorem passes_at {p : κ → ε → Bool} {s s' : κ} {es : List ε} (h : passes next p s es = true)
    {k : Nat} {e : ε} (hk : es[k]? = some e) (hs : exec next s (es.take k) = some s') :
    p s' e = true := by
  induction es generalizing s k with
  | nil => simp at hk
  | cons e₀ es ih =>
    obtain ⟨hp, hrest⟩ := Bool.and_eq_true_iff.mp h
    cases k with
    | zero =>
      cases hk
      cases hs
      exact hp
    | succ k =>
      rw [take_succ_cons, exec, foldlM_cons] at hs
      obtain ⟨s₁, hs₁, hs⟩ := Option.bind_eq_some_iff.mp hs
      rw [hs₁] at hrest
      exact ih hrest (by simpa using hk) hs

/-- A run can be followed for ever from any state from which each step can be taken. -/
theorem Forever.exists_of_steps {P : Nat → σ → Prop} {ev : Nat → ε}
    (hstep : ∀ n s, P n s → ∃ s', step s (ev n) s' ∧ P (n + 1) s') {s : σ} (h0 : P 0 s) :
    ∃ ρ, ρ 0 = s ∧ Forever step ρ ev ∧ ∀ n, P n (ρ n) := by
  choose f hf using hstep
  let ρ : (n : Nat) → { s // P n s } :=
    fun n => Nat.rec ⟨s, h0⟩ (fun n s => ⟨f n s.1 s.2, (hf n s.1 s.2).2⟩) n
  exact ⟨fun n => (ρ n).1, rfl, fun n => (hf n (ρ n).1 (ρ n).2).1, fun n => (ρ n).2⟩

/-- A stem and a loop that comes back to its start give a run that never ends, from any state
with the view the stem starts in.  What every step of the two passes, every step of the run does. -/
theorem Forever.of_lasso {view : σ → κ}
    (hnext : ∀ s e k, next (view s) e = some k → ∃ s', step s e s' ∧ view s' = k)
    {s : σ} {k₀ : κ} {stem loop : List ε} (hstem : exec next (view s) stem = some k₀)
    (hloop : exec next k₀ loop = some k₀) (hne : 0 < loop.length) :
    ∃ ρ ev, ρ 0 = s ∧ Forever step ρ ev ∧ view (ρ stem.length) = k₀ ∧
      (∀ p : κ → ε → Bool, passes next p (view s) (stem ++ loop) = true →
        ∀ n, p (view (ρ n)) (ev n) = true) ∧
      ∀ e ∈ loop, ∀ n, ∃ k, n ≤ k ∧ ev k = e := by
  have hall : exec next (view s) (stem ++ loop) = some k₀ := by
    rw [exec, foldlM_append]
    exact (congrArg (Option.bind · _) hstem).trans hloop
  have hbound : ∀ n, turn stem.length loop.length n < (stem ++ loop).length := by
    intro n
    rw [length_append]
    exact turn_lt hne n
  choose view' hview' using fun n => exec_take_some hall (turn stem.length loop.length n)
  let ev : Nat → ε := fun n => (stem ++ loop).get ⟨turn stem.length loop.length n, hbound n⟩
  have hmove : ∀ n, next (view' n) (ev n) = some (view' (n + 1)) := by
    intro n
    have hsucc := exec_take_succ next (view s) (hbound n)
    rw [hview' n] at hsucc
    refine hsucc.symm.trans ?_
    rw [← hview' (n + 1)]
    rcases turn_succ (p := stem.length) hne n with ht | ⟨ht, ht'⟩
    · rw [ht]
    · -- the loop closes: its end is its start
      rw [ht, ht', take_left, ← length_append, take_length, hall, hstem]
  have hlift : ∀ n s, view s = view' n → ∃ s', step s (ev n) s' ∧ view s' = view' (n + 1) := by
    intro n s hs
    exact hnext s _ _ (hs ▸ hmove n)
  have hstart : view s = view' 0 := by
    have h0 := hview' 0
    rw [turn_zero, take_zero] at h0
    exact Option.some.inj h0
  obtain ⟨ρ, hρ0, hρ, hv⟩ := Forever.exists_of_steps hlift hstart
  refine ⟨ρ, ev, hρ0, hρ, ?_, ?_, ?_⟩
  · have hend := hview' stem.length
    rw [turn_stem, take_left, hstem] at hend
    rw [hv, Option.some.inj hend]
  · intro p hp n
    rw [hv]
    exact passes_at hp (getElem?_eq_getElem (hbound n)) (hview' n)
  · intro e he n
    obtain ⟨j, hj, rfl⟩ := mem_iff_getElem.mp he
    obtain ⟨k, hk, hturn⟩ := turn_often (p := stem.length) hj n
    refine ⟨k, hk, ?_⟩
    have hget : (stem ++ loop)[turn stem.length loop.length k]? = some (ev k) :=
      getElem?_eq_getElem (hbound k)
    rw [hturn, getElem?_append_right (Nat.le_add_right _ _), Nat.add_sub_cancel_left,
      getElem?_eq_getElem hj] at hget
    exact (Option.some.inj hget).symm

end LTS
