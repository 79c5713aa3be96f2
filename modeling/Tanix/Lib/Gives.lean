/-
# `Tanix.Lib.Gives` — computations that succeed

`r.Gives P` says that a fallible computation succeeds, with a result that satisfies `P`.
It is total correctness for `Except`: the rules below are those of a sequence, of a result
and of a loop, and they are applied along the text of a function, one rule a line.

`r.FailsIff A P` says that the computation fails exactly when `A`, and gives `P` otherwise.

`r.Ensures P` is partial correctness: if the computation succeeds, its result satisfies `P`.

`r.Avoids bad` says that the computation succeeds or fails with an error that is not `bad`.
Its rules are equivalences, so the condition under which a function avoids the bad errors is
found by rewriting along its text.
-/
import Mathlib.Logic.Basic

namespace Except

open List

variable {ε α β : Type}

def Gives (r : Except ε α) (P : α → Prop) : Prop :=
  ∃ a, r = .ok a ∧ P a

theorem Gives.pure {P : α → Prop} {a : α} (h : P a) : (Pure.pure a : Except ε α).Gives P :=
  ⟨a, rfl, h⟩

theorem Gives.bind {P : α → Prop} {Q : β → Prop} {r : Except ε α} {f : α → Except ε β}
    (h : r.Gives P) (hf : ∀ a, P a → (f a).Gives Q) : (r >>= f).Gives Q := by
  obtain ⟨a, rfl, ha⟩ := h
  exact hf a ha

theorem Gives.mono {P Q : α → Prop} {r : Except ε α} (h : r.Gives P) (hpq : ∀ a, P a → Q a) :
    r.Gives Q := by
  obtain ⟨a, ha, hp⟩ := h
  exact ⟨a, ha, hpq a hp⟩

theorem Gives.map {P : β → Prop} {r : Except ε α} {f : α → β} (h : r.Gives fun a => P (f a)) :
    (r.map f).Gives P := by
  obtain ⟨a, rfl, ha⟩ := h
  exact ⟨f a, rfl, ha⟩

/-- The result of a computation that succeeds is the one it was shown to give. -/
theorem Gives.of_eq {P : α → Prop} {r : Except ε α} {a : α} (h : r.Gives P) (hr : r = .ok a) :
    P a := by
  obtain ⟨b, hb, hp⟩ := h
  rw [hr] at hb
  cases hb
  exact hp

/-- A loop each turn of which succeeds and keeps the invariant. -/
theorem Gives.foldlM {I : β → Prop} {f : β → α → Except ε β} {l : List α}
    (hf : ∀ b a, a ∈ l → I b → (f b a).Gives I) {b : β} (hb : I b) : (l.foldlM f b).Gives I := by
  induction l generalizing b with
  | nil => exact .pure hb
  | cons a l ih =>
    rw [foldlM_cons]
    refine (hf b a mem_cons_self hb).bind fun b' hb' => ih ?_ hb'
    exact fun c x hx => hf c x (mem_cons_of_mem a hx)

/-! ## What holds if a computation succeeds -/

def Ensures (r : Except ε α) (P : α → Prop) : Prop :=
  ∀ ⦃a⦄, r = .ok a → P a

theorem Ensures.ok {P : α → Prop} {a : α} (h : P a) : (.ok a : Except ε α).Ensures P := by
  intro b hb
  cases hb
  exact h

theorem Ensures.error {P : α → Prop} {e : ε} : (.error e : Except ε α).Ensures P := by
  intro b hb
  cases hb

theorem Ensures.bind {P : α → Prop} {Q : β → Prop} {r : Except ε α} {f : α → Except ε β}
    (h : r.Ensures P) (hf : ∀ a, P a → (f a).Ensures Q) : (r >>= f).Ensures Q := by
  cases r with
  | error e => exact .error
  | ok a => exact hf a (h rfl)

/-- Whatever the first half gives. -/
theorem Ensures.after {Q : β → Prop} {r : Except ε α} {f : α → Except ε β}
    (hf : ∀ a, (f a).Ensures Q) : (r >>= f).Ensures Q :=
  bind (fun _ _ => trivial) fun a (_ : True) => hf a

theorem Ensures.ite {c : Prop} [Decidable c] {P : α → Prop} {r r' : Except ε α}
    (h : r.Ensures P) (h' : r'.Ensures P) : (if c then r else r').Ensures P := by
  split
  · exact h
  · exact h'

/-- What every turn of a loop keeps, between the state before and the state after. -/
theorem Ensures.foldlM {R : β → β → Prop} (hrefl : ∀ s, R s s)
    (htrans : ∀ {s s' s'' : β}, R s s' → R s' s'' → R s s'') {f : β → α → Except ε β} {l : List α}
    (hf : ∀ s a, a ∈ l → (f s a).Ensures (R s)) {s : β} : (l.foldlM f s).Ensures (R s) := by
  induction l generalizing s with
  | nil => exact .ok (hrefl s)
  | cons a l ih =>
    rw [foldlM_cons]
    refine (hf s a mem_cons_self).bind fun s₁ h₁ s' h => htrans h₁ (ih ?_ h)
    exact fun s b hb => hf s b (mem_cons_of_mem a hb)

/-! ## When a computation fails -/

def FailsIff (r : Except ε α) (A : Prop) (P : α → Prop) : Prop :=
  (A ∧ ∃ e, r = .error e) ∨ (¬ A ∧ r.Gives P)

variable {A B : Prop} {P : α → Prop} {Q : β → Prop} {r : Except ε α} {f : α → Except ε β}

theorem FailsIff.never (hA : ¬ A) (h : r.Gives P) : r.FailsIff A P :=
  Or.inr ⟨hA, h⟩

theorem FailsIff.always {e : ε} (hA : A) (h : r = .error e) : r.FailsIff A P :=
  Or.inl ⟨hA, e, h⟩

theorem FailsIff.congr (h : r.FailsIff A P) (hab : A ↔ B) : r.FailsIff B P := by
  rw [FailsIff, ← hab]
  exact h

/-- The first half succeeds. -/
theorem FailsIff.bind_right {a : α} (hr : r = .ok a) (h : (f a).FailsIff A Q) :
    (r >>= f).FailsIff A Q := by
  subst hr
  exact h

/-- The second half succeeds. -/
theorem FailsIff.bind_left (h : r.FailsIff A P) (hf : ∀ a, P a → (f a).Gives Q) :
    (r >>= f).FailsIff A Q := by
  rcases h with ⟨hA, e, rfl⟩ | ⟨hA, hg⟩
  · exact Or.inl ⟨hA, e, rfl⟩
  · exact Or.inr ⟨hA, hg.bind hf⟩

theorem FailsIff.of_eq {a : α} (h : r.FailsIff A P) (hr : r = .ok a) : P a := by
  rcases h with ⟨-, e, he⟩ | ⟨-, hg⟩
  · rw [hr] at he
    cases he
  · exact hg.of_eq hr

theorem FailsIff.ok_iff (h : r.FailsIff A P) : (∃ a, r = .ok a) ↔ ¬ A := by
  rcases h with ⟨hA, e, he⟩ | ⟨hA, a, ha, -⟩
  · constructor
    · rintro ⟨a, ha⟩
      rw [ha] at he
      cases he
    · exact fun hn => absurd hA hn
  · exact ⟨fun _ => hA, fun _ => ⟨a, ha⟩⟩

/-! ## Errors that never happen -/

def Avoids (r : Except ε α) (bad : ε → Prop) : Prop :=
  ∀ e, r = .error e → ¬ bad e

variable {bad : ε → Prop}

@[simp] theorem avoids_ok (a : α) : (.ok a : Except ε α).Avoids bad ↔ True :=
  iff_true_intro fun _ h => by cases h

@[simp] theorem avoids_pure (a : α) : (Pure.pure a : Except ε α).Avoids bad ↔ True :=
  avoids_ok a

@[simp] theorem avoids_error {e : ε} : (.error e : Except ε α).Avoids bad ↔ ¬ bad e := by
  constructor
  · exact fun h => h e rfl
  · intro h e' he'
    cases he'
    exact h

theorem avoids_bind : (r >>= f).Avoids bad ↔ r.Avoids bad ∧ ∀ a, r = .ok a → (f a).Avoids bad := by
  cases r with
  | error e =>
    constructor
    · exact fun h => ⟨fun e' he' => h e' (by cases he'; rfl), fun a ha => by cases ha⟩
    · exact fun h e' he' => h.1 e' (by cases he'; rfl)
  | ok a =>
    constructor
    · exact fun h => ⟨avoids_ok a |>.mpr trivial, fun a' ha' => by cases ha'; exact h⟩
    · exact fun h => h.2 a rfl

/-- A loop that counts: it goes through when every turn does, and avoids the bad errors when
every turn does that is reached. -/
theorem range_foldlM_ok {σ : Type} {f : σ → Nat → Except ε σ} {P : Nat → Prop} {n : Nat}
    (hok : ∀ s i, i < n → ((∃ s', f s i = .ok s') ↔ P i)) (s : σ) :
    (∃ s', (List.range n).foldlM f s = .ok s') ↔ ∀ i < n, P i := by
  induction n with
  | zero => exact iff_of_true ⟨s, rfl⟩ fun i hi => absurd hi (Nat.not_lt_zero i)
  | succ n ih =>
    have ih := ih fun s i hi => hok s i (Nat.lt_succ_of_lt hi)
    rw [range_succ, foldlM_append]
    constructor
    · rintro ⟨s', hs'⟩
      cases hfirst : (List.range n).foldlM f s with
      | error e =>
        rw [hfirst] at hs'
        cases hs'
      | ok s₁ =>
        rw [hfirst] at hs'
        have hlast : ∃ s', f s₁ n = .ok s' := by
          cases hf : f s₁ n with
          | error e =>
            have hs' : (f s₁ n >>= fun s => Pure.pure s) = .ok s' := hs'
            rw [hf] at hs'
            cases hs'
          | ok s₂ => exact ⟨s₂, rfl⟩
        intro i hi
        rcases Nat.lt_succ_iff_lt_or_eq.mp hi with hlt | rfl
        · exact ih.mp ⟨s₁, hfirst⟩ i hlt
        · exact (hok s₁ i hi).mp hlast
    · intro h
      obtain ⟨s₁, hs₁⟩ := ih.mpr fun i hi => h i (Nat.lt_succ_of_lt hi)
      obtain ⟨s₂, hs₂⟩ := (hok s₁ n (Nat.lt_succ_self n)).mpr (h n (Nat.lt_succ_self n))
      refine ⟨s₂, ?_⟩
      rw [hs₁]
      show (f s₁ n >>= fun s => Pure.pure s) = .ok s₂
      rw [hs₂]
      rfl

theorem range_foldlM_avoids {σ : Type} {f : σ → Nat → Except ε σ} {P Q : Nat → Prop} {n : Nat}
    (hok : ∀ s i, i < n → ((∃ s', f s i = .ok s') ↔ P i))
    (havoids : ∀ s i, i < n → ((f s i).Avoids bad ↔ Q i)) (s : σ) :
    ((List.range n).foldlM f s).Avoids bad ↔ ∀ i < n, (∀ j < i, P j) → Q i := by
  induction n with
  | zero => exact iff_of_true (avoids_pure s |>.mpr trivial) fun i hi => absurd hi (Nat.not_lt_zero i)
  | succ n ih =>
    have hok' := fun s i (hi : i < n) => hok s i (Nat.lt_succ_of_lt hi)
    have ih := ih hok' fun s i hi => havoids s i (Nat.lt_succ_of_lt hi)
    have hlast : ∀ s₁, ([n].foldlM f s₁).Avoids bad ↔ Q n := fun s₁ => by
      rw [← havoids s₁ n (Nat.lt_succ_self n), foldlM_cons, avoids_bind]
      exact ⟨fun h => h.1, fun h => ⟨h, fun a _ => avoids_pure a |>.mpr trivial⟩⟩
    rw [range_succ, foldlM_append, avoids_bind, ih]
    constructor
    · rintro ⟨hfirst, hrest⟩ i hi hbefore
      rcases Nat.lt_succ_iff_lt_or_eq.mp hi with hlt | rfl
      · exact hfirst i hlt hbefore
      · obtain ⟨s₁, hs₁⟩ := (range_foldlM_ok hok' s).mpr hbefore
        exact (hlast s₁).mp (hrest s₁ hs₁)
    · intro h
      refine ⟨fun i hi => h i (Nat.lt_succ_of_lt hi), fun s₁ hs₁ => (hlast s₁).mpr ?_⟩
      exact h n (Nat.lt_succ_self n) ((range_foldlM_ok hok' s).mp ⟨s₁, hs₁⟩)

/-- The same for turns that have bad errors only. -/
theorem range_foldlM_avoids_all {σ : Type} {f : σ → Nat → Except ε σ} {Q : Nat → Prop} {n : Nat}
    (hbad : ∀ s i e, i < n → f s i = .error e → bad e)
    (havoids : ∀ s i, i < n → ((f s i).Avoids bad ↔ Q i)) (s : σ) :
    ((List.range n).foldlM f s).Avoids bad ↔ ∀ i < n, Q i := by
  have hok : ∀ s i, i < n → ((∃ s', f s i = .ok s') ↔ Q i) := by
    intro s i hi
    rw [← havoids s i hi]
    cases hf : f s i with
    | error e =>
      refine iff_of_false (by rintro ⟨s', hs'⟩; cases hs') ?_
      exact fun h => h e rfl (hbad s i e hi hf)
    | ok s' => exact iff_of_true ⟨s', rfl⟩ (avoids_ok s' |>.mpr trivial)
  rw [range_foldlM_avoids hok havoids]
  constructor
  · intro h i hi
    induction i using Nat.strongRecOn with
    | ind i ih => exact h i hi fun j hj => ih j hj (Nat.lt_trans hj hi)
  · exact fun h i hi _ => h i hi

end Except
