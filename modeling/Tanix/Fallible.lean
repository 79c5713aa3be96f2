/-
# `Tanix.Fallible` — the ways the kernel can stop

A kernel function that can panic returns `Except Panic`.  The build modelled
is the development profile (`just kernel`): `assert!` and `debug_assert!` are
live and `usize` arithmetic that leaves 64 bits is a panic, not a wrap.

    page-table frame asked for, none free       `pageTableOom`
    `free` of an unaligned address              `freeUnaligned`
    `free` of an address outside the RAM window `freeOutOfRange`
    a mapping helper handed an unaligned address `mapUnaligned`
    an `image too large` assertion              `imageTooLarge`
    `free_task_tables` of the kernel's own root `kernelTable`
    `usize` arithmetic that leaves 64 bits       `overflow`
    a dead context resumed (`unreachable!`)     `resumedDead`
    a context that was never saved restored     `resumedZeroed`
    a RAM window the bitmap cannot hold         `ramTooLarge`
    a RAM window that starts inside a page      `ramUnaligned`
-/
import Mathlib.Algebra.Group.Nat.Defs
import Mathlib.Logic.Basic

namespace Tanix

inductive Panic where
  | pageTableOom
  | freeUnaligned
  | freeOutOfRange
  | mapUnaligned
  | imageTooLarge
  | kernelTable
  | overflow
  | resumedDead
  | resumedZeroed
  | ramTooLarge
  | ramUnaligned
  deriving DecidableEq, Repr

/-- `usize` addition with the overflow check on. -/
def checkedAdd (a b : Nat) : Except Panic Nat :=
  if a + b < 2 ^ 64 then .ok (a + b) else .error .overflow

theorem checkedAdd_eq_ok {a b n : Nat} :
    checkedAdd a b = .ok n ↔ a + b < 2 ^ 64 ∧ n = a + b := by
  unfold checkedAdd
  by_cases h : a + b < 2 ^ 64
  · rw [if_pos h]
    constructor
    · intro he
      cases he
      exact ⟨h, rfl⟩
    · rintro ⟨_, rfl⟩
      rfl
  · rw [if_neg h]
    constructor
    · intro he
      cases he
    · rintro ⟨hlt, _⟩
      exact absurd hlt h

/-- A sequence succeeds when both halves do. -/
theorem bind_eq_ok {ε α β : Type} {x : Except ε α} {f : α → Except ε β} {b : β} :
    (x >>= f) = .ok b ↔ ∃ a, x = .ok a ∧ f a = .ok b := by
  cases x with
  | error e =>
    constructor
    · intro h
      cases h
    · rintro ⟨a, h, _⟩
      cases h
  | ok a =>
    constructor
    · intro h
      exact ⟨a, rfl, h⟩
    · rintro ⟨a', h, hf⟩
      cases h
      exact hf

/-- A sequence fails when one half does. -/
theorem bind_eq_error {ε α β : Type} {x : Except ε α} {f : α → Except ε β} {e : ε} :
    (x >>= f) = .error e ↔ x = .error e ∨ ∃ a, x = .ok a ∧ f a = .error e := by
  cases x with
  | error e' =>
    constructor
    · intro h
      cases h
      exact Or.inl rfl
    · rintro (h | ⟨a, h, -⟩)
      · cases h
        rfl
      · cases h
  | ok a =>
    constructor
    · intro h
      exact Or.inr ⟨a, rfl, h⟩
    · rintro (h | ⟨a', h, hf⟩)
      · cases h
      · cases h
        exact hf

theorem map_eq_ok {ε α β : Type} {f : α → β} {x : Except ε α} {y : β} (h : x.map f = .ok y) :
    ∃ a, x = .ok a ∧ f a = y := by
  cases x with
  | error => cases h
  | ok a =>
    cases h
    exact ⟨a, rfl, rfl⟩

/-- A loop, with an invariant that knows what has been done. -/
theorem foldlM_done {ε α σ : Type} {I : List α → σ → Prop} {f : σ → α → Except ε σ} {l : List α}
    (hf : ∀ done a rest s s', done ++ a :: rest = l → I done s → f s a = .ok s' → I (done ++ [a]) s')
    {s s' : σ} (hs : I [] s) (h : l.foldlM f s = .ok s') : I l s' := by
  have key : ∀ (rest done : List α) (s : σ), done ++ rest = l → I done s →
      rest.foldlM f s = .ok s' → I l s' := by
    intro rest
    induction rest with
    | nil =>
      intro done s hl hs h
      cases h
      rw [← hl, List.append_nil]
      exact hs
    | cons a rest ih =>
      intro done s hl hs h
      rw [List.foldlM_cons] at h
      obtain ⟨s₁, hs₁, h⟩ := bind_eq_ok.mp h
      refine ih (done ++ [a]) s₁ ?_ (hf done a rest s s₁ hl hs hs₁) h
      rw [List.append_assoc]
      exact hl
  exact key l [] s rfl hs h

end Tanix
