/-
# `Tanix.Lib.Line` — a waiting line with numbered places

A line is a finite row of places, each empty or held by one waiter.  The
waiter in the lowest place is served first.  A newcomer takes an empty place,
and nothing says it is the last one: a line is not a queue.

Whoever waits in place `v` is overtaken only by newcomers in lower places.  If
every newcomer goes behind all who wait (`Moves.enter`), the number of waiters
ahead of `v` never grows, each service takes one of them away, and so `v`
leaves the line (`leaves_of_served`).
-/
import Tanix.Lib.Forever
import Mathlib.Data.Fintype.Basic
import Mathlib.Data.List.FinRange
import Mathlib.Data.Finset.Card
import Mathlib.Order.WellFounded

namespace Line

open List

/-! ## The first match in a row of places -/

theorem find?_finRange {n : Nat} {p : Fin n → Bool} {i : Fin n}
    (h : (List.finRange n).find? p = some i) : p i = true ∧ ∀ j, j < i → p j = false := by
  obtain ⟨hp, k, hk, hki, hbefore⟩ := find?_eq_some_iff_getElem.mp h
  refine ⟨hp, fun j hj => ?_⟩
  rw [getElem_finRange] at hki
  have hkv : k = i.val := congrArg Fin.val hki
  have hjp := hbefore j.val (by omega)
  rw [getElem_finRange] at hjp
  simpa using hjp

theorem findSome?_finRange {n : Nat} {β : Type} {f : Fin n → Option β} {b : β}
    (h : (List.finRange n).findSome? f = some b) :
    ∃ i, f i = some b ∧ ∀ j, j < i → f j = none := by
  obtain ⟨l₁, i, l₂, hl, hi, hbefore⟩ := findSome?_eq_some_iff.mp h
  refine ⟨i, hi, fun j hj => hbefore j ?_⟩
  have hsorted := pairwise_lt_finRange n
  rw [hl] at hsorted
  rcases mem_append.mp (hl ▸ mem_finRange j) with hj₁ | hj₂
  · exact hj₁
  · rcases mem_cons.mp hj₂ with rfl | hj₂
    · exact absurd hj (lt_irrefl j)
    · have hlt := (pairwise_cons.mp (pairwise_append.mp hsorted).2.1).1 j hj₂
      exact absurd hj (lt_asymm hlt)

/-! ## Waiting in line -/

variable {α : Type} {N : Nat}

/-- What a step may do to the line when newcomers go behind all who wait. -/
inductive Moves (l : Fin N → Option α) : (Fin N → Option α) → Prop
  | stay : Moves l l
  | leave (k : Fin N) : Moves l (Function.update l k none)
  | enter (k : Fin N) (a : α) (hlast : ∀ k', k ≤ k' → l k' = none) :
      Moves l (Function.update l k (some a))

/-- Whoever waits in the lowest place leaves. -/
def Serves (l l' : Fin N → Option α) : Prop :=
  ∀ k, l k ≠ none → (∀ k', k' < k → l k' = none) → l' = Function.update l k none

/-- The places ahead of `v` in which somebody waits. -/
def ahead (l : Fin N → Option α) (v : Fin N) : Finset (Fin N) :=
  {k | k < v ∧ (l k).isSome}

@[simp] theorem mem_ahead {l : Fin N → Option α} {v k : Fin N} :
    k ∈ ahead l v ↔ k < v ∧ (l k).isSome := by
  simp [ahead]

variable {l l' : Fin N → Option α} {v : Fin N} {a : α}

/-- A waiter keeps its place until it leaves. -/
theorem Moves.waits (h : Moves l l') (hv : l v = some a) : l' v = some a ∨ l' v = none := by
  cases h with
  | stay => exact Or.inl hv
  | leave k =>
    by_cases hk : v = k
    · exact Or.inr (by rw [hk, Function.update_self])
    · exact Or.inl (by rw [Function.update_of_ne hk, hv])
  | enter k b hlast =>
    have hk : v ≠ k := by
      rintro rfl
      rw [hlast v le_rfl] at hv
      cases hv
    exact Or.inl (by rw [Function.update_of_ne hk, hv])

/-- Nobody gets ahead of a waiter. -/
theorem Moves.ahead_subset (h : Moves l l') (hv : l v = some a) : ahead l' v ⊆ ahead l v := by
  intro j hj
  obtain ⟨hjv, hjw⟩ := mem_ahead.mp hj
  refine mem_ahead.mpr ⟨hjv, ?_⟩
  cases h with
  | stay => exact hjw
  | leave k =>
    by_cases hk : j = k
    · rw [hk, Function.update_self] at hjw
      cases hjw
    · rwa [Function.update_of_ne hk] at hjw
  | enter k b hlast =>
    -- the place `k` lies behind `v`, and `j` ahead of it
    have hvk : v < k := by
      by_contra hle
      rw [hlast v (not_lt.mp hle)] at hv
      cases hv
    rwa [Function.update_of_ne (hjv.trans hvk).ne] at hjw

/-- A service takes away the first of those ahead, unless it takes the waiter itself. -/
theorem Serves.card_ahead_lt (h : Serves l l') (hv : l v = some a) (hstay : l' v = some a) :
    (ahead l' v).card < (ahead l v).card := by
  obtain ⟨k, hk, hmin⟩ := wellFounded_lt.has_min {k | l k ≠ none} ⟨v, by simp [hv]⟩
  have hfirst : ∀ k', k' < k → l k' = none := fun k' hlt => not_not.mp fun hw => hmin k' hw hlt
  have hl' := h k hk hfirst
  subst hl'
  have hkv : k ≠ v := by
    rintro rfl
    rw [Function.update_self] at hstay
    cases hstay
  have hlt : k < v := lt_of_le_of_ne (not_lt.mp (hmin v (by simp [hv]))) hkv
  refine Finset.card_lt_card ⟨Moves.ahead_subset (.leave k) hv, fun hsub => ?_⟩
  have hmem := hsub (mem_ahead.mpr ⟨hlt, Option.isSome_iff_ne_none.mpr hk⟩)
  simp at hmem

/-- In a line that is served again and again and in which newcomers go behind all who wait,
everybody who waits leaves. -/
theorem leaves_of_served {l : Nat → Fin N → Option α} {served : Nat → Prop}
    (hmoves : ∀ n, Moves (l n) (l (n + 1))) (hserves : ∀ n, served n → Serves (l n) (l (n + 1)))
    (hinf : ∀ n, ∃ k, n ≤ k ∧ served k) {n₀ : Nat} (hv : l n₀ v = some a) :
    ∃ n, n₀ ≤ n ∧ l n v = some a ∧ l (n + 1) v = none := by
  by_contra hno
  have hwaits : ∀ j, l (n₀ + j) v = some a := by
    intro j
    induction j with
    | zero => exact hv
    | succ j ih =>
      refine ((hmoves (n₀ + j)).waits ih).resolve_right fun hgone => ?_
      exact hno ⟨n₀ + j, Nat.le_add_right _ _, ih, hgone⟩
  have hwait : ∀ n, n₀ ≤ n → l n v = some a := by
    intro n hn
    rw [← Nat.add_sub_cancel' hn]
    exact hwaits (n - n₀)
  have hle : ∀ n, n₀ ≤ n → (ahead (l (n + 1)) v).card ≤ (ahead (l n) v).card :=
    fun n hn => Finset.card_le_card ((hmoves n).ahead_subset (hwait n hn))
  have hlt : ∀ n, n₀ ≤ n → served n → (ahead (l (n + 1)) v).card < (ahead (l n) v).card :=
    fun n hn hs => (hserves n hs).card_ahead_lt (hwait n hn) (hwait (n + 1) (by omega))
  exact LTS.not_drops_forever (fun n => (ahead (l n) v).card) hle hlt hinf

end Line
