/-
# `Tanix.Lib.Slots` — a finite map kept in a table of slots

Each of `n` slots is free or holds a key with its value.  A table `Holds` a map when no key
stands in two slots and the slots hold what the map says.  Writing the slot of a key, or a
free slot for a new key, inserts into the map (`Holds.insert`); a slot is free exactly while
the map has fewer than `n` keys (`Holds.free_iff`).
-/
import Mathlib.Data.Finmap
import Mathlib.Data.Fintype.Card

namespace Slots

open Option
open Function (update_of_ne update_self)

variable {n : Nat} {κ β : Type}

abbrev Table (n : Nat) (κ β : Type) := Fin n → Option (κ × β)

variable [DecidableEq κ]

structure Holds (t : Table n κ β) (v : Finmap fun _ : κ => β) : Prop where
  unique : ∀ {i j : Fin n} {k : κ} {b b' : β}, t i = some (k, b) → t j = some (k, b') → i = j
  lookup : ∀ {k : κ} {b : β}, v.lookup k = some b ↔ ∃ i, t i = some (k, b)

variable {t : Table n κ β} {v : Finmap fun _ : κ => β} {k : κ} {b : β} {i : Fin n}

theorem Holds.empty (h : ∀ i, t i = none) : Holds t ∅ where
  unique hi _ := by
    rw [h] at hi
    cases hi
  lookup := by
    intro k b
    rw [Finmap.lookup_empty]
    constructor
    · intro hk
      cases hk
    · rintro ⟨i, hi⟩
      rw [h] at hi
      cases hi

theorem Holds.lookup_eq_none (h : Holds t v) : v.lookup k = none ↔ ∀ i b, t i ≠ some (k, b) := by
  constructor
  · intro hk i b hi
    rw [h.lookup.mpr ⟨i, hi⟩] at hk
    cases hk
  · intro hk
    cases hv : v.lookup k with
    | none => rfl
    | some b =>
      obtain ⟨i, hi⟩ := h.lookup.mp hv
      exact absurd hi (hk i b)

/-- Write a slot that is free or holds the key, when no other slot holds it. -/
theorem Holds.insert (h : Holds t v) (hi : ∀ k' b', t i = some (k', b') → k' = k)
    (hk : ∀ j b', t j = some (k, b') → j = i) :
    Holds (Function.update t i (some (k, b))) (v.insert k b) where
  unique {j j' k' c c'} hj hj' := by
    -- the slot that was written holds `k`, the others what they held
    by_cases hji : j = i
    · by_cases hji' : j' = i
      · rw [hji, hji']
      · rw [hji, update_self] at hj
        rw [update_of_ne hji'] at hj'
        cases hj
        exact absurd (hk j' c' hj') hji'
    · rw [update_of_ne hji] at hj
      by_cases hji' : j' = i
      · rw [hji', update_self] at hj'
        cases hj'
        exact absurd (hk j c hj) hji
      · rw [update_of_ne hji'] at hj'
        exact h.unique hj hj'
  lookup {k' c} := by
    by_cases hkk : k' = k
    · subst hkk
      rw [Finmap.lookup_insert]
      constructor
      · intro hc
        cases hc
        exact ⟨i, update_self ..⟩
      · rintro ⟨j, hj⟩
        by_cases hji : j = i
        · rw [hji, update_self] at hj
          cases hj
          rfl
        · rw [update_of_ne hji] at hj
          exact absurd (hk j c hj) hji
    · rw [Finmap.lookup_insert_of_ne v hkk, h.lookup]
      constructor
      · rintro ⟨j, hj⟩
        have hji : j ≠ i := by
          rintro rfl
          exact hkk (hi k' c hj)
        exact ⟨j, (update_of_ne hji ..).trans hj⟩
      · rintro ⟨j, hj⟩
        by_cases hji : j = i
        · rw [hji, update_self] at hj
          cases hj
          exact absurd rfl hkk
        · exact ⟨j, (update_of_ne hji ..).symm.trans hj⟩

/-- As many keys as slots that are taken. -/
theorem Holds.card (h : Holds t v) :
    v.keys.card = (Finset.univ.filter fun i => (t i).isSome).card := by
  refine (Finset.card_bij (fun i hi => ((t i).get (Finset.mem_filter.mp hi).2).1) ?_ ?_ ?_).symm
  · intro i hi
    obtain ⟨⟨k, b⟩, hkb⟩ := isSome_iff_exists.mp (Finset.mem_filter.mp hi).2
    simp only [hkb, get_some]
    refine Finmap.mem_keys.mpr (Finmap.lookup_isSome.mp ?_)
    rw [h.lookup.mpr ⟨i, hkb⟩]
    rfl
  · intro i hi j hj hij
    obtain ⟨⟨k, b⟩, hti⟩ := isSome_iff_exists.mp (Finset.mem_filter.mp hi).2
    obtain ⟨⟨k', b'⟩, htj⟩ := isSome_iff_exists.mp (Finset.mem_filter.mp hj).2
    simp only [hti, htj, get_some] at hij
    subst hij
    exact h.unique hti htj
  · intro k hk
    obtain ⟨b, hb⟩ := isSome_iff_exists.mp (Finmap.lookup_isSome.mpr (Finmap.mem_keys.mp hk))
    obtain ⟨i, hi⟩ := h.lookup.mp hb
    have hsome : (t i).isSome := by rw [hi]; rfl
    refine ⟨i, Finset.mem_filter.mpr ⟨Finset.mem_univ i, hsome⟩, ?_⟩
    simp only [hi, get_some]

theorem Holds.free_iff (h : Holds t v) : v.keys.card < n ↔ ∃ i, t i = none := by
  rw [h.card]
  constructor
  · intro hlt
    by_contra hno
    have hall : (Finset.univ.filter fun i => (t i).isSome) = Finset.univ := by
      refine Finset.filter_true_of_mem fun i _ => isSome_iff_ne_none.mpr fun hi => hno ⟨i, hi⟩
    rw [hall, Finset.card_univ, Fintype.card_fin] at hlt
    exact Nat.lt_irrefl n hlt
  · rintro ⟨i, hi⟩
    refine (Finset.card_lt_univ_of_notMem (x := i) ?_).trans_eq (Fintype.card_fin n)
    rw [Finset.mem_filter, hi]
    exact fun hmem => Bool.false_ne_true hmem.2

end Slots
