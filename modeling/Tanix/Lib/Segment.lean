/-
# `Tanix.Lib.Segment` — lists that are linked through their nodes

`Seg next p l q`: from `p` the links lead through the nodes of `l`, one after the other, to
`q`.  A list is cut anywhere (`seg_append`), depends on the links of its own nodes only
(`Seg.congr`), and leads somewhere else after one write to the link of its last node
(`Seg.redirect`).
-/
import Mathlib.Data.List.Basic
import Mathlib.Logic.Function.Basic

def Seg (next : Nat → Nat) : Nat → List Nat → Nat → Prop
  | p, [], q => p = q
  | p, a :: l, q => p = a ∧ Seg next (next a) l q

variable {next next' : Nat → Nat} {p q r : Nat} {l t : List Nat}

theorem seg_append : Seg next p (l ++ t) q ↔ ∃ r, Seg next p l r ∧ Seg next r t q := by
  induction l generalizing p with
  | nil =>
    constructor
    · intro h
      exact ⟨p, rfl, h⟩
    · rintro ⟨r, rfl, h⟩
      exact h
  | cons a l ih =>
    rw [List.cons_append, Seg, ih]
    constructor
    · rintro ⟨rfl, r, hl, ht⟩
      exact ⟨r, ⟨rfl, hl⟩, ht⟩
    · rintro ⟨r, ⟨rfl, hl⟩, ht⟩
      exact ⟨rfl, r, hl, ht⟩

theorem Seg.congr (h : Seg next p l q) (hsame : ∀ a ∈ l, next' a = next a) : Seg next' p l q := by
  induction l generalizing p with
  | nil => exact h
  | cons a l ih =>
    obtain ⟨rfl, h⟩ := h
    refine ⟨rfl, ?_⟩
    rw [hsame p (List.mem_cons_self ..)]
    exact ih h fun b hb => hsame b (List.mem_cons_of_mem _ hb)

/-- A list ends where the link of its last node leads. -/
theorem Seg.redirect (h : Seg next p l q) (hnodup : l.Nodup) (hne : l ≠ []) :
    Seg (Function.update next (l.getLast hne) r) p l r := by
  induction l generalizing p with
  | nil => exact absurd rfl hne
  | cons a l ih =>
    obtain ⟨rfl, h⟩ := h
    obtain ⟨hp, hnodup⟩ := List.nodup_cons.mp hnodup
    refine ⟨rfl, ?_⟩
    cases l with
    | nil => exact Function.update_self ..
    | cons b l =>
      rw [List.getLast_cons (List.cons_ne_nil b l)]
      have hlast := List.getLast_mem (List.cons_ne_nil b l)
      have hpl : p ≠ (b :: l).getLast (List.cons_ne_nil b l) := fun heq => hp (heq ▸ hlast)
      rw [Function.update_of_ne hpl]
      exact ih h hnodup (List.cons_ne_nil b l)

/-- A list that ends in a mark that is no node starts in its first node. -/
theorem Seg.start_eq (h : Seg next p l q) : p = l.headD q := by
  cases l with
  | nil => exact h
  | cons a l => exact h.1
