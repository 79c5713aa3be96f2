/-
# `Tanix.Lib.Forest` — pointer structures that are forests

Nodes of type `P` hold entries indexed by `ι`; `child d p i = some q` says that entry `i`
of node `p`, standing `d` levels below its root, points to node `q`.

A labelling gives a node the tree it belongs to and the indices on the way down from the
root, the last one first.  If it is closed under `child` (`Closed`), every node that can be
reached from a labelled root carries the label of the way it was reached by, and since a
node has one label only, there is one way to reach it and one tree it is in.

A closed labelling is kept by grafting a new tree onto an entry that pointed nowhere, or onto
no entry at all (`Closed.graft`).
-/
import Mathlib.Logic.Basic
import Mathlib.Data.Option.Basic

namespace Forest

variable {P ι O : Type}

/-- The owner of a node and the way down to it, last index first. -/
abbrev Labels (P ι O : Type) := P → Option (O × List ι)

/-- A child continues the label of its parent. -/
def Closed (child : Nat → P → ι → Option P) (L : Labels P ι O) : Prop :=
  ∀ p o path i q, L p = some (o, path) → child path.length p i = some q → L q = some (o, i :: path)

variable {child child' : Nat → P → ι → Option P} {L : Labels P ι O}

/-- Only what labelled nodes point to matters. -/
theorem Closed.congr (h : Closed child L)
    (hc : ∀ p o path i, L p = some (o, path) →
      child' path.length p i = child path.length p i) : Closed child' L := by
  intro p o path i q hp hq
  rw [hc p o path i hp] at hq
  exact h p o path i q hp hq

/-! ## Grafting a tree on -/

/-- Label the nodes of `M`, a tree with paths from its own root, below `path` in the tree of `o`. -/
def graft (L : Labels P ι O) (M : P → Option (List ι)) (o : O) (path : List ι) : Labels P ι O :=
  fun p => match M p with
    | some rel => some (o, rel ++ path)
    | none => L p

section Graft

variable {M : P → Option (List ι)} {o : O} {path : List ι}

theorem graft_new {p : P} {rel : List ι} (h : M p = some rel) :
    graft L M o path p = some (o, rel ++ path) := by
  rw [graft, h]

theorem graft_old {p : P} (h : M p = none) : graft L M o path p = L p := by
  rw [graft, h]

theorem graft_some {p : P} {l : O × List ι} (h : graft L M o path p = some l) :
    (∃ rel, M p = some rel ∧ l = (o, rel ++ path)) ∨ (M p = none ∧ L p = some l) := by
  cases hM : M p with
  | some rel =>
    rw [graft_new hM] at h
    exact Or.inl ⟨rel, rfl, (Option.some.inj h).symm⟩
  | none =>
    rw [graft_old hM] at h
    exact Or.inr ⟨rfl, h⟩

/-- The nodes of `M` are new, they point only among themselves, and of the old entries at most the
one at `path` has changed: it may now point to the root of `M`. -/
theorem Closed.graft (h : Closed child L) (hnew : ∀ p rel, M p = some rel → L p = none)
    (hold : ∀ p o' path' i q, L p = some (o', path') → child' path'.length p i = some q →
      child path'.length p i = some q ∨ (o' = o ∧ i :: path' = path ∧ M q = some []))
    (hM : ∀ p rel i q, M p = some rel → child' (rel.length + path.length) p i = some q →
      M q = some (i :: rel)) :
    Closed child' (Forest.graft L M o path) := by
  intro p o' path' i q hp hq
  rcases graft_some hp with ⟨rel, hrel, he⟩ | ⟨-, hL⟩
  · obtain ⟨rfl, rfl⟩ := Prod.mk.inj he
    rw [List.length_append] at hq
    rw [graft_new (hM p rel i q hrel hq)]
    rfl
  · rcases hold p o' path' i q hL hq with hc | ⟨rfl, rfl, hroot⟩
    · have hLq := h p o' path' i q hL hc
      rw [graft_old, hLq]
      -- a labelled node is not new
      cases hMq : M q with
      | none => rfl
      | some rel =>
        rw [hnew q rel hMq] at hLq
        cases hLq
    · rw [graft_new hroot]
      rfl

end Graft

end Forest
