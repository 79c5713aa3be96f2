/-
# `Tanix.Lib.Links` — chains through a table of links

`link c` is what the table holds for node `c`: the next node, or a mark that ends the chain.
`Chain link node stop cs` says that `cs` is such a chain, without a node twice.  A chain
depends on the links of its own nodes only (`Chain.congr`), and it grows by a node that is
linked behind its last one (`Chain.snoc`).
-/
import Mathlib.Data.List.Nodup
import Mathlib.Data.List.Perm.Subperm

namespace Links

open List

structure Chain (link : Nat → Nat) (node stop : Nat → Prop) (cs : List Nat) : Prop where
  nodup : cs.Nodup
  node : ∀ {c}, c ∈ cs → node c
  next : ∀ {k c c'}, cs[k]? = some c → cs[k + 1]? = some c' → link c = c'
  last : ∀ {k c}, cs[k]? = some c → cs[k + 1]? = none → stop (link c)

variable {link link' : Nat → Nat} {node stop : Nat → Prop} {cs : List Nat} {c : Nat}

theorem Chain.empty : Chain link node stop [] where
  nodup := nodup_nil
  node h := by cases h
  next h := by cases h
  last h := by cases h

section

variable (h : Chain link node stop cs)

include h

/-- Only the links of the chain's own nodes matter. -/
theorem Chain.congr (hsame : ∀ c ∈ cs, link' c = link c) : Chain link' node stop cs where
  nodup := h.nodup
  node := h.node
  next hk hk' := by
    rw [hsame _ (mem_of_getElem? hk)]
    exact h.next hk hk'
  last hk hk' := by
    rw [hsame _ (mem_of_getElem? hk)]
    exact h.last hk hk'

/-- A value that is neither a node nor an end mark is no link of a chain. -/
theorem Chain.link_ne {free : Nat} (hnode : ¬ node free) (hstop : ¬ stop free) (hc : c ∈ cs) :
    link c ≠ free := by
  obtain ⟨k, hk⟩ := mem_iff_getElem?.mp hc
  cases hk' : cs[k + 1]? with
  | none =>
    intro hlink
    exact hstop (hlink ▸ h.last hk hk')
  | some c' =>
    intro hlink
    rw [h.next hk hk'] at hlink
    exact hnode (hlink ▸ h.node (mem_of_getElem? hk'))

/-- A chain is not longer than there are nodes. -/
theorem Chain.length_le {n : Nat} (hn : ∀ c, node c → c < n) : cs.length ≤ n := by
  have hsub : cs ⊆ List.range n := fun c hc => mem_range.mpr (hn c (h.node hc))
  have hlen := (subperm_of_subset h.nodup hsub).length_le
  rwa [length_range] at hlen

/-- A new node behind the last one, or the first. -/
theorem Chain.snoc (hnew : c ∉ cs) (hnode : node c) (hstop : stop (link' c))
    (hlast : ∀ a, cs.getLast? = some a → link' a = c)
    (hsame : ∀ a ∈ cs, cs.getLast? ≠ some a → link' a = link a) :
    Chain link' node stop (cs ++ [c]) where
  nodup := by
    rw [← concat_eq_append]
    exact h.nodup.concat hnew
  node hb := (mem_append.mp hb).elim h.node fun hb => mem_singleton.mp hb ▸ hnode
  next {k b b'} hb hb' := by
    have hk := (List.getElem?_eq_some_iff.mp hb').1
    rw [length_append, length_singleton] at hk
    rw [getElem?_append_left (by omega)] at hb
    rcases Nat.lt_or_ge (k + 1) cs.length with hlt | hge
    · rw [getElem?_append_left hlt] at hb'
      rw [hsame b (mem_of_getElem? hb), h.next hb hb']
      rw [getLast?_eq_getElem?, ← hb]
      exact nodup_iff_getElem?_ne_getElem?.mp h.nodup k (cs.length - 1) (by omega) (by omega) |>.symm
    · obtain rfl : k = cs.length - 1 := by omega
      rw [getElem?_append_right hge, show cs.length - 1 + 1 - cs.length = 0 by omega] at hb'
      rw [hlast b (getLast?_eq_getElem?.trans hb)]
      exact Option.some.inj hb'
  last {k b} hb hb' := by
    have h1 := (List.getElem?_eq_some_iff.mp hb).1
    have h2 := List.getElem?_eq_none_iff.mp hb'
    rw [length_append, length_singleton] at h1 h2
    obtain rfl : k = cs.length := by omega
    rw [getElem?_concat_length] at hb
    exact Option.some.inj hb ▸ hstop

end

end Links
