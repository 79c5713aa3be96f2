/-
# `Tanix.Lib.Extents` — ranges of addresses that carve up others

`Carves cs bs`: the blocks `bs` are apart from each other, lie inside of the chunks `cs` and
have together the same length.  That is what the moves of an allocator keep:

    split   one block becomes two that lie together
    join    two blocks that lie together become one
    add     a chunk that is apart from all others comes as one block

A block may reach over the border of two chunks that lie together.
-/
import Mathlib.Data.List.Basic
import Mathlib.Algebra.GroupWithZero.Nat

namespace Extents

open List

structure Extent where
  base : Nat
  len : Nat
  deriving DecidableEq, Repr

def Extent.Has (e : Extent) (x : Nat) : Prop :=
  e.base ≤ x ∧ x < e.base + e.len

def Extent.Apart (e f : Extent) : Prop :=
  e.base + e.len ≤ f.base ∨ f.base + f.len ≤ e.base

instance (e f : Extent) : Decidable (e.Apart f) :=
  inferInstanceAs (Decidable (_ ∨ _))

theorem Extent.Apart.symm {e f : Extent} (h : e.Apart f) : f.Apart e :=
  Or.symm h

theorem Extent.Apart.not_has {e f : Extent} (h : e.Apart f) {x : Nat} (he : e.Has x) : ¬ f.Has x := by
  intro hf
  obtain ⟨h1, h2⟩ := he
  obtain ⟨h3, h4⟩ := hf
  rcases h with h | h
  · omega
  · omega

/-- Ranges that are not empty are apart when they have no address in common. -/
theorem Extent.apart_of_disjoint {e f : Extent} (he : 0 < e.len) (hf : 0 < f.len)
    (h : ∀ x, e.Has x → ¬ f.Has x) : e.Apart f := by
  rcases Nat.le_total e.base f.base with hle | hle
  · refine .inl (Nat.not_lt.mp fun hlt => ?_)
    exact h f.base ⟨hle, hlt⟩ ⟨Nat.le_refl _, Nat.lt_add_of_pos_right hf⟩
  · refine .inr (Nat.not_lt.mp fun hlt => ?_)
    exact h e.base ⟨Nat.le_refl _, Nat.lt_add_of_pos_right he⟩ ⟨hle, hlt⟩

/-- The length of all of them. -/
def total (es : List Extent) : Nat :=
  (es.map Extent.len).sum

structure Carves (cs bs : List Extent) : Prop where
  pos : ∀ b ∈ bs, 0 < b.len
  apart : bs.Pairwise Extent.Apart
  inside : ∀ b ∈ bs, ∀ x, b.Has x → ∃ c ∈ cs, c.Has x
  sum : total bs = total cs

variable {cs bs bs' : List Extent} {a n m k : Nat}

theorem carves_nil : Carves [] [] where
  pos _ h := nomatch h
  apart := List.Pairwise.nil
  inside _ h := nomatch h
  sum := rfl

theorem Carves.perm (h : Carves cs bs) (hp : bs.Perm bs') : Carves cs bs' where
  pos b hb := h.pos b (hp.mem_iff.mpr hb)
  apart := hp.pairwise h.apart Extent.Apart.symm
  inside b hb := h.inside b (hp.mem_iff.mpr hb)
  sum := by
    rw [← h.sum]
    exact (hp.map Extent.len).sum_nat.symm

theorem Carves.split (h : Carves cs (⟨a, n⟩ :: bs)) (hpos : 0 < k) (hk : k < n) :
    Carves cs (⟨a, k⟩ :: ⟨a + k, n - k⟩ :: bs) := by
  obtain ⟨hhead, htail⟩ := pairwise_cons.mp h.apart
  have hin := h.inside ⟨a, n⟩ (mem_cons_self ..)
  refine ⟨?_, ?_, ?_, ?_⟩
  · intro b hb
    rcases mem_cons.mp hb with rfl | hb
    · exact hpos
    · rcases mem_cons.mp hb with rfl | hb
      · exact Nat.sub_pos_of_lt hk
      · exact h.pos b (mem_cons_of_mem _ hb)
  · refine pairwise_cons.mpr ⟨?_, pairwise_cons.mpr ⟨?_, htail⟩⟩
    · intro b hb
      rcases mem_cons.mp hb with rfl | hb
      · exact .inl (Nat.le_refl _)
      · rcases hhead b hb with h | h
        · exact .inl (Nat.le_trans (Nat.add_le_add_left (Nat.le_of_lt hk) a) h)
        · exact .inr h
    · intro b hb
      rcases hhead b hb with h | h
      · refine .inl ?_
        show a + k + (n - k) ≤ b.base
        rw [Nat.add_assoc, Nat.add_sub_cancel' (Nat.le_of_lt hk)]
        exact h
      · exact .inr (Nat.le_trans h (Nat.le_add_right a k))
  · intro b hb x hx
    rcases mem_cons.mp hb with rfl | hb
    · exact hin x ⟨hx.1, Nat.lt_trans hx.2 (Nat.add_lt_add_left hk a)⟩
    · rcases mem_cons.mp hb with rfl | hb
      · obtain ⟨h1, h2⟩ := hx
        dsimp only at h1 h2
        refine hin x ⟨?_, ?_⟩
        · show a ≤ x
          omega
        · show x < a + n
          omega
      · exact h.inside b (mem_cons_of_mem _ hb) x hx
  · have hsum := h.sum
    simp only [total, map_cons, sum_cons] at hsum ⊢
    omega

theorem Carves.join (h : Carves cs (⟨a, n⟩ :: ⟨a + n, m⟩ :: bs)) : Carves cs (⟨a, n + m⟩ :: bs) := by
  obtain ⟨hhead, htail⟩ := pairwise_cons.mp h.apart
  obtain ⟨hhead', htail⟩ := pairwise_cons.mp htail
  have hn := h.pos ⟨a, n⟩ (mem_cons_self ..)
  refine ⟨?_, pairwise_cons.mpr ⟨?_, htail⟩, ?_, ?_⟩
  · intro b hb
    rcases mem_cons.mp hb with rfl | hb
    · exact Nat.lt_of_lt_of_le hn (Nat.le_add_right n m)
    · exact h.pos b (mem_cons_of_mem _ (mem_cons_of_mem _ hb))
  · intro b hb
    have hb0 := h.pos b (mem_cons_of_mem _ (mem_cons_of_mem _ hb))
    have h1 := hhead b (mem_cons_of_mem _ hb)
    have h2 := hhead' b hb
    simp only [Extent.Apart] at h1 h2 ⊢
    omega
  · intro b hb x hx
    rcases mem_cons.mp hb with rfl | hb
    · obtain ⟨h1, h2⟩ := hx
      dsimp only at h1 h2
      rcases Nat.lt_or_ge x (a + n) with hlt | hge
      · exact h.inside _ (mem_cons_self ..) x ⟨h1, hlt⟩
      · refine h.inside ⟨a + n, m⟩ (mem_cons_of_mem _ (mem_cons_self ..)) x ⟨hge, ?_⟩
        show x < a + n + m
        omega
    · exact h.inside b (mem_cons_of_mem _ (mem_cons_of_mem _ hb)) x hx
  · have hsum := h.sum
    simp only [total, map_cons, sum_cons] at hsum ⊢
    omega

theorem Carves.add {c : Extent} (h : Carves cs bs) (hpos : 0 < c.len) (hc : ∀ c' ∈ cs, c'.Apart c) :
    Carves (c :: cs) (c :: bs) where
  pos b hb := by
    rcases mem_cons.mp hb with rfl | hb
    · exact hpos
    · exact h.pos b hb
  apart := by
    refine pairwise_cons.mpr ⟨fun b hb => ?_, h.apart⟩
    -- an address of both would be one of an older chunk
    refine Extent.apart_of_disjoint hpos (h.pos b hb) fun x hx hxb => ?_
    obtain ⟨c', hc', hxc'⟩ := h.inside b hb x hxb
    exact (hc c' hc').not_has hxc' hx
  inside b hb x hx := by
    rcases mem_cons.mp hb with rfl | hb
    · exact ⟨b, mem_cons_self .., hx⟩
    · obtain ⟨c', hc', hxc'⟩ := h.inside b hb x hx
      exact ⟨c', mem_cons_of_mem _ hc', hxc'⟩
  sum := by
    have hsum := h.sum
    simp only [total, map_cons, sum_cons] at hsum ⊢
    omega


end Extents
