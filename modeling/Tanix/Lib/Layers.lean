/-
# `Tanix.Lib.Layers` — pictures that are painted layer over layer

An item paints some points and leaves the others as they are: `layer b p` is its colour at `p`,
if it has one there.  Items are painted one after the other (`paint`), so at each point the last
one that covers it decides (`top`).  When only some of the items are painted again, the picture
is the same

    at a point where every covering item is painted                       `top_filter_of_covering`
    at a point that one of them covers, when the painted ones are closed
    upwards among those that cover it                                     `top_filter_of_upward`
-/
import Mathlib.Data.List.Basic

namespace Layers

open List

variable {β ι α : Type} {layer layer' : β → ι → Option α} {items : List β} {p : ι} {keep : β → Prop}

/-- One layer over a picture. -/
def overlay (base : ι → α) (l : ι → Option α) : ι → α :=
  fun p => (l p).getD (base p)

def paint (layer : β → ι → Option α) (base : ι → α) (items : List β) : ι → α :=
  items.foldl (fun base b => overlay base (layer b)) base

/-- The colour of the last item that covers a point. -/
def top (layer : β → ι → Option α) : List β → ι → Option α
  | [], _ => none
  | b :: bs, p => (top layer bs p).or (layer b p)

theorem paint_eq (layer : β → ι → Option α) (base : ι → α) (items : List β) (p : ι) :
    paint layer base items p = (top layer items p).getD (base p) := by
  induction items generalizing base with
  | nil => rfl
  | cons b bs ih =>
    show paint layer (overlay base (layer b)) bs p = _
    rw [ih, top, overlay]
    cases top layer bs p with
    | none => rfl
    | some a => rfl

/-- One layer over another. -/
theorem overlay_overlay (base : ι → α) (l l' : ι → Option α) :
    overlay (overlay base l) l' = overlay base fun p => (l' p).or (l p) := by
  funext p
  rw [overlay, overlay, overlay]
  cases l' p with
  | none => rfl
  | some a => rfl

theorem top_eq_none_iff : top layer items p = none ↔ ∀ b ∈ items, layer b p = none := by
  induction items with
  | nil => exact ⟨fun _ b hb => (nomatch hb), fun _ => rfl⟩
  | cons b bs ih =>
    rw [top, Option.or_eq_none_iff, ih]
    constructor
    · rintro ⟨hbs, hb⟩ c hc
      rcases mem_cons.mp hc with rfl | hc
      · exact hb
      · exact hbs c hc
    · intro h
      exact ⟨fun c hc => h c (mem_cons_of_mem _ hc), h b (mem_cons_self ..)⟩

theorem top_congr (h : ∀ b ∈ items, layer' b p = layer b p) : top layer' items p = top layer items p := by
  induction items with
  | nil => rfl
  | cons b bs ih =>
    rw [top, top, h b (mem_cons_self ..), ih fun c hc => h c (mem_cons_of_mem _ hc)]

variable [DecidablePred keep]

theorem top_filter_of_covering (h : ∀ b ∈ items, layer b p ≠ none → keep b) :
    top layer (items.filter keep) p = top layer items p := by
  induction items with
  | nil => rfl
  | cons b bs ih =>
    have ih := ih fun c hc => h c (mem_cons_of_mem _ hc)
    rw [filter_cons]
    split
    · rw [top, top, ih]
    · next hb =>
        have hnone : layer b p = none := by
          by_contra hne
          exact hb (decide_eq_true (h b (mem_cons_self ..) hne))
        rw [top, ih, hnone, Option.or_none]

theorem top_filter_of_upward
    (hup : items.Pairwise fun b b' => keep b → layer b p ≠ none → layer b' p ≠ none → keep b')
    (hsome : ∃ b ∈ items, keep b ∧ layer b p ≠ none) :
    top layer (items.filter keep) p = top layer items p := by
  induction items with
  | nil =>
    obtain ⟨b, hb, -⟩ := hsome
    cases hb
  | cons b bs ih =>
    obtain ⟨hhead, htail⟩ := pairwise_cons.mp hup
    by_cases hbs : ∃ c ∈ bs, keep c ∧ layer c p ≠ none
    · -- what is above `b` decides, with `b` or without
      have ih := ih htail hbs
      have hne : top layer bs p ≠ none := by
        obtain ⟨c, hc, -, hcp⟩ := hbs
        intro hnone
        exact hcp (top_eq_none_iff.mp hnone c hc)
      obtain ⟨a, ha⟩ := Option.ne_none_iff_exists'.mp hne
      rw [filter_cons]
      split
      · rw [top, top, ih]
      · rw [ih, top, ha]
        rfl
    · obtain ⟨c, hc, hkeep, hcp⟩ := hsome
      rcases mem_cons.mp hc with rfl | hc
      · -- nothing above the only one that is painted covers the point
        refine top_filter_of_covering fun d hd hdp => ?_
        rcases mem_cons.mp hd with rfl | hd
        · exact hkeep
        · exact hhead d hd hkeep hcp hdp
      · exact absurd ⟨c, hc, hkeep, hcp⟩ hbs

end Layers
