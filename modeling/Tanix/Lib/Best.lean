/-
# `Tanix.Lib.Best` — loops that keep the best candidate so far

A loop looks at the elements of a list in turn.  Some of them give a candidate (`cand`), and a
candidate replaces the one that is kept when its key is smaller (`turn`).  Such a loop ends with
a candidate of least key, if there is any:

    there is no candidate            ⟺  the loop ends with nothing     (`foldl_eq_none_iff`)
    the loop ends with a candidate   ⟹  it is one of the list,
                                         and no other has a smaller key (`of_foldl_eq_some`)
-/
import Mathlib.Order.Lattice
import Mathlib.Data.List.Basic

namespace Best

variable {α β κ : Type} [LinearOrder κ]

/-- The better one of what is kept and a candidate. -/
def better (key : β → κ) : Option β → β → β
  | none, b => b
  | some b', b => if key b < key b' then b else b'

/-- One turn of the loop. -/
def turn (cand : α → Option β) (key : β → κ) (best : Option β) (a : α) : Option β :=
  match cand a with
  | none => best
  | some b => some (better key best b)

open List

variable {cand : α → Option β} {key : β → κ} {best : Option β} {l : List α} {b : β}

theorem better_cases (key : β → κ) (best : Option β) (b : β) :
    better key best b = b ∨ best = some (better key best b) := by
  cases best with
  | none => exact Or.inl rfl
  | some b' =>
    rw [better]
    split
    · exact Or.inl rfl
    · exact Or.inr rfl

theorem better_le (best : Option β) (b : β) : key (better key best b) ≤ key b := by
  cases best with
  | none => exact le_refl _
  | some b' =>
    rw [better]
    split
    · exact le_refl _
    · exact not_lt.mp ‹_›

theorem better_le_kept (b' b : β) : key (better key (some b') b) ≤ key b' := by
  rw [better]
  split
  · exact le_of_lt ‹_›
  · exact le_refl _

theorem foldl_eq_none_iff :
    l.foldl (turn cand key) best = none ↔ best = none ∧ ∀ a ∈ l, cand a = none := by
  induction l generalizing best with
  | nil => exact ⟨fun h => ⟨h, fun a ha => absurd ha not_mem_nil⟩, And.left⟩
  | cons a l ih =>
    rw [foldl_cons, ih, forall_mem_cons, turn]
    cases cand a with
    | none => exact ⟨fun h => ⟨h.1, rfl, h.2⟩, fun h => ⟨h.1, h.2.2⟩⟩
    | some b => exact ⟨fun h => absurd h.1 (Option.some_ne_none _), fun h => absurd h.2.1 (Option.some_ne_none _)⟩

/-- What the loop ends with was kept from the start or comes from the list, and nothing that was
there has a smaller key. -/
theorem of_foldl_eq_some (h : l.foldl (turn cand key) best = some b) :
    (best = some b ∨ ∃ a ∈ l, cand a = some b) ∧ (∀ b' ∈ best, key b ≤ key b') ∧
      ∀ a ∈ l, ∀ b' ∈ cand a, key b ≤ key b' := by
  induction l generalizing best with
  | nil =>
    refine ⟨Or.inl h, fun b' hb' => ?_, fun a ha => absurd ha not_mem_nil⟩
    obtain rfl := Option.some.inj (hb'.symm.trans h)
    exact le_refl _
  | cons a l ih =>
    rw [foldl_cons] at h
    obtain ⟨hfrom, hkept, hlist⟩ := ih h
    cases ha : cand a with
    | none =>
      have hturn : turn cand key best a = best := by rw [turn, ha]
      rw [hturn] at hfrom hkept
      refine ⟨hfrom.imp_right fun ⟨a', ha', hb⟩ => ⟨a', mem_cons_of_mem a ha', hb⟩, hkept, ?_⟩
      intro a' ha' b' hb'
      rcases mem_cons.mp ha' with rfl | ha'
      · rw [ha] at hb'
        cases hb'
      · exact hlist a' ha' b' hb'
    | some c =>
      have hturn : turn cand key best a = some (better key best c) := by rw [turn, ha]
      rw [hturn] at hfrom hkept
      have hbest : key b ≤ key (better key best c) := hkept _ rfl
      refine ⟨?_, ?_, ?_⟩
      · rcases hfrom with hb | ⟨a', ha', hb⟩
        · obtain rfl := Option.some.inj hb
          rcases better_cases key best c with hnew | hold
          · refine Or.inr ⟨a, mem_cons_self, ?_⟩
            rw [hnew]
            exact ha
          · exact Or.inl hold
        · exact Or.inr ⟨a', mem_cons_of_mem a ha', hb⟩
      · intro b' hb'
        obtain rfl : best = some b' := hb'
        exact le_trans hbest (better_le_kept b' c)
      · intro a' ha' b' hb'
        rcases mem_cons.mp ha' with rfl | ha'
        · obtain rfl := Option.some.inj (hb'.symm.trans ha)
          exact le_trans hbest (better_le best b')
        · exact hlist a' ha' b' hb'

end Best
