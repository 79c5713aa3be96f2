/-
# `Tanix.Lib.Pool` — a fixed number of slots

A table of slots, each free or taken.  `insert` takes the first free slot, `modify` and
`erase` work on the first entry that is looked for.  What a table holds is
`List.reduceOption`.

    insert   the entries and the new one          `reduceOption_insert`, none free: `insert_eq_none`
    modify   the same keys in the same order      `map_modify`
    erase    the entries without the first one    `reduceOption_erase`
-/
import Mathlib.Data.List.ReduceOption

namespace Pool

open List

variable {α κ : Type}

def insert (a : α) : List (Option α) → Option (List (Option α))
  | [] => none
  | none :: t => some (some a :: t)
  | some b :: t => (insert a t).map (some b :: ·)

def modify (p : α → Bool) (f : α → α) : List (Option α) → List (Option α)
  | [] => []
  | none :: t => none :: modify p f t
  | some b :: t => if p b then some (f b) :: t else some b :: modify p f t

def erase (p : α → Bool) : List (Option α) → List (Option α)
  | [] => []
  | none :: t => none :: erase p t
  | some b :: t => if p b then none :: t else some b :: erase p t

def find (p : α → Bool) (t : List (Option α)) : Option α :=
  t.reduceOption.find? p

variable {t t' : List (Option α)} {p : α → Bool} {f : α → α} {a b : α}

theorem insert_eq_none : insert a t = none ↔ none ∉ t := by
  induction t with
  | nil => exact iff_of_true rfl not_mem_nil
  | cons o t ih =>
    cases o with
    | none => exact iff_of_false (fun h => by cases h) fun h => h mem_cons_self
    | some b =>
      rw [insert, Option.map_eq_none_iff, ih, mem_cons]
      exact ⟨fun h hor => hor.elim (fun h => by cases h) h, fun h hmem => h (Or.inr hmem)⟩

theorem mem_of_insert (h : insert a t = some t') : none ∈ t := by
  by_contra hno
  rw [insert_eq_none.mpr hno] at h
  cases h

/-- No slot is free: each holds an entry. -/
theorem exists_entry {o : Option α} (h : none ∉ t) (ho : o ∈ t) : ∃ a, o = some a ∧ a ∈ t.reduceOption := by
  cases o with
  | none => exact absurd ho h
  | some a => exact ⟨a, rfl, reduceOption_mem_iff.mpr ho⟩

/-- The new entry stands among those that were there. -/
theorem reduceOption_insert (h : insert a t = some t') :
    t'.reduceOption.Perm (a :: t.reduceOption) := by
  induction t generalizing t' with
  | nil => cases h
  | cons o t ih =>
    cases o with
    | none =>
      cases h
      rw [reduceOption_cons_of_some, reduceOption_cons_of_none]
    | some b =>
      obtain ⟨t₁, ht₁, rfl⟩ := Option.map_eq_some_iff.mp h
      rw [reduceOption_cons_of_some, reduceOption_cons_of_some]
      exact ((ih ht₁).cons b).trans (List.Perm.swap a b _)

theorem forall_of_perm {l l' : List α} {P : α → Prop} (hp : l'.Perm (a :: l)) (ha : P a) (h : ∀ x ∈ l, P x) :
    ∀ x ∈ l', P x :=
  fun x hx => forall_mem_cons.mpr ⟨ha, h⟩ x (hp.mem_iff.mp hx)

/-- What the change keeps of the entry that is found, the table keeps of all. -/
theorem map_modify {k : α → κ} (hf : ∀ b, find p t = some b → k (f b) = k b) :
    (modify p f t).reduceOption.map k = t.reduceOption.map k := by
  induction t with
  | nil => rfl
  | cons o t ih =>
    cases o with
    | none => exact ih hf
    | some b =>
      rw [find, reduceOption_cons_of_some, find?_cons] at hf
      rw [modify]
      cases hb : p b with
      | true =>
        rw [hb] at hf
        rw [if_pos rfl, reduceOption_cons_of_some, reduceOption_cons_of_some, map_cons,
          map_cons, hf b rfl]
      | false =>
        rw [hb] at hf
        rw [if_neg Bool.false_ne_true, reduceOption_cons_of_some, reduceOption_cons_of_some,
          map_cons, map_cons, ih hf]

theorem reduceOption_erase : (erase p t).reduceOption = t.reduceOption.eraseP p := by
  induction t with
  | nil => rfl
  | cons o t ih =>
    cases o with
    | none => rw [erase, reduceOption_cons_of_none, reduceOption_cons_of_none, ih]
    | some b =>
      rw [erase, reduceOption_cons_of_some, eraseP_cons]
      cases p b with
      | true => rfl
      | false =>
        rw [if_neg Bool.false_ne_true, cond_false, reduceOption_cons_of_some, ih]

end Pool
