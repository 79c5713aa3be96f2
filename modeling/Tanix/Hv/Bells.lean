/-
# `Tanix.Hv.Bells` — rings and deliveries

A ring of a doorbell is an SGI to CPU 0 (`ring_sgi` of `hypervisor/doorbell.rs`), a delivery is
what `irq_handler` makes of the SGI.  Between the two is the GIC: an SGI that is sent while it
is pending stays pending, and each pending SGI is delivered once.  `main.rs` creates

    SGI 2      the doorbell of the phase-14 guest
    SGIs 3-5   the doorbells of the co-tenants

and the handler records SGIs 1 and 2 only; SGI 3 is the run-queue poke as well.
-/
import Tanix.Lib.Run
import Tanix.Hv.Backend
import Mathlib.Data.Finset.Basic

namespace Tanix.Hv

open LTS

structure Wired where
  hv : Backend
  /-- the SGIs that are pending at CPU 0 -/
  pending : Finset Nat

inductive Signal where
  | ring (bell : Nat)
  | poke
  | deliver (intid : Nat)

/-- The arms of `irq_handler` for SGIs. -/
def Backend.irqHandler (s : Backend) (intid : Nat) : Option Backend :=
  if intid = 1 ∨ intid = 2 then s.noteDelivery intid else some s

namespace Wired

variable (s : Wired)

/-- The number of an SGI has four bits. -/
def sendSgi (intid : Nat) : Wired :=
  { s with pending := insert (intid % 16) s.pending }

def ringSgi (bell : Nat) : Option Wired :=
  match s.hv.findDoorbell bell with
  | none => some s
  | some e => (s.hv.doorbellSend bell).map fun r => { s with hv := r.2 }.sendSgi e.irq

def next : Signal → Option Wired
  | .ring bell => s.ringSgi bell
  | .poke => some (s.sendSgi 3)
  | .deliver intid =>
    if intid ∈ s.pending then
      (s.hv.irqHandler intid).map fun hv => { hv, pending := s.pending.erase intid }
    else none

def Step (e : Signal) (s' : Wired) : Prop :=
  s.next e = some s'

/-- The kernel's doorbells, with what was counted on the first. -/
def table (guest a b c rings deliveries : Nat) : List (Option DoorbellEntry) :=
  [some { DoorbellEntry.new 1 guest 2 with rings, deliveries }, some (.new 2 a 3), some (.new 3 b 4),
    some (.new 4 c 5), none, none, none, none]

def start (hv : Backend) (guest a b c : Nat) : Wired :=
  ⟨{ hv with doorbells := table guest a b c 0 0, nextDoorbell := 5 }, ∅⟩

example (guest a b c : Nat) : ((Backend.new.register guest 2).bind (·.2.register a 3)).bind
    (fun r => (r.2.register b 4).bind (·.2.register c 5)) =
      some (.ok 4, (start .new guest a b c).hv) :=
  rfl

/-- No doorbell has more deliveries than rings, and none that was rung is left without one. -/
def Accounted : Prop :=
  ∀ e ∈ s.hv.doorbells.reduceOption,
    e.deliveries ≤ e.rings ∧ (s.pending = ∅ → 0 < e.rings → 0 < e.deliveries)

/-- The SGI of a doorbell that is rung is one that the handler records. -/
def Recorded : Signal → Prop
  | .ring bell => ∀ e ∈ s.hv.findDoorbell bell, e.irq = 1 ∨ e.irq = 2
  | _ => True

instance : ∀ e, Decidable (Recorded s e)
  | .ring bell => inferInstanceAs (Decidable (∀ e ∈ s.hv.findDoorbell bell, e.irq = 1 ∨ e.irq = 2))
  | .poke | .deliver _ => inferInstanceAs (Decidable True)

/-! ## Runs -/

variable {s} {s' : Wired} {guest a b c rings deliveries : Nat}

/-- The other doorbells stay as they were created. -/
structure Kept (guest a b c rings deliveries : Nat) (s : Wired) : Prop where
  doorbells : s.hv.doorbells = table guest a b c rings deliveries
  merged : deliveries + (if 2 ∈ s.pending then 1 else 0) ≤ rings
  heard : 0 < rings → 0 < deliveries ∨ 2 ∈ s.pending

theorem mem_table {e : DoorbellEntry} (he : e ∈ (table guest a b c rings deliveries).reduceOption) :
    e = { DoorbellEntry.new 1 guest 2 with rings, deliveries } ∨ e = .new 2 a 3 ∨ e = .new 3 b 4 ∨
      e = .new 4 c 5 := by
  simpa [table, List.reduceOption_cons_of_some, List.reduceOption_cons_of_none] using he

theorem Kept.accounted (h : Kept guest a b c rings deliveries s) : s.Accounted := by
  intro e he
  rw [h.doorbells] at he
  rcases mem_table he with rfl | rfl | rfl | rfl
  · refine ⟨Nat.le_trans (Nat.le_add_right ..) h.merged, fun hnone hrung => ?_⟩
    exact (h.heard hrung).resolve_right (by simp [hnone])
  all_goals exact ⟨Nat.le_refl 0, fun _ h0 => h0⟩

/-- The doorbell on SGI 2 is the only one that is rung. -/
theorem Kept.rung {bell : Nat} {e : DoorbellEntry} (h : Kept guest a b c rings deliveries s)
    (hg : s.Recorded (.ring bell)) (he : s.hv.findDoorbell bell = some e) : bell = 1 := by
  have hirq := hg e he
  rw [Backend.findDoorbell, h.doorbells] at he
  have hbell := List.find?_some he
  rcases mem_table (List.mem_of_find?_eq_some he) with rfl | rfl | rfl | rfl
  · exact (eq_of_beq hbell).symm
  all_goals exact absurd hirq (by simp [DoorbellEntry.new])

/-- An SGI that no doorbell is on, or the counted one. -/
theorem Kept.handled {hv : Backend} {intid : Nat} (h : Kept guest a b c rings deliveries s)
    (hs : s.hv.irqHandler intid = some hv) : hv.doorbells = table guest a b c rings
      (if intid = 2 then deliveries + 1 else deliveries) := by
  unfold Backend.irqHandler at hs
  split at hs
  · rename_i hrec
    rw [Backend.noteDelivery, h.doorbells] at hs
    rcases hrec with rfl | rfl
    · cases hs
      exact h.doorbells
    · obtain ⟨n, hn, rfl⟩ := Option.map_eq_some_iff.mp hs
      obtain ⟨-, ⟨⟩⟩ := Option.ite_none_right_eq_some.mp hn
      rfl
  · rename_i hrec
    cases hs
    rw [if_neg fun h2 => hrec (Or.inr h2)]
    exact h.doorbells

theorem kept_step {e : Signal} (h : Kept guest a b c rings deliveries s) (hg : s.Recorded e)
    (hs : s.Step e s') : ∃ rings deliveries, Kept guest a b c rings deliveries s' := by
  have hmerged := h.merged
  cases e with
  | ring bell =>
    have hs : s.ringSgi bell = some s' := hs
    unfold ringSgi at hs
    split at hs
    · cases hs
      exact ⟨_, _, h⟩
    · rename_i e he
      obtain rfl := h.rung hg he
      have hfirst : s.hv.findDoorbell 1 = some { DoorbellEntry.new 1 guest 2 with rings, deliveries } := by
        rw [Backend.findDoorbell, h.doorbells]
        rfl
      cases he.symm.trans hfirst
      rw [Backend.doorbellSend, hfirst] at hs
      obtain ⟨r, hr, rfl⟩ := Option.map_eq_some_iff.mp hs
      obtain ⟨n, hn, rfl⟩ := Option.map_eq_some_iff.mp hr
      obtain ⟨-, ⟨⟩⟩ := Option.ite_none_right_eq_some.mp hn
      have hpending : 2 ∈ insert (2 % 16) s.pending := Finset.mem_insert_self ..
      refine ⟨rings + 1, deliveries, ?_, ?_, fun _ => Or.inr hpending⟩
      · show Pool.modify _ _ s.hv.doorbells = _
        rw [h.doorbells]
        rfl
      · show deliveries + (if 2 ∈ insert (2 % 16) s.pending then 1 else 0) ≤ _
        rw [if_pos hpending]
        omega
  | poke =>
    cases hs
    have hpending : 2 ∈ (s.sendSgi 3).pending ↔ 2 ∈ s.pending := by simp [sendSgi]
    exact ⟨rings, deliveries, h.doorbells, by simpa only [hpending], by simpa only [hpending] using h.heard⟩
  | deliver intid =>
    obtain ⟨hin, hs⟩ := Option.ite_none_right_eq_some.mp hs
    obtain ⟨hv, hhv, rfl⟩ := Option.map_eq_some_iff.mp hs
    refine ⟨rings, _, h.handled hhv, ?_, fun hrung => ?_⟩
    · by_cases h2 : intid = 2
      · subst h2
        rw [if_pos hin] at hmerged
        rwa [if_pos rfl, if_neg (Finset.notMem_erase 2 s.pending)]
      · simpa only [if_neg h2, Finset.mem_erase, ne_eq, Ne.symm h2, not_false_eq_true, true_and]
    · by_cases h2 : intid = 2
      · rw [if_pos h2]
        exact Or.inl (Nat.succ_pos _)
      · rw [if_neg h2]
        exact (h.heard hrung).imp id (Finset.mem_erase_of_ne_of_mem (Ne.symm h2))

end Wired

end Tanix.Hv
