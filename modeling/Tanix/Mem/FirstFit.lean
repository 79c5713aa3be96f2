/-
# `Tanix.Mem.FirstFit` — `alloc_contiguous` finds the lowest run

The loop of `alloc_contiguous` passes over the frames once and knows only where the present run
of free frames starts and how long it is.  What carries the proof is what it has left behind: no
run of `n` free frames starts before the present one (`scanRun_spec`).
-/
import Tanix.Mem.Allocator
import Mathlib.Order.Interval.Finset.Nat

namespace Tanix.FrameAllocator

variable {a a' : FrameAllocator} {n : Nat}

/-- A run of `n` free frames below `total_frames`. -/
def FreeRun (a : FrameAllocator) (n s : Nat) : Prop :=
  s + n ≤ a.totalFrames ∧ a.AllFree s n

/-! ## What the call leaves -/

theorem inRun_eq_false {s j : Nat} (hj : ¬ (s ≤ j ∧ j < s + n)) : (decide (s ≤ j) && decide (j < s + n)) = false := by
  rw [Bool.and_eq_false_iff, decide_eq_false_iff_not, decide_eq_false_iff_not]
  omega

theorem freeFrames_setUsedRange (h : a.Counted) {s : Nat} (hrun : a.FreeRun n s) :
    (a.setUsedRange s n).freeFrames + n = a.freeFrames := by
  obtain ⟨hle, hall⟩ := hrun
  have hsplit : a.freeSet = (a.setUsedRange s n).freeSet ∪ Finset.Ico s (s + n) := by
    ext j
    rw [Finset.mem_union, mem_freeSet, mem_freeSet, Finset.mem_Ico, setUsedRange_free,
      (a.sameWindow_setUsedRange s n).total]
    by_cases hj : s ≤ j ∧ j < s + n
    · have hfree := hall j hj.1 hj.2
      exact ⟨fun _ => Or.inr hj, fun _ => ⟨by omega, hfree⟩⟩
    · rw [inRun_eq_false hj, Bool.not_false, Bool.and_true]
      exact ⟨Or.inl, fun h => h.resolve_right hj⟩
  have hdisj : Disjoint (a.setUsedRange s n).freeSet (Finset.Ico s (s + n)) := by
    rw [Finset.disjoint_left]
    intro j hj hmem
    obtain ⟨hlo, hhi⟩ := Finset.mem_Ico.mp hmem
    obtain ⟨-, hfree⟩ := mem_freeSet.mp hj
    rw [setUsedRange_free, decide_eq_true hlo, decide_eq_true hhi, Bool.and_self, Bool.not_true,
      Bool.and_false] at hfree
    cases hfree
  rw [(h.setUsedRange hle).count, h.count, hsplit, Finset.card_union_of_disjoint hdisj, Nat.card_Ico,
    Nat.add_sub_cancel_left]

/-- What `alloc_contiguous` hands out: the lowest run, and nothing else changes. -/
structure FirstFit (a : FrameAllocator) (n : Nat) (a' : FrameAllocator) (s : Nat) : Prop where
  run : a.FreeRun n s
  lowest : ∀ s', a.FreeRun n s' → s ≤ s'
  used : ∀ j, s ≤ j → j < s + n → a'.free j = false
  kept : ∀ j, ¬ (s ≤ j ∧ j < s + n) → a'.free j = a.free j
  count : a'.freeFrames + n = a.freeFrames
  window : a.SameWindow a'

theorem firstFit_setUsedRange (h : a.Counted) {s : Nat} (hrun : a.FreeRun n s)
    (hlow : ∀ s', a.FreeRun n s' → s ≤ s') : FirstFit a n (a.setUsedRange s n) s where
  run := hrun
  lowest := hlow
  used j hlo hhi := by
    rw [setUsedRange_free, decide_eq_true hlo, decide_eq_true hhi]
    exact Bool.and_false _
  kept j hj := by
    rw [setUsedRange_free, inRun_eq_false hj]
    exact Bool.and_true _
  count := freeFrames_setUsedRange h hrun
  window := a.sameWindow_setUsedRange s n

theorem allocContiguous_spec (h : a.Counted) (hn : 0 < n) :
    (a.allocContiguous n = none ↔ ∀ s, ¬ a.FreeRun n s) ∧
      ∀ a' p, a.allocContiguous n = some (a', p) → ∃ s, p = a.ramStart + s * pageSize ∧ FirstFit a n a' s := by
  rw [allocContiguous, if_neg (Nat.ne_of_gt hn)]
  cases hr : a.scanRun n a.totalFrames 0 0 0 with
  | none =>
    exact ⟨⟨fun _ s hs => (scanRun_total hn).2 hr s hs.1 hs.2, fun _ => rfl⟩, fun a' p hc => (by cases hc)⟩
  | some s =>
    obtain ⟨hle, hfree, hlow⟩ := (scanRun_total hn).1 s hr
    refine ⟨⟨fun hc => (by cases hc), fun hno => absurd ⟨hle, hfree⟩ (hno s)⟩, fun a' p hsome => ?_⟩
    cases hsome
    exact ⟨s, rfl, firstFit_setUsedRange h ⟨hle, hfree⟩ fun s' hs' => Nat.not_lt.mp fun hlt => hlow s' hlt hs'.2⟩

end Tanix.FrameAllocator

namespace Tanix.FrameHistory

open FrameAllocator

/-- In every state that calls of the allocator lead to, `alloc_contiguous` fails exactly when there is
no run of `n` free frames, and otherwise takes the lowest one and nothing else. -/
theorem allocContiguous_firstFit {w : Window} {a : FrameAllocator} {h : FrameHistory} {ops : List FrameOp}
    (hinit : FrameAllocator.tryInit w.kernelEnd w.ramStart w.ramSize = .ok a)
    (hrun : LTS.Run Step ⟨a, []⟩ ops h) {n : Nat} (hn : 1 ≤ n) :
    (h.frames.allocContiguous n = none ↔ ∀ s, ¬ h.frames.FreeRun n s) ∧
      ∀ a' p, h.frames.allocContiguous n = some (a', p) →
        ∃ s, p = h.frames.ramStart + s * pageSize ∧ FirstFit h.frames n a' s := by
  have hinv : Inv w h := hrun.invariant (fun _ _ _ hi hs => hi.step hs) (Inv.init hinit)
  exact allocContiguous_spec hinv.counted hn

/-- With the second of four frames taken and the kernel in the first, a run of two starts at the
third. -/
theorem allocContiguous_firstFit_two : ∃ (h : FrameHistory) (a' : FrameAllocator),
    h.live = [0x40001000] ∧ h.frames.allocContiguous 2 = some (a', 0x40002000) ∧
      FirstFit h.frames 2 a' 2 := by
  have hrun : ((FrameAllocator.tryInit fourFrames.kernelEnd fourFrames.ramStart
      fourFrames.ramSize).toOption.any fun a =>
        (LTS.exec next ⟨a, []⟩ [.alloc]).any fun h => h.live == [0x40001000] && h.frames.ramStart == 0x40000000 &&
          (h.frames.allocContiguous 2).any fun r => r.2 == 0x40002000) = true := by
    decide +kernel
  obtain ⟨a, ha, hexec⟩ := (Option.any_eq_true _ _).mp hrun
  obtain ⟨h, hh, ht⟩ := LTS.exec_any _ _ _ _ hexec
  rw [Bool.and_eq_true, Bool.and_eq_true, beq_iff_eq, beq_iff_eq] at ht
  obtain ⟨⟨hlive, hstart⟩, hany⟩ := ht
  obtain ⟨⟨a', p⟩, hsome, hp⟩ := (Option.any_eq_true _ _).mp hany
  obtain rfl : p = 0x40002000 := beq_iff_eq.mp hp
  obtain ⟨-, hfit⟩ := allocContiguous_firstFit (toOption_eq_some ha)
    (LTS.Run.of_exec (fun _ _ _ => next_step) hh) (n := 2) (by decide)
  obtain ⟨s, hs, hfirst⟩ := hfit a' _ hsome
  rw [hstart] at hs
  obtain rfl : s = 2 := by
    simp only [pageSize] at hs
    omega
  exact ⟨h, a', hlive, hsome, hfirst⟩

end Tanix.FrameHistory
