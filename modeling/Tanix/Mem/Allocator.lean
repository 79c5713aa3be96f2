/-
# `Tanix.Mem.Allocator` — the frame allocator over whole histories

`FrameHistory` is the allocator together with the frames that it has handed out and not got
back.  From `init`, over any sequence of its operations:

    counted     `free_frames` is the number of free bits below `total_frames`
    apart       the frames handed out are pairwise disjoint
    placed      each is page-aligned, in the RAM window, and past the kernel image
    exhausted   `alloc` returns `None` exactly when no bit below `total_frames` is free

The bits past `total_frames` are free from the start and stay so.  `alloc` comes to them
only when all the bits below are used, and then returns `None`.
-/
import Tanix.Mem.Frame
import Mathlib.Data.Finset.Card
import Tanix.Lib.Run

namespace Tanix

open List

namespace FrameAllocator

variable {a : FrameAllocator}

/-- `init`, with its assertions -/
def tryInit (kernelEnd ramStart ramSize : Nat) : Except Panic FrameAllocator := do
  if maxFrames * pageSize < ramSize then .error .ramTooLarge
  else if ramStart % pageSize ≠ 0 then .error .ramUnaligned
  else
    let _ ← checkedAdd kernelEnd pageSize
    return init kernelEnd ramStart ramSize

/-- `reserve_region`, with its two sums -/
def tryReserve (a : FrameAllocator) (start size : Nat) : Except Panic FrameAllocator := do
  let _ ← checkedAdd start pageSize
  let _ ← checkedAdd start size
  return a.reserveRegion start size

/-! ## The count -/

/-- The free frames of the window. -/
def freeSet (a : FrameAllocator) : Finset Nat :=
  (Finset.range a.totalFrames).filter fun i => a.free i = true

variable {i : Nat}

theorem mem_freeSet : i ∈ a.freeSet ↔ i < a.totalFrames ∧ a.free i = true := by
  rw [freeSet, Finset.mem_filter, Finset.mem_range]

/-- The counter is right, and the bitmap holds the window. -/
structure Counted (a : FrameAllocator) : Prop where
  count : a.freeFrames = a.freeSet.card
  total : a.totalFrames ≤ maxFrames

theorem freeSet_setUsed (a : FrameAllocator) (i : Nat) : (a.setUsed i).freeSet = a.freeSet.erase i := by
  ext j
  rw [mem_freeSet, Finset.mem_erase, mem_freeSet, setUsed_free, (sameWindow_setUsed a i).total]
  simp only [Bool.and_eq_true, bne_iff_ne]
  exact ⟨fun h => ⟨h.2.2, h.1, h.2.1⟩, fun h => ⟨h.2.1, h.2.2, h.1⟩⟩

theorem freeSet_setFree (hi : i < a.totalFrames) : (a.setFree i).freeSet = insert i a.freeSet := by
  ext j
  rw [mem_freeSet, Finset.mem_insert, mem_freeSet, setFree_free, (sameWindow_setFree a i).total]
  simp only [Bool.or_eq_true, beq_iff_eq]
  constructor
  · rintro ⟨hj, hf | rfl⟩
    · exact Or.inr ⟨hj, hf⟩
    · exact Or.inl rfl
  · rintro (rfl | ⟨hj, hf⟩)
    · exact ⟨hi, Or.inr rfl⟩
    · exact ⟨hj, Or.inl hf⟩

theorem Counted.setUsed (h : a.Counted) (hi : i < a.totalFrames) : (a.setUsed i).Counted := by
  refine ⟨?_, ?_⟩
  · rw [freeSet_setUsed]
    unfold FrameAllocator.setUsed
    split
    · rename_i hf
      rw [Finset.card_erase_of_mem (mem_freeSet.mpr ⟨hi, hf⟩)]
      exact congrArg (· - 1) h.count
    · rename_i hf
      rw [Finset.erase_eq_of_notMem fun hm => hf (mem_freeSet.mp hm).2]
      exact h.count
  · rw [(sameWindow_setUsed a i).total]
    exact h.total

theorem Counted.setFree (h : a.Counted) (hi : i < a.totalFrames) : (a.setFree i).Counted := by
  refine ⟨?_, ?_⟩
  · rw [freeSet_setFree hi]
    unfold FrameAllocator.setFree
    split
    · rename_i hf
      rw [Finset.insert_eq_of_mem (mem_freeSet.mpr ⟨hi, hf⟩)]
      exact h.count
    · rename_i hf
      rw [Finset.card_insert_of_notMem fun hm => hf (mem_freeSet.mp hm).2]
      exact congrArg (· + 1) h.count
  · rw [(sameWindow_setFree a i).total]
    exact h.total

theorem Counted.setUsedRange (h : a.Counted) {s n : Nat} (hn : s + n ≤ a.totalFrames) :
    (a.setUsedRange s n).Counted := by
  unfold FrameAllocator.setUsedRange
  induction n generalizing a s with
  | zero => exact h
  | succ n ih =>
    rw [range'_succ, foldl_cons]
    refine ih (h.setUsed (by omega)) ?_
    rw [(sameWindow_setUsed a s).total]
    omega

theorem Counted.reserveRegion (h : a.Counted) (start size : Nat) :
    (a.reserveRegion start size).Counted := by
  unfold FrameAllocator.reserveRegion
  simp only
  split
  · exact h
  · rename_i hlt
    -- the range ends below `total_frames`; it is empty when it would start past its end
    rcases Nat.le_total ((a.physToIdx (pageDown (start + pageSize - 1))).getD 0)
        (min ((a.physToIdx (pageDown (start + size))).getD a.totalFrames) a.totalFrames) with hle | hge
    · exact h.setUsedRange (by omega)
    · rw [Nat.sub_eq_zero_of_le hge]
      exact h

/-- `alloc` fails exactly when the window is used up. -/
theorem alloc_none_iff (h : a.totalFrames ≤ maxFrames) :
    a.alloc = none ↔ ∀ i < a.totalFrames, a.free i = false := by
  unfold alloc
  cases hf : (List.range' 0 maxFrames).find? a.free with
  | none =>
    refine ⟨fun _ i hi => ?_, fun _ => rfl⟩
    have hno := find?_eq_none.mp hf i (mem_range'_1.mpr ⟨Nat.zero_le i, by omega⟩)
    exact Bool.eq_false_iff.mpr hno
  | some k =>
    obtain ⟨hk, j, hj, hjk, hbefore⟩ := find?_eq_some_iff_getElem.mp hf
    rw [getElem_range', Nat.zero_add, Nat.one_mul] at hjk
    subst hjk
    simp only
    split
    · rename_i hge
      refine ⟨fun _ i hi => ?_, fun _ => rfl⟩
      have hi' := hbefore i (by omega)
      rw [getElem_range', Nat.zero_add, Nat.one_mul] at hi'
      simpa using hi'
    · rename_i hlt
      refine ⟨fun hc => (by cases hc), fun hall => ?_⟩
      rw [hall j (by omega)] at hk
      cases hk

end FrameAllocator

/-! ## Histories -/

inductive FrameOp where
  | reserve (start size : Nat)
  | alloc
  | allocContiguous (n : Nat)
  | free (p : Nat)

/-- The allocator, and the frames that it has handed out. -/
structure FrameHistory where
  frames : FrameAllocator
  live : List Nat

/-- The frames of a run. -/
def framesOf (p n : Nat) : List Nat :=
  (List.range n).map fun k => p + k * pageSize

namespace FrameHistory

/-- The history after a call that may have handed out `n` frames. -/
def take (h : FrameHistory) (n : Nat) : Option (FrameAllocator × Nat) → FrameHistory
  | some (a, p) => ⟨a, framesOf p n ++ h.live⟩
  | none => h

/-- One operation.  Only a frame that was handed out is freed. -/
inductive Step (h : FrameHistory) : FrameOp → FrameHistory → Prop
  | reserve {a : FrameAllocator} {start size : Nat} (hr : h.frames.tryReserve start size = .ok a) :
      Step h (.reserve start size) ⟨a, h.live⟩
  | alloc : Step h .alloc (h.take 1 h.frames.alloc)
  | allocContiguous {n : Nat} : Step h (.allocContiguous n) (h.take n (h.frames.allocContiguous n))
  | free {a : FrameAllocator} {p : Nat} (hp : p ∈ h.live) (hr : h.frames.release p = .ok a) :
      Step h (.free p) ⟨a, h.live.erase p⟩

/-- The window that was given to `init`. -/
structure Window where
  kernelEnd : Nat
  ramStart : Nat
  ramSize : Nat

/-- Frame `i` of the window. -/
def Window.frame (w : Window) (i : Nat) : Nat :=
  w.ramStart + i * pageSize

theorem Window.frame_inj {w : Window} {i j : Nat} (h : w.frame i = w.frame j) : i = j := by
  unfold Window.frame pageSize at h
  omega

structure Inv (w : Window) (h : FrameHistory) : Prop where
  counted : h.frames.Counted
  start : h.frames.ramStart = w.ramStart
  size : h.frames.ramSize = w.ramSize
  total : h.frames.totalFrames = w.ramSize / pageSize
  aligned : w.ramStart % pageSize = 0
  kernel : ∀ i < h.frames.totalFrames, w.frame i < w.kernelEnd → h.frames.free i = false
  nodup : h.live.Nodup
  used : ∀ p ∈ h.live, ∃ i < h.frames.totalFrames,
    p = w.frame i ∧ h.frames.free i = false ∧ w.kernelEnd ≤ p

variable {w : Window} {a a' : FrameAllocator} {live : List Nat}

/-- Bits are turned off: what was handed out stays so. -/
theorem Inv.less (hi : Inv w ⟨a, live⟩) (hsame : a.SameWindow a') (hc : a'.Counted)
    (hless : ∀ i, a.free i = false → a'.free i = false) : Inv w ⟨a', live⟩ where
  counted := hc
  start := hsame.start.trans hi.start
  size := hsame.size.trans hi.size
  total := hsame.total.trans hi.total
  aligned := hi.aligned
  kernel i hlt hk := hless i (hi.kernel i (hsame.total ▸ hlt) hk)
  nodup := hi.nodup
  used p hp := by
    obtain ⟨i, hlt, hpi, hf, hk⟩ := hi.used p hp
    exact ⟨i, hsame.total.symm ▸ hlt, hpi, hless i hf, hk⟩

theorem framesOf_frame (w : Window) (s n : Nat) :
    framesOf (w.frame s) n = (List.range' s n).map w.frame := by
  unfold framesOf
  rw [range'_eq_map_range, List.map_map]
  refine map_congr_left fun k _ => ?_
  simp only [Window.frame, Function.comp, pageSize]
  omega

/-- A run of free frames is handed out. -/
theorem Inv.handOut (hi : Inv w ⟨a, live⟩) {s n : Nat} (hn : s + n ≤ a.totalFrames)
    (hfree : ∀ j, s ≤ j → j < s + n → a.free j = true) :
    Inv w ⟨a.setUsedRange s n, (List.range' s n).map w.frame ++ live⟩ := by
  have hsame := a.sameWindow_setUsedRange s n
  have hbit := a.setUsedRange_free s n
  have hbase := hi.less hsame (hi.counted.setUsedRange hn) fun i hf => by rw [hbit, hf]; rfl
  refine { hbase with nodup := ?_, used := ?_ }
  · refine List.Nodup.append ?_ hi.nodup fun p hp hl => ?_
    · exact List.Nodup.map (fun i j h => Window.frame_inj h) nodup_range'
    · -- what is handed out is used, what was free is not
      obtain ⟨j, hj, rfl⟩ := List.mem_map.mp hp
      obtain ⟨i, -, hij, hf, -⟩ := hi.used _ hl
      rw [← Window.frame_inj hij, hfree j (mem_range'_1.mp hj).1 (mem_range'_1.mp hj).2] at hf
      cases hf
  · intro p hp
    rcases mem_append.mp hp with hp | hp
    · obtain ⟨j, hj, rfl⟩ := List.mem_map.mp hp
      obtain ⟨hlo, hhi⟩ := mem_range'_1.mp hj
      refine ⟨j, hsame.total.symm ▸ (by omega : j < a.totalFrames), rfl, ?_, ?_⟩
      · rw [hbit]
        simp [hlo, hhi]
      · by_contra hk
        have hno := hi.kernel j (by omega : j < a.totalFrames) (Nat.lt_of_not_le hk)
        rw [hfree j hlo hhi] at hno
        cases hno
    · exact hbase.used p hp

theorem Inv.release (hi : Inv w ⟨a, live⟩) {p : Nat} (hp : p ∈ live) (h : a.release p = .ok a') :
    Inv w ⟨a', live.erase p⟩ := by
  obtain ⟨i, hlt, rfl, hf, hk⟩ := hi.used p hp
  obtain ⟨-, j, hj, rfl⟩ := FrameAllocator.release_ok h
  -- the frame's own bit is the one that is set
  have hji : j = i := by
    have hstart : a.ramStart = w.ramStart := hi.start
    unfold FrameAllocator.physToIdx at hj
    split at hj
    · rw [Option.some.injEq, hstart, Window.frame, Nat.add_sub_cancel_left,
        Nat.mul_div_cancel _ (by decide)] at hj
      exact hj.symm
    · cases hj
  subst hji
  have hsame := a.sameWindow_setFree j
  refine ⟨hi.counted.setFree hlt, hsame.start.trans hi.start, hsame.size.trans hi.size,
    hsame.total.trans hi.total, hi.aligned, ?_, hi.nodup.erase _, ?_⟩
  · intro k hkt hkk
    change (a.setFree j).free k = false
    have hne : k ≠ j := by
      rintro rfl
      omega
    rw [FrameAllocator.setFree_free, hi.kernel k (hsame.total ▸ hkt) hkk]
    simpa using hne
  · intro q hq
    obtain ⟨k, hkt, rfl, hkf, hkk⟩ := hi.used q (mem_of_mem_erase hq)
    have hne : k ≠ j := by
      rintro rfl
      exact (List.Nodup.not_mem_erase hi.nodup) hq
    refine ⟨k, hsame.total.symm ▸ hkt, rfl, ?_, hkk⟩
    change (a.setFree j).free k = false
    rw [FrameAllocator.setFree_free, hkf]
    simpa using hne

variable {h h' : FrameHistory}

theorem Inv.take (hi : Inv w h) {n : Nat} {r : Option (FrameAllocator × Nat)} (hr : ∀ a p, r = some
    (a, p) → ∃ s, s + n ≤ h.frames.totalFrames ∧ (∀ j, s ≤ j → j < s + n → h.frames.free j = true) ∧
    p = h.frames.ramStart + s * pageSize ∧ a = h.frames.setUsedRange s n) : Inv w (h.take n r) := by
  cases r with
  | none => exact hi
  | some r =>
    obtain ⟨a, p⟩ := r
    obtain ⟨s, hle, hf, rfl, rfl⟩ := hr a p rfl
    rw [hi.start]
    change Inv w ⟨_, framesOf (w.frame s) n ++ h.live⟩
    rw [framesOf_frame]
    exact hi.handOut hle hf

theorem Inv.step {op : FrameOp} (hi : Inv w h) (hs : Step h op h') : Inv w h' := by
  cases hs with
  | reserve hr =>
    rename_i a start size
    obtain ⟨_, -, hr⟩ := bind_eq_ok.mp hr
    obtain ⟨_, -, hr⟩ := bind_eq_ok.mp hr
    cases hr
    have hbits : h.frames.SameWindow (h.frames.reserveRegion start size) ∧
        ∀ i, h.frames.free i = false → (h.frames.reserveRegion start size).free i = false := by
      unfold FrameAllocator.reserveRegion
      simp only
      split
      · exact ⟨.refl _, fun _ h => h⟩
      · refine ⟨FrameAllocator.sameWindow_setUsedRange _ _ _, fun i hf => ?_⟩
        rw [FrameAllocator.setUsedRange_free, hf]
        rfl
    exact hi.less hbits.1 (hi.counted.reserveRegion start size) hbits.2
  | alloc =>
    refine hi.take fun a p hr => ?_
    obtain ⟨i, hlt, hf, hp, ha⟩ := FrameAllocator.alloc_some hr
    refine ⟨i, hlt, fun j hlo hhi => ?_, hp, ha⟩
    rw [show j = i by omega]
    exact hf
  | allocContiguous =>
    refine hi.take fun a p hr => ?_
    obtain ⟨s, hle, -, hf, hp, ha⟩ := FrameAllocator.allocContiguous_some hr
    exact ⟨s, hle, hf, hp, ha⟩
  | free hp hr => exact hi.release hp hr

/-- All frames free, before the kernel's are taken. -/
theorem counted_all {ramStart ramSize : Nat} (h : ramSize ≤ maxFrames * pageSize) :
    FrameAllocator.Counted ⟨ramStart, ramSize, ramSize / pageSize, fun i => i < maxFrames,
      ramSize / pageSize⟩ := by
  have hle : ramSize / pageSize ≤ maxFrames := Nat.div_le_of_le_mul (by rwa [Nat.mul_comm] at h)
  refine ⟨?_, hle⟩
  unfold FrameAllocator.freeSet
  rw [Finset.filter_true_of_mem, Finset.card_range]
  intro i hi
  exact decide_eq_true (Nat.lt_of_lt_of_le (Finset.mem_range.mp hi) hle)

theorem Inv.init (h : FrameAllocator.tryInit w.kernelEnd w.ramStart w.ramSize = .ok a) :
    Inv w ⟨a, []⟩ := by
  unfold FrameAllocator.tryInit at h
  split at h
  · cases h
  rename_i hsize
  split at h
  · cases h
  rename_i halign
  obtain ⟨_, -, h⟩ := bind_eq_ok.mp h
  cases h
  have halign : w.ramStart % pageSize = 0 := not_not.mp halign
  have hsame := FrameAllocator.sameWindow_setUsedRange
    ⟨w.ramStart, w.ramSize, w.ramSize / pageSize, fun i => i < maxFrames, w.ramSize / pageSize⟩ 0
    (min ((pageDown (w.kernelEnd + pageSize - 1) - w.ramStart) / pageSize) (w.ramSize / pageSize))
  refine ⟨(counted_all (Nat.le_of_not_lt hsize)).setUsedRange ?_, hsame.start, hsame.size, hsame.total,
    halign, fun i hi hk => ?_, nodup_nil, fun p hp => absurd hp not_mem_nil⟩
  · rw [Nat.zero_add]
    exact Nat.min_le_right _ _
  · -- a frame that starts below `kernel_end` lies below it rounded up
    have hi : i < w.ramSize / pageSize := Nat.lt_of_lt_of_eq hi hsame.total
    have hlt : i < (pageDown (w.kernelEnd + pageSize - 1) - w.ramStart) / pageSize := by
      unfold Window.frame pageSize at hk
      unfold pageDown pageSize
      unfold pageSize at halign
      omega
    change (FrameAllocator.setUsedRange _ 0 _).free i = false
    rw [FrameAllocator.setUsedRange_free, Nat.zero_add]
    simp only [Bool.and_eq_false_iff, Bool.not_eq_false', Bool.and_eq_true, decide_eq_true_eq]
    exact Or.inr ⟨Nat.zero_le i, Nat.lt_min.mpr ⟨hlt, hi⟩⟩

/-! ## The result -/

/-- The counter is right, what was handed out is apart and in its place, and `alloc` fails only when
it must. -/
structure Sound (w : Window) (h : FrameHistory) : Prop where
  counted : h.frames.freeFrames = h.frames.freeSet.card
  apart : h.live.Pairwise fun p q => p + pageSize ≤ q ∨ q + pageSize ≤ p
  placed : ∀ p ∈ h.live, p % pageSize = 0 ∧ w.ramStart ≤ p ∧ p + pageSize ≤ w.ramStart + w.ramSize ∧
    w.kernelEnd ≤ p
  exhausted : h.frames.alloc = none ↔ ∀ i < h.frames.totalFrames, h.frames.free i = false

theorem Inv.sound (hi : Inv w h) : Sound w h := by
  refine ⟨hi.counted.count, ?_, fun p hp => ?_, FrameAllocator.alloc_none_iff hi.counted.total⟩
  · refine hi.nodup.imp_of_mem fun {p q} hp hq hne => ?_
    obtain ⟨i, -, rfl, -, -⟩ := hi.used p hp
    obtain ⟨j, -, rfl, -, -⟩ := hi.used q hq
    have hij : i ≠ j := fun he => hne (congrArg w.frame he)
    unfold Window.frame pageSize
    omega
  · obtain ⟨i, hlt, rfl, -, hk⟩ := hi.used p hp
    have hal := hi.aligned
    rw [hi.total] at hlt
    unfold Window.frame pageSize at *
    omega

theorem allocator_sound {h : FrameHistory} {ops : List FrameOp}
    (hinit : FrameAllocator.tryInit w.kernelEnd w.ramStart w.ramSize = .ok a)
    (hrun : LTS.Run Step ⟨a, []⟩ ops h) : Sound w h := by
  have hinv : Inv w h := hrun.invariant (fun _ _ _ hi hs => hi.step hs) (Inv.init hinit)
  exact hinv.sound

/-! ## A history -/

/-- The operation as a function; `none` where it panics or is not allowed. -/
def next (h : FrameHistory) : FrameOp → Option FrameHistory
  | .reserve start size => (h.frames.tryReserve start size).toOption.map fun a => ⟨a, h.live⟩
  | .alloc => some (h.take 1 h.frames.alloc)
  | .allocContiguous n => some (h.take n (h.frames.allocContiguous n))
  | .free p =>
    if p ∈ h.live then (h.frames.release p).toOption.map fun a => ⟨a, h.live.erase p⟩ else none

theorem toOption_eq_some {x : Except Panic FrameAllocator} (h : x.toOption = some a) : x = .ok a := by
  cases x with
  | error e => cases h
  | ok b =>
    cases h
    rfl

theorem next_step {op : FrameOp} (hn : h.next op = some h') : Step h op h' := by
  cases op with
  | reserve start size =>
    have hn : (h.frames.tryReserve start size).toOption.map (fun a => FrameHistory.mk a h.live) = some h' :=
      hn
    obtain ⟨a, ha, rfl⟩ := Option.map_eq_some_iff.mp hn
    exact .reserve (toOption_eq_some ha)
  | alloc =>
    obtain rfl := Option.some.inj hn
    exact .alloc
  | allocContiguous n =>
    obtain rfl := Option.some.inj hn
    exact .allocContiguous
  | free p =>
    obtain ⟨hp, hn⟩ := Option.ite_none_right_eq_some.mp hn
    obtain ⟨a, ha, rfl⟩ := Option.map_eq_some_iff.mp hn
    exact .free hp (toOption_eq_some ha)

/-- A window of four frames, the kernel in the first. -/
def fourFrames : Window :=
  ⟨0x40000100, 0x40000000, 0x4000⟩

/-- One frame, two in a row, the first one back, and one again: then all are used. -/
theorem allocator_sound_fourFrames : ∃ h : FrameHistory, h.live = [0x40001000, 0x40002000, 0x40003000] ∧
    h.frames.alloc = none ∧ Sound fourFrames h := by
  have hrun : ((FrameAllocator.tryInit fourFrames.kernelEnd fourFrames.ramStart
      fourFrames.ramSize).toOption.any fun a =>
        (LTS.exec next ⟨a, []⟩ [.alloc, .allocContiguous 2, .free 0x40001000, .alloc]).any fun h =>
          h.live == [0x40001000, 0x40002000, 0x40003000] && h.frames.alloc.isNone) = true := by
    decide +kernel
  obtain ⟨a, ha, hexec⟩ := (Option.any_eq_true _ _).mp hrun
  obtain ⟨h, hh, ht⟩ := LTS.exec_any _ _ _ _ hexec
  simp only [Bool.and_eq_true, beq_iff_eq, Option.isNone_iff_eq_none] at ht
  exact ⟨h, ht.1, ht.2,
    allocator_sound (toOption_eq_some ha) (LTS.Run.of_exec (fun _ _ _ => next_step) hh)⟩

end FrameHistory

end Tanix
