/-
# `Tanix.Mem.Frame` — the bitmap allocator of physical frames

`FrameAllocator` of `kernel/src/mem/frame.rs`.  The code packs the bitmap into
64-bit words; here `free i` is bit `i % 64` of word `i / 64`.  A frame is free
when its bit is set.  `alloc` walks the words for the first one that is not
zero and takes its lowest bit, which is the first set bit of the bitmap.

    alloc              the first free frame, if it lies below `totalFrames`
    allocContiguous n  the first run of `n` free frames
    free p             panics unless `p` is page-aligned and in the RAM window

What the rest of the development uses: `alloc_some`, `allocContiguous_some` and
`free_ok` say which bits each operation turns.
-/
import Tanix.Fallible
import Mathlib.Logic.Function.Basic
import Mathlib.Data.List.Range

namespace Tanix

/-- `PAGE_SIZE` -/
abbrev pageSize : Nat := 4096

/-- `MAX_FRAMES`: 1 GiB of 4 KiB frames. -/
abbrev maxFrames : Nat := 262144

/-- `addr & !(PAGE_SIZE - 1)` -/
def pageDown (addr : Nat) : Nat :=
  addr - addr % pageSize

theorem pageDown_aligned (addr : Nat) : pageDown addr % pageSize = 0 := by
  simp only [pageDown, pageSize]
  omega

structure FrameAllocator where
  ramStart : Nat
  ramSize : Nat
  totalFrames : Nat
  free : Nat → Bool
  freeFrames : Nat

namespace FrameAllocator

variable (a : FrameAllocator)

def setUsed (i : Nat) : FrameAllocator :=
  if a.free i then
    { a with free := Function.update a.free i false, freeFrames := a.freeFrames - 1 }
  else a

def setFree (i : Nat) : FrameAllocator :=
  if a.free i then a
  else { a with free := Function.update a.free i true, freeFrames := a.freeFrames + 1 }

/-- `phys_to_idx` -/
def physToIdx (addr : Nat) : Option Nat :=
  if a.ramStart ≤ addr ∧ addr < a.ramStart + a.ramSize then
    some ((addr - a.ramStart) / pageSize)
  else none

/-- Mark the frames `s, …, s + n - 1` used. -/
def setUsedRange (s n : Nat) : FrameAllocator :=
  (List.range' s n).foldl setUsed a

/-- `init`, past its two assertions. -/
def init (kernelEnd ramStart ramSize : Nat) : FrameAllocator :=
  let all : FrameAllocator :=
    { ramStart, ramSize, totalFrames := ramSize / pageSize, free := fun i => i < maxFrames
      freeFrames := ramSize / pageSize }
  let reservedEnd := pageDown (kernelEnd + pageSize - 1)
  all.setUsedRange 0 (min ((reservedEnd - ramStart) / pageSize) all.totalFrames)

/-- `reserve_region` -/
def reserveRegion (start size : Nat) : FrameAllocator :=
  let lo := pageDown (start + pageSize - 1)
  let hi := pageDown (start + size)
  if hi ≤ lo then a
  else
    let loIdx := (a.physToIdx lo).getD 0
    let hiIdx := min ((a.physToIdx hi).getD a.totalFrames) a.totalFrames
    a.setUsedRange loIdx (hiIdx - loIdx)

/-- `alloc` -/
def alloc : Option (FrameAllocator × Nat) :=
  match (List.range' 0 maxFrames).find? a.free with
  | none => none
  | some i =>
    if a.totalFrames ≤ i then none
    else some (a.setUsed i, a.ramStart + i * pageSize)

/-- The loop of `alloc_contiguous`: `fuel` frames from `i` on are left to look at. -/
def scanRun (a : FrameAllocator) (n : Nat) : Nat → Nat → Nat → Nat → Option Nat
  | 0, _, _, _ => none
  | fuel + 1, i, runStart, runLen =>
    if a.free i then
      let start := if runLen = 0 then i else runStart
      if runLen + 1 = n then some start else scanRun a n fuel (i + 1) start (runLen + 1)
    else scanRun a n fuel (i + 1) runStart 0

/-- `alloc_contiguous` -/
def allocContiguous (n : Nat) : Option (FrameAllocator × Nat) :=
  if n = 0 then none
  else
    match a.scanRun n a.totalFrames 0 0 0 with
    | none => none
    | some s => some (a.setUsedRange s n, a.ramStart + s * pageSize)

/-- `free` -/
def release (addr : Nat) : Except Panic FrameAllocator :=
  if addr % pageSize ≠ 0 then .error .freeUnaligned
  else
    match a.physToIdx addr with
    | none => .error .freeOutOfRange
    | some i => .ok (a.setFree i)

/-! ## Bits -/

@[simp] theorem setUsed_free (i j : Nat) : (a.setUsed i).free j = (a.free j && j != i) := by
  unfold setUsed
  by_cases hi : a.free i = true
  · rw [if_pos hi]
    by_cases hj : j = i
    · simp [hj]
    · simp [hj]
  · rw [if_neg hi]
    by_cases hj : j = i
    · subst hj
      simp [hi]
    · simp [hj]

@[simp] theorem setFree_free (i j : Nat) : (a.setFree i).free j = (a.free j || j == i) := by
  unfold setFree
  by_cases hi : a.free i = true
  · rw [if_pos hi]
    by_cases hj : j = i
    · subst hj
      simp [hi]
    · simp [hj]
  · rw [if_neg hi]
    by_cases hj : j = i
    · simp [hj]
    · simp [hj]

/-- Two allocators over the same RAM window. -/
structure SameWindow (a a' : FrameAllocator) : Prop where
  start : a'.ramStart = a.ramStart
  size : a'.ramSize = a.ramSize
  total : a'.totalFrames = a.totalFrames

theorem SameWindow.refl : SameWindow a a :=
  ⟨rfl, rfl, rfl⟩

variable {a} {a' : FrameAllocator}

theorem SameWindow.trans {b c : FrameAllocator} (h : SameWindow a b) (h' : SameWindow b c) :
    SameWindow a c :=
  ⟨h'.start.trans h.start, h'.size.trans h.size, h'.total.trans h.total⟩

variable (a)

theorem sameWindow_setUsed (i : Nat) : SameWindow a (a.setUsed i) := by
  unfold setUsed
  split <;> exact ⟨rfl, rfl, rfl⟩

theorem sameWindow_setFree (i : Nat) : SameWindow a (a.setFree i) := by
  unfold setFree
  split <;> exact ⟨rfl, rfl, rfl⟩

theorem sameWindow_setUsedRange (s n : Nat) : SameWindow a (a.setUsedRange s n) := by
  unfold setUsedRange
  induction n generalizing a s with
  | zero => exact SameWindow.refl a
  | succ n ih => exact (sameWindow_setUsed a s).trans (ih (a.setUsed s) (s + 1))

theorem setUsedRange_free (s n j : Nat) :
    (a.setUsedRange s n).free j = (a.free j && !(decide (s ≤ j) && decide (j < s + n))) := by
  unfold setUsedRange
  induction n generalizing a s with
  | zero =>
    have hno : (decide (s ≤ j) && decide (j < s + 0)) = false := by
      simp
    rw [hno]
    simp [List.range']
  | succ n ih =>
    rw [List.range'_succ, List.foldl_cons, ih, setUsed_free, Bool.and_assoc]
    congr 1
    rw [Bool.eq_iff_iff]
    simp only [Bool.and_eq_true, bne_iff_ne, Bool.not_eq_true', Bool.and_eq_false_iff,
      decide_eq_false_iff_not]
    omega

/-! ## What the operations do -/

variable {p n : Nat}

variable {a}

theorem alloc_some (h : a.alloc = some (a', p)) :
    ∃ i, i < a.totalFrames ∧ a.free i = true ∧ p = a.ramStart + i * pageSize ∧
      a' = a.setUsed i := by
  unfold alloc at h
  cases hf : (List.range' 0 maxFrames).find? a.free with
  | none =>
    rw [hf] at h
    cases h
  | some i =>
    simp only [hf] at h
    split at h
    · cases h
    · rename_i hlt
      cases h
      exact ⟨i, Nat.lt_of_not_le hlt, List.find?_some hf, rfl, rfl⟩

/-- The frames `s, …, s + n - 1` are free. -/
def AllFree (a : FrameAllocator) (s n : Nat) : Prop :=
  ∀ j, s ≤ j → j < s + n → a.free j = true

/-- The loop from frame `i` on, when the last `runLen` frames before it are free and no run starts
before those: it finds a run and none starts before that, or there is none. -/
theorem scanRun_spec {m : Nat} (fuel i runStart runLen : Nat) (hend : i + fuel = m) (hlen : runLen < n)
    (hi : runLen ≤ i) (hrun : runLen ≠ 0 → runStart + runLen = i) (hfree : a.AllFree (i - runLen) runLen)
    (hpast : ∀ s < i - runLen, ¬ a.AllFree s n) :
    (∀ s, a.scanRun n fuel i runStart runLen = some s → s + n ≤ m ∧ a.AllFree s n ∧ ∀ s' < s, ¬ a.AllFree s' n) ∧
      (a.scanRun n fuel i runStart runLen = none → ∀ s, s + n ≤ m → ¬ a.AllFree s n) := by
  induction fuel generalizing i runStart runLen with
  | zero =>
    refine ⟨fun s hs => (by cases hs), fun _ s hs => ?_⟩
    exact hpast s (by omega)
  | succ fuel ih =>
    rw [scanRun]
    by_cases hcur : a.free i = true
    · rw [if_pos hcur]
      have hstart : (if runLen = 0 then i else runStart) + runLen = i := by
        split
        · omega
        · exact hrun ‹_›
      have hfree' : a.AllFree (i + 1 - (runLen + 1)) (runLen + 1) := by
        intro j hlo hhi
        by_cases hj : j = i
        · rw [hj]
          exact hcur
        · exact hfree j (by omega) (by omega)
      dsimp only
      split
      · -- the run is long enough
        rename_i hn
        refine ⟨fun s hs => ?_, fun hs => (by cases hs)⟩
        obtain rfl := Option.some.inj hs
        exact ⟨by omega, fun j hlo hhi => hfree' j (by omega) (by omega), fun s' hs' => hpast s' (by omega)⟩
      · exact ih (i + 1) _ (runLen + 1) (by omega) (by omega) (by omega) (fun _ => by omega) hfree'
          fun s hs => hpast s (by omega)
    · rw [if_neg hcur]
      refine ih (i + 1) runStart 0 (by omega) (by omega) (Nat.zero_le _) (fun h => absurd rfl h)
        (fun j hlo hhi => absurd hhi (by omega)) fun s hs hall => ?_
      -- a run that starts later than those before would have frame `i` in it
      rcases Nat.lt_or_ge s (i - runLen) with hbefore | hafter
      · exact hpast s hbefore hall
      · exact hcur (hall i (by omega) (by omega))

theorem scanRun_total (hn : 0 < n) :
    (∀ s, a.scanRun n a.totalFrames 0 0 0 = some s →
      s + n ≤ a.totalFrames ∧ a.AllFree s n ∧ ∀ s' < s, ¬ a.AllFree s' n) ∧
      (a.scanRun n a.totalFrames 0 0 0 = none → ∀ s, s + n ≤ a.totalFrames → ¬ a.AllFree s n) :=
  scanRun_spec a.totalFrames 0 0 0 (Nat.zero_add _) hn (Nat.le_refl 0) (fun h => absurd rfl h)
    (fun _ _ hj => absurd hj (Nat.not_lt_zero _)) fun s hs => absurd hs (Nat.not_lt_zero s)

theorem allocContiguous_some (h : a.allocContiguous n = some (a', p)) :
    ∃ s, s + n ≤ a.totalFrames ∧ 0 < n ∧ (∀ j, s ≤ j → j < s + n → a.free j = true) ∧
      p = a.ramStart + s * pageSize ∧ a' = a.setUsedRange s n := by
  unfold allocContiguous at h
  by_cases hn : n = 0
  · rw [if_pos hn] at h
    cases h
  · rw [if_neg hn] at h
    cases hs : a.scanRun n a.totalFrames 0 0 0 with
    | none =>
      rw [hs] at h
      cases h
    | some s =>
      rw [hs] at h
      cases h
      obtain ⟨hle, hfree, -⟩ := (scanRun_total (by omega)).1 s hs
      exact ⟨s, hle, by omega, hfree, rfl, rfl⟩

theorem release_ok (h : a.release p = .ok a') :
    p % pageSize = 0 ∧ ∃ i, a.physToIdx p = some i ∧ a' = a.setFree i := by
  unfold release at h
  split at h
  · cases h
  · rename_i hal
    cases hi : a.physToIdx p with
    | none =>
      rw [hi] at h
      cases h
    | some i =>
      rw [hi] at h
      cases h
      exact ⟨not_not.mp hal, i, rfl, rfl⟩

end FrameAllocator

end Tanix
