/-
# `Tanix.Mem.Reserve` — which frames `reserve_region` takes

The range `[start, start + size)` is to be kept from being handed out: the frames of the window
that it overlaps, and no others.  What `reserve_region` marks used is something else.  It rounds
the start up and the end down to pages, so a frame that the range covers in part is left out.
And an end that lies outside of the window is replaced by the first frame or by the last one,
whichever side it is on, so a range that is not empty after rounding and lies wholly above or
below the window (`Beyond`) takes all of it.

    rounded range beyond the window   every frame is taken
    otherwise                         the frames that lie wholly inside of the range are taken
-/
import Tanix.Mem.Allocator

namespace Tanix.FrameAllocator

variable {a a' : FrameAllocator} {start size i : Nat}

variable (a)

/-- `reserve_region`, with all of its sums; that of the window is in `phys_to_idx`. -/
def reserve (start size : Nat) : Except Panic FrameAllocator := do
  let _ ← checkedAdd start pageSize
  let _ ← checkedAdd start size
  if pageDown (start + size) ≤ pageDown (start + pageSize - 1) then return a
  else
    let _ ← checkedAdd a.ramStart a.ramSize
    return a.reserveRegion start size

/-! ## Frames and ranges -/

/-- Frame `i` of the window and the range have an address in common. -/
def Overlaps (start size i : Nat) : Prop :=
  ∃ p, (start ≤ p ∧ p < start + size) ∧ a.ramStart + i * pageSize ≤ p ∧ p < a.ramStart + (i + 1) * pageSize

/-- Frame `i` lies wholly inside of the range. -/
def Inside (start size i : Nat) : Prop :=
  start ≤ a.ramStart + i * pageSize ∧ a.ramStart + (i + 1) * pageSize ≤ start + size

/-- After rounding, the range is not empty and lies above or below the window. -/
def Beyond (start size : Nat) : Prop :=
  pageDown (start + pageSize - 1) < pageDown (start + size) ∧
    (a.ramStart + a.ramSize ≤ pageDown (start + pageSize - 1) ∨ pageDown (start + size) < a.ramStart)

/-- The frames that the range overlaps are used, and the others are as they were. -/
def Exact (a' : FrameAllocator) (start size : Nat) : Prop :=
  (∀ i < a.totalFrames, a.Overlaps start size i → a'.free i = false) ∧
    ∀ i, ¬ a.Overlaps start size i → a'.free i = a.free i

/-- The sums fit, and no free frame is taken wrongly or left out. -/
structure Reservable (a : FrameAllocator) (start size : Nat) : Prop where
  rounded : start + pageSize < 2 ^ 64
  window : pageDown (start + pageSize - 1) < pageDown (start + size) → a.ramStart + a.ramSize < 2 ^ 64
  beyond : a.Beyond start size → ∀ i < a.totalFrames, ¬ a.Overlaps start size i → a.free i = false
  edges : ¬ a.Beyond start size → ∀ i < a.totalFrames, a.Overlaps start size i → ¬ a.Inside start size i →
    a.free i = false

/-- A window of whole pages that starts at one. -/
structure Paged (a : FrameAllocator) : Prop where
  aligned : a.ramStart % pageSize = 0
  total : a.totalFrames = a.ramSize / pageSize

variable {a}

theorem overlaps_of_inside (h : a.Inside start size i) : a.Overlaps start size i := by
  obtain ⟨hlo, hhi⟩ := h
  simp only [pageSize] at hlo hhi
  exact ⟨a.ramStart + i * pageSize, ⟨hlo, by simp only [pageSize]; omega⟩, Nat.le_refl _, by simp only [pageSize]; omega⟩

/-! ## What is marked -/

variable (a)

/-- Frame `i` is among those that `reserve_region` marks. -/
def Marked (start size i : Nat) : Prop :=
  pageDown (start + pageSize - 1) < pageDown (start + size) ∧
    (a.physToIdx (pageDown (start + pageSize - 1))).getD 0 ≤ i ∧
    i < min ((a.physToIdx (pageDown (start + size))).getD a.totalFrames) a.totalFrames

instance (start size i : Nat) : Decidable (a.Marked start size i) :=
  inferInstanceAs (Decidable (_ ∧ _))

theorem reserveRegion_free (start size i : Nat) :
    (a.reserveRegion start size).free i = (a.free i && !decide (a.Marked start size i)) := by
  rw [reserveRegion]
  dsimp only
  split
  · next hle =>
    have hno : ¬ a.Marked start size i := fun h => absurd h.1 (Nat.not_lt.mpr hle)
    rw [decide_eq_false hno]
    exact (Bool.and_true _).symm
  · next hlt =>
    rw [setUsedRange_free, ← Bool.decide_and]
    refine congrArg (fun b => a.free i && !b) (decide_eq_decide.mpr ?_)
    rw [Marked]
    omega

variable {a}

/-- Beyond the window all frames are marked. -/
theorem marked_of_beyond (h : a.Beyond start size) (hi : i < a.totalFrames) : a.Marked start size i := by
  obtain ⟨hlt, hside⟩ := h
  have hlo : a.physToIdx (pageDown (start + pageSize - 1)) = none := by
    rw [physToIdx, if_neg (by omega)]
  have hhi : a.physToIdx (pageDown (start + size)) = none := by
    rw [physToIdx, if_neg (by omega)]
  refine ⟨hlt, ?_, ?_⟩
  · rw [hlo]
    exact Nat.zero_le i
  · rw [hhi, Option.getD_none, Nat.min_self]
    exact hi

theorem roundUp_le_iff {q : Nat} (hq : q % pageSize = 0) : pageDown (start + pageSize - 1) ≤ q ↔ start ≤ q := by
  simp only [pageDown, pageSize] at *
  omega

theorem le_pageDown_iff {q x : Nat} (hq : q % pageSize = 0) : q ≤ pageDown x ↔ q ≤ x := by
  simp only [pageDown, pageSize] at *
  omega

theorem Paged.frame_aligned (hp : a.Paged) (i : Nat) : (a.ramStart + i * pageSize) % pageSize = 0 := by
  rw [Nat.add_mul_mod_self_right]
  exact hp.aligned

theorem Paged.frame_end_le (hp : a.Paged) (hi : i < a.totalFrames) :
    a.ramStart + (i + 1) * pageSize ≤ a.ramStart + a.ramSize := by
  rw [hp.total] at hi
  exact Nat.add_le_add_left ((Nat.le_div_iff_mul_le (by decide)).mp hi) _

/-- The first index, for a page that is not above the window. -/
theorem first_le_iff (hp : a.Paged) {q : Nat} (hq : q % pageSize = 0) (hbelow : q < a.ramStart + a.ramSize) :
    (a.physToIdx q).getD 0 ≤ i ↔ q ≤ a.ramStart + i * pageSize := by
  have hal := hp.aligned
  rw [physToIdx]
  split
  · rw [Option.getD_some]
    simp only [pageSize] at *
    omega
  · rw [Option.getD_none]
    omega

/-- The end index, for a page that is not below the window. -/
theorem lt_end_iff (hp : a.Paged) {q : Nat} (hq : q % pageSize = 0) (habove : a.ramStart ≤ q) (hi : i < a.totalFrames) :
    i < min ((a.physToIdx q).getD a.totalFrames) a.totalFrames ↔ a.ramStart + (i + 1) * pageSize ≤ q := by
  have hal := hp.aligned
  have hend := hp.frame_end_le hi
  rw [Nat.lt_min, physToIdx]
  split
  · rw [Option.getD_some]
    simp only [pageSize] at *
    omega
  · rw [Option.getD_none]
    omega

/-- Otherwise those that lie inside of the range are. -/
theorem marked_iff_inside (hp : a.Paged) (h : ¬ a.Beyond start size) (hi : i < a.totalFrames) :
    a.Marked start size i ↔ a.Inside start size i := by
  have hlo := pageDown_aligned (start + pageSize - 1)
  have hhi := pageDown_aligned (start + size)
  have hin : a.Inside start size i ↔ pageDown (start + pageSize - 1) ≤ a.ramStart + i * pageSize ∧
      a.ramStart + (i + 1) * pageSize ≤ pageDown (start + size) := by
    rw [Inside, roundUp_le_iff (hp.frame_aligned i), le_pageDown_iff (hp.frame_aligned (i + 1))]
  rw [hin, Marked]
  rw [Beyond, not_and, not_or, Nat.not_le, Nat.not_lt] at h
  constructor
  · rintro ⟨hlt, hfirst, hlast⟩
    obtain ⟨hbelow, habove⟩ := h hlt
    exact ⟨(first_le_iff hp hlo hbelow).mp hfirst, (lt_end_iff hp hhi habove hi).mp hlast⟩
  · rintro ⟨hfirst, hlast⟩
    have hlt : pageDown (start + pageSize - 1) < pageDown (start + size) := by
      simp only [pageSize] at *
      omega
    obtain ⟨hbelow, habove⟩ := h hlt
    exact ⟨hlt, (first_le_iff hp hlo hbelow).mpr hfirst, (lt_end_iff hp hhi habove hi).mpr hlast⟩

theorem not_marked_of_ge (hi : a.totalFrames ≤ i) : ¬ a.Marked start size i := by
  rintro ⟨-, -, hlt⟩
  omega

/-! ## Exactness -/

/-- A frame that is not marked although it should be, or is although it should not, has to be used
already. -/
theorem exact_iff : Exact a (a.reserveRegion start size) start size ↔
    (∀ i < a.totalFrames, a.Overlaps start size i → ¬ a.Marked start size i → a.free i = false) ∧
      ∀ i, ¬ a.Overlaps start size i → a.Marked start size i → a.free i = false := by
  simp only [Exact, reserveRegion_free]
  refine and_congr (forall_congr' fun i => ?_) (forall_congr' fun i => ?_)
  · by_cases hm : a.Marked start size i
    · simp [hm]
    · simp [hm]
  · by_cases hm : a.Marked start size i
    · simp [hm]
    · simp [hm]

theorem exact_iff_of_paged (hp : a.Paged) : Exact a (a.reserveRegion start size) start size ↔
    (a.Beyond start size → ∀ i < a.totalFrames, ¬ a.Overlaps start size i → a.free i = false) ∧
      (¬ a.Beyond start size → ∀ i < a.totalFrames, a.Overlaps start size i → ¬ a.Inside start size i →
        a.free i = false) := by
  rw [exact_iff]
  by_cases hb : a.Beyond start size
  · constructor
    · rintro ⟨-, hwrong⟩
      exact ⟨fun _ i hi hno => hwrong i hno (marked_of_beyond hb hi), fun hnot => absurd hb hnot⟩
    · rintro ⟨hbeyond, -⟩
      refine ⟨fun i hi _ hm => absurd (marked_of_beyond hb hi) hm, fun i hno hm => ?_⟩
      exact hbeyond hb i (Nat.not_le.mp fun hge => not_marked_of_ge hge hm) hno
  · constructor
    · rintro ⟨hleft, -⟩
      refine ⟨fun hyes => absurd hyes hb, fun _ i hi hover hin => ?_⟩
      exact hleft i hi hover fun hm => hin ((marked_iff_inside hp hb hi).mp hm)
    · rintro ⟨-, hedges⟩
      refine ⟨fun i hi hover hm => ?_, fun i hno hm => ?_⟩
      · exact hedges hb i hi hover fun hin => hm ((marked_iff_inside hp hb hi).mpr hin)
      · have hi : i < a.totalFrames := Nat.not_le.mp fun hge => not_marked_of_ge hge hm
        exact absurd (overlaps_of_inside ((marked_iff_inside hp hb hi).mp hm)) hno

theorem reserveRegion_of_le (h : pageDown (start + size) ≤ pageDown (start + pageSize - 1)) :
    a.reserveRegion start size = a :=
  if_pos h

theorem reserve_eq_ok (hsum : start + size < 2 ^ 64) : a.reserve start size = .ok a' ↔
    (start + pageSize < 2 ^ 64 ∧
      (pageDown (start + pageSize - 1) < pageDown (start + size) → a.ramStart + a.ramSize < 2 ^ 64)) ∧
      a' = a.reserveRegion start size := by
  rw [reserve, checkedAdd, checkedAdd, if_pos hsum]
  by_cases hstart : start + pageSize < 2 ^ 64
  · rw [if_pos hstart]
    simp only [bind, Except.bind]
    split
    · next hle =>
      rw [reserveRegion_of_le hle]
      constructor
      · intro h
        exact ⟨⟨hstart, fun hlt => absurd hle (Nat.not_le.mpr hlt)⟩, (Except.ok.inj h).symm⟩
      · rintro ⟨-, rfl⟩
        rfl
    · next hlt =>
      rw [checkedAdd]
      by_cases hwin : a.ramStart + a.ramSize < 2 ^ 64
      · rw [if_pos hwin]
        constructor
        · intro h
          exact ⟨⟨hstart, fun _ => hwin⟩, (Except.ok.inj h).symm⟩
        · rintro ⟨-, rfl⟩
          rfl
      · rw [if_neg hwin]
        constructor
        · intro h
          cases h
        · rintro ⟨⟨-, hfits⟩, -⟩
          exact absurd (hfits (Nat.not_le.mp hlt)) hwin
  · rw [if_neg hstart]
    constructor
    · intro h
      cases h
    · rintro ⟨⟨hfits, -⟩, -⟩
      exact absurd hfits hstart

end Tanix.FrameAllocator

namespace Tanix.FrameHistory

open FrameAllocator

variable {w : Window} {a : FrameAllocator} {h : FrameHistory}

theorem Inv.paged (hi : Inv w h) : h.frames.Paged where
  aligned := by
    rw [hi.start]
    exact hi.aligned
  total := by
    rw [hi.size]
    exact hi.total

/-- In every state that calls of the allocator lead to, and for every range whose end can be
computed: `reserve_region` returns and takes the frames that overlap the range and no others
exactly when the condition holds. -/
theorem reserve_exact_iff {ops : List FrameOp}
    (hinit : FrameAllocator.tryInit w.kernelEnd w.ramStart w.ramSize = .ok a)
    (hrun : LTS.Run Step ⟨a, []⟩ ops h) {start size : Nat} (hsum : start + size < 2 ^ 64) :
    (∃ a', h.frames.reserve start size = .ok a' ∧ Exact h.frames a' start size) ↔
      h.frames.Reservable start size := by
  have hinv : Inv w h := hrun.invariant (fun _ _ _ hi hs => hi.step hs) (Inv.init hinit)
  constructor
  · rintro ⟨a', hok, hexact⟩
    obtain ⟨⟨hrounded, hwindow⟩, rfl⟩ := (reserve_eq_ok hsum).mp hok
    obtain ⟨hbeyond, hedges⟩ := (exact_iff_of_paged hinv.paged).mp hexact
    exact ⟨hrounded, hwindow, hbeyond, hedges⟩
  · rintro ⟨hrounded, hwindow, hbeyond, hedges⟩
    exact ⟨_, (reserve_eq_ok hsum).mpr ⟨⟨hrounded, hwindow⟩, rfl⟩,
      (exact_iff_of_paged hinv.paged).mpr ⟨hbeyond, hedges⟩⟩

/-- The four frames after `init`, with the kernel in the first. -/
theorem fourFrames_init : ∃ a, FrameAllocator.tryInit fourFrames.kernelEnd fourFrames.ramStart
    fourFrames.ramSize = .ok a ∧ a.ramStart = 0x40000000 ∧ a.ramSize = 0x4000 ∧ a.totalFrames = 4 ∧ a.free 1 = true := by
  have htest : ((FrameAllocator.tryInit fourFrames.kernelEnd fourFrames.ramStart
      fourFrames.ramSize).toOption.any fun a => decide (a.ramStart = 0x40000000 ∧ a.ramSize = 0x4000 ∧
        a.totalFrames = 4 ∧ a.free 1 = true)) = true := by
    decide +kernel
  obtain ⟨a, ha, hfields⟩ := (Option.any_eq_true _ _).mp htest
  exact ⟨a, toOption_eq_some ha, of_decide_eq_true hfields⟩

/-- A range of two whole pages is taken as it should be. -/
theorem reserve_exact_iff_pages : ∃ h : FrameHistory, h.frames.Reservable 0x40001000 0x2000 ∧
    ∃ a', h.frames.reserve 0x40001000 0x2000 = .ok a' ∧ Exact h.frames a' 0x40001000 0x2000 := by
  obtain ⟨a, ha, hstart, hsize, htotal, -⟩ := fourFrames_init
  have hlo : pageDown (0x40001000 + pageSize - 1) = 0x40001000 := by decide
  have hhi : pageDown (0x40001000 + 0x2000) = 0x40003000 := by decide
  have hcond : a.Reservable 0x40001000 0x2000 := by
    refine ⟨by decide, fun _ => ?_, fun hb => ?_, fun _ i hi hover hin => absurd ?_ hin⟩
    · rw [hstart, hsize]
      decide
    · rw [Beyond, hlo, hhi, hstart, hsize] at hb
      omega
    · obtain ⟨p, hp, hframe⟩ := hover
      rw [hstart] at hframe
      rw [Inside, hstart]
      simp only [pageSize] at *
      omega
  exact ⟨⟨a, []⟩, hcond, (reserve_exact_iff (h := ⟨a, []⟩) ha (.nil _) (by decide)).mpr hcond⟩

/-- A range of a page that starts in the middle of one: the two frames that it overlaps stay free. -/
theorem reserve_leaves_edges : ∃ (a : FrameAllocator) (h : FrameHistory) (start size : Nat),
    FrameAllocator.tryInit fourFrames.kernelEnd fourFrames.ramStart fourFrames.ramSize = .ok a ∧
      LTS.Run Step ⟨a, []⟩ [] h ∧ start + size < 2 ^ 64 ∧
      ¬ ∃ a', h.frames.reserve start size = .ok a' ∧ Exact h.frames a' start size := by
  obtain ⟨a, ha, hstart, -, htotal, hfree⟩ := fourFrames_init
  refine ⟨a, ⟨a, []⟩, 0x40001800, 0x1000, ha, .nil _, by decide, ?_⟩
  rintro ⟨a', hok, hover, -⟩
  obtain ⟨-, ha'⟩ := (reserve_eq_ok (by decide)).mp hok
  -- rounded up and down, the range is empty
  have hsame : a.reserveRegion 0x40001800 0x1000 = a := reserveRegion_of_le (by decide)
  rw [ha', hsame] at hover
  have hlap : a.Overlaps 0x40001800 0x1000 1 := by
    refine ⟨0x40001800, by decide, ?_⟩
    rw [hstart]
    decide
  rw [hover 1 (by rw [htotal]; decide) hlap] at hfree
  cases hfree

end Tanix.FrameHistory
