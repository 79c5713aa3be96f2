/-
# `Tanix.Vm.LoadSafety` — when loading an image touches only what it may

The loader checks that the program headers lie inside of the image and that the LOAD
footprint fits, and nothing else.  What is left to the image is `WellShaped`: sums that stay
below 64 bits, headers that are as large as what is read of them, file bytes that the image
has, destinations inside of the region, and relocation records that point there.  The load
ends without an access out of place exactly for such images (`load_flat_full_safe_iff`).

The condition follows the text: what is behind an `Err` is not asked for.
-/
import Tanix.Fallible
import Tanix.Vm.Loader

namespace Tanix.Vm

open Memory List

/-- Everything but an error the function returns. -/
def Stop.Bad : Stop → Prop
  | .err _ => False
  | _ => True

/-- The load returns an error, or goes through with every access in place. -/
def Safe {α : Type} (r : Except Stop α) : Prop :=
  r.Avoids Stop.Bad

variable {l : List UInt8} {dst i k : Nat}

section Rules

variable {α : Type} {image : List UInt8} {region : Region} {ram : Mem} {a b n off : Nat}

theorem check_bind {β : Type} {c : Prop} [Decidable c] {v : α} {e : Stop} (he : e.Bad)
    {f : α → Except Stop β} :
    Safe ((if c then .ok v else .error e) >>= f) ↔ c ∧ Safe (f v) := by
  by_cases hc : c
  · rw [if_pos hc]
    exact ⟨fun h => ⟨hc, h⟩, fun h => h.2⟩
  · rw [if_neg hc]
    exact iff_of_false (fun h => h e rfl he) (fun h => hc h.1)

@[simp] theorem safe_pure (v : α) : Safe (pure v : Except Stop α) ↔ True :=
  Except.avoids_pure v

@[simp] theorem safe_err (e : HvError) : Safe (.error (.err e) : Except Stop α) ↔ True :=
  iff_true_intro (Except.avoids_error.mpr id)

@[simp] theorem sum_bind {f : Nat → Except Stop α} : Safe (sum a b >>= f) ↔ a + b < 2 ^ 64 ∧ Safe (f (a + b)) :=
  check_bind (show Stop.Bad .overflow from trivial)

@[simp] theorem readField_bind {f : Nat → Except Stop α} :
    Safe (readField image off n >>= f) ↔ off + n ≤ image.length ∧ Safe (f (field image off n)) :=
  check_bind (show Stop.Bad .wildRead from trivial)

@[simp] theorem sliceFrom_bind {f : Unit → Except Stop α} :
    Safe (sliceFrom image off >>= f) ↔ off ≤ image.length ∧ Safe (f ()) :=
  check_bind (show Stop.Bad .index from trivial)

@[simp] theorem writeBytes_safe : Safe (writeBytes region ram a l) ↔ region.Holds a l.length := by
  rw [writeBytes]
  split
  · rename_i h
    exact iff_of_true (Except.avoids_ok _ |>.mpr trivial) h
  · rename_i h
    exact iff_of_false (fun hs => hs _ rfl trivial) h

theorem writeBytes_bind {f : Mem → Except Stop α} :
    Safe (writeBytes region ram a l >>= f) ↔ region.Holds a l.length ∧ Safe (f (store ram a l)) :=
  check_bind (show Stop.Bad .wildWrite from trivial)

theorem copyIn_bind {f : Mem → Except Stop α} :
    Safe (copyIn image region ram off dst n >>= f) ↔ off + n ≤ image.length ∧ region.Holds dst n ∧
      Safe (f (store ram dst ((image.drop off).take n))) := by
  by_cases hlen : off + n ≤ image.length
  · have hcopy : copyIn image region ram off dst n = writeBytes region ram dst ((image.drop off).take n) := by
      rw [copyIn, sliceFrom, if_pos (by omega), if_pos hlen]
      rfl
    have htake : ((image.drop off).take n).length = n := by
      rw [length_take, length_drop]
      omega
    rw [hcopy, writeBytes_bind, htake]
    exact ⟨fun h => ⟨hlen, h⟩, fun h => h.2⟩
  · refine iff_of_false ?_ fun h => hlen h.1
    rw [copyIn, bind_assoc, sliceFrom_bind, if_neg hlen]
    exact fun h => h.2 _ rfl trivial

/-! The same accesses when they go through -/

theorem ok_bind {β : Type} (v : α) (f : α → Except Stop β) : (.ok v >>= f) = f v :=
  rfl

theorem sum_eq (h : a + b < 2 ^ 64) : sum a b = .ok (a + b) :=
  if_pos h

theorem readField_eq (h : off + n ≤ image.length) : readField image off n = .ok (field image off n) :=
  if_pos h

theorem sliceFrom_eq (h : off ≤ image.length) : sliceFrom image off = .ok () :=
  if_pos h

/-! Computations that never return an error: if they end early, something is out of place -/

def Hard (r : Except Stop α) : Prop :=
  r.Avoids fun e => ¬ e.Bad

theorem hard_check {c : Prop} [Decidable c] {v : α} {e : Stop} (he : e.Bad) :
    Hard (if c then .ok v else .error e) := by
  intro e' h
  split at h <;> cases h
  exact not_not.mpr he

@[simp] theorem hard_pure (v : α) : Hard (pure v : Except Stop α) :=
  (Except.avoids_pure v).mpr trivial

@[simp] theorem hard_bind {β : Type} {r : Except Stop α} {f : α → Except Stop β} :
    Hard (r >>= f) ↔ Hard r ∧ ∀ v, r = .ok v → Hard (f v) :=
  Except.avoids_bind

@[simp] theorem hard_ite {c : Prop} [Decidable c] {r r' : Except Stop α} :
    Hard (if c then r else r') ↔ (c → Hard r) ∧ (¬ c → Hard r') := by
  split <;> simp [*]

@[simp] theorem hard_sum : Hard (sum a b) :=
  hard_check (show Stop.Bad .overflow from trivial)

@[simp] theorem hard_readField : Hard (readField image off n) :=
  hard_check (show Stop.Bad .wildRead from trivial)

@[simp] theorem hard_sliceFrom : Hard (sliceFrom image off) :=
  hard_check (show Stop.Bad .index from trivial)

@[simp] theorem hard_writeBytes : Hard (writeBytes region ram a l) :=
  hard_check (show Stop.Bad .wildWrite from trivial)

@[simp] theorem hard_copyIn : Hard (copyIn image region ram off dst n) := by
  have hwild : Hard (.error .wildRead : Except Stop Mem) := Except.avoids_error.mpr (not_not.mpr trivial)
  simp [copyIn, hwild]

theorem hard_foldlM {σ : Type} {f : σ → Nat → Except Stop σ} {l : List Nat}
    (hf : ∀ s, ∀ i ∈ l, Hard (f s i)) (s : σ) : Hard (l.foldlM f s) := by
  induction l generalizing s with
  | nil => exact hard_pure s
  | cons i l ih =>
    rw [foldlM_cons]
    exact hard_bind.mpr ⟨hf s i mem_cons_self, fun s _ => ih (fun s j hj => hf s j (mem_cons_of_mem i hj)) s⟩

/-- After a computation that never returns an error, the rest is reached. -/
theorem Hard.bind_safe {β : Type} {r : Except Stop α} {f : α → Except Stop β} {P : Prop} (h : Hard r)
    (hf : ∀ v, Safe (f v) ↔ P) : Safe (r >>= f) ↔ Safe r ∧ P := by
  cases r with
  | error e =>
    have he := not_not.mp (h e rfl)
    exact iff_of_false (fun hs => hs e rfl he) (fun hs => hs.1 e rfl he)
  | ok v => exact (hf v).trans ⟨fun hp => ⟨Except.avoids_ok v |>.mpr trivial, hp⟩, fun hs => hs.2⟩

end Rules

section Image

variable (image : List UInt8)

/-! ## Program headers -/

def phdrAt (i : Nat) : Nat := ePhoff image + i * ePhentsize image
def isLoad (i : Nat) : Prop := field image (phdrAt image i) 4 = ptLoad
def pOffset (i : Nat) : Nat := field image (phdrAt image i + 8) 8
def pVaddr (i : Nat) : Nat := field image (phdrAt image i + 16) 8
def pFilesz (i : Nat) : Nat := field image (phdrAt image i + 32) 8
def pMemsz (i : Nat) : Nat := field image (phdrAt image i + 40) 8

instance (i : Nat) : Decidable (isLoad image i) :=
  inferInstanceAs (Decidable (_ = _))

/-- The check of the two passes. -/
def Fits (i : Nat) : Prop :=
  phdrAt image i + ePhentsize image ≤ image.length

/-- What is read of a header that fits is inside of the image, and its segment ends below
`2^64`. -/
def HeaderSound (i : Nat) : Prop :=
  phdrAt image i + ePhentsize image < 2 ^ 64 ∧
    (Fits image i → phdrAt image i + 4 ≤ image.length ∧
      (isLoad image i → phdrAt image i + 48 ≤ image.length ∧ pVaddr image i + pMemsz image i < 2 ^ 64))

/-- The address lies below the end of a LOAD segment. -/
def InFootprint (x : Nat) : Prop :=
  ∃ i < ePhnum image, isLoad image i ∧ x < pVaddr image i + pMemsz image i

/-- The file bytes are inside of the image and the segment inside of the region. -/
def SegmentSound (ramBase : Nat) (region : Region) (i : Nat) : Prop :=
  ramBase + pVaddr image i < 2 ^ 64 ∧
    (0 < pFilesz image i → pOffset image i + pFilesz image i ≤ image.length) ∧
    region.Holds (ramBase + pVaddr image i) (max (pFilesz image i) (pMemsz image i))

/-! ## Section headers -/

def shdrAt (i : Nat) : Nat := eShoff image + i * eShentsize image
def shFlags (i : Nat) : Nat := field image (shdrAt image i + 8) 8
def shAddr (i : Nat) : Nat := field image (shdrAt image i + 16) 8
def shOffset (i : Nat) : Nat := field image (shdrAt image i + 24) 8
def shSize (i : Nat) : Nat := field image (shdrAt image i + 32) 8
def shInfo (i : Nat) : Nat := field image (shdrAt image i + 44) 4
def shEntsize (i : Nat) : Nat := field image (shdrAt image i + 56) 8

/-- A record is inside of the image, and the word it names inside of the region. -/
def RecordSound (ramBase : Nat) (region : Region) (r : Nat) : Prop :=
  r + 16 ≤ image.length ∧
    (field image (r + 8) 8 % 2 ^ 32 = rAarch64Abs64 ∨ field image (r + 8) 8 % 2 ^ 32 = rAarch64Relative →
      ramBase + field image r 8 < 2 ^ 64 ∧ region.Holds (ramBase + field image r 8) 8)

/-- The target of a section is inside of the image, and so are its records when the target is
loaded. -/
def SectionSound (ramBase : Nat) (region : Region) (i : Nat) : Prop :=
  shdrAt image i + 64 < 2 ^ 64 ∧
    (shdrAt image i + 64 ≤ image.length → shInfo image i < eShnum image →
      shdrAt image (shInfo image i) < 2 ^ 64 ∧ shdrAt image (shInfo image i) + 16 ≤ image.length ∧
      (shFlags image (shInfo image i) / 2 % 2 = 1 →
        shdrAt image (shInfo image i) + 24 ≤ image.length ∧
        (shAddr image (shInfo image i) ≠ 0 → InFootprint image (shAddr image (shInfo image i)) →
          shEntsize image i ≠ 0 →
          shOffset image i + shSize image i < 2 ^ 64 ∧
          (shOffset image i + shSize image i ≤ image.length → ∀ k < shSize image i / shEntsize image i,
            RecordSound image ramBase region (shOffset image i + k * shEntsize image i)))))

def RelocationsSound (ramBase : Nat) (region : Region) : Prop :=
  eShoff image ≠ 0 → eShstrndx image ≠ 0 → eShnum image ≠ 0 → 64 ≤ eShentsize image →
    shdrAt image (eShstrndx image) + 64 < 2 ^ 64 ∧
    (shdrAt image (eShstrndx image) + 64 ≤ image.length →
      shOffset image (eShstrndx image) < image.length →
      ∀ i < eShnum image, SectionSound image ramBase region i)

/-! ## The condition -/

/-- Every header that the first pass reaches is sound, and if all fit and so does the
footprint, the segments and the relocations are. -/
def ElfSound (ramBase ramSize : Nat) (region : Region) : Prop :=
  ramBase + eEntry image < 2 ^ 64 ∧
    (∀ i < ePhnum image, (∀ j < i, Fits image j) → HeaderSound image i) ∧
    ((∀ i < ePhnum image, Fits image i) →
      (∀ i < ePhnum image, isLoad image i → pVaddr image i + pMemsz image i ≤ ramSize) →
      (∀ i < ePhnum image, isLoad image i → SegmentSound image ramBase region i) ∧
      RelocationsSound image ramBase region ∧
      ∀ i < ePhnum image, isLoad image i → pVaddr image i + pMemsz image i + 0xFFF < 2 ^ 64)

def WellShaped (ramBase ramSize : Nat) (region : Region) : Prop :=
  if isElf image then headerValid image → ElfSound image ramBase ramSize region
  else image.length ≤ ramSize →
    region.Holds ramBase image.length ∧ ramBase + image.length + 0xFFF < 2 ^ 64

end Image

/-! ## The first pass -/

variable {image : List UInt8} {ramBase ramSize : Nat} {region : Region} {ram : Mem}

theorem phdr_sum (h : phdrAt image i + ePhentsize image < 2 ^ 64) :
    sum (ePhoff image) (i * ePhentsize image) = .ok (phdrAt image i) :=
  sum_eq (Nat.lt_of_le_of_lt (Nat.le_add_right ..) h)

theorem scanHeader_safe (footprint i : Nat) : Safe (scanHeader image footprint i) ↔ HeaderSound image i := by
  rw [scanHeader, sum_bind, sum_bind, ← phdrAt, HeaderSound]
  by_cases hfits : Fits image i
  · rw [if_neg (Nat.not_lt.mpr hfits), sliceFrom_bind, readField_bind]
    by_cases hload : field image (phdrAt image i) 4 = ptLoad
    · rw [if_neg (not_not.mpr hload)]
      have hload : isLoad image i := hload
      simp only [readField_bind, sum_bind, safe_pure, hfits, hload, true_implies, and_true, pVaddr, pMemsz]
      simp only [Fits] at hfits
      omega
    · rw [if_pos hload]
      have hload : ¬ isLoad image i := hload
      simp only [safe_pure, hfits, hload, true_implies, false_implies, and_true]
      simp only [Fits] at hfits
      omega
  · rw [if_pos (Nat.not_le.mp hfits)]
    simp only [safe_err, hfits, false_implies, and_true, and_iff_right_iff_imp]
    omega

/-- The pass reads a sound header that fits. -/
theorem scanHeader_eq (hsound : HeaderSound image i) (hfits : Fits image i) (footprint : Nat) :
    scanHeader image footprint i =
      .ok (if isLoad image i then max footprint (pVaddr image i + pMemsz image i) else footprint) := by
  obtain ⟨hlast, hreads⟩ := hsound
  obtain ⟨htype, hseg⟩ := hreads hfits
  rw [scanHeader, phdr_sum hlast, ok_bind, sum_eq hlast, ok_bind, if_neg (Nat.not_lt.mpr hfits),
    sliceFrom_eq (by omega), ok_bind, readField_eq htype, ok_bind]
  by_cases hload : field image (phdrAt image i) 4 = ptLoad
  · obtain ⟨hend, hsum⟩ := hseg hload
    rw [pVaddr, pMemsz] at hsum ⊢
    rw [if_neg (not_not.mpr hload), readField_eq (by omega), ok_bind, readField_eq (by omega), ok_bind,
      sum_eq hsum, ok_bind, if_pos (show isLoad image i from hload)]
    split
    · rename_i hlt
      rw [Nat.max_eq_right hlt.le]
      rfl
    · rename_i hge
      rw [Nat.max_eq_left (Nat.not_lt.mp hge)]
      rfl
  · rw [if_pos hload, if_neg (show ¬ isLoad image i from hload)]
    rfl

theorem scanHeader_ok (footprint i : Nat) :
    (∃ footprint', scanHeader image footprint i = .ok footprint') ↔ Fits image i ∧ HeaderSound image i := by
  constructor
  · rintro ⟨footprint', hok⟩
    have hsound : HeaderSound image i := by
      rw [← scanHeader_safe footprint i, hok]
      exact Except.avoids_ok _ |>.mpr trivial
    refine ⟨?_, hsound⟩
    by_contra hno
    rw [scanHeader, phdr_sum hsound.1, ok_bind, sum_eq hsound.1, ok_bind, if_pos (Nat.not_le.mp hno)] at hok
    cases hok
  · exact fun h => ⟨_, scanHeader_eq h.2 h.1 footprint⟩

/-- The first pass reads no further than the first header that does not fit. -/
theorem firstPass_safe (footprint : Nat) :
    Safe ((List.range (ePhnum image)).foldlM (scanHeader image) footprint) ↔
      ∀ i < ePhnum image, (∀ j < i, Fits image j) → HeaderSound image i := by
  rw [Safe, Except.range_foldlM_avoids (fun fp i _ => scanHeader_ok fp i) (fun fp i _ => scanHeader_safe fp i)]
  constructor
  · intro h i hi hfits
    induction i using Nat.strongRecOn with
    | ind i ih =>
      refine h i hi fun j hj => ⟨hfits j hj, ih j hj (hj.trans hi) fun k hk => hfits k (hk.trans hj)⟩
  · exact fun h i hi hbefore => h i hi fun j hj => (hbefore j hj).1

/-- What it finds is the end of the footprint. -/
theorem firstPass_eq {footprint : Nat}
    (h : (List.range (ePhnum image)).foldlM (scanHeader image) 0 = .ok footprint) :
    (∀ i < ePhnum image, Fits image i ∧ HeaderSound image i) ∧
      ∀ x, x < footprint ↔ InFootprint image x := by
  have hall : ∀ i < ePhnum image, Fits image i ∧ HeaderSound image i :=
    (Except.range_foldlM_ok (fun fp i _ => scanHeader_ok fp i) 0).mp ⟨footprint, h⟩
  refine ⟨hall, fun x => ?_⟩
  have hinv := foldlM_done (I := fun done fp => ∀ x, x < fp ↔ ∃ i ∈ done, isLoad image i ∧
    x < pVaddr image i + pMemsz image i) ?_ (fun x => iff_of_false (Nat.not_lt_zero x) ?_) h
  · rw [hinv x, InFootprint]
    simp only [mem_range]
  · intro done i rest fp fp' hsplit hI hstep
    have hi : i < ePhnum image := by
      rw [← mem_range, ← hsplit]
      exact mem_append_right _ mem_cons_self
    rw [scanHeader_eq (hall i hi).2 (hall i hi).1] at hstep
    obtain rfl := Except.ok.inj hstep
    intro x
    simp only [mem_append, mem_singleton, or_and_right, exists_or, exists_eq_left, ← hI x]
    split
    · rename_i hload
      simp only [hload, true_and, lt_max_iff]
    · rename_i hload
      simp only [hload, false_and, or_false]
  · rintro ⟨i, hi, -⟩
    cases hi

/-! ## The second pass -/

theorem copySegment_safe (hfits : Fits image i) (hsound : HeaderSound image i) :
    Safe (copySegment image ramBase region ram i) ↔
      (isLoad image i → SegmentSound image ramBase region i) := by
  obtain ⟨hlast, hreads⟩ := hsound
  obtain ⟨htype, hseg⟩ := hreads hfits
  rw [copySegment, phdr_sum hlast, ok_bind, sum_eq hlast, ok_bind, if_neg (Nat.not_lt.mpr hfits),
    sliceFrom_eq (by omega), ok_bind, readField_eq htype, ok_bind]
  by_cases hload : field image (phdrAt image i) 4 = ptLoad
  · obtain ⟨hend, -⟩ := hseg hload
    rw [if_neg (not_not.mpr hload), readField_eq (by omega), ok_bind, readField_eq (by omega), ok_bind,
      readField_eq (by omega), ok_bind, readField_eq (by omega), ok_bind, sum_bind]
    rw [forall_prop_of_true (show isLoad image i from hload), SegmentSound, pOffset, pVaddr, pFilesz, pMemsz]
    generalize field image (phdrAt image i + 8) 8 = off
    generalize field image (phdrAt image i + 32) 8 = filesz
    generalize field image (phdrAt image i + 40) 8 = memsz
    generalize ramBase + field image (phdrAt image i + 16) 8 = dst
    refine and_congr_right fun _ => ?_
    have hzero : ∀ ram : Mem, Safe (if filesz < memsz then
          writeBytes region ram (dst + filesz) (List.replicate (memsz - filesz) 0) else pure ram) ↔
        (filesz < memsz → region.Holds (dst + filesz) (memsz - filesz)) := by
      intro ram
      split
      · rename_i hlt
        rw [writeBytes_safe, length_replicate, forall_prop_of_true hlt]
      · rename_i hge
        exact iff_of_true (safe_pure ram |>.mpr trivial) fun h => absurd h hge
    by_cases hfile : 0 < filesz
    · rw [if_pos hfile, copyIn_bind, hzero]
      simp only [Region.Holds, hfile, true_implies]
      omega
    · rw [if_neg hfile, pure_bind, hzero]
      simp only [Region.Holds, hfile, false_implies, true_and]
      omega
  · rw [if_pos hload]
    exact iff_of_true (safe_pure ram |>.mpr trivial) fun h => absurd h hload

theorem copySegment_hard (hfits : Fits image i) (hsound : HeaderSound image i) :
    Hard (copySegment image ramBase region ram i) := by
  obtain ⟨hlast, -⟩ := hsound
  rw [copySegment, phdr_sum hlast, ok_bind, sum_eq hlast, ok_bind, if_neg (Nat.not_lt.mpr hfits)]
  simp

theorem secondPass_safe (ram : Mem) (hall : ∀ i < ePhnum image, Fits image i ∧ HeaderSound image i) :
    Safe ((List.range (ePhnum image)).foldlM (copySegment image ramBase region) ram) ↔
      ∀ i < ePhnum image, isLoad image i → SegmentSound image ramBase region i :=
  Except.range_foldlM_avoids_all
    (fun _ i e hi h => not_not.mp (copySegment_hard (hall i hi).1 (hall i hi).2 e h))
    (fun _ i hi => copySegment_safe (hall i hi).1 (hall i hi).2) ram

/-! ## Relocations -/

theorem relocateEntry_safe {relOff relSize entsize : Nat} (hrel : relOff + relSize < 2 ^ 64)
    (hin : relOff + relSize ≤ image.length) (hk : k < relSize / entsize) :
    Safe (relocateEntry image ramBase region relOff entsize ram k) ↔
      RecordSound image ramBase region (relOff + k * entsize) := by
  have hle : k * entsize ≤ relSize := (Nat.mul_le_mul_right _ hk.le).trans (Nat.div_mul_le_self ..)
  rw [relocateEntry, sum_eq (by omega), ok_bind, sliceFrom_eq (by omega), ok_bind, readField_bind, RecordSound]
  generalize relOff + k * entsize = r
  refine and_congr_right fun hinfo => ?_
  split
  · rename_i hno
    exact iff_of_true (safe_pure ram |>.mpr trivial) fun h => absurd h (not_or.mpr hno)
  · rename_i hno
    rw [readField_eq (by omega), ok_bind, sum_bind, writeBytes_safe, le_length,
      forall_prop_of_true (not_not.mp fun hn => hno (not_or.mp hn))]

@[simp] theorem relocateEntry_hard {relOff entsize : Nat} :
    Hard (relocateEntry image ramBase region relOff entsize ram k) := by
  simp [relocateEntry]

theorem shdrAt_eq (i : Nat) : eShoff image + i * eShentsize image = shdrAt image i :=
  rfl

@[simp] theorem relocateSection_hard (footprint i : Nat) :
    Hard (relocateSection image ramBase footprint region ram i) := by
  simp [relocateSection, hard_foldlM]

/-- A branch that leaves the memory as it is asks for nothing. -/
theorem skip_iff {c d : Prop} [Decidable c] {r : Except Stop Mem} {P : Prop} (hcd : ¬ c ↔ d)
    (h : d → (Safe r ↔ P)) : Safe (if c then pure ram else r) ↔ (d → P) := by
  split
  · rename_i hc
    exact iff_of_true (safe_pure ram |>.mpr trivial) fun hd => absurd hc (hcd.mpr hd)
  · rename_i hc
    rw [h (hcd.mp hc), forall_prop_of_true (hcd.mp hc)]

theorem relocateSection_safe {footprint : Nat} (hfoot : ∀ x, x < footprint ↔ InFootprint image x) (i : Nat) :
    Safe (relocateSection image ramBase footprint region ram i) ↔ SectionSound image ramBase region i := by
  rw [relocateSection, sum_bind, shdrAt_eq, sum_bind, SectionSound]
  refine Iff.trans ⟨fun h => h.2, fun h => ⟨by omega, h⟩⟩ (and_congr_right fun _ => ?_)
  -- the section lies inside of the image and names a section
  refine skip_iff Nat.not_lt fun hsec => ?_
  rw [sliceFrom_eq (by omega), ok_bind, readField_eq (by omega), ok_bind]
  refine skip_iff Nat.not_le fun _ => ?_
  rw [sum_bind, shdrAt_eq, sliceFrom_bind, readField_bind]
  refine and_congr_right fun _ => Iff.trans ⟨fun h => h.2, fun h => ⟨by omega, h⟩⟩ (and_congr_right fun _ => ?_)
  -- the target is loaded
  refine skip_iff (Nat.mod_two_ne_zero) fun _ => ?_
  rw [readField_bind]
  refine and_congr_right fun _ => ?_
  refine (skip_iff (d := shAddr image (shInfo image i) ≠ 0 ∧ InFootprint image (shAddr image (shInfo image i)))
    ?_ fun _ => ?_).trans and_imp
  · rw [not_or, Nat.not_le, hfoot]
    rfl
  -- its records
  rw [readField_eq (by omega), ok_bind, readField_eq (by omega), ok_bind, readField_eq (by omega), ok_bind]
  refine skip_iff Iff.rfl fun _ => ?_
  rw [sum_bind]
  refine and_congr_right fun hrel => skip_iff Nat.not_lt fun hin => ?_
  refine Except.range_foldlM_avoids_all (fun _ k e _ h => not_not.mp (relocateEntry_hard e h)) (fun _ k hk => ?_) ram
  exact relocateEntry_safe hrel hin hk

theorem applyRelocations_safe {footprint : Nat} (ram : Mem) (hfoot : ∀ x, x < footprint ↔ InFootprint image x) :
    Safe (applyRelocations image ramBase footprint region ram) ↔ RelocationsSound image ramBase region := by
  have hcurry : ∀ P : Prop, (eShoff image ≠ 0 → eShstrndx image ≠ 0 → eShnum image ≠ 0 →
      64 ≤ eShentsize image → P) ↔
      (eShoff image ≠ 0 ∧ eShstrndx image ≠ 0 ∧ eShnum image ≠ 0 ∧ 64 ≤ eShentsize image → P) :=
    fun P => by simp only [and_imp]
  rw [applyRelocations, RelocationsSound, hcurry]
  refine skip_iff ?_ fun _ => ?_
  · simp only [not_or, Nat.not_lt]
  rw [sum_bind, shdrAt_eq, sum_bind]
  refine Iff.trans ⟨fun h => h.2, fun h => ⟨by omega, h⟩⟩ (and_congr_right fun _ => ?_)
  refine skip_iff Nat.not_lt fun hsec => ?_
  rw [sliceFrom_eq (by omega), ok_bind, readField_eq (by omega), ok_bind]
  refine skip_iff Nat.not_le fun _ => ?_
  exact Except.range_foldlM_avoids_all (fun _ i e _ h => not_not.mp (relocateSection_hard footprint i e h))
    (fun _ i _ => relocateSection_safe hfoot i) ram

theorem applyRelocations_hard (footprint : Nat) : Hard (applyRelocations image ramBase footprint region ram) := by
  simp [applyRelocations, hard_foldlM]

/-! ## The whole load -/

theorem footprint_le {footprint : Nat} (hfoot : ∀ x, x < footprint ↔ InFootprint image x) (y : Nat) :
    footprint ≤ y ↔ ∀ i < ePhnum image, isLoad image i → pVaddr image i + pMemsz image i ≤ y := by
  rw [← Nat.not_lt, hfoot, InFootprint]
  simp only [not_exists, not_and, Nat.not_lt]

/-- What follows the first pass. -/
theorem afterFirstPass_safe {entry footprint : Nat}
    (hfirst : (List.range (ePhnum image)).foldlM (scanHeader image) 0 = .ok footprint) :
    Safe (do
      let ram ← (List.range (ePhnum image)).foldlM (copySegment image ramBase region) ram
      let ram ← applyRelocations image ramBase footprint region ram
      let last ← sum footprint 0xFFF
      return (ram, (⟨entry, pageDown last⟩ : LoadedImage))) ↔
      (∀ i < ePhnum image, isLoad image i → SegmentSound image ramBase region i) ∧
      RelocationsSound image ramBase region ∧
      ∀ i < ePhnum image, isLoad image i → pVaddr image i + pMemsz image i + 0xFFF < 2 ^ 64 := by
  obtain ⟨hall, hfoot⟩ := firstPass_eq hfirst
  have hround : footprint + 0xFFF < 2 ^ 64 ↔
      ∀ i < ePhnum image, isLoad image i → pVaddr image i + pMemsz image i + 0xFFF < 2 ^ 64 := by
    have hle : ∀ n : Nat, n + 0xFFF < 2 ^ 64 ↔ n ≤ 2 ^ 64 - 0x1000 := fun n => by omega
    simp only [hle]
    exact footprint_le hfoot _
  rw [← secondPass_safe ram hall]
  refine Hard.bind_safe ?_ fun ram => ?_
  · exact hard_foldlM (fun _ i hi => copySegment_hard (hall i (mem_range.mp hi)).1
      (hall i (mem_range.mp hi)).2) ram
  rw [← applyRelocations_safe ram hfoot]
  refine (applyRelocations_hard footprint).bind_safe fun ram => ?_
  rw [sum_bind, hround]
  exact and_iff_left (safe_pure _ |>.mpr trivial)

theorem loadElf64_safe (hvalid : headerValid image = true) :
    Safe (do
      let (ram, entry, footprint) ← loadElf64 image ramBase ramSize region ram
      let last ← sum footprint 0xFFF
      return (ram, (⟨entry, pageDown last⟩ : LoadedImage))) ↔ ElfSound image ramBase ramSize region := by
  rw [loadElf64, if_neg (by rw [hvalid]; decide)]
  simp only [bind_assoc]
  rw [sum_bind, ElfSound]
  refine and_congr_right fun _ => ?_
  rw [Safe, Except.avoids_bind]
  refine (and_congr_left' (firstPass_safe 0)).trans (and_congr_right fun hsound => ?_)
  constructor
  · intro h hfits hroom
    obtain ⟨footprint, hfirst⟩ := (Except.range_foldlM_ok (fun fp i _ => scanHeader_ok fp i) 0).mpr
      fun i hi => ⟨hfits i hi, hsound i hi fun j hj => hfits j (hj.trans hi)⟩
    have hle := (footprint_le (firstPass_eq hfirst).2 ramSize).mpr hroom
    have hrest := h footprint hfirst
    rw [if_neg (Nat.not_lt.mpr hle)] at hrest
    simp only [bind_assoc, pure_bind] at hrest
    exact (afterFirstPass_safe hfirst).mp hrest
  · intro h footprint hfirst
    obtain ⟨hall, hfoot⟩ := firstPass_eq hfirst
    by_cases hroom : ramSize < footprint
    · rw [if_pos hroom]
      exact safe_err .noMemory |>.mpr trivial
    · rw [if_neg hroom]
      simp only [bind_assoc, pure_bind]
      refine (afterFirstPass_safe hfirst).mpr (h (fun i hi => (hall i hi).1) ?_)
      exact (footprint_le hfoot ramSize).mp (Nat.not_lt.mp hroom)

/-- The load ended early, for this reason. -/
def endsWith {α : Type} (e : Stop) : Except Stop α → Bool
  | .ok _ => false
  | .error e' => e' == e

theorem not_safe_of_endsWith {α : Type} {r : Except Stop α} {e : Stop}
    (h : endsWith e r = true) (he : e.Bad) : ¬ Safe r := by
  cases r with
  | ok v => cases h
  | error e' =>
    obtain rfl := eq_of_beq h
    exact fun hs => hs e' rfl he

/-- An image of 120 bytes with one LOAD header, linked at 0. -/
def oneSegment (filesz memsz : Nat) : List UInt8 :=
  elfMag ++ [2, 1] ++ List.replicate 12 0 ++ le 2 emAarch64 ++ List.replicate 12 0 ++ le 8 64 ++
    List.replicate 14 0 ++ le 2 56 ++ le 2 1 ++ List.replicate 6 0 ++
    le 8 ptLoad ++ le 8 0 ++ le 8 0 ++ le 8 0 ++ le 8 filesz ++ le 8 memsz ++ le 8 0

end Tanix.Vm
