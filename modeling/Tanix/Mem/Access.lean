/-
# `Tanix.Mem.Access` — loads and stores of EL0

What the hardware does with an access of EL0: the stage-1 walk, the access flag and the
permissions.  The tables are those of the walk in `Tanix.Mem.Walk`; a descriptor above
level 3 that is valid and no table is a block.  An access that fails raises a data abort
with one of these fault status codes, where `l` is the level the walk ended at:

    4 + l    translation   no descriptor, or an address beyond 48 bits
    8 + l    access flag
    12 + l   permission    not for EL0, or a store to a read-only page

Bytes are numbered as they lie in memory: byte `va % 8` of word `va / 8 % 512` of the page.
-/
import Tanix.Lib.Bytes
import Tanix.Mem.Walk

namespace Tanix

/-- AP bit 2: no stores. -/
def readOnly (e : Nat) : Bool :=
  e &&& (0b10 <<< 6) != 0

/-- Does a walk that ended at `e`, with `rem` levels below, have a translation? -/
def isLeaf : Nat → Nat → Bool
  | 0, e => isTable e  -- at level 3 the table bit marks a page
  | rem + 1, e => isValid e && decide (rem < 2)

/-- The page of physical memory that a leaf leads to. -/
def pageOut (rem e va : Nat) : Nat :=
  addrOf e / 2 ^ (12 + 9 * rem) * 2 ^ (12 + 9 * rem) + va % 2 ^ (12 + 9 * rem) / pageSize * pageSize

namespace Ram

/-- An access of EL0: the page it goes to, or the fault status code. -/
def access (r : Ram) (root va : Nat) (write : Bool) : Except Nat Nat :=
  let w := r.walkEnd 3 root va
  if 2 ^ 48 ≤ va then .error 4
  else if !isLeaf w.1 w.2 then .error (4 + (3 - w.1))
  else if w.2 &&& descAf == 0 then .error (8 + (3 - w.1))
  else if !el0Access w.2 || (write && readOnly w.2) then .error (12 + (3 - w.1))
  else .ok (pageOut w.1 w.2 va)

/-- The byte for `va` in the page at `p`. -/
def byteAt (r : Ram) (p va : Nat) : UInt8 :=
  Bytes.get (r.mem p (idxAt 3 va)) (va % 8)

def setByteAt (r : Ram) (p va : Nat) (v : UInt8) : Ram :=
  r.setEntry p (idxAt 3 va) (Bytes.set (r.mem p (idxAt 3 va)) (va % 8) v)

end Ram

variable {r : Ram} {root va : Nat}

theorem levelIdx_pageDown (rem va : Nat) : levelIdx rem (pageDown va) = levelIdx rem va := by
  have hpow : 2 ^ (12 + 9 * rem) = pageSize * 2 ^ (9 * rem) := by
    rw [Nat.pow_add]
  have hdiv : pageDown va / pageSize = va / pageSize := by
    simp only [pageDown, pageSize]
    omega
  rw [levelIdx, levelIdx, idxAt, idxAt]
  simp only [hpow, ← Nat.div_div_eq_div_mul, hdiv]

theorem walkEnd_pageDown (rem : Nat) (p va : Nat) :
    r.walkEnd rem p (pageDown va) = r.walkEnd rem p va := by
  induction rem generalizing p with
  | zero => rw [Ram.walkEnd, Ram.walkEnd, levelIdx_pageDown]
  | succ rem ih => rw [Ram.walkEnd, Ram.walkEnd, levelIdx_pageDown, ih]

theorem walkEnd_le (rem : Nat) (p va : Nat) : (r.walkEnd rem p va).1 ≤ rem := by
  induction rem generalizing p with
  | zero => exact Nat.le_refl 0
  | succ rem ih =>
    cases ht : isTable (r.mem p (levelIdx (rem + 1) va)) with
    | false => rw [walkEnd_stop ht]
    | true =>
      rw [walkEnd_step ht]
      exact Nat.le_succ_of_le (ih _)

theorem isLeaf_valid {rem e : Nat} (h : isLeaf rem e = true) : isValid e = true := by
  cases rem with
  | zero => exact (Bool.and_eq_true_iff.mp h).1
  | succ rem => exact (Bool.and_eq_true_iff.mp h).1

theorem isPage_pageOut {e : Nat} (he : IsPage (addrOf e)) (va : Nat) : pageOut 0 e va = addrOf e := by
  have hal := he.aligned
  simp only [pageOut, pageSize] at hal ⊢
  omega

/-! ## The accesses to a page -/

/-- Nothing is mapped: a translation fault. -/
theorem access_unmapped (hva : va < 2 ^ 48) (h : isValid (r.walkEnd 3 root va).2 = false)
    (write : Bool) : r.access root va write = .error (4 + (3 - (r.walkEnd 3 root va).1)) := by
  have hleaf : isLeaf (r.walkEnd 3 root va).1 (r.walkEnd 3 root va).2 = false := by
    cases hl : isLeaf (r.walkEnd 3 root va).1 (r.walkEnd 3 root va).2 with
    | false => rfl
    | true =>
      rw [isLeaf_valid hl] at h
      cases h
  rw [Ram.access, if_neg (Nat.not_le.mpr hva), hleaf]
  rfl

/-- A page with flags that include the access flag and EL0. -/
theorem access_page (hva : va < 2 ^ 48) {p flags : Nat} (hp : IsPage p)
    (h : r.walkEnd 3 root va = (0, p ||| flags)) (htable : isTable flags = true)
    (haf : flags &&& descAf ≠ 0) (hel0 : el0Access flags = true) (hoff : flags &&& addrMask = 0)
    (write : Bool) : r.access root va write =
      if write && readOnly flags then .error 15 else .ok p := by
  have hro : readOnly (p ||| flags) = readOnly flags := by
    rw [readOnly, and_or_of_aligned hp.aligned (by decide), readOnly]
  have haf' : (p ||| flags) &&& descAf ≠ 0 := by
    rwa [and_or_of_aligned hp.aligned (by decide)]
  have haddr : addrOf (p ||| flags) = p := by
    rw [addrOf_or hoff, hp.addrOf]
  have hleaf : isLeaf 0 (p ||| flags) = true := by
    rw [isLeaf, isTable_or hp.aligned]
    exact htable
  rw [Ram.access, if_neg (Nat.not_le.mpr hva), h]
  simp only
  rw [hleaf, el0Access_or hp.aligned, hel0, hro, isPage_pageOut (by rw [haddr]; exact hp), haddr]
  simp [haf']

theorem access_own (hva : va < 2 ^ 48) {p : Nat} (hp : IsPage p)
    (h : r.walkEnd 3 root va = (0, p ||| flagsUserRwx)) (write : Bool) :
    r.access root va write = .ok p := by
  rw [access_page hva hp h (by decide) (by decide) (by decide) (by decide) write,
    show readOnly flagsUserRwx = false by decide, Bool.and_false]
  rfl

/-- A copy-on-write page: a load goes there, a store faults. -/
theorem access_cow (hva : va < 2 ^ 48) {p : Nat} (hp : IsPage p)
    (h : r.walkEnd 3 root va = (0, p ||| flagsUserCow)) (write : Bool) :
    r.access root va write = if write then .error 15 else .ok p := by
  rw [access_page hva hp h (by decide) (by decide) (by decide) (by decide) write,
    show readOnly flagsUserCow = true by decide, Bool.and_true]

/-! ## Bytes -/

/-- The other bytes of the page. -/
theorem byteAt_setByteAt_ne (r : Ram) (p : Nat) {va va' : Nat} (v : UInt8)
    (hpage : pageDown va' = pageDown va) (hne : va' ≠ va) :
    (r.setByteAt p va v).byteAt p va' = r.byteAt p va' := by
  rw [Ram.byteAt, Ram.setByteAt, Ram.setEntry_mem]
  split
  · rename_i hi
    have hbyte : va' % 8 ≠ va % 8 := by
      have hidx := congrArg Fin.val hi.2
      simp only [idxAt] at hidx
      simp only [pageDown, pageSize] at hpage
      omega
    rw [Bytes.get_set_ne _ _ hbyte, Ram.byteAt, hi.2]
  · rfl

theorem byteAt_congr {r r' : Ram} {p va : Nat} (h : r'.mem p = r.mem p) :
    r'.byteAt p va = r.byteAt p va := by
  rw [Ram.byteAt, Ram.byteAt, h]

end Tanix
