/-
# `Tanix.Mem.Descriptor` — stage-1 descriptors and their bits

The descriptor flags of `kernel/src/mem/page_table.rs`.  A descriptor is the
64-bit word as a natural number; the masks and tests are the code's own.

    bit 0        valid
    bit 1        table (levels 0-2) / page (level 3)
    bits 6, 7    AP: bit 6 gives EL0 access
    bit 10       access flag
    bit 11       the kernel's copy-on-write tag
    bits 12-47   output address
    bits 53, 54  PXN, UXN

Every descriptor the kernel writes is a page address joined with flags that
leave the address bits alone.  `addrOf_or`, `and_or_of_aligned` read such a word back.
-/
import Tanix.Mem.Frame
import Mathlib.Data.Nat.Bitwise

namespace Tanix

/-! ## Flags -/

def descValid : Nat := 1 <<< 0
def descTable : Nat := 1 <<< 1
def descPage : Nat := 1 <<< 1
def descAf : Nat := 1 <<< 10
def descShInner : Nat := 0b11 <<< 8
def descApRwEl1 : Nat := 0b00 <<< 6
def descApRwEl0 : Nat := 0b01 <<< 6
def descUxn : Nat := 1 <<< 54
def descPxn : Nat := 1 <<< 53
def attrNormal : Nat := 0 <<< 2
def attrDevice : Nat := 1 <<< 2
def descCowTag : Nat := 1 <<< 11

def flagsKernelRwx : Nat :=
  descValid ||| descPage ||| descAf ||| descShInner ||| descApRwEl1 ||| attrNormal

def flagsDevice : Nat :=
  descValid ||| descPage ||| descAf ||| descApRwEl1 ||| descUxn ||| descPxn ||| attrDevice

def flagsBlockNormal : Nat :=
  descValid ||| descAf ||| descShInner ||| descApRwEl1 ||| attrNormal

def flagsBlockDevice : Nat :=
  descValid ||| descAf ||| descApRwEl1 ||| descUxn ||| descPxn ||| attrDevice

def flagsUserRwx : Nat :=
  descValid ||| descPage ||| descAf ||| descShInner ||| descApRwEl0 ||| attrNormal

def flagsUserDevice : Nat :=
  descValid ||| descPage ||| descAf ||| descApRwEl0 ||| descUxn ||| descPxn ||| attrDevice

def flagsUserCow : Nat :=
  descValid ||| descPage ||| descAf ||| descShInner ||| (0b11 <<< 6) ||| descCowTag ||| attrNormal

/-- The output-address bits `[47:12]`. -/
def addrMask : Nat := 0x0000FFFFFFFFF000

/-! ## Reading a descriptor -/

variable (e : Nat)

def isValid : Bool :=
  e &&& descValid != 0

/-- A valid descriptor with the table bit set. -/
def isTable : Bool :=
  isValid e && e &&& descTable != 0

/-- A valid level-2 descriptor with the table bit clear. -/
def isBlock : Bool :=
  isValid e && e &&& descTable == 0

/-- AP bit 1: EL0 may access the page. -/
def el0Access : Bool :=
  e &&& descApRwEl0 != 0

def isCow : Bool :=
  e &&& descCowTag != 0

def addrOf : Nat :=
  e &&& addrMask

/-! ## Page addresses -/

/-- A page-aligned address that fits the output-address bits. -/
structure IsPage (a : Nat) : Prop where
  aligned : a % pageSize = 0
  bound : a < 2 ^ 48

theorem testBit_addrMask (i : Nat) : addrMask.testBit i = (decide (12 ≤ i) && decide (i < 48)) := by
  have hmask : addrMask = (2 ^ 36 - 1) * 2 ^ 12 := by decide
  rw [hmask, Nat.testBit_mul_two_pow, Nat.testBit_two_pow_sub_one]
  rw [Bool.eq_iff_iff]
  simp only [Bool.and_eq_true, decide_eq_true_eq]
  omega

/-- A page address is its own output address. -/
theorem IsPage.addrOf {a : Nat} (h : IsPage a) : addrOf a = a := by
  refine Nat.eq_of_testBit_eq fun i => ?_
  rw [Tanix.addrOf, Nat.testBit_and, testBit_addrMask]
  by_cases hlo : 12 ≤ i
  · by_cases hhi : i < 48
    · simp [hlo, hhi]
    · have hbig : a < 2 ^ i :=
        lt_of_lt_of_le h.bound (Nat.pow_le_pow_right (by decide) (Nat.le_of_not_lt hhi))
      rw [Nat.testBit_lt_two_pow hbig]
      rfl
  · have hzero : a.testBit i = false := by
      have hmod : (a % 2 ^ 12).testBit i = false := by
        rw [show a % 2 ^ 12 = 0 from h.aligned]
        exact Nat.zero_testBit i
      rw [Nat.testBit_mod_two_pow] at hmod
      simpa [Nat.lt_of_not_le hlo] using hmod
    rw [hzero]
    rfl

/-- Flags off the address bits do not disturb the address they are joined with. -/
theorem addrOf_or {a f : Nat} (hf : f &&& addrMask = 0) : addrOf (a ||| f) = addrOf a := by
  rw [addrOf, Nat.and_or_distrib_right, hf, Nat.or_zero, addrOf]

/-- A page-aligned word has none of the twelve low bits. -/
theorem and_low_of_aligned {a m : Nat} (ha : a % pageSize = 0) (hm : m < pageSize) :
    a &&& m = 0 := by
  refine Nat.eq_of_testBit_eq fun i => ?_
  rw [Nat.testBit_and, Nat.zero_testBit, Bool.and_eq_false_iff]
  rcases Nat.lt_or_ge i 12 with hi | hi
  · left
    have hmod : (a % 2 ^ 12).testBit i = false := by
      rw [show a % 2 ^ 12 = 0 from ha]
      exact Nat.zero_testBit i
    rw [Nat.testBit_mod_two_pow] at hmod
    simpa [hi] using hmod
  · right
    have hpow : 2 ^ 12 ≤ 2 ^ i := Nat.pow_le_pow_right (by decide) hi
    exact Nat.testBit_lt_two_pow (lt_of_lt_of_le hm hpow)

/-- A mask of low bits reads the flags alone. -/
theorem and_or_of_aligned {a f m : Nat} (ha : a % pageSize = 0) (hm : m < pageSize) :
    (a ||| f) &&& m = f &&& m := by
  rw [Nat.and_or_distrib_right, and_low_of_aligned ha hm, Nat.zero_or]

section Joined

variable {a f : Nat} (ha : a % pageSize = 0)

include ha

theorem isValid_or : isValid (a ||| f) = isValid f := by
  rw [isValid, and_or_of_aligned ha (by decide), isValid]

theorem isTable_or : isTable (a ||| f) = isTable f := by
  rw [isTable, isValid_or ha, and_or_of_aligned ha (by decide), isTable]

theorem el0Access_or : el0Access (a ||| f) = el0Access f := by
  rw [el0Access, and_or_of_aligned ha (by decide), el0Access]

end Joined

variable {e}

theorem isBlock_false_of_isTable (h : isTable e = true) : isBlock e = false := by
  unfold isTable at h
  unfold isBlock
  cases hv : isValid e with
  | false => rfl
  | true =>
    rw [hv, Bool.true_and, bne_iff_ne] at h
    simpa using h

/-- A valid descriptor is a table or a block. -/
theorem isTable_of_not_isBlock (hv : isValid e = true) (hb : isBlock e = false) :
    isTable e = true := by
  unfold isBlock at hb
  unfold isTable
  rw [hv, Bool.true_and] at hb ⊢
  simpa using hb

/-- The descriptor of a table at `p`. -/
theorem isTable_tableDesc {p : Nat} (hp : IsPage p) :
    isTable (p ||| descValid ||| descTable) = true := by
  rw [Nat.or_assoc, isTable_or hp.aligned]
  decide

theorem addrOf_tableDesc {p : Nat} (hp : IsPage p) :
    addrOf (p ||| descValid ||| descTable) = p := by
  rw [Nat.or_assoc, addrOf_or (by decide), hp.addrOf]

end Tanix
