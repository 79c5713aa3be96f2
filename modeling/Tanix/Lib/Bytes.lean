/-
# `Tanix.Lib.Bytes` — the bytes of a word

Byte `k` of a word, lowest first, and the word with one byte replaced.  Reading over
writing: the byte written reads back, the others are as they were.
-/
import Mathlib.Data.Nat.ModEq
import Mathlib.Tactic.Ring

namespace Bytes

/-- The bytes of a text of ASCII characters. -/
def ascii (s : String) : List UInt8 :=
  s.toList.map fun c => UInt8.ofNat c.toNat

def get (w k : Nat) : UInt8 :=
  UInt8.ofNat (w / 256 ^ k)

def set (w k : Nat) (v : UInt8) : Nat :=
  w / 256 ^ (k + 1) * 256 ^ (k + 1) + (v.toNat * 256 ^ k + w % 256 ^ k)

theorem get_zero (k : Nat) : get 0 k = 0 := by
  rw [get, Nat.zero_div]
  rfl

theorem ofNat_eq_of_mod {a b : Nat} (h : a % 256 = b % 256) : UInt8.ofNat a = UInt8.ofNat b := by
  refine UInt8.toNat_inj.mp ?_
  rw [UInt8.toNat_ofNat', UInt8.toNat_ofNat']
  exact h

/-- The bytes above `k` are those of the quotient. -/
theorem set_div (w k : Nat) (v : UInt8) : set w k v / 256 ^ (k + 1) = w / 256 ^ (k + 1) := by
  have hv : v.toNat < 256 := v.toNat_lt
  have hlow : w % 256 ^ k < 256 ^ k := Nat.mod_lt _ (Nat.pow_pos (by decide))
  have hsmall : v.toNat * 256 ^ k + w % 256 ^ k < 256 ^ (k + 1) :=
    calc v.toNat * 256 ^ k + w % 256 ^ k
        < v.toNat * 256 ^ k + 256 ^ k := Nat.add_lt_add_left hlow _
      _ = (v.toNat + 1) * 256 ^ k := by ring
      _ ≤ 256 * 256 ^ k := Nat.mul_le_mul_right _ hv
      _ = 256 ^ (k + 1) := by ring
  rw [set, Nat.mul_comm, Nat.mul_add_div (Nat.pow_pos (by decide)), Nat.div_eq_of_lt hsmall,
    Nat.add_zero]

/-- The bytes below `k` are those of the remainder. -/
theorem set_mod (w k : Nat) (v : UInt8) : set w k v ≡ w [MOD 256 ^ k] := by
  have hsplit : set w k v = (w / 256 ^ (k + 1) * 256 + v.toNat) * 256 ^ k + w % 256 ^ k := by
    rw [set]
    ring
  rw [Nat.ModEq, hsplit, Nat.mul_comm, Nat.mul_add_mod, Nat.mod_mod]

theorem get_set_self (w k : Nat) (v : UInt8) : get (set w k v) k = v := by
  have hlow : w % 256 ^ k < 256 ^ k := Nat.mod_lt _ (Nat.pow_pos (by decide))
  have hsplit : set w k v = 256 ^ k * (256 * (w / 256 ^ (k + 1)) + v.toNat) + w % 256 ^ k := by
    rw [set]
    ring
  rw [get, hsplit, Nat.mul_add_div (Nat.pow_pos (by decide)), Nat.div_eq_of_lt hlow, Nat.add_zero]
  calc UInt8.ofNat (256 * (w / 256 ^ (k + 1)) + v.toNat)
      = UInt8.ofNat v.toNat := ofNat_eq_of_mod (Nat.mul_add_mod _ _ _)
    _ = v := UInt8.ofNat_toNat

theorem get_set_ne (w : Nat) {k j : Nat} (v : UInt8) (h : j ≠ k) : get (set w k v) j = get w j := by
  refine ofNat_eq_of_mod ?_
  rcases Nat.lt_or_gt_of_ne h with hlt | hgt
  · have hmod : set w k v % 256 ^ (j + 1) = w % 256 ^ (j + 1) :=
      (set_mod w k v).of_dvd (Nat.pow_dvd_pow 256 hlt)
    rw [← Nat.mod_mul_right_div_self, ← Nat.mod_mul_right_div_self (m := w), ← Nat.pow_succ, hmod]
  · obtain ⟨d, rfl⟩ := Nat.exists_eq_add_of_lt hgt
    rw [show 256 ^ (k + d + 1) = 256 ^ (k + 1) * 256 ^ d by ring, ← Nat.div_div_eq_div_mul,
      ← Nat.div_div_eq_div_mul, set_div]

end Bytes
