/-
# `Tanix.Net.Checksum` — the algebra of the Internet checksum

`checksum_seed` adds up the 16-bit words and folds the carries in.  The fold keeps the sum
modulo 65535; it gives 0 for the sum 0 only, so of the two zeros of the ones' complement
every other multiple of 65535 becomes 65535.  From this:

    `checksumSeed_field`   a checksum put into its zeroed field makes the whole sum up to 0
    `checksumSeed_split`   the two parts of a string add up to the whole
-/
import Tanix.Net.Frame

namespace Tanix

open List

namespace Net

variable {data part : Bytes} {n seed : Nat} {c : UInt16}

/-! ## The sum -/

/-- The words of a buffer, added up in an accumulator without a bound. -/
def wordSum : Bytes → Nat
  | [] => 0
  | [a] => a.toNat * 256
  | a :: b :: rest => a.toNat * 256 + b.toNat + wordSum rest

/-- The accumulator never holds more than the last sum, so it is enough that this one fits. -/
theorem sumWords_eq (h : seed + wordSum data < 2 ^ 32) : sumWords data seed = .ok (seed + wordSum data) := by
  induction data, seed using sumWords.induct with
  | case1 => rfl
  | case2 a seed => exact if_pos h
  | case3 a b rest seed ih =>
    rw [wordSum, ← Nat.add_assoc] at h ⊢
    rw [sumWords, addBits, if_pos (by omega)]
    exact ih _ h

theorem wordSum_le (data : Bytes) : wordSum data ≤ 65536 * data.length := by
  induction data using wordSum.induct with
  | case1 => exact Nat.le_refl 0
  | case2 a =>
    have ha := a.toNat_lt
    simp only [wordSum, length_cons, length_nil]
    omega
  | case3 a b rest ih =>
    have ha := a.toNat_lt
    have hb := b.toNat_lt
    simp only [wordSum, length_cons]
    omega

theorem wordSum_append (heven : 2 ∣ part.length) : wordSum (part ++ data) = wordSum part + wordSum data := by
  induction part using wordSum.induct with
  | case1 => exact (Nat.zero_add _).symm
  | case2 a => exact absurd heven (show ¬ 2 ∣ 1 by decide)
  | case3 a b rest ih =>
    have hrest := ih ((Nat.dvd_add_left (Nat.dvd_refl 2)).mp heven)
    rw [cons_append, cons_append, wordSum, wordSum, hrest]
    omega

/-! ## The fold -/

/-- Two turns are enough for 32 bits, and no turn changes the sum modulo 65535. -/
theorem foldCarry_spec (h : n < 2 ^ 32) :
    foldCarry 3 n < 2 ^ 16 ∧ foldCarry 3 n % 65535 = n % 65535 ∧ foldCarry 3 n ≤ n ∧
      (foldCarry 3 n = 0 → n = 0) := by
  simp only [foldCarry]
  split_ifs <;> omega

/-- Sums that agree modulo 65535, both 0 or neither, have one fold. -/
theorem foldCarry_congr {n' : Nat} (h : n < 2 ^ 32) (h' : n' < 2 ^ 32) (hmod : n % 65535 = n' % 65535)
    (hzero : n = 0 ↔ n' = 0) : foldCarry 3 n = foldCarry 3 n' := by
  obtain ⟨hlt, hsame, hle, hz⟩ := foldCarry_spec h
  obtain ⟨hlt', hsame', hle', hz'⟩ := foldCarry_spec h'
  omega

theorem checksumSeed_eq (h : seed + wordSum data < 2 ^ 32) :
    checksumSeed data seed = .ok (~~~ UInt16.ofNat (foldCarry 3 (seed + wordSum data))) := by
  rw [checksumSeed, sumWords_eq h]
  rfl

/-! ## The laws -/

theorem wordSum_be16 (c : UInt16) : wordSum (be16 c) = c.toNat := by
  have hc := c.toNat_lt
  have hshift : (c >>> 8).toNat = c.toNat / 256 := by simp [UInt16.toNat_shiftRight, Nat.shiftRight_eq_div_pow]
  simp only [be16, wordSum, UInt16.toNat_toUInt8, hshift]
  omega

/-- The three parts around a field at an even offset. -/
theorem wordSum_field {pos : Nat} (hpos : 2 ∣ pos) (hlen : pos ≤ data.length) (c : UInt16) (rest : Bytes) :
    wordSum (data.take pos ++ be16 c ++ rest) = wordSum (data.take pos) + c.toNat + wordSum rest := by
  have htake : (data.take pos).length = pos := length_take_of_le hlen
  rw [wordSum_append, wordSum_append (htake.symm ▸ hpos), wordSum_be16]
  rw [length_append, htake]
  exact Nat.dvd_add hpos (Nat.dvd_refl 2)

theorem checksumSeed_field {pos : Nat} {b : Bytes} (hpos : 2 ∣ pos) (hzero : slice data pos (pos + 2) = .ok (be16 0))
    (hc : checksumSeed data seed = .ok c) (hb : write data pos (be16 c) = .ok b) (hfit : seed + wordSum b < 2 ^ 32) :
    checksumSeed b seed = .ok 0 := by
  obtain ⟨⟨-, hle⟩, hfield⟩ := slice_eq_ok.mp hzero
  have hsplit : data = data.take pos ++ be16 0 ++ data.drop (pos + 2) := by
    have htake : data.take pos = (data.take (pos + 2)).take pos := by rw [take_take, Nat.min_eq_left (by omega)]
    rw [hfield, htake, take_append_drop, take_append_drop]
  have hsum := wordSum_field hpos (by omega : pos ≤ data.length) 0 (data.drop (pos + 2))
  rw [← hsplit] at hsum
  cases (if_pos hle : write data pos (be16 c) = _).symm.trans hb
  have hsum' := wordSum_field hpos (by omega : pos ≤ data.length) c (data.drop (pos + 2))
  rw [show data.drop (pos + (be16 c).length) = data.drop (pos + 2) from rfl] at hfit ⊢
  have hold : seed + wordSum data < 2 ^ 32 := by
    rw [UInt16.toNat_zero] at hsum
    omega
  have hc' := Except.ok.inj ((checksumSeed_eq hold).symm.trans hc)
  obtain ⟨hlt, hmod, hfold, hzero⟩ := foldCarry_spec hold
  have hcompl : c.toNat = 65535 - foldCarry 3 (seed + wordSum data) := by
    rw [← hc', UInt16.toNat_not, UInt16.toNat_ofNat_of_lt' hlt]
    rfl
  -- the sum is a multiple of 65535 now, and not 0
  have hfold : foldCarry 3 (seed + wordSum (data.take pos ++ be16 c ++ data.drop (pos + 2))) = 65535 := by
    obtain ⟨hlt', hmod', hfold', hzero'⟩ := foldCarry_spec hfit
    rw [UInt16.toNat_zero] at hsum
    omega
  rw [checksumSeed_eq hfit, hfold]
  rfl

theorem checksumSeed_split (hn : 2 ∣ n) (hle : n ≤ data.length) (hfit : seed + wordSum data < 2 ^ 32) :
    (checksumSeed (data.take n) seed >>= fun c => checksumSeed (data.drop n) (~~~ c).toNat) =
      checksumSeed data seed := by
  have hsum : wordSum data = wordSum (data.take n) + wordSum (data.drop n) := by
    rw [← wordSum_append (by rwa [length_take_of_le hle]), take_append_drop]
  obtain ⟨hlt, hmod, hfold, hzero⟩ := foldCarry_spec (n := seed + wordSum (data.take n)) (by omega)
  have hseed : (~~~ ~~~ UInt16.ofNat (foldCarry 3 (seed + wordSum (data.take n)))).toNat =
      foldCarry 3 (seed + wordSum (data.take n)) := by
    rw [UInt16.not_not, UInt16.toNat_ofNat_of_lt' hlt]
  rw [checksumSeed_eq (by omega), checksumSeed_eq hfit]
  show checksumSeed _ (UInt16.toNat _) = _
  rw [hseed, checksumSeed_eq (by omega), foldCarry_congr (by omega) hfit (by omega) (by omega)]

/-- A checksum put into its zeroed field makes the whole sum up to 0, and the two parts of a string,
the second seeded with the complement of the first one's checksum, have the checksum of the whole. -/
theorem checksum_laws (data : Bytes) (seed : Nat) :
    (∀ pos c b, 2 ∣ pos → slice data pos (pos + 2) = .ok (be16 0) → checksumSeed data seed = .ok c →
      write data pos (be16 c) = .ok b → seed + wordSum b < 2 ^ 32 → checksumSeed b seed = .ok 0) ∧
    (∀ n, 2 ∣ n → n ≤ data.length → seed + wordSum data < 2 ^ 32 →
      (checksumSeed (data.take n) seed >>= fun c => checksumSeed (data.drop n) (~~~ c).toNat) =
        checksumSeed data seed) :=
  ⟨fun _ _ _ hpos hzero hc hb hfit => checksumSeed_field hpos hzero hc hb hfit,
    fun _ hn hle hfit => checksumSeed_split hn hle hfit⟩

/-- Three words, the last one a single byte, with their checksum in the second. -/
theorem checksum_laws_odd :
    checksumSeed [0x45, 0x12, 0, 0, 0x07] 3 = .ok 0xB3EA ∧
      checksumSeed [0x45, 0x12, 0xB3, 0xEA, 0x07] 3 = .ok 0 ∧
      (checksumSeed [0x45, 0x12] 3 >>= fun c => checksumSeed [0, 0, 0x07] (~~~ c).toNat) = .ok 0xB3EA := by
  obtain ⟨hfield, hsplit⟩ := checksum_laws [0x45, 0x12, 0, 0, 0x07] 3
  have hc : checksumSeed [0x45, 0x12, 0, 0, 0x07] 3 = .ok 0xB3EA := by decide
  exact ⟨hc, hfield 2 _ _ (by decide) (by decide) hc rfl (by decide), (hsplit 2 (by decide) (by decide) (by decide)).trans hc⟩

end Net

end Tanix
