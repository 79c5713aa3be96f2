/-
# `Tanix.Monitor.Seal` — sealing a buffer and unsealing it again

`keybox_cipher` takes its IV from the slot's use counter and moves the counter on, for a seal
and for an unseal alike.  So the unseal after a seal starts from the next counter, and the
first block comes back masked with two keystream blocks.  XTEA is injective, so a whole
first block never comes back.
-/
import Tanix.Monitor.Services

namespace Tanix.Monitor.Secure

open Memory

variable {s : Secure} {id buf len : UInt64} {slot : Nat}

/-- The state after a call that went through. -/
def afterCipher (s : Secure) (slot a n : Nat) (encrypt : Bool) : Secure :=
  let ctr := word s.mem (slot + 24)
  let data := xteaCfb (slotKey s.mem slot) ctr (load s.mem a n) encrypt
  { s with mem := setWord (store s.mem a data) (slot + 24) (ctr + 1) }

theorem keyboxCipher_eq (hslot : s.keyboxSlot id = some slot) (hlen : len.toNat ≤ sealMax)
    (hspan : buf.toNat + len.toNat ≤ 2 ^ 64) (encrypt : Bool) :
    s.keyboxCipher id buf len encrypt =
      if word s.mem (slot + 24) = 0xFFFFFFFFFFFFFFFF then .ok (s, failure)
      else .ok (s.afterCipher slot buf.toNat len.toNat encrypt, 0) := by
  rw [keyboxCipher, if_neg (Nat.not_lt.mpr hlen), hslot]
  simp only [span, if_pos hspan]
  rfl

theorem afterCipher_counter (s : Secure) (slot a n : Nat) (encrypt : Bool) :
    word (s.afterCipher slot a n encrypt).mem (slot + 24) = word s.mem (slot + 24) + 1 :=
  word_setWord_self _ _ _

section Apart

variable {a n : Nat} (hapart : a + n ≤ slot ∨ slot + keyboxSlotSize ≤ a) (encrypt : Bool)

include hapart

/-- Outside of the buffer only the counter changes. -/
theorem afterCipher_word {p : Nat} (hlo : slot ≤ p) (hhi : p + 8 ≤ slot + 24) :
    word (s.afterCipher slot a n encrypt).mem p = word s.mem p := by
  rw [afterCipher, word_setWord_of_apart (by omega), word_store_of_apart]
  rw [xteaCfb_length, load_length]
  simp only [keyboxSlotSize] at hapart
  omega

theorem afterCipher_load : load (s.afterCipher slot a n encrypt).mem a n =
    xteaCfb (slotKey s.mem slot) (word s.mem (slot + 24)) (load s.mem a n) encrypt := by
  simp only [keyboxSlotSize] at hapart
  rw [afterCipher, setWord, load_store_of_apart (by rw [le_length]; omega)]
  exact load_store_self s.mem a (by rw [xteaCfb_length, load_length])

theorem afterCipher_key : slotKey (s.afterCipher slot a n encrypt).mem slot = slotKey s.mem slot := by
  rw [slotKey, slotKey, afterCipher_word hapart encrypt (by omega) (by omega),
    afterCipher_word hapart encrypt (by omega) (by omega)]

theorem afterCipher_slot (hslot : s.keyboxSlot id = some slot) :
    (s.afterCipher slot a n encrypt).keyboxSlot id = some slot := by
  rw [keyboxSlot] at hslot ⊢
  split at hslot
  · cases hslot
  · rename_i hid
    obtain ⟨hvalid, ⟨⟩⟩ := Option.ite_none_right_eq_some.mp hslot
    have hword := afterCipher_word (s := s) hapart encrypt (Nat.le_refl _) (by omega)
    exact (if_neg hid).trans (if_pos (hword.trans hvalid))

end Apart

/-- The two calls go through and the buffer is what it was. -/
def RoundTrips (s : Secure) (id buf len : UInt64) : Prop :=
  ∃ s₁ s₂, s.keyboxCipher id buf len true = .ok (s₁, 0) ∧
    s₁.keyboxCipher id buf len false = .ok (s₂, 0) ∧
    load s₂.mem buf.toNat len.toNat = load s.mem buf.toNat len.toNat

/-- The counters of the two calls. -/
theorem roundTrips_iff_keystream (hslot : s.keyboxSlot id = some slot) (hlen : len.toNat ≤ sealMax)
    (hspan : buf.toNat + len.toNat ≤ 2 ^ 64)
    (hapart : buf.toNat + len.toNat ≤ slot ∨ slot + keyboxSlotSize ≤ buf.toNat) :
    s.RoundTrips id buf len ↔
      word s.mem (slot + 24) ≠ 0xFFFFFFFFFFFFFFFF ∧ word s.mem (slot + 24) + 1 ≠ 0xFFFFFFFFFFFFFFFF ∧
      (keystream (slotKey s.mem slot) (word s.mem (slot + 24))).take (min 8 len.toNat) =
        (keystream (slotKey s.mem slot) (word s.mem (slot + 24) + 1)).take (min 8 len.toNat) := by
  have hslot₁ := afterCipher_slot hapart true hslot
  have hctr₁ := afterCipher_counter s slot buf.toNat len.toNat true
  have hload := afterCipher_load (s := s.afterCipher slot buf.toNat len.toNat true) hapart false
  rw [afterCipher_key hapart, hctr₁, afterCipher_load (s := s) hapart] at hload
  have hiff := xteaCfb_roundTrip_iff (slotKey s.mem slot) (word s.mem (slot + 24))
    (word s.mem (slot + 24) + 1) (load s.mem buf.toNat len.toNat)
  rw [load_length, ← hload] at hiff
  rw [← hiff]
  constructor
  · rintro ⟨s₁, s₂, h₁, h₂, hsame⟩
    rw [keyboxCipher_eq hslot hlen hspan] at h₁
    split at h₁
    · cases h₁
    · rename_i hctr
      obtain ⟨rfl, -⟩ := Prod.mk.inj (Except.ok.inj h₁)
      rw [keyboxCipher_eq hslot₁ hlen hspan, hctr₁] at h₂
      split at h₂
      · cases h₂
      · rename_i hctr'
        obtain ⟨rfl, -⟩ := Prod.mk.inj (Except.ok.inj h₂)
        exact ⟨hctr, hctr', hsame⟩
  · rintro ⟨hctr, hctr', hsame⟩
    refine ⟨s.afterCipher slot buf.toNat len.toNat true, _, ?_, ?_, hsame⟩
    · rw [keyboxCipher_eq hslot hlen hspan, if_neg hctr]
    · rw [keyboxCipher_eq hslot₁ hlen hspan, hctr₁, if_neg hctr']

theorem succ_ne (c : UInt64) : c ≠ c + 1 := by
  intro h
  have h : c + 0 = c + 1 := by rw [UInt64.add_zero]; exact h
  have := (UInt64.add_right_inj c).mp h
  cases this

/-- A whole block never comes back. -/
theorem keystream_take_iff {key : Key} {c : UInt64} {n : Nat} :
    (keystream key c).take (min 8 n) = (keystream key (c + 1)).take (min 8 n) ↔
      n < 8 ∧ (keystream key c).take n = (keystream key (c + 1)).take n := by
  rcases Nat.lt_or_ge n 8 with hlt | hge
  · rw [Nat.min_eq_right (Nat.le_of_lt hlt)]
    exact ⟨fun h => ⟨hlt, h⟩, fun h => h.2⟩
  · rw [Nat.min_eq_left hge, List.take_of_length_le (keystream_length key c).le,
      List.take_of_length_le (keystream_length key (c + 1)).le]
    constructor
    · intro h
      exact absurd (keystream_inj h) (succ_ne c)
    · rintro ⟨hlt, -⟩
      omega

theorem keyboxGen_slot (s : Secure) (entropy id : UInt64) (hbase : s.base ≠ 0) (hid : id.toNat < keyboxKeys) :
    (s.keyboxGen entropy id).1.keyboxSlot id =
        some (s.base + keyboxOff + id.toNat * keyboxSlotSize) ∧
      word (s.keyboxGen entropy id).1.mem (s.base + keyboxOff + id.toNat * keyboxSlotSize + 24) = 0 := by
  have hkbox : s.secAddr keyboxOff = s.base + keyboxOff := if_neg hbase
  have hno : ¬ (s.base + keyboxOff = 0 ∨ keyboxKeys ≤ id.toNat) := by
    simp only [keyboxOff]
    omega
  have hgen : s.keyboxGen entropy id = _ := if_neg (by rw [hkbox]; exact hno)
  have hbase' : (s.keyboxGen entropy id).1.base = s.base := by rw [hgen]
  constructor
  · rw [keyboxSlot, secAddr, hbase', if_neg hbase, if_neg hno]
    refine if_pos ?_
    rw [hgen, hkbox]
    simp only
    rw [word_setWord_of_apart (by omega), word_setWord_of_apart (by omega),
      word_setWord_of_apart (by omega), word_setWord_self]
  · rw [hgen, hkbox]
    exact word_setWord_self _ _ _

end Tanix.Monitor.Secure
