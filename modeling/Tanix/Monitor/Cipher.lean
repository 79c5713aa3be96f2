/-
# `Tanix.Monitor.Cipher` — XTEA in cipher-feedback mode

`xtea_enc_block` and `xtea_cfb` of `kernel/src/arch/aarch64/monitor.rs`.  Blocks and buffers
are lists of bytes, words are little-endian.

XTEA is a Feistel cipher, so a block is encrypted injectively whatever the key
(`xteaEncBlock_inj`).  CFB decryption and encryption undo each other from the same state
(`xteaCfb_inverts`).  From another state only the first block comes out differently, by the
two keystream blocks together (`xteaCfb_decrypt_other`).
-/
import Tanix.Lib.Memory
import Mathlib.Logic.Function.Iterate

namespace Tanix.Monitor

open Memory List

abbrev Key := Fin 4 → UInt32

/-- The two halves of a block and the running sum. -/
structure Xtea where
  v0 : UInt32
  v1 : UInt32
  sum : UInt32
  deriving DecidableEq, Repr

/-- `key[(sum & 3) as usize]` -/
def roundKey (key : Key) (sum : UInt32) : UInt32 :=
  key (Fin.ofNat 4 (sum &&& 3).toNat)

/-- `((v << 4) ^ (v >> 5)).wrapping_add(v)` -/
def xteaMix (v : UInt32) : UInt32 :=
  ((v <<< 4) ^^^ (v >>> 5)) + v

def xteaRound (key : Key) (x : Xtea) : Xtea :=
  let v0 := x.v0 + (xteaMix x.v1 ^^^ (x.sum + roundKey key x.sum))
  let sum := x.sum + 0x9E3779B9
  let v1 := x.v1 + (xteaMix v0 ^^^ (sum + roundKey key (sum >>> 11)))
  ⟨v0, v1, sum⟩

def word32 (bs : List UInt8) : UInt32 :=
  UInt32.ofNat (fromLe bs)

/-- `xtea_enc_block` -/
def xteaEncBlock (key : Key) (block : List UInt8) : List UInt8 :=
  let x := (xteaRound key)^[32] ⟨word32 (block.take 4), word32 (block.drop 4), 0⟩
  le 4 x.v0.toNat ++ le 4 x.v1.toNat

/-- Byte by byte, as far as both go. -/
def xorBytes (a b : List UInt8) : List UInt8 :=
  List.zipWith (· ^^^ ·) a b

/-- The loop of `xtea_cfb`; each turn takes at least one byte, so `fuel` is the length. -/
def xteaCfbLoop (key : Key) (encrypt : Bool) : Nat → UInt64 → List UInt8 → List UInt8
  | 0, _, _ => []
  | fuel + 1, state, buf =>
    if buf = [] then []
    else
      let e := xteaEncBlock key (le 8 state.toNat)
      let out := xorBytes (buf.take 8) e
      let cbytes := (if encrypt then out else buf.take 8) ++
        (le 8 state.toNat).drop (buf.take 8).length
      out ++ xteaCfbLoop key encrypt fuel (UInt64.ofNat (fromLe cbytes)) (buf.drop 8)

/-- `xtea_cfb` -/
def xteaCfb (key : Key) (iv : UInt64) (buf : List UInt8) (encrypt : Bool) : List UInt8 :=
  xteaCfbLoop key encrypt buf.length iv buf

/-- The keystream of the first block. -/
def keystream (key : Key) (iv : UInt64) : List UInt8 :=
  xteaEncBlock key (le 8 iv.toNat)

variable {b e buf rest : List UInt8}

/-! ## One block -/

section Block

variable {key : Key}

theorem xteaRound_injective (key : Key) : Function.Injective (xteaRound key) := by
  intro x y h
  obtain ⟨h0, h1, hsum⟩ := Xtea.mk.inj h
  -- the sum first, then the half computed last
  have hsum := (UInt32.add_left_inj _).mp hsum
  rw [h0, hsum] at h1
  have h1 := (UInt32.add_left_inj _).mp h1
  rw [h1, hsum] at h0
  have h0 := (UInt32.add_left_inj _).mp h0
  cases x
  cases y
  simp only at h0 h1 hsum
  rw [h0, h1, hsum]

theorem word32_inj {bs bs' : List UInt8} (hbs : bs.length = 4) (hbs' : bs'.length = 4)
    (h : word32 bs = word32 bs') : bs = bs' := by
  have hlt : fromLe bs < 2 ^ 32 := lt_of_lt_of_eq (fromLe_lt bs) (by rw [hbs]; rfl)
  have hlt' : fromLe bs' < 2 ^ 32 := lt_of_lt_of_eq (fromLe_lt bs') (by rw [hbs']; rfl)
  have hnat := congrArg UInt32.toNat h
  rw [word32, word32, UInt32.toNat_ofNat', UInt32.toNat_ofNat', Nat.mod_eq_of_lt hlt,
    Nat.mod_eq_of_lt hlt'] at hnat
  exact fromLe_inj (hbs.trans hbs'.symm) hnat

theorem le_toNat_inj {w w' : UInt32} (h : le 4 w.toNat = le 4 w'.toNat) : w = w' := by
  have hnat := congrArg fromLe h
  have hw : w.toNat < 256 ^ 4 := w.toNat_lt
  have hw' : w'.toNat < 256 ^ 4 := w'.toNat_lt
  rw [fromLe_le, fromLe_le, Nat.mod_eq_of_lt hw, Nat.mod_eq_of_lt hw'] at hnat
  exact UInt32.toNat_inj.mp hnat

@[simp] theorem xteaEncBlock_length (key : Key) (block : List UInt8) :
    (xteaEncBlock key block).length = 8 := by
  rw [xteaEncBlock, length_append, le_length, le_length]

theorem xteaRounds_sum (key : Key) (n : Nat) (x y : Xtea) (h : x.sum = y.sum) :
    ((xteaRound key)^[n] x).sum = ((xteaRound key)^[n] y).sum := by
  induction n generalizing x y with
  | zero => exact h
  | succ n ih =>
    rw [Function.iterate_succ_apply, Function.iterate_succ_apply]
    refine ih _ _ ?_
    show x.sum + 0x9E3779B9 = y.sum + 0x9E3779B9
    rw [h]

theorem xteaEncBlock_inj {b' : List UInt8} (hb : b.length = 8) (hb' : b'.length = 8)
    (h : xteaEncBlock key b = xteaEncBlock key b') : b = b' := by
  obtain ⟨h0, h1⟩ := append_inj h (by rw [le_length, le_length])
  have hx : (xteaRound key)^[32] ⟨word32 (b.take 4), word32 (b.drop 4), 0⟩ =
      (xteaRound key)^[32] ⟨word32 (b'.take 4), word32 (b'.drop 4), 0⟩ := by
    have hsum := xteaRounds_sum key 32 ⟨word32 (b.take 4), word32 (b.drop 4), 0⟩
      ⟨word32 (b'.take 4), word32 (b'.drop 4), 0⟩ rfl
    have h0 := le_toNat_inj h0
    have h1 := le_toNat_inj h1
    generalize (xteaRound key)^[32] ⟨word32 (b.take 4), word32 (b.drop 4), 0⟩ = x at *
    generalize (xteaRound key)^[32] ⟨word32 (b'.take 4), word32 (b'.drop 4), 0⟩ = y at *
    cases x
    cases y
    simp only at h0 h1 hsum
    rw [h0, h1, hsum]
  obtain ⟨hlow, hhigh, -⟩ := Xtea.mk.inj ((xteaRound_injective key).iterate 32 hx)
  have hlow := word32_inj (by simp [hb]) (by simp [hb']) hlow
  have hhigh := word32_inj (by simp [hb]) (by simp [hb']) hhigh
  rw [← take_append_drop 4 b, hlow, hhigh, take_append_drop]

/-- Different counters have different keystreams. -/
theorem keystream_inj {iv iv' : UInt64} (h : keystream key iv = keystream key iv') : iv = iv' := by
  have hle := xteaEncBlock_inj (le_length 8 _) (le_length 8 _) h
  rw [← ofNat_fromLe_le iv, hle, ofNat_fromLe_le]

end Block

/-! ## Buffers -/

theorem xorBytes_length {a : List UInt8} (h : a.length ≤ b.length) :
    (xorBytes a b).length = a.length := by
  rw [xorBytes, length_zipWith, Nat.min_eq_left h]

theorem xor_xor_eq_iff {a b c : UInt8} : (a ^^^ b) ^^^ c = a ↔ b = c := by
  constructor
  · intro h
    have h : a ^^^ (b ^^^ c) = a ^^^ 0 := by rw [← UInt8.xor_assoc, h, UInt8.xor_zero]
    have hbc := (UInt8.xor_right_inj a).mp h
    exact UInt8.xor_eq_zero_iff.mp hbc
  · rintro rfl
    rw [UInt8.xor_assoc, UInt8.xor_self, UInt8.xor_zero]

/-- Two masks cancel where they agree. -/
theorem xorBytes_xorBytes_eq_iff {c e' : List UInt8} (he : c.length ≤ e.length)
    (he' : c.length ≤ e'.length) :
    xorBytes (xorBytes c e) e' = c ↔ e.take c.length = e'.take c.length := by
  induction c generalizing e e' with
  | nil => simp [xorBytes]
  | cons x c ih =>
    cases e with
    | nil => simp at he
    | cons y e =>
      cases e' with
      | nil => simp at he'
      | cons z e' =>
        rw [length_cons, length_cons, Nat.add_le_add_iff_right] at he he'
        have hcons : xorBytes (xorBytes (x :: c) (y :: e)) (z :: e') =
          ((x ^^^ y) ^^^ z) :: xorBytes (xorBytes c e) e' := rfl
        rw [hcons, length_cons, take_succ_cons, take_succ_cons, List.cons.injEq,
          List.cons.injEq, ih he he', xor_xor_eq_iff]

variable {fuel : Nat}

section Cfb

variable (key : Key)

@[simp] theorem xteaCfbLoop_nil (encrypt : Bool) (fuel : Nat) (state : UInt64) :
    xteaCfbLoop key encrypt fuel state [] = [] := by
  cases fuel with
  | zero => rfl
  | succ fuel => rfl

/-- One turn. -/
theorem xteaCfbLoop_cons {encrypt : Bool} {state : UInt64} (h : buf ≠ []) :
    xteaCfbLoop key encrypt (fuel + 1) state buf =
      xorBytes (buf.take 8) (keystream key state) ++
        xteaCfbLoop key encrypt fuel (UInt64.ofNat (fromLe
          ((if encrypt then xorBytes (buf.take 8) (keystream key state) else buf.take 8) ++
            (le 8 state.toNat).drop (buf.take 8).length))) (buf.drop 8) :=
  if_neg h

theorem xteaCfbLoop_length {encrypt : Bool} {state : UInt64} (h : buf.length ≤ fuel) :
    (xteaCfbLoop key encrypt fuel state buf).length = buf.length := by
  induction fuel generalizing state buf with
  | zero =>
    have hnil := length_eq_zero_iff.mp (Nat.le_zero.mp h)
    rw [hnil, xteaCfbLoop_nil]
  | succ fuel ih =>
    rcases eq_or_ne buf [] with rfl | hne
    · rw [xteaCfbLoop_nil]
    · have hpos := length_pos_iff.mpr hne
      rw [xteaCfbLoop_cons key hne, length_append, ih (by rw [length_drop]; omega),
        xorBytes_length (by simp [keystream]), length_take, length_drop]
      omega

@[simp] theorem xteaCfb_length (iv : UInt64) (buf : List UInt8) (encrypt : Bool) :
    (xteaCfb key iv buf encrypt).length = buf.length :=
  xteaCfbLoop_length key (Nat.le_refl _)

/-- The first block of what a turn puts out, and the rest. -/
theorem take_drop_turn (buf : List UInt8) (he : e.length = 8)
    (hrest : buf.drop 8 = [] → rest = []) :
    (xorBytes (buf.take 8) e ++ rest).take 8 = xorBytes (buf.take 8) e ∧
      (xorBytes (buf.take 8) e ++ rest).drop 8 = rest := by
  have hlen : (xorBytes (buf.take 8) e).length = min 8 buf.length := by
    rw [xorBytes_length (by simp [he]), length_take]
  rcases Nat.lt_or_ge 8 buf.length with hlt | hge
  · rw [Nat.min_eq_left (Nat.le_of_lt hlt)] at hlen
    exact ⟨take_left' hlen, drop_left' hlen⟩
  · have hnil := hrest (drop_eq_nil_of_le hge)
    rw [Nat.min_eq_right hge] at hlen
    rw [hnil, append_nil]
    exact ⟨take_of_length_le (by omega), drop_eq_nil_of_le (by omega)⟩

theorem xteaCfbLoop_rest {encrypt : Bool} {state : UInt64} (h : buf.drop 8 = []) :
    xteaCfbLoop key encrypt fuel state (buf.drop 8) = [] := by
  rw [h, xteaCfbLoop_nil]

theorem turn_ne_nil (hbuf : buf ≠ []) (he : e.length = 8) :
    xorBytes (buf.take 8) e ++ rest ≠ [] := by
  intro h
  have hlen := congrArg List.length (append_eq_nil_iff.mp h).1
  have hpos := length_pos_iff.mpr hbuf
  rw [xorBytes_length (by simp [he]), length_take, length_nil] at hlen
  omega

theorem keystream_length (iv : UInt64) : (keystream key iv).length = 8 :=
  xteaEncBlock_length key _

/-- Decryption undoes encryption, and encryption decryption. -/
theorem xteaCfbLoop_inverse (encrypt : Bool) {state : UInt64} (h : buf.length ≤ fuel) :
    xteaCfbLoop key (!encrypt) fuel state (xteaCfbLoop key encrypt fuel state buf) = buf := by
  induction fuel generalizing state buf with
  | zero => exact (length_eq_zero_iff.mp (Nat.le_zero.mp h)).symm
  | succ fuel ih =>
    rcases eq_or_ne buf [] with rfl | hne
    · rw [xteaCfbLoop_nil, xteaCfbLoop_nil]
    · have hpos := length_pos_iff.mpr hne
      have he := keystream_length key state
      rw [xteaCfbLoop_cons key hne, xteaCfbLoop_cons key (turn_ne_nil hne he)]
      obtain ⟨htake, hdrop⟩ := take_drop_turn buf he (xteaCfbLoop_rest key)
      have hxor : xorBytes (xorBytes (buf.take 8) (keystream key state)) (keystream key state) =
          buf.take 8 := (xorBytes_xorBytes_eq_iff (by simp [he]) (by simp [he])).mpr rfl
      rw [htake, hdrop, xorBytes_length (by simp [he]), hxor]
      -- the cipher text goes into the next state in both directions
      have hstate : (if (!encrypt) = true then buf.take 8 else xorBytes (buf.take 8) (keystream key state)) =
          if encrypt = true then xorBytes (buf.take 8) (keystream key state) else buf.take 8 := by
        cases encrypt <;> rfl
      rw [hstate, ih (by rw [length_drop]; omega), take_append_drop]

/-- Each of the two directions inverts the other. -/
theorem xteaCfb_inverts (iv : UInt64) (buf : List UInt8) :
    xteaCfb key iv (xteaCfb key iv buf true) false = buf ∧
      xteaCfb key iv (xteaCfb key iv buf false) true = buf := by
  constructor
  · rw [xteaCfb, xteaCfb_length]
    exact xteaCfbLoop_inverse key true (Nat.le_refl _)
  · rw [xteaCfb, xteaCfb_length]
    exact xteaCfbLoop_inverse key false (Nat.le_refl _)

/-- From another state only the first block is touched. -/
theorem xteaCfb_decrypt_other (iv iv' : UInt64) (buf : List UInt8) :
    xteaCfb key iv' (xteaCfb key iv buf true) false =
      xorBytes (xorBytes (buf.take 8) (keystream key iv)) (keystream key iv') ++ buf.drop 8 := by
  rw [xteaCfb, xteaCfb_length, xteaCfb]
  rcases eq_or_ne buf [] with rfl | hne
  · rfl
  · obtain ⟨fuel, hfuel⟩ := Nat.exists_eq_succ_of_ne_zero (length_pos_iff.mpr hne).ne'
    have he := keystream_length key iv
    rw [hfuel, xteaCfbLoop_cons key hne, xteaCfbLoop_cons key (turn_ne_nil hne he)]
    obtain ⟨htake, hdrop⟩ := take_drop_turn buf he (xteaCfbLoop_rest key)
    rw [htake, hdrop, xorBytes_length (by simp [he])]
    simp only [if_true, Bool.false_eq_true, if_false]
    congr 1
    rcases Nat.lt_or_ge buf.length 9 with hlt | hge
    · -- nothing is left
      rw [xteaCfbLoop_rest key (drop_eq_nil_of_le (by omega)), xteaCfbLoop_nil,
        drop_eq_nil_of_le (by omega)]
    · -- a whole block of cipher text replaces the state
      have hwhole : (buf.take 8).length = 8 := by
        rw [length_take]
        omega
      rw [hwhole, drop_eq_nil_of_le (by simp), drop_eq_nil_of_le (by simp), append_nil]
      exact xteaCfbLoop_inverse key true (by rw [length_drop]; omega)

/-- The round trip, from one counter to another. -/
theorem xteaCfb_roundTrip_iff (iv iv' : UInt64) (buf : List UInt8) :
    xteaCfb key iv' (xteaCfb key iv buf true) false = buf ↔
      (keystream key iv).take (min 8 buf.length) = (keystream key iv').take (min 8 buf.length) := by
  have hsplit : buf = buf.take 8 ++ buf.drop 8 := (take_append_drop 8 buf).symm
  rw [xteaCfb_decrypt_other]
  conv_lhs => rhs; rw [hsplit]
  rw [append_left_inj, xorBytes_xorBytes_eq_iff (by simp [keystream]) (by simp [keystream]),
    length_take]

end Cfb

end Tanix.Monitor
