/-
# `Tanix.Lib.Memory` — bytes in memory, and little-endian words

Memory is a byte at every address.  `load` and `store` move a list of bytes, `word` and
`setWord` a 64-bit word, lowest byte first.  What was stored is loaded again, and what lies
outside of the range is as it was:

    load (store m a l) a l.length = l          `load_store_self`
    ranges that do not meet                    `load_store_of_apart`
    word (setWord m a w) a = w                 `word_setWord_self`

`scatter` stores bytes at addresses that a function gives.
-/
import Tanix.Lib.Index
import Mathlib.Data.List.Basic
import Mathlib.Tactic.Ring

namespace Memory

open List
open Function (update_of_ne update_self)

/-! ## Little-endian numbers -/

/-- The `n` low bytes of a number, lowest first. -/
def le : Nat → Nat → List UInt8
  | 0, _ => []
  | n + 1, w => UInt8.ofNat w :: le n (w / 256)

def fromLe : List UInt8 → Nat
  | [] => 0
  | b :: bs => b.toNat + 256 * fromLe bs

@[simp] theorem le_length (n w : Nat) : (le n w).length = n := by
  induction n generalizing w with
  | zero => rfl
  | succ n ih => rw [le, length_cons, ih]

theorem fromLe_lt (bs : List UInt8) : fromLe bs < 256 ^ bs.length := by
  induction bs with
  | nil => exact Nat.one_pos
  | cons b bs ih =>
    have hb : b.toNat < 256 := b.toNat_lt
    rw [fromLe, length_cons, Nat.pow_succ]
    omega

theorem fromLe_le (n w : Nat) : fromLe (le n w) = w % 256 ^ n := by
  induction n generalizing w with
  | zero => exact (Nat.mod_one w).symm
  | succ n ih =>
    calc fromLe (le (n + 1) w) = w % 256 + 256 * (w / 256 % 256 ^ n) := by
          rw [le, fromLe, ih, UInt8.toNat_ofNat']
      _ = w % (256 * 256 ^ n) := (Nat.mod_mul).symm
      _ = w % 256 ^ (n + 1) := by rw [Nat.pow_succ']

theorem le_fromLe (bs : List UInt8) : le bs.length (fromLe bs) = bs := by
  induction bs with
  | nil => rfl
  | cons b bs ih =>
    have hb : b.toNat < 256 := b.toNat_lt
    have hlow : UInt8.ofNat (b.toNat + 256 * fromLe bs) = b := by
      refine UInt8.toNat_inj.mp ?_
      rw [UInt8.toNat_ofNat']
      omega
    have hhigh : (b.toNat + 256 * fromLe bs) / 256 = fromLe bs := by omega
    rw [length_cons, fromLe, le, hlow, hhigh, ih]

theorem fromLe_inj {bs bs' : List UInt8} (hlen : bs.length = bs'.length)
    (h : fromLe bs = fromLe bs') : bs = bs' := by
  rw [← le_fromLe bs, h, hlen, le_fromLe]

/-! ## Ranges of bytes -/

abbrev Mem := Nat → UInt8

def load (m : Mem) : Nat → Nat → List UInt8
  | _, 0 => []
  | a, n + 1 => m a :: load m (a + 1) n

def store (m : Mem) (a : Nat) (l : List UInt8) : Mem :=
  fun x => if a ≤ x then l[x - a]?.getD (m x) else m x

variable {m m' : Mem} {a b n : Nat} {l : List UInt8}

@[simp] theorem load_length (m : Mem) (a n : Nat) : (load m a n).length = n := by
  induction n generalizing a with
  | zero => rfl
  | succ n ih => rw [load, length_cons, ih]

theorem load_getElem? (m : Mem) (a n i : Nat) :
    (load m a n)[i]? = if i < n then some (m (a + i)) else none := by
  induction n generalizing a i with
  | zero => rfl
  | succ n ih =>
    cases i with
    | zero => rfl
    | succ i =>
      rw [load, getElem?_cons_succ, ih]
      simp only [Nat.add_lt_add_iff_right, Nat.add_assoc, Nat.add_comm 1 i]

theorem load_drop (m : Mem) (a n k : Nat) : load m (a + k) (n - k) = (load m a n).drop k := by
  refine ext_getElem? fun i => ?_
  rw [getElem?_drop, load_getElem?, load_getElem?]
  rcases Nat.lt_or_ge i (n - k) with hi | hi
  · rw [if_pos hi, if_pos (by omega), Nat.add_assoc]
  · rw [if_neg (by omega), if_neg (by omega)]

/-- A range inside of a range. -/
theorem load_slice (m : Mem) (a : Nat) {n k j : Nat} (h : k + j ≤ n) :
    ((load m a n).drop k).take j = load m (a + k) j := by
  refine ext_getElem? fun i => ?_
  rw [← load_drop, getElem?_take, load_getElem?, load_getElem?]
  rcases Nat.lt_or_ge i j with hi | hi
  · rw [if_pos hi, if_pos (by omega), if_pos hi]
  · rw [if_neg (Nat.not_lt.mpr hi), if_neg (Nat.not_lt.mpr hi)]

theorem load_congr (h : ∀ x, a ≤ x → x < a + n → m' x = m x) : load m' a n = load m a n := by
  refine ext_getElem? fun i => ?_
  rw [load_getElem?, load_getElem?]
  split
  · rename_i hi
    rw [h (a + i) (Nat.le_add_right a i) (Nat.add_lt_add_left hi a)]
  · rfl

theorem store_outside {x : Nat} (h : x < a ∨ a + l.length ≤ x) : store m a l x = m x := by
  rw [store]
  split
  · rename_i hle
    rw [getElem?_eq_none (by omega)]
    rfl
  · rfl

@[simp] theorem store_nil (m : Mem) (a : Nat) : store m a [] = m :=
  funext fun x => store_outside (Nat.lt_or_ge x a)

theorem store_inside {i : Nat} {v : UInt8} (h : l[i]? = some v) : store m a l (a + i) = v := by
  rw [store, if_pos (Nat.le_add_right a i), Nat.add_sub_cancel_left, h]
  rfl

theorem load_store_self (m : Mem) (a : Nat) (h : l.length = n) : load (store m a l) a n = l := by
  subst h
  refine ext_getElem? fun i => ?_
  rw [load_getElem?]
  split
  · rename_i hi
    rw [store_inside (getElem?_eq_getElem hi), getElem?_eq_getElem hi]
  · rename_i hi
    rw [getElem?_eq_none (Nat.not_lt.mp hi)]

/-- A store over the first bytes of what is loaded. -/
theorem load_store_within (h : l.length ≤ n) :
    load (store m a l) a n = l ++ (load m a n).drop l.length := by
  refine ext_getElem? fun i => ?_
  rw [load_getElem?, getElem?_append, getElem?_drop, load_getElem?]
  rcases Nat.lt_or_ge i l.length with hi | hi
  · rw [if_pos (Nat.lt_of_lt_of_le hi h), if_pos hi, store_inside (getElem?_eq_getElem hi),
      getElem?_eq_getElem hi]
  · rw [if_neg (Nat.not_lt.mpr hi), Nat.add_sub_cancel' hi, store_outside (Or.inr (Nat.add_le_add_left hi a))]

theorem load_store_of_apart (h : a + n ≤ b ∨ b + l.length ≤ a) : load (store m b l) a n = load m a n := by
  refine load_congr fun x hlo hhi => store_outside ?_
  omega

/-! ## Copying byte by byte -/

/-- Copy upwards; where the ranges meet, what was copied is read again. -/
def copy (m : Mem) : Nat → Nat → Nat → Mem
  | _, _, 0 => m
  | src, dst, n + 1 => copy (Function.update m dst (m src)) (src + 1) (dst + 1) n

theorem copy_outside {src dst x : Nat} (h : x < dst ∨ dst + n ≤ x) : copy m src dst n x = m x := by
  induction n generalizing m src dst with
  | zero => rfl
  | succ n ih => rw [copy, ih (by omega), update_of_ne (by omega)]

theorem copy_inside {src dst i : Nat} (hi : i < n) (h : src + n ≤ dst ∨ dst + n ≤ src) :
    copy m src dst n (dst + i) = m (src + i) := by
  induction n generalizing m src dst i with
  | zero => exact absurd hi (Nat.not_lt_zero i)
  | succ n ih =>
    rw [copy]
    cases i with
    | zero =>
      show copy (Function.update m dst (m src)) (src + 1) (dst + 1) n dst = m src
      rw [copy_outside (Or.inl (show dst < dst + 1 by omega)), update_self]
    | succ i =>
      rw [show dst + (i + 1) = dst + 1 + i by omega, ih (by omega) (by omega),
        update_of_ne (by omega)]
      congr 1
      omega

/-- Ranges that do not meet: one load and one store. -/
theorem copy_eq_store {src dst : Nat} (h : src + n ≤ dst ∨ dst + n ≤ src) :
    copy m src dst n = store m dst (load m src n) := by
  funext x
  rcases Nat.lt_or_ge x dst with hlt | hge
  · rw [copy_outside (Or.inl hlt), store_outside (Or.inl hlt)]
  · obtain ⟨i, rfl⟩ := Nat.exists_eq_add_of_le hge
    rcases Nat.lt_or_ge i n with hi | hi
    · have hload : (load m src n)[i]? = some (m (src + i)) := by rw [load_getElem?, if_pos hi]
      rw [copy_inside hi h, store_inside hload]
    · rw [copy_outside (Or.inr (by omega)), store_outside (Or.inr (by rw [load_length]; omega))]

/-! ## Bytes that need not lie together -/

/-- Put the bytes at `addr lo`, `addr (lo + 1)`, … -/
def scatter (addr : Nat → Nat) : Mem → Nat → List UInt8 → Mem
  | m, _, [] => m
  | m, lo, b :: bs => scatter addr (Function.update m (addr lo) b) (lo + 1) bs

section Scatter

variable {addr addr' : Nat → Nat} {lo x i : Nat} {v : UInt8}

theorem scatter_append (m : Mem) (lo : Nat) (l l' : List UInt8) :
    scatter addr m lo (l ++ l') = scatter addr (scatter addr m lo l) (lo + l.length) l' := by
  induction l generalizing m lo with
  | nil => rfl
  | cons b l ih =>
    rw [cons_append, scatter, scatter, ih, length_cons]
    congr 1
    omega

theorem scatter_congr (h : ∀ j, lo ≤ j → j < lo + l.length → addr' j = addr j) :
    scatter addr' m lo l = scatter addr m lo l := by
  induction l generalizing m lo with
  | nil => rfl
  | cons b l ih =>
    rw [length_cons] at h
    rw [scatter, scatter, h lo (Nat.le_refl lo) (by omega), ih fun j hlo hhi => h j (by omega) (by omega)]

theorem scatter_outside (h : ∀ j, lo ≤ j → j < lo + l.length → addr j ≠ x) : scatter addr m lo l x = m x := by
  induction l generalizing m lo with
  | nil => rfl
  | cons b l ih =>
    rw [length_cons] at h
    rw [scatter, ih fun j hlo hhi => h j (by omega) (by omega),
      update_of_ne (h lo (Nat.le_refl lo) (by omega)).symm]

theorem scatter_inside (hinj : ∀ j, lo ≤ j → j < lo + l.length → addr j = addr (lo + i) → j = lo + i)
    (h : l[i]? = some v) : scatter addr m lo l (addr (lo + i)) = v := by
  induction l generalizing m lo i with
  | nil => cases h
  | cons b l ih =>
    rw [length_cons] at hinj
    rw [scatter]
    cases i with
    | zero =>
      rw [scatter_outside fun j hlo hhi heq => ?_, Nat.add_zero, update_self]
      · exact Option.some.inj h
      · have := hinj j (by omega) (by omega) heq
        omega
    | succ i =>
      rw [show lo + (i + 1) = lo + 1 + i by omega] at hinj ⊢
      exact ih (fun j hlo hhi => hinj j (by omega) (by omega)) h

/-- Addresses that lie together: one store. -/
theorem scatter_eq_store {a : Nat} (h : ∀ i, i < l.length → addr (lo + i) = a + i) :
    scatter addr m lo l = store m a l := by
  funext x
  by_cases hx : a ≤ x ∧ x < a + l.length
  · obtain ⟨i, rfl⟩ := Nat.exists_eq_add_of_le hx.1
    have hi : i < l.length := by omega
    have hget : l[i]? = some l[i] := getElem?_eq_getElem hi
    rw [store_inside hget, ← h i hi]
    refine scatter_inside (fun j hlo hhi heq => ?_) hget
    obtain ⟨i', rfl⟩ := Nat.exists_eq_add_of_le hlo
    rw [h i' (by omega), h i hi] at heq
    omega
  · rw [store_outside (by omega)]
    refine scatter_outside fun j hlo hhi heq => ?_
    obtain ⟨i, rfl⟩ := Nat.exists_eq_add_of_le hlo
    rw [h i (by omega)] at heq
    omega

end Scatter

/-! ## Words -/

def word (m : Mem) (a : Nat) : UInt64 :=
  UInt64.ofNat (fromLe (load m a 8))

def setWord (m : Mem) (a : Nat) (w : UInt64) : Mem :=
  store m a (le 8 w.toNat)

theorem ofNat_fromLe_le (w : UInt64) : UInt64.ofNat (fromLe (le 8 w.toNat)) = w := by
  have hlt : w.toNat < 256 ^ 8 := w.toNat_lt
  rw [fromLe_le, Nat.mod_eq_of_lt hlt, UInt64.ofNat_toNat]

theorem word_setWord_self (m : Mem) (a : Nat) (w : UInt64) : word (setWord m a w) a = w := by
  rw [word, setWord, load_store_self m a (le_length ..), ofNat_fromLe_le]

theorem word_store_of_apart (h : a + 8 ≤ b ∨ b + l.length ≤ a) : word (store m b l) a = word m a := by
  rw [word, load_store_of_apart h, word]

theorem word_setWord_of_apart {w : UInt64} (h : a + 8 ≤ b ∨ b + 8 ≤ a) :
    word (setWord m b w) a = word m a :=
  word_store_of_apart (by rwa [le_length])

theorem setWord_outside {x : Nat} {w : UInt64} (h : x < a ∨ a + 8 ≤ x) : setWord m a w x = m x :=
  store_outside (by rwa [le_length])

theorem word_congr (h : ∀ x, a ≤ x → x < a + 8 → m' x = m x) : word m' a = word m a := by
  rw [word, load_congr h, word]

/-! ## Memories that differ in some bytes only -/

/-- The same bytes, except where `P` holds. -/
def AgreeOff (P : Nat → Prop) (m m' : Mem) : Prop :=
  ∀ x, ¬ P x → m x = m' x

namespace AgreeOff

variable {P Q : Nat → Prop}

section

variable (h : AgreeOff P m m')

include h

theorem mono (hPQ : ∀ x, P x → Q x) : AgreeOff Q m m' :=
  fun x hx => h x fun hP => hx (hPQ x hP)

protected theorem word (hclear : ∀ x, a ≤ x → x < a + 8 → ¬ P x) : word m a = word m' a :=
  word_congr fun x hlo hhi => h x (hclear x hlo hhi)

protected theorem update (a : Nat) (v : UInt8) :
    AgreeOff P (Function.update m a v) (Function.update m' a v) := by
  intro x hx
  by_cases hxa : x = a
  · rw [hxa, update_self, update_self]
  · rw [update_of_ne hxa, update_of_ne hxa, h x hx]

/-- The same store on both sides. -/
protected theorem store (a : Nat) (l : List UInt8) : AgreeOff P (store m a l) (store m' a l) := by
  intro x hx
  rw [Memory.store, Memory.store, h x hx]

protected theorem setWord (a : Nat) (w : UInt64) : AgreeOff P (setWord m a w) (setWord m' a w) :=
  h.store a (le 8 w.toNat)

protected theorem copy {src : Nat} (hclear : ∀ x, src ≤ x → x < src + n → ¬ P x) (dst : Nat) :
    AgreeOff P (copy m src dst n) (copy m' src dst n) := by
  induction n generalizing m m' src dst with
  | zero => exact h
  | succ n ih =>
    rw [Memory.copy, Memory.copy, h src (hclear src (Nat.le_refl src) (by omega))]
    exact ih (h.update dst (m' src)) (fun x hlo hhi => hclear x (by omega) (by omega)) (dst + 1)

/-- Stores of the same length at one place, whatever they put there. -/
theorem store_hidden {l l' : List UInt8} (hlen : l'.length = l.length) :
    AgreeOff (fun x => P x ∨ (a ≤ x ∧ x < a + l.length)) (store m a l) (store m' a l') := by
  intro x hx
  obtain ⟨hP, hout⟩ := not_or.mp hx
  rw [store_outside (by omega), store_outside (by omega), h x hP]

end

/-- Bytes that were hidden and are the same after all. -/
theorem reveal (h : AgreeOff (fun x => P x ∨ (a ≤ x ∧ x < a + n)) m m') (hload : load m a n = load m' a n) :
    AgreeOff P m m' := by
  intro x hx
  by_cases hin : a ≤ x ∧ x < a + n
  · obtain ⟨i, rfl⟩ := Nat.exists_eq_add_of_le hin.1
    have hi := congrArg (·[i]?) hload
    simp only [load_getElem?, if_pos (show i < n by omega)] at hi
    exact Option.some.inj hi
  · exact h x (not_or.mpr ⟨hx, hin⟩)

end AgreeOff

end Memory
