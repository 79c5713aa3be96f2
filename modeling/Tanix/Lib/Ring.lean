/-
# `Tanix.Lib.Ring` — one writer, one reader, a ring and 16-bit counters

The writer puts an element into the slot of its counter and then publishes the next value of
the counter.  The reader compares its own counter with one it has read and, where they
differ, takes the element in the slot of its counter.  Both counters run freely and wrap.

    write     the slot of `head`                 the index is not touched
    publish   `head` goes on, the index follows
    take      the slot of `tail`, `tail` goes on

`sent` and `got` are what was written and what was taken, from the beginning.  As long as the
writer is at most `n` elements ahead and the ring size divides `2 ^ 16`, wrapped counters
tell as much as the counts themselves (`counter_inj`), and the reader takes exactly what was
written, in order (`Sound.take`).
-/
import Tanix.Lib.Index
import Mathlib.Data.List.Basic
import Mathlib.Logic.Function.Basic
import Mathlib.Data.Nat.ModEq

namespace Ring

open List

/-- The slot of a counter. -/
def slot (n : Nat) [NeZero n] (c : UInt16) : Fin n :=
  Fin.ofNat n c.toNat

structure Chan (α : Type) (n : Nat) where
  slots : Fin n → α
  idx : UInt16
  head : UInt16
  tail : UInt16
  sent : List α
  got : List α

variable {α : Type} {n : Nat} [NeZero n]

namespace Chan

def write (c : Chan α n) (a : α) : Chan α n :=
  { c with slots := Function.update c.slots (slot n c.head) a, sent := c.sent ++ [a] }

def publish (c : Chan α n) : Chan α n :=
  { c with head := c.head + 1, idx := c.head + 1 }

def take (c : Chan α n) : Chan α n :=
  { c with tail := c.tail + 1, got := c.got ++ [c.slots (slot n c.tail)] }

/-- The elements that are written and not taken yet. -/
def ahead (c : Chan α n) : List α :=
  c.sent.drop c.got.length

/-- The slots between the reader's counter and the index. -/
def between (c : Chan α n) : List α :=
  (List.range (c.idx - c.tail).toNat).map fun k => c.slots (slot n (c.tail + .ofNat k))

end Chan

/-- `pub` elements have been published. -/
structure Sound (c : Chan α n) (pub : Nat) : Prop where
  kept : ∀ k a, c.got.length ≤ k → c.sent[k]? = some a → c.slots (Fin.ofNat n k) = a
  inOrder : c.got <+: c.sent
  taken : c.got.length ≤ pub
  written : pub ≤ c.sent.length
  room : c.sent.length ≤ c.got.length + n
  idx : c.idx = UInt16.ofNat pub
  head : c.head = UInt16.ofNat pub
  tail : c.tail = UInt16.ofNat c.got.length

/-! ## Counters -/

theorem slot_ofNat (hn : n ∣ 2 ^ 16) (k : Nat) : slot n (UInt16.ofNat k) = Fin.ofNat n k := by
  refine Fin.ext ?_
  show (UInt16.ofNat k).toNat % n = k % n
  rw [UInt16.toNat_ofNat']
  exact Nat.mod_mod_of_dvd k hn

theorem counter_succ (k : Nat) : UInt16.ofNat k + 1 = UInt16.ofNat (k + 1) :=
  (UInt16.ofNat_add k 1).symm

/-- Counts that are less than `2 ^ 16` apart are told apart by their counters. -/
theorem counter_inj {a b : Nat} (hab : a ≤ b) (hb : b < a + 2 ^ 16)
    (h : UInt16.ofNat a = UInt16.ofNat b) : a = b := by
  have hmod := congrArg UInt16.toNat h
  rw [UInt16.toNat_ofNat', UInt16.toNat_ofNat'] at hmod
  omega

theorem counter_sub {a b : Nat} (hab : b ≤ a) (ha : a < b + 2 ^ 16) :
    (UInt16.ofNat a - UInt16.ofNat b).toNat = a - b := by
  rw [UInt16.toNat_sub, UInt16.toNat_ofNat', UInt16.toNat_ofNat']
  omega

theorem ofNat_ne {j k : Nat} (hlt : j < k) (hk : k < j + n) : Fin.ofNat n j ≠ Fin.ofNat n k := by
  intro h
  have hmod : j ≡ k [MOD n] := congrArg Fin.val h
  have hdvd := (Nat.modEq_iff_dvd' (Nat.le_of_lt hlt)).mp hmod
  have hle := Nat.le_of_dvd (by omega) hdvd
  omega

/-- A loop that fills `count` slots from the one of `a` on. -/
def fill (slots : Fin n → α) (a : Nat) (f : Nat → α) (count : Nat) : Fin n → α :=
  (List.range count).foldl (fun slots i => Function.update slots (Fin.ofNat n (a + i)) (f i)) slots

theorem fill_succ (slots : Fin n → α) (a : Nat) (f : Nat → α) (count : Nat) :
    fill slots a f (count + 1) = Function.update (fill slots a f count) (Fin.ofNat n (a + count)) (f count) := by
  rw [fill, range_succ, foldl_append]
  rfl

theorem fill_of_lt (slots : Fin n → α) (a : Nat) (f : Nat → α) {count i : Nat} (hcount : count ≤ n)
    (hi : i < count) : fill slots a f count (Fin.ofNat n (a + i)) = f i := by
  induction count with
  | zero => exact absurd hi (Nat.not_lt_zero i)
  | succ count ih =>
    rw [fill_succ]
    rcases Nat.lt_succ_iff_lt_or_eq.mp hi with hlt | rfl
    · rw [Function.update_of_ne (ofNat_ne (by omega) (by omega))]
      exact ih (by omega) hlt
    · exact Function.update_self _ _ _

theorem fill_of_before (slots : Fin n → α) {a k count : Nat} (f : Nat → α) (hk : k < a)
    (hroom : a + count ≤ k + n) : fill slots a f count (Fin.ofNat n k) = slots (Fin.ofNat n k) := by
  induction count with
  | zero => rfl
  | succ count ih =>
    rw [fill_succ, Function.update_of_ne (ofNat_ne (by omega) (by omega))]
    exact ih (by omega)

theorem prefix_concat {l m : List α} {a : α} (h : l <+: m) (ha : m[l.length]? = some a) :
    l ++ [a] <+: m := by
  obtain ⟨rest, rfl⟩ := h
  rw [getElem?_append_right (Nat.le_refl _), Nat.sub_self] at ha
  cases rest with
  | nil => cases ha
  | cons b rest =>
    obtain rfl := Option.some.inj ha
    exact ⟨rest, append_assoc l [b] rest⟩

/-! ## The moves -/

variable {c : Chan α n} {pub : Nat}

theorem sound_empty (slots : Fin n → α) : Sound ⟨slots, 0, 0, 0, [], []⟩ 0 where
  kept _ _ _ h := nomatch h
  inOrder := prefix_refl []
  taken := Nat.le_refl 0
  written := Nat.le_refl 0
  room := Nat.zero_le _
  idx := rfl
  head := rfl
  tail := rfl

theorem Sound.write (h : Sound c pub) (hn : n ∣ 2 ^ 16) (hpub : pub = c.sent.length)
    (hroom : c.sent.length < c.got.length + n) (a : α) : Sound (c.write a) pub := by
  refine ⟨?_, h.inOrder.trans (prefix_append _ _), h.taken, ?_, ?_, h.idx, h.head, h.tail⟩
  · intro k b hgot hk
    show Function.update c.slots (slot n c.head) a (Fin.ofNat n k) = b
    have hgot : c.got.length ≤ k := hgot
    have hk : (c.sent ++ [a])[k]? = some b := hk
    rw [h.head, hpub, slot_ofNat hn]
    rcases Nat.lt_or_ge k c.sent.length with hlt | hge
    · -- an older element: its slot is another one
      rw [Function.update_of_ne (ofNat_ne hlt (by omega))]
      rw [getElem?_append_left hlt] at hk
      exact h.kept k b hgot hk
    · have hlen := (List.getElem?_eq_some_iff.mp hk).1
      rw [length_append, length_singleton] at hlen
      obtain rfl : k = c.sent.length := by omega
      rw [getElem?_concat_length] at hk
      rw [Function.update_self]
      exact Option.some.inj hk
  · show pub ≤ (c.sent ++ [a]).length
    rw [length_append]
    exact Nat.le_add_right_of_le h.written
  · show (c.sent ++ [a]).length ≤ c.got.length + n
    rw [length_append, length_singleton]
    exact hroom

theorem Sound.publish (h : Sound c pub) (hpub : pub < c.sent.length) : Sound c.publish (pub + 1) := by
  have hhead : c.head + 1 = UInt16.ofNat (pub + 1) := by rw [h.head, counter_succ]
  exact ⟨h.kept, h.inOrder, Nat.le_succ_of_le h.taken, hpub, h.room, hhead, hhead, h.tail⟩

/-- A writer that publishes each element as soon as it is written. -/
theorem Sound.push (h : Sound c c.sent.length) (hn : n ∣ 2 ^ 16)
    (hroom : c.sent.length < c.got.length + n) (a : α) :
    Sound (c.write a).publish (c.write a).sent.length := by
  have hlen : (c.write a).sent.length = c.sent.length + 1 := by
    show (c.sent ++ [a]).length = _
    rw [length_append, length_singleton]
  rw [hlen]
  exact (h.write hn rfl hroom a).publish (by omega)

/-- A reader that has read the counter of `lim` is behind exactly when the counters differ. -/
theorem Sound.behind (h : Sound c pub) (hn : n < 2 ^ 16) (lim : Nat) (hgot : c.got.length ≤ lim)
    (hlim : lim ≤ pub) : c.tail ≠ UInt16.ofNat lim ↔ c.got.length < lim := by
  have hw := h.written
  have hr := h.room
  rw [h.tail]
  constructor
  · intro hne
    refine Nat.lt_of_le_of_ne hgot ?_
    rintro heq
    exact hne (congrArg UInt16.ofNat heq)
  · intro hlt heq
    have := counter_inj hgot (by omega) heq
    omega

theorem Sound.idx_eq_iff (h : Sound c pub) (hn : n < 2 ^ 16) : c.idx = c.tail ↔ c.got.length = pub := by
  have hbehind := h.behind hn pub h.taken (Nat.le_refl _)
  rw [h.idx, eq_comm, ← not_iff_not, ← ne_eq, hbehind]
  exact ⟨Nat.ne_of_lt, Nat.lt_of_le_of_ne h.taken⟩

theorem Sound.lt_of_ne (h : Sound c pub) (hne : c.idx ≠ c.tail) : c.got.length < pub :=
  Nat.lt_of_le_of_ne h.taken fun heq => hne (by rw [h.idx, h.tail, heq])

/-- A reader that has taken several elements. -/
theorem Sound.advance (h : Sound c pub) {got : List α} (hgot : got <+: c.sent) (hle : c.got.length ≤ got.length)
    (hpub : got.length ≤ pub) : Sound { c with tail := UInt16.ofNat got.length, got := got } pub where
  kept k a hk := h.kept k a (Nat.le_trans hle hk)
  inOrder := hgot
  taken := hpub
  written := h.written
  room := Nat.le_trans h.room (Nat.add_le_add_right hle n)
  idx := h.idx
  head := h.head
  tail := rfl

theorem Sound.next (h : Sound c pub) (hn : n ∣ 2 ^ 16) {a : α} (ha : c.sent[c.got.length]? = some a) :
    c.slots (slot n c.tail) = a := by
  rw [h.tail, slot_ofNat hn]
  exact h.kept _ a (Nat.le_refl _) ha

/-- The reader takes the next element that was written. -/
theorem Sound.take (h : Sound c pub) (hn : n ∣ 2 ^ 16) (hgot : c.got.length < pub) :
    Sound c.take pub := by
  have hlen : (c.got ++ [c.slots (slot n c.tail)]).length = c.got.length + 1 := by
    rw [length_append, length_singleton]
  have hprefix : c.got ++ [c.slots (slot n c.tail)] <+: c.sent := by
    have ha := getElem?_eq_getElem (Nat.lt_of_lt_of_le hgot h.written)
    rw [h.next hn ha]
    exact prefix_concat h.inOrder ha
  have htail : UInt16.ofNat (c.got ++ [c.slots (slot n c.tail)]).length = c.tail + 1 := by
    rw [hlen, ← counter_succ, h.tail]
  have hadvance := h.advance hprefix (by omega) (by omega)
  rw [htail] at hadvance
  exact hadvance

/-- What a reader finds that compares the counters and reads its slot. -/
theorem Sound.next_eq (h : Sound c c.sent.length) (hn : n ∣ 2 ^ 16) (hn' : n < 2 ^ 16) :
    (if c.idx = c.tail then none else some (c.slots (slot n c.tail))) = c.sent[c.got.length]? := by
  split
  · next heq => exact (getElem?_eq_none (Nat.le_of_eq ((h.idx_eq_iff hn').mp heq).symm)).symm
  · next hne =>
    have ha := getElem?_eq_getElem (h.lt_of_ne hne)
    rw [h.next hn ha, ha]

/-! ## What is ahead of the reader -/

/-- The slots from the reader's count on hold what it has not taken. -/
theorem Sound.slots_from (h : Sound c pub) {count : Nat} (hcount : c.got.length + count ≤ c.sent.length) :
    (List.range count).map (fun i => c.slots (Fin.ofNat n (c.got.length + i))) = c.ahead.take count := by
  refine ext_getElem? fun i => ?_
  rw [getElem?_map, getElem?_take, Chan.ahead, getElem?_drop]
  rcases Nat.lt_or_ge i count with hi | hi
  · have hlt : c.got.length + i < c.sent.length := by omega
    rw [getElem?_range hi, if_pos hi, getElem?_eq_getElem hlt, Option.map_some]
    exact congrArg some (h.kept _ _ (Nat.le_add_right _ _) (getElem?_eq_getElem hlt))
  · rw [getElem?_eq_none (by rw [length_range]; exact hi), if_neg (Nat.not_lt.mpr hi)]
    rfl

theorem Sound.ahead_push (h : Sound c c.sent.length) (a : α) :
    (c.write a).publish.ahead = c.ahead ++ [a] :=
  drop_append_of_le_length h.taken

theorem Sound.ahead_take (h : Sound c pub) (hn : n ∣ 2 ^ 16) (hgot : c.got.length < pub) :
    c.ahead = c.slots (slot n c.tail) :: c.take.ahead := by
  have hlt : c.got.length < c.sent.length := Nat.lt_of_lt_of_le hgot h.written
  have htake : c.take.ahead = c.sent.drop (c.got.length + 1) := by
    show c.sent.drop (c.got ++ [_]).length = _
    rw [length_append, length_singleton]
  rw [htake, h.next hn (getElem?_eq_getElem hlt)]
  exact drop_eq_getElem_cons hlt

/-- The slots from the reader's counter up to the index hold just that. -/
theorem Sound.between_eq (h : Sound c c.sent.length) (hn : n ∣ 2 ^ 16) (hn' : n < 2 ^ 16) :
    c.between = c.ahead := by
  have hroom := h.room
  have hdist : (c.idx - c.tail).toNat = c.sent.length - c.got.length := by
    rw [h.idx, h.tail]
    exact counter_sub h.taken (by omega)
  have hslots : (fun k => c.slots (slot n (c.tail + .ofNat k))) = fun k => c.slots (Fin.ofNat n (c.got.length + k)) := by
    funext k
    rw [h.tail, ← UInt16.ofNat_add, slot_ofNat hn]
  rw [Chan.between, hdist, hslots, h.slots_from (Nat.le_of_eq (Nat.add_sub_of_le h.taken))]
  exact take_of_length_le (Nat.le_of_eq length_drop)

end Ring
