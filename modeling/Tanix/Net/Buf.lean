/-
# `Tanix.Net.Buf` — byte buffers with checked access

The network code (`servers/libtanix-net`) works on byte slices.  An index or a range
outside a slice, and arithmetic that leaves its type, is a panic in the build modelled
(the development profile); such a function returns `Except Fault` here.

    `b[lo..hi]`                        `slice`
    `b[i]`                             `byteAt`
    `b[off..off + n].copy_from_slice`  `write`
    a field copied into a fixed array  `fixed`

A frame is built by a sequence of writes into a buffer of the right length.
`writeAll` runs such a sequence, and `writeAll_ok` is all that a builder needs: writes that
stay inside the buffer succeed and keep its length.
-/
import Tanix.Lib.Index
import Mathlib.Algebra.Group.Nat.Defs
import Tanix.Fallible
import Mathlib.Data.List.Basic

namespace Tanix

namespace Net

inductive Fault where
  /-- an index or a range out of bounds -/
  | index
  /-- arithmetic out of its type -/
  | overflow
  deriving DecidableEq, Repr

abbrev Bytes := List UInt8

/-- `[u8; 6]` -/
abbrev Mac := Vector UInt8 6

/-- `[u8; 4]` -/
abbrev Ip4 := Vector UInt8 4

/-! ## Reading -/

variable (b : Bytes)

def slice (lo hi : Nat) : Except Fault Bytes :=
  if lo ≤ hi ∧ hi ≤ b.length then .ok ((b.take hi).drop lo) else .error .index

def byteAt (i : Nat) : Except Fault UInt8 :=
  match b[i]? with
  | some v => .ok v
  | none => .error .index

/-- `get_u16` -/
def getU16 (off : Nat) : Except Fault UInt16 := do
  let hi ← byteAt b off
  let lo ← byteAt b (off + 1)
  return hi.toUInt16 <<< 8 ||| lo.toUInt16

/-- `get_u32` -/
def getU32 (off : Nat) : Except Fault UInt32 := do
  let hi ← getU16 b off
  let lo ← getU16 b (off + 2)
  return hi.toUInt32 <<< 16 ||| lo.toUInt32

/-- The `n` bytes from `off` on, as an array. -/
def fixed (n : Nat) (b : Bytes) (off : Nat) : Except Fault (Vector UInt8 n) :=
  if h : off + n ≤ b.length then
    .ok ⟨((b.drop off).take n).toArray, by
      simp only [List.size_toArray, List.length_take, List.length_drop]
      omega⟩
  else .error .index

open List

/-! ## Writing -/

def write (off : Nat) (src : Bytes) : Except Fault Bytes :=
  if off + src.length ≤ b.length then .ok (b.take off ++ src ++ b.drop (off + src.length))
  else .error .index

/-- A sequence of writes, first one first. -/
def writeAll (ws : List (Nat × Bytes)) : Except Fault Bytes :=
  ws.foldlM (fun b w => write b w.1 w.2) b

/-- The bytes that `put_u16` writes. -/
def be16 (v : UInt16) : Bytes :=
  [(v >>> 8).toUInt8, v.toUInt8]

/-- The bytes that `put_u32` writes. -/
def be32 (v : UInt32) : Bytes :=
  be16 (v >>> 16).toUInt16 ++ be16 v.toUInt16

/-! ## Arithmetic -/

/-- Addition in a type of `w` bits. -/
def addBits (w a b : Nat) : Except Fault Nat :=
  if a + b < 2 ^ w then .ok (a + b) else .error .overflow

/-- `usize` subtraction -/
def subUsize (a b : Nat) : Except Fault Nat :=
  if b ≤ a then .ok (a - b) else .error .overflow

/-! ## When an access succeeds -/

section Access

variable {b b' : Bytes}

theorem slice_eq_ok {lo hi : Nat} {s : Bytes} :
    slice b lo hi = .ok s ↔ (lo ≤ hi ∧ hi ≤ b.length) ∧ s = (b.take hi).drop lo := by
  unfold slice
  split
  · rename_i h
    constructor
    · intro he
      cases he
      exact ⟨h, rfl⟩
    · rintro ⟨-, rfl⟩
      rfl
  · rename_i h
    constructor
    · intro he
      cases he
    · rintro ⟨hc, -⟩
      exact absurd hc h

theorem slice_length {lo hi : Nat} {s : Bytes} (h : slice b lo hi = .ok s) : s.length = hi - lo := by
  obtain ⟨⟨-, hhi⟩, rfl⟩ := slice_eq_ok.mp h
  rw [length_drop, length_take, Nat.min_eq_left hhi]

theorem byteAt_ok {i : Nat} (h : i < b.length) : byteAt b i = .ok (b.get ⟨i, h⟩) := by
  rw [byteAt, getElem?_eq_getElem h]
  rfl

theorem getU16_ok {off : Nat} (h : off + 1 < b.length) : ∃ v, getU16 b off = .ok v := by
  unfold getU16
  rw [byteAt_ok (Nat.lt_of_succ_lt h), byteAt_ok h]
  exact ⟨_, rfl⟩

theorem getU32_ok {off : Nat} (h : off + 3 < b.length) : ∃ v, getU32 b off = .ok v := by
  obtain ⟨hi, hhi⟩ : ∃ v, getU16 b off = .ok v := getU16_ok (by omega)
  obtain ⟨lo, hlo⟩ : ∃ v, getU16 b (off + 2) = .ok v := getU16_ok (by omega)
  unfold getU32
  rw [hhi, hlo]
  exact ⟨_, rfl⟩

theorem write_ok {off : Nat} {src : Bytes} (h : off + src.length ≤ b.length) :
    ∃ b', write b off src = .ok b' ∧ b'.length = b.length := by
  rw [write, if_pos h]
  refine ⟨_, rfl, ?_⟩
  simp only [length_append, length_take, length_drop]
  omega

/-- Writes that stay inside the buffer succeed, and the buffer keeps its length. -/
theorem writeAll_ok {ws : List (Nat × Bytes)} (h : ∀ w ∈ ws, w.1 + w.2.length ≤ b.length) :
    ∃ b', writeAll b ws = .ok b' ∧ b'.length = b.length := by
  induction ws generalizing b with
  | nil => exact ⟨b, rfl, rfl⟩
  | cons w ws ih =>
    obtain ⟨b₁, hb₁, hlen⟩ := write_ok (h w mem_cons_self)
    obtain ⟨b₂, hb₂, hlen₂⟩ := ih (b := b₁) fun v hv => by
      rw [hlen]
      exact h v (mem_cons_of_mem w hv)
    refine ⟨b₂, ?_, hlen₂.trans hlen⟩
    rw [writeAll, foldlM_cons, hb₁]
    exact hb₂

theorem be16_length (v : UInt16) : (be16 v).length = 2 := rfl

theorem be32_length (v : UInt32) : (be32 v).length = 4 := rfl

end Access

section Arith

variable {a b n : Nat}

theorem addBits_eq_ok {w : Nat} : addBits w a b = .ok n ↔ a + b < 2 ^ w ∧ n = a + b := by
  unfold addBits
  split <;> rename_i h
  · simp only [Except.ok.injEq, h, true_and]
    exact eq_comm
  · simp [h]

theorem subUsize_eq_ok : subUsize a b = .ok n ↔ b ≤ a ∧ n = a - b := by
  unfold subUsize
  split <;> rename_i h
  · simp only [Except.ok.injEq, h, true_and]
    exact eq_comm
  · simp [h]

end Arith

end Net

end Tanix
