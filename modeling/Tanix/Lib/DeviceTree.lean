/-
# `Tanix.Lib.DeviceTree` — the flattened device tree format

The structure block of a flattened device tree is a stream of big-endian tokens:

    1  begin node   the name, NUL, zeros up to a multiple of four bytes
    2  end node
    3  property     length, offset of the name in the strings block, the value, zeros
    4  nop
    9  end

`Body` is what stands between the begin and the end of a node; `Body.tokens` flattens it and
`Token.bytes` lays a token out.  `Block m base strings a ts` says that memory holds the
tokens `ts` at the offset `a` of the blob at `base`, with every property name where its
offset points in the strings block.
-/
import Tanix.Lib.Memory
import Mathlib.Tactic.MkIffOfInductiveProp

namespace DeviceTree

open Memory List

/-! ## Big-endian numbers -/

/-- The `n` low bytes of a number, highest first. -/
def be (n w : Nat) : List UInt8 :=
  (le n w).reverse

def fromBe (bs : List UInt8) : Nat :=
  fromLe bs.reverse

@[simp] theorem be_length (n w : Nat) : (be n w).length = n := by
  rw [be, length_reverse, le_length]

theorem fromBe_be {n w : Nat} (h : w < 256 ^ n) : fromBe (be n w) = w := by
  rw [fromBe, be, reverse_reverse, fromLe_le, Nat.mod_eq_of_lt h]

/-! ## Trees and tokens -/

structure Property where
  name : List UInt8
  nameoff : Nat
  value : List UInt8
  deriving DecidableEq, Repr

/-- What stands between the begin and the end of a node. -/
inductive Body where
  | nil
  | nop (rest : Body)
  | prop (p : Property) (rest : Body)
  | node (name : List UInt8) (body rest : Body)
  deriving DecidableEq, Repr

inductive Token where
  | beginNode (name : List UInt8)
  | endNode
  | prop (p : Property)
  | nop
  | finish
  deriving DecidableEq, Repr

def Body.tokens : Body → List Token
  | .nil => []
  | .nop rest => .nop :: rest.tokens
  | .prop p rest => .prop p :: rest.tokens
  | .node name body rest => .beginNode name :: (body.tokens ++ .endNode :: rest.tokens)

/-- The value of a node's own property: the first one of that name. -/
def Body.value? (name : List UInt8) : Body → Option (List UInt8)
  | .nil => none
  | .nop rest => rest.value? name
  | .prop p rest => if p.name = name then some p.value else rest.value? name
  | .node _ _ rest => rest.value? name

def Body.children : Body → List (List UInt8 × Body)
  | .nil => []
  | .nop rest => rest.children
  | .prop _ rest => rest.children
  | .node name body rest => (name, body) :: rest.children

/-! ## Layout -/

/-- Zeros up to a multiple of four bytes. -/
def pad (bs : List UInt8) : List UInt8 :=
  bs ++ List.replicate ((bs.length + 3) / 4 * 4 - bs.length) 0

def Token.bytes : Token → List UInt8
  | .beginNode name => be 4 1 ++ pad (name ++ [0])
  | .endNode => be 4 2
  | .prop p => be 4 3 ++ (be 4 p.value.length ++ (be 4 p.nameoff ++ pad p.value))
  | .nop => be 4 4
  | .finish => be 4 9

theorem pad_length (bs : List UInt8) : (pad bs).length = (bs.length + 3) / 4 * 4 := by
  rw [pad, length_append, length_replicate]
  omega

/-! ## Bytes that memory holds -/

/-- The bytes are in memory, from this address on. -/
def Holds (m : Mem) (a : Nat) (bs : List UInt8) : Prop :=
  load m a bs.length = bs

instance (m : Mem) (a : Nat) (bs : List UInt8) : Decidable (Holds m a bs) :=
  inferInstanceAs (Decidable (load m a bs.length = bs))

section Holds

variable {m : Mem} {a : Nat} {b : UInt8} {bs bs' : List UInt8}

theorem holds_cons : Holds m a (b :: bs) ↔ m a = b ∧ Holds m (a + 1) bs := by
  rw [Holds, length_cons, load, List.cons.injEq, Holds]

theorem holds_append : Holds m a (bs ++ bs') ↔ Holds m a bs ∧ Holds m (a + bs.length) bs' := by
  induction bs generalizing a with
  | nil => exact ⟨fun h => ⟨rfl, h⟩, fun h => h.2⟩
  | cons b bs ih =>
    rw [cons_append, holds_cons, holds_cons, ih, and_assoc, length_cons,
      Nat.add_assoc, Nat.add_comm 1]

end Holds

/-! ## Blobs -/

/-- A token that can be laid out: a name ends at its NUL, and the two words of a property
have 32 bits. -/
def Token.Ok : Token → Prop
  | .beginNode name => 0 ∉ name
  | .prop p => 0 ∉ p.name ∧ p.nameoff < 2 ^ 32 ∧ p.value.length < 2 ^ 32
  | _ => True

/-- The name of a property stands in the strings block. -/
def Token.Named (m : Mem) (strings : Nat) : Token → Prop
  | .prop p => Holds m (strings + p.nameoff) (p.name ++ [0])
  | _ => True

instance : (t : Token) → Decidable t.Ok
  | .beginNode name => inferInstanceAs (Decidable (0 ∉ name))
  | .prop p => inferInstanceAs (Decidable (0 ∉ p.name ∧ p.nameoff < 2 ^ 32 ∧ p.value.length < 2 ^ 32))
  | .endNode | .nop | .finish => inferInstanceAs (Decidable True)

instance (m : Mem) (strings : Nat) : (t : Token) → Decidable (t.Named m strings)
  | .prop p => inferInstanceAs (Decidable (Holds m (strings + p.nameoff) (p.name ++ [0])))
  | .beginNode _ | .endNode | .nop | .finish => inferInstanceAs (Decidable True)

/-- The root node, with the nops that may stand before and after it. -/
structure Tree where
  lead : Nat
  name : List UInt8
  body : Body
  trail : Nat
  deriving DecidableEq, Repr

def Tree.tokens (t : Tree) : List Token :=
  List.replicate t.lead .nop ++
    (.beginNode t.name :: (t.body.tokens ++ .endNode :: (List.replicate t.trail .nop ++ [.finish])))

structure Header where
  structOff : Nat
  stringsOff : Nat
  deriving DecidableEq, Repr

/-- Memory holds the tokens at `a`, and their names in the strings block. -/
@[mk_iff]
structure Block (m : Mem) (strings a : Nat) (ts : List Token) : Prop where
  ok : ∀ t ∈ ts, t.Ok
  named : ∀ t ∈ ts, t.Named m strings
  bytes : Holds m a (ts.flatMap Token.bytes)

/-- A well-formed blob at `dtb`. -/
@[mk_iff]
structure Blob (m : Mem) (dtb : Nat) (h : Header) (tree : Tree) : Prop where
  nonzero : dtb ≠ 0
  magic : Holds m dtb (be 4 0xD00DFEED)
  structOff : Holds m (dtb + 8) (be 4 h.structOff)
  structOff_lt : h.structOff < 2 ^ 32
  aligned : h.structOff % 4 = 0
  stringsOff : Holds m (dtb + 12) (be 4 h.stringsOff)
  stringsOff_lt : h.stringsOff < 2 ^ 32
  block : Block m (dtb + h.stringsOff) (dtb + h.structOff) tree.tokens

instance (m : Mem) (strings a : Nat) (ts : List Token) : Decidable (Block m strings a ts) :=
  decidable_of_iff' _ (block_iff m strings a ts)

instance (m : Mem) (dtb : Nat) (h : Header) (tree : Tree) : Decidable (Blob m dtb h tree) :=
  decidable_of_iff' _ (blob_iff m dtb h tree)

theorem Block.uncons {m : Mem} {strings a : Nat} {t : Token} {ts : List Token}
    (h : Block m strings a (t :: ts)) :
    (t.Ok ∧ t.Named m strings ∧ Holds m a t.bytes) ∧ Block m strings (a + t.bytes.length) ts := by
  have hbytes := h.bytes
  rw [flatMap_cons, holds_append] at hbytes
  exact ⟨⟨h.ok t mem_cons_self, h.named t mem_cons_self, hbytes.1⟩,
    fun u hu => h.ok u (mem_cons_of_mem t hu), fun u hu => h.named u (mem_cons_of_mem t hu),
    hbytes.2⟩

/-- Every token takes a multiple of four bytes. -/
theorem Token.bytes_length_mod (t : Token) : t.bytes.length % 4 = 0 := by
  cases t with
  | beginNode name => rw [bytes, length_append, be_length, pad_length]; omega
  | prop p =>
    rw [bytes, length_append, length_append, length_append, be_length, be_length,
      be_length, pad_length]
    omega
  | endNode | nop | finish => rw [bytes, be_length]

end DeviceTree
