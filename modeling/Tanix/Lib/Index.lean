/-
# `Tanix.Lib.Index` — literals of index types

A literal of `Fin n` rests on a proof that `n` is not 0.  For the sizes that tables have here this
proof has a name, so that a literal is one and the same term in every module.
-/
import Mathlib.Logic.Basic

namespace Index

instance four : @NeZero Nat Zero.ofOfNat0 4 := ⟨by decide⟩

instance sixteen : @NeZero Nat Zero.ofOfNat0 16 := ⟨by decide⟩

instance thirtyTwo : @NeZero Nat Zero.ofOfNat0 32 := ⟨by decide⟩

instance sixtyFour : @NeZero Nat Zero.ofOfNat0 64 := ⟨by decide⟩

end Index
