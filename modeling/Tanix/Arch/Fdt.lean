/-
# `Tanix.Arch.Fdt` — reading the device tree

`kernel/src/arch/aarch64/fdt.rs`.  The readers share one loop over the tokens of the
structure block, `walk`; what a function does at a token is a `Reader`.  On a well-formed
blob the loop is the fold of the tokens (`walk_tokens`), so that what a reader finds is said
over trees and not over bytes.

`dramRegion` compares the depth with the number of begin tokens before the node, and
counts the node's own begin token as well:

    properties of the root            seen at depth 1, read at depth 0
    properties of a child of the root seen at depth 2, read at depth 1

so no property is ever read (`Settled.prop`).

Loops over memory take fuel: `lim` for a string, `fuel` for the tokens.  `none` is a loop
that has not ended yet.
-/
import Tanix.Fallible
import Tanix.Lib.Bytes
import Tanix.Lib.DeviceTree
import Mathlib.Data.Nat.Bitwise

namespace Tanix.Fdt

open Memory DeviceTree List
open Bytes (ascii)

/-! ## Words and strings -/

def fdtMagic : Nat := 0xD00DFEED
def fdtBeginNode : Nat := 0x1
def fdtEndNode : Nat := 0x2
def fdtProp : Nat := 0x3
def fdtNop : Nat := 0x4

def rdBe32 (m : Mem) (p : Nat) : Nat :=
  (m p).toNat <<< 24 ||| (m (p + 1)).toNat <<< 16 ||| (m (p + 2)).toNat <<< 8 ||| (m (p + 3)).toNat

/-- The bytes up to the next NUL. -/
def cstr (m : Mem) : Nat → Nat → Option (List UInt8)
  | 0, _ => none
  | lim + 1, p => if m p = 0 then some [] else (cstr m lim (p + 1)).map (m p :: ·)

/-- `p & !3`. -/
def align4 (p : Nat) : Nat :=
  p / 4 * 4

/-! ## The token loop -/

section Walk

variable {σ ρ : Type}

/-- What a function does at a token.  `ok` goes on with the loop, `error` returns from the
function. -/
structure Reader (σ ρ : Type) where
  beginNode : σ → List UInt8 → σ
  prop : (lim : Nat) → σ → (val len nameoff : Nat) → Option (Except ρ σ)
  endNode : σ → Except ρ σ
  finish : σ → ρ

def goOn (k : σ → Option ρ) : Except ρ σ → Option ρ
  | .ok s => k s
  | .error r => some r

def walk (rd : Reader σ ρ) (m : Mem) (base lim : Nat) : Nat → Nat → σ → Option ρ
  | 0, _, _ => none
  | fuel + 1, p, s =>
    let token := rdBe32 m (base + p)
    let p := p + 4
    if token = fdtBeginNode then
      (cstr m lim (base + p)).bind fun name =>
        walk rd m base lim fuel (align4 (p + name.length + 4)) (rd.beginNode s name)
    else if token = fdtProp then
      let len := rdBe32 m (base + p)
      let nameoff := rdBe32 m (base + (p + 4))
      let p := p + 8
      (rd.prop lim s (base + p) len nameoff).bind
        (goOn (walk rd m base lim fuel (align4 (p + len + 3))))
    else if token = fdtEndNode then
      goOn (walk rd m base lim fuel p) (rd.endNode s)
    else if token = fdtNop then
      walk rd m base lim fuel p s
    else
      -- `FDT_END`, or a token that is not known
      some (rd.finish s)

end Walk

/-! ## `dram_region` -/

structure MemoryRegion where
  base : Nat
  size : Nat
  deriving DecidableEq, Repr

structure DramState where
  addrCells : Nat
  sizeCells : Nat
  nodeName : Option (List UInt8)
  depth : Nat
  inMemoryNode : Bool
  deriving DecidableEq, Repr

def DramState.start : DramState :=
  { addrCells := 2, sizeCells := 2, nodeName := none, depth := 0, inMemoryNode := false }

def isMemory (name : List UInt8) : Bool :=
  name == ascii "memory" || (ascii "memory@").isPrefixOf name

/-- The loop over the cells of a number: the `u64` keeps the last two. -/
def rdCells (m : Mem) : Nat → Nat → Nat → Nat
  | 0, _, acc => acc
  | n + 1, p, acc => rdCells m n (p + 4) (acc <<< 32 % 2 ^ 64 ||| rdBe32 m p)

/-- The body of the property branch, once the property has its name. -/
def dramProp (m : Mem) (s : DramState) (val len : Nat) (name : List UInt8) :
    Except (Except Panic (Option MemoryRegion)) DramState :=
  if s.depth = 1 ∧ s.nodeName.any isMemory then
    if name = ascii "reg" ∧ 4 * (s.addrCells + s.sizeCells) ≤ len then
      let addr := rdCells m s.addrCells val 0
      let size := rdCells m s.sizeCells (val + 4 * s.addrCells) 0
      if size ≠ 0 then .error (.ok (some { base := addr, size := size })) else .ok s
    else .ok s
  else if s.depth = 0 then
    if name = ascii "#address-cells" ∧ 4 ≤ len then .ok { s with addrCells := rdBe32 m val }
    else if name = ascii "#size-cells" ∧ 4 ≤ len then .ok { s with sizeCells := rdBe32 m val }
    else .ok s
  else .ok s

def DramState.beginNode (s : DramState) (name : List UInt8) : DramState :=
  if s.depth = 1 then
    { s with nodeName := some name, inMemoryNode := (ascii "memory").isPrefixOf name, depth := s.depth + 1 }
  else { s with inMemoryNode := false, depth := s.depth + 1 }

def DramState.endNode (s : DramState) : Except (Except Panic (Option MemoryRegion)) DramState :=
  if s.depth = 0 then .error (.error .overflow) else .ok { s with depth := s.depth - 1, nodeName := none }

def dramReader (m : Mem) (strings : Nat) : Reader DramState (Except Panic (Option MemoryRegion)) where
  beginNode := DramState.beginNode
  prop lim s val len nameoff := (cstr m lim (strings + nameoff)).map (dramProp m s val len)
  endNode := DramState.endNode
  finish _ := .ok none

def dramRegion (fuel : Nat) (m : Mem) (dtb : Nat) : Option (Except Panic (Option MemoryRegion)) :=
  if dtb = 0 then some (.ok none)
  else if rdBe32 m dtb ≠ fdtMagic then some (.ok none)
  else
    let structOff := rdBe32 m (dtb + 8)
    let stringsOff := rdBe32 m (dtb + 12)
    walk (dramReader m (dtb + stringsOff)) m dtb fuel fuel structOff .start

/-! ## Words and strings in a blob -/

section Read

variable {m : Mem} {p w lim : Nat} {bs : List UInt8}

theorem or_shifted {a b c d : Nat} (hb : b < 256) (hc : c < 256) (hd : d < 256) :
    a <<< 24 ||| b <<< 16 ||| c <<< 8 ||| d = d + 256 * (c + 256 * (b + 256 * (a + 256 * 0))) := by
  have hcd : c <<< 8 ||| d = c * 2 ^ 8 + d := by
    rw [← Nat.shiftLeft_add_eq_or_of_lt hd, Nat.shiftLeft_eq]
  have hbcd : b <<< 16 ||| (c * 2 ^ 8 + d) = b * 2 ^ 16 + (c * 2 ^ 8 + d) := by
    rw [← Nat.shiftLeft_add_eq_or_of_lt (by omega), Nat.shiftLeft_eq]
  rw [Nat.or_assoc, Nat.or_assoc, hcd, hbcd, ← Nat.shiftLeft_add_eq_or_of_lt (by omega), Nat.shiftLeft_eq]
  omega

theorem rdBe32_eq (m : Mem) (p : Nat) : rdBe32 m p = fromBe (load m p 4) :=
  or_shifted (m (p + 1)).toNat_lt (m (p + 2)).toNat_lt (m (p + 3)).toNat_lt

theorem rdBe32_of_holds (h : Holds m p (be 4 w)) (hw : w < 2 ^ 32) : rdBe32 m p = w := by
  have hload : load m p 4 = be 4 w := by
    have := h
    rwa [Holds, be_length] at this
  rw [rdBe32_eq, hload, fromBe_be hw]

theorem cstr_of_holds (h : Holds m p (bs ++ [0])) (hbs : 0 ∉ bs) (hlim : bs.length < lim) :
    cstr m lim p = some bs := by
  induction bs generalizing p lim with
  | nil =>
    obtain ⟨n, rfl⟩ := Nat.exists_eq_add_of_lt hlim
    rw [cstr, if_pos (holds_cons.mp h).1]
  | cons b bs ih =>
    rw [mem_cons, not_or] at hbs
    obtain ⟨hb, hrest⟩ := holds_cons.mp h
    cases lim with
    | zero => exact absurd hlim (Nat.not_lt_zero _)
    | succ lim =>
      rw [cstr, hb, if_neg (Ne.symm hbs.1), ih hrest hbs.2 (Nat.lt_of_succ_lt_succ hlim)]
      rfl

end Read

/-! ## The loop is a fold over the tokens -/

section Fold

variable {σ ρ α : Type} {f : σ → α → Except ρ σ} {s s' : σ} {a : α} {l l' : List α}

theorem foldlM_cons_ok (h : f s a = .ok s') : (a :: l).foldlM f s = l.foldlM f s' := by
  rw [foldlM_cons, h]
  rfl

theorem foldlM_append_ok (h : l.foldlM f s = .ok s') : (l ++ l').foldlM f s = l'.foldlM f s' := by
  rw [foldlM_append, h]
  rfl

end Fold

section Tokens

variable {σ ρ : Type} {rd : Reader σ ρ} {named : σ → Property → Except ρ σ} {m : Mem}
  {base strings lim p : Nat} {s : σ} {t : Token} {ts : List Token}

/-- What a reader does at a token, given what it does at a property of a tree. -/
def onToken (rd : Reader σ ρ) (named : σ → Property → Except ρ σ) (s : σ) : Token → Except ρ σ
  | .beginNode name => .ok (rd.beginNode s name)
  | .endNode => rd.endNode s
  | .prop p => named s p
  | .nop => .ok s
  | .finish => .error (rd.finish s)

/-- The longest string of the tokens. -/
def Fits (lim : Nat) : Token → Prop
  | .beginNode name => name.length < lim
  | .prop p => p.name.length < lim
  | _ => True

/-- The reader finds the properties of a tree in memory. -/
def ReadsProps (rd : Reader σ ρ) (named : σ → Property → Except ρ σ) (m : Mem) (strings lim : Nat) : Prop :=
  ∀ s q val, Token.Ok (.prop q) → Token.Named m strings (.prop q) → q.name.length < lim →
    Holds m val q.value → rd.prop lim s val q.value.length q.nameoff = some (named s q)

theorem walk_token (fuel : Nat) (hprops : ReadsProps rd named m strings lim) (hp : p % 4 = 0) (hok : t.Ok)
    (hnamed : t.Named m strings) (hfits : Fits lim t) (hbytes : Holds m (base + p) t.bytes) :
    walk rd m base lim (fuel + 1) p s =
      goOn (walk rd m base lim fuel (p + t.bytes.length)) (onToken rd named s t) := by
  cases t with
  | beginNode name =>
    obtain ⟨hcode, hname⟩ := holds_append.mp hbytes
    rw [be_length, pad, holds_append] at hname
    have hnext : align4 (p + 4 + name.length + 4) = p + (Token.beginNode name).bytes.length := by
      rw [Token.bytes, length_append, be_length, pad_length, length_append, align4]
      simp only [length_singleton]
      omega
    rw [walk, rdBe32_of_holds hcode (by decide), if_pos (by rfl), ← Nat.add_assoc,
      cstr_of_holds hname.1 hok hfits, Option.bind_some, hnext]
    rfl
  | prop q =>
    obtain ⟨hcode, hrest⟩ := holds_append.mp hbytes
    obtain ⟨hlen, hrest⟩ := holds_append.mp hrest
    obtain ⟨hoff, hval⟩ := holds_append.mp hrest
    rw [be_length] at hlen
    rw [be_length, be_length] at hoff
    rw [be_length, be_length, be_length, pad, holds_append] at hval
    have hnext : align4 (p + 4 + 8 + q.value.length + 3) = p + (Token.prop q).bytes.length := by
      rw [Token.bytes, length_append, length_append, length_append, be_length,
        be_length, be_length, pad_length, align4]
      omega
    rw [walk, rdBe32_of_holds hcode (by decide), if_neg (by decide), if_pos (by rfl)]
    simp only [← Nat.add_assoc]
    rw [rdBe32_of_holds hlen hok.2.2, rdBe32_of_holds hoff hok.2.1,
      hprops s q _ hok hnamed hfits hval.1, Option.bind_some, hnext]
    rfl
  | endNode =>
    rw [walk, rdBe32_of_holds hbytes (by decide), if_neg (by decide), if_neg (by decide), if_pos (by rfl)]
    rfl
  | nop =>
    rw [walk, rdBe32_of_holds hbytes (by decide), if_neg (by decide), if_neg (by decide),
      if_neg (by decide), if_pos (by rfl)]
    rfl
  | finish =>
    rw [walk, rdBe32_of_holds hbytes (by decide), if_neg (by decide), if_neg (by decide),
      if_neg (by decide), if_neg (by decide)]
    rfl

theorem walk_tokens (fuel : Nat) (hprops : ReadsProps rd named m strings lim) (hp : p % 4 = 0)
    (hblock : Block m strings (base + p) ts) (hfits : ∀ t ∈ ts, Fits lim t) :
    walk rd m base lim (ts.length + fuel) p s =
      goOn (walk rd m base lim fuel (p + (ts.flatMap Token.bytes).length))
        (ts.foldlM (onToken rd named) s) := by
  induction ts generalizing p s with
  | nil => rw [length_nil, Nat.zero_add]; rfl
  | cons t ts ih =>
    obtain ⟨⟨hok, hnamed, hbytes⟩, hrest⟩ := hblock.uncons
    obtain ⟨hfit, hfits⟩ := forall_mem_cons.mp hfits
    rw [length_cons, Nat.add_right_comm, walk_token (ts.length + fuel) hprops hp hok hnamed hfit hbytes,
      foldlM_cons, flatMap_cons, length_append, ← Nat.add_assoc]
    cases onToken rd named s t with
    | error r => rfl
    | ok s' =>
      refine ih ?_ ?_ hfits
      · have := t.bytes_length_mod
        omega
      · rw [← Nat.add_assoc]
        exact hrest

/-- With enough fuel the function returns this. -/
def Returns (f : Nat → Option ρ) (r : ρ) : Prop :=
  ∃ n, ∀ fuel, n ≤ fuel → f fuel = some r

theorem Returns.unique {f : Nat → Option ρ} {r r' : ρ} (h : Returns f r) (h' : Returns f r') : r = r' := by
  obtain ⟨n, hn⟩ := h
  obtain ⟨n', hn'⟩ := h'
  exact Option.some.inj ((hn _ (Nat.le_max_left n n')).symm.trans (hn' _ (Nat.le_max_right n n')))

theorem exists_fits (ts : List Token) : ∃ n, ∀ lim, n ≤ lim → ∀ t ∈ ts, Fits lim t := by
  induction ts with
  | nil => exact ⟨0, fun lim _ t ht => absurd ht not_mem_nil⟩
  | cons t ts ih =>
    obtain ⟨n, hn⟩ := ih
    have hone : ∃ k, ∀ lim, k ≤ lim → Fits lim t := by
      cases t with
      | beginNode name => exact ⟨name.length + 1, fun lim h => h⟩
      | prop q => exact ⟨q.name.length + 1, fun lim h => h⟩
      | endNode | nop | finish => exact ⟨0, fun lim h => trivial⟩
    obtain ⟨k, hk⟩ := hone
    refine ⟨max n k, fun lim hlim => forall_mem_cons.mpr ⟨hk lim ?_, hn lim ?_⟩⟩
    · exact Nat.le_trans (Nat.le_max_right n k) hlim
    · exact Nat.le_trans (Nat.le_max_left n k) hlim

/-- A fold that stops is what the loop returns. -/
theorem walk_returns {r : ρ} (hprops : ∀ lim, ReadsProps rd named m strings lim) (hp : p % 4 = 0)
    (hblock : Block m strings (base + p) ts) (hfold : ts.foldlM (onToken rd named) s = .error r) :
    Returns (fun fuel => walk rd m base fuel fuel p s) r := by
  obtain ⟨n, hn⟩ := exists_fits ts
  refine ⟨max n ts.length, fun lim hlim => ?_⟩
  obtain ⟨fuel, hfuel⟩ := Nat.exists_eq_add_of_le (Nat.le_trans (Nat.le_max_right n ts.length) hlim)
  have hwalk := walk_tokens (s := s) fuel (hprops lim) hp hblock
    (hn lim (Nat.le_trans (Nat.le_max_left n ts.length) hlim))
  rw [← hfuel, hfold] at hwalk
  exact hwalk

theorem nops_foldlM (n : Nat) (s : σ) :
    (List.replicate n Token.nop).foldlM (onToken rd named) s = .ok s := by
  induction n with
  | zero => rfl
  | succ n ih => exact ih

/-- A tree is read when its root is. -/
theorem foldlM_tree {t : Tree} {s₁ s₂ : σ}
    (hbody : t.body.tokens.foldlM (onToken rd named) (rd.beginNode s t.name) = .ok s₁) (hend : rd.endNode s₁ = .ok s₂) :
    t.tokens.foldlM (onToken rd named) s = .error (rd.finish s₂) := by
  calc t.tokens.foldlM (onToken rd named) s
      = (Token.beginNode t.name :: (t.body.tokens ++ .endNode :: (List.replicate t.trail .nop ++ [.finish]))).foldlM
          (onToken rd named) s := foldlM_append_ok (nops_foldlM t.lead s)
    _ = (t.body.tokens ++ Token.endNode :: (List.replicate t.trail .nop ++ [.finish])).foldlM
          (onToken rd named) (rd.beginNode s t.name) := foldlM_cons_ok rfl
    _ = (Token.endNode :: (List.replicate t.trail .nop ++ [.finish])).foldlM (onToken rd named) s₁ :=
        foldlM_append_ok hbody
    _ = (List.replicate t.trail Token.nop ++ [Token.finish]).foldlM (onToken rd named) s₂ := foldlM_cons_ok hend
    _ = [Token.finish].foldlM (onToken rd named) s₂ := foldlM_append_ok (nops_foldlM t.trail s₂)
    _ = .error (rd.finish s₂) := rfl

/-- A node is read when its body is. -/
theorem foldlM_node {name : List UInt8} {body rest : Body} {s₁ s₂ : σ}
    (hbody : body.tokens.foldlM (onToken rd named) (rd.beginNode s name) = .ok s₁) (hend : rd.endNode s₁ = .ok s₂) :
    (Body.node name body rest).tokens.foldlM (onToken rd named) s = rest.tokens.foldlM (onToken rd named) s₂ := by
  calc (Body.node name body rest).tokens.foldlM (onToken rd named) s
      = (body.tokens ++ Token.endNode :: rest.tokens).foldlM (onToken rd named) (rd.beginNode s name) :=
        foldlM_cons_ok rfl
    _ = (Token.endNode :: rest.tokens).foldlM (onToken rd named) s₁ := foldlM_append_ok hbody
    _ = rest.tokens.foldlM (onToken rd named) s₂ := foldlM_cons_ok hend

end Tokens

/-! ## What `dram_region` does at a property -/

/-- The same, with the value read from the tree. -/
def dramNamed (s : DramState) (q : Property) : Except (Except Panic (Option MemoryRegion)) DramState :=
  dramProp (fun i => q.value.getD i 0) s 0 q.value.length q.name

/-- `dram_region` over the tokens of a tree. -/
abbrev dramToken (m : Mem) (strings : Nat) : DramState → Token → Except (Except Panic (Option MemoryRegion)) DramState :=
  onToken (dramReader m strings) dramNamed

section Dram

variable {m m' : Mem} {p p' n acc strings : Nat} {s : DramState} {q : Property}

theorem rdBe32_congr (h : ∀ i < 4, m (p + i) = m' (p' + i)) : rdBe32 m p = rdBe32 m' p' := by
  rw [rdBe32, rdBe32, h 1 (by decide), h 2 (by decide), h 3 (by decide),
    show m p = m' p' from h 0 (by decide)]

theorem rdCells_congr (h : ∀ i < 4 * n, m (p + i) = m' (p' + i)) : rdCells m n p acc = rdCells m' n p' acc := by
  induction n generalizing p p' acc with
  | zero => rfl
  | succ n ih =>
    rw [rdCells, rdCells, rdBe32_congr fun i hi => h i (by omega)]
    refine ih fun i hi => ?_
    rw [Nat.add_assoc, Nat.add_assoc]
    exact h (4 + i) (by omega)

/-- Only the bytes of the value are read. -/
theorem dramProp_congr {val val' len : Nat} {name : List UInt8}
    (h : ∀ i < len, m (val + i) = m' (val' + i)) :
    dramProp m s val len name = dramProp m' s val' len name := by
  rw [dramProp, dramProp]
  refine if_congr Iff.rfl ?_ (if_congr Iff.rfl ?_ rfl)
  · split
    · rename_i hreg
      have haddr : rdCells m s.addrCells val 0 = rdCells m' s.addrCells val' 0 :=
        rdCells_congr fun i hi => h i (by omega)
      have hsize : rdCells m s.sizeCells (val + 4 * s.addrCells) 0 =
          rdCells m' s.sizeCells (val' + 4 * s.addrCells) 0 := by
        refine rdCells_congr fun i hi => ?_
        rw [Nat.add_assoc, Nat.add_assoc]
        exact h _ (by omega)
      rw [haddr, hsize]
    · rfl
  · by_cases hlen : 4 ≤ len
    · rw [rdBe32_congr fun i hi => h i (by omega)]
    · rw [if_neg fun h => hlen h.2, if_neg fun h => hlen h.2, if_neg fun h => hlen h.2,
        if_neg fun h => hlen h.2]

theorem dramReader_reads (m : Mem) (strings lim : Nat) :
    ReadsProps (dramReader m strings) dramNamed m strings lim := by
  intro s q val hok hnamed hlim hval
  show (cstr m lim (strings + q.nameoff)).map (dramProp m s val q.value.length) = _
  rw [cstr_of_holds hnamed hok.1 hlim, Option.map_some]
  refine congrArg some (dramProp_congr fun i hi => ?_)
  have hget := load_getElem? m val q.value.length i
  rw [hval, if_pos hi] at hget
  rw [Nat.zero_add, getD_eq_getElem?_getD, hget, Option.getD_some]

/-! ## The depth never fits -/

/-- Inside of the root: the root's own properties are at depth 1, and there no node name is set. -/
structure Settled (s : DramState) : Prop where
  inside : 1 ≤ s.depth
  unnamed : s.depth = 1 → s.nodeName = none

theorem Settled.prop (h : Settled s) (q : Property) : dramNamed s q = .ok s := by
  have hmem : ¬ (s.depth = 1 ∧ s.nodeName.any isMemory = true) := by
    rintro ⟨hd, hany⟩
    rw [h.unnamed hd] at hany
    cases hany
  have hroot : s.depth ≠ 0 := Nat.ne_of_gt h.inside
  rw [dramNamed, dramProp, if_neg hmem, if_neg hroot]

theorem Settled.beginNode (h : Settled s) (name : List UInt8) :
    (s.beginNode name).depth = s.depth + 1 ∧ Settled (s.beginNode name) := by
  have hdepth : (s.beginNode name).depth = s.depth + 1 := by
    rw [DramState.beginNode]
    split <;> rfl
  refine ⟨hdepth, by omega, fun hone => ?_⟩
  have := h.inside
  omega

theorem Settled.endNode (h : 2 ≤ s.depth) :
    ∃ s', s.endNode = .ok s' ∧ s'.depth + 1 = s.depth ∧ Settled s' := by
  refine ⟨_, if_neg (by omega), ?_, ⟨?_, fun _ => rfl⟩⟩
  · show s.depth - 1 + 1 = s.depth
    omega
  · show 1 ≤ s.depth - 1
    omega

/-- A node and all that is below it leaves the reader at the depth it came with. -/
theorem Settled.body (m : Mem) (strings : Nat) (h : Settled s) (b : Body) :
    ∃ s', b.tokens.foldlM (dramToken m strings) s = .ok s' ∧
      s'.depth = s.depth ∧ Settled s' := by
  induction b generalizing s with
  | nil => exact ⟨s, rfl, rfl, h⟩
  | nop rest ih => exact ih h
  | prop q rest ih =>
    obtain ⟨s', hs', hrest⟩ := ih h
    have hq : dramToken m strings s (.prop q) = .ok s := h.prop q
    exact ⟨s', (foldlM_cons_ok hq).trans hs', hrest⟩
  | node name body rest ihbody ihrest =>
    have hroot := h.inside
    obtain ⟨hd₁, h₁⟩ := h.beginNode name
    obtain ⟨s₂, hs₂, hd₂, h₂⟩ := ihbody h₁
    obtain ⟨s₃, hs₃, hd₃, h₃⟩ := Settled.endNode (s := s₂) (by omega)
    obtain ⟨s₄, hs₄, hd₄, h₄⟩ := ihrest h₃
    exact ⟨s₄, (foldlM_node hs₂ hs₃).trans hs₄, by omega, h₄⟩

theorem tree_foldlM (t : Tree) :
    t.tokens.foldlM (dramToken m strings) .start = .error (.ok none) := by
  have hroot : Settled (DramState.start.beginNode t.name) := ⟨Nat.le_refl 1, fun _ => rfl⟩
  obtain ⟨s, hs, hd, -⟩ := hroot.body m strings t.body
  have hend : s.endNode = .ok { s with depth := s.depth - 1, nodeName := none } :=
    if_neg (by rw [hd]; exact Nat.one_ne_zero)
  exact foldlM_tree hs hend

end Dram

/-! ## What the tree says -/

/-- The root's `#address-cells` or `#size-cells`, two where it has none. -/
def cellsOf (root : Body) (name : String) : Nat :=
  ((root.value? (ascii name)).filter (4 ≤ ·.length)).elim 2 fun v => fromBe (v.take 4)

/-- The first base and size of a `reg` value. -/
def decodeReg (addrCells sizeCells : Nat) (v : List UInt8) : Option MemoryRegion :=
  let size := fromBe ((v.drop (4 * addrCells)).take (4 * sizeCells))
  if 4 * (addrCells + sizeCells) ≤ v.length ∧ size ≠ 0 then
    some { base := fromBe (v.take (4 * addrCells)), size := size }
  else none

/-- The window of the first memory node below the root that has one. -/
def memoryOf (root : Body) : Option MemoryRegion :=
  (root.children.filter (isMemory ·.1)).findSome? fun c =>
    (c.2.value? (ascii "reg")).bind (decodeReg (cellsOf root "#address-cells") (cellsOf root "#size-cells"))

section Region

variable {m : Mem} {dtb : Nat} {h : Header} {tree : Tree}

/-- On every well-formed blob, `None`. -/
theorem dramRegion_returns_none (hb : Blob m dtb h tree) :
    Returns (dramRegion · m dtb) (.ok none) := by
  have hmagic : ¬ rdBe32 m dtb ≠ fdtMagic := not_not.mpr (rdBe32_of_holds hb.magic (by decide))
  have hstruct : rdBe32 m (dtb + 8) = h.structOff := rdBe32_of_holds hb.structOff hb.structOff_lt
  have hstrings : rdBe32 m (dtb + 12) = h.stringsOff := rdBe32_of_holds hb.stringsOff hb.stringsOff_lt
  obtain ⟨n, hn⟩ := walk_returns (dramReader_reads m (dtb + h.stringsOff)) hb.aligned hb.block (tree_foldlM tree)
  refine ⟨n, fun fuel hfuel => ?_⟩
  simp only [dramRegion, if_neg hb.nonzero, if_neg hmagic, hstruct, hstrings]
  exact hn fuel hfuel

/-- `dram_region` returns what the tree says exactly when the tree says nothing. -/
theorem dramRegion_iff_no_memory (hb : Blob m dtb h tree) :
    Returns (dramRegion · m dtb) (.ok (memoryOf tree.body)) ↔ memoryOf tree.body = none := by
  have hnone := dramRegion_returns_none hb
  constructor
  · intro hreturns
    exact Except.ok.inj (hreturns.unique hnone)
  · intro hmem
    rw [hmem]
    exact hnone

end Region

/-! ## A blob -/

/-- Memory that holds a blob, and nothing else. -/
def image (dtb : Nat) (h : Header) (tree : Tree) (strings : List UInt8) : Mem :=
  let m := store (store (store (fun _ => 0) dtb (be 4 0xD00DFEED)) (dtb + 8) (be 4 h.structOff))
    (dtb + 12) (be 4 h.stringsOff)
  store (store m (dtb + h.structOff) (tree.tokens.flatMap Token.bytes)) (dtb + h.stringsOff) strings

/-- The strings block of the trees below. -/
def names : List UInt8 :=
  ascii "reg" ++ [0] ++ ascii "#size-cells" ++ [0]

/-- A root with one child, whose `reg` is a window of 128 MiB at 1 GiB. -/
def oneNode (name : String) : Tree where
  lead := 0
  name := []
  body :=
    .prop { name := ascii "#size-cells", nameoff := 4, value := be 4 2 } <|
    .node (ascii name)
      (.prop { name := ascii "reg", nameoff := 0, value := be 8 0x40000000 ++ be 8 0x8000000 } .nil) .nil
  trail := 0

def header : Header := { structOff := 40, stringsOff := 160 }

theorem dramRegion_cpus : memoryOf (oneNode "cpus").body = none ∧
    Returns (dramRegion · (image 64 header (oneNode "cpus") names) 64) (.ok (memoryOf (oneNode "cpus").body)) := by
  have hnone : memoryOf (oneNode "cpus").body = none := by decide +kernel
  have hblob : Blob (image 64 header (oneNode "cpus") names) 64 header (oneNode "cpus") := by
    decide +kernel
  exact ⟨hnone, (dramRegion_iff_no_memory hblob).mpr hnone⟩

/-- A blob with a memory node, for which the function returns nothing. -/
theorem dramRegion_misses_memory :
    ¬ ∀ (m : Mem) (dtb : Nat) (h : Header) (tree : Tree) (r : MemoryRegion), Blob m dtb h tree →
      memoryOf tree.body = some r → Returns (dramRegion · m dtb) (.ok (some r)) := by
  intro hall
  have hblob : Blob (image 64 header (oneNode "memory@40000000") names) 64 header (oneNode "memory@40000000") := by
    decide +kernel
  have hmem : memoryOf (oneNode "memory@40000000").body = some { base := 0x40000000, size := 0x8000000 } := by
    decide +kernel
  have hsome := hall _ _ _ _ _ hblob hmem
  cases hsome.unique (dramRegion_returns_none hblob)

end Tanix.Fdt
