/-
# `Tanix.Sys.Heap` — the first-fit heap of the servers

`libtanix-sys/src/heap.rs`.  Blocks have a 16-byte header (`size`, `next`) and start at
multiples of 16, so memory is taken in units of a header: `mem a` is what the 16 bytes at `a`
hold, seen as a header.

A call of `alloc` is cut where the kernel answers:

    alloc      idle       → ensuring     the list is empty: a first chunk is needed
                          → searching
    frames     ensuring   → searching    or null, when the kernel has no frames
    search     searching  → idle         a fit was found, or the cap is reached
                          → growing
    frames     growing    → searching    or null

The walks over the list take the number of links they may follow; one that runs out of it is
no step.  Between calls the program writes to its payloads, and others to memory that is not
the heap's.
-/
import Tanix.Lib.Extents
import Tanix.Lib.Segment
import Tanix.Lib.Run

namespace Tanix.Sys

open Extents

/-- `HEADER`: size of a block header -/
abbrev header : Nat := 16

/-- `BLOCK`: minimum block size -/
abbrev minBlock : Nat := 32

/-- `PAGE` -/
abbrev page : Nat := 4096

/-- `INITIAL_PAGES` -/
abbrev initialPages : Nat := 16

/-- `GROW_PAGES` -/
abbrev growPages : Nat := 16

/-- `MAX_PAGES` -/
abbrev maxPages : Nat := 256

structure Block where
  size : Nat
  next : Nat
  deriving DecidableEq, Repr

structure Layout where
  size : Nat
  align : Nat
  deriving DecidableEq, Repr

variable (n : Nat)

/-- `usize::next_multiple_of` -/
def nextMultipleOf (k : Nat) : Nat :=
  (n + k - 1) / k * k

variable (layout : Layout)

def blockSize : Nat :=
  let align := max layout.align header
  let total := header + layout.size
  let total := if header < align then total + (align - header) else total
  nextMultipleOf total header

/-! ## The list -/

abbrev Mem := Nat → Block

def setSize (mem : Mem) (a size : Nat) : Mem :=
  Function.update mem a { mem a with size }

def setNext (mem : Mem) (a next : Nat) : Mem :=
  Function.update mem a { mem a with next }

/-- The walk of `alloc`: the first block that is large enough, with the one before it. -/
def findFit (mem : Mem) (need : Nat) : (links prev cur : Nat) → Option (Option (Nat × Nat))
  | 0, _, _ => none
  | links + 1, prev, cur =>
    if cur = 0 then some none
    else if need ≤ (mem cur).size then some (some (prev, cur))
    else findFit mem need links cur (mem cur).next

/-- The walk of `free`: the place between two blocks. -/
def findPlace (mem : Mem) (block : Nat) : (links prev cur : Nat) → Option (Nat × Nat)
  | 0, _, _ => none
  | links + 1, prev, cur =>
    if cur ≠ 0 ∧ cur < block then findPlace mem block links cur (mem cur).next
    else some (prev, cur)

/-! ## The heap -/

/-- A pointer that `alloc` returned, and the size that was asked for. -/
structure Live where
  ptr : Nat
  size : Nat
  deriving DecidableEq, Repr

def Live.block (x : Live) : Nat :=
  x.ptr - header

inductive Pc
  | idle
  | ensuring (layout : Layout)
  | searching (layout : Layout)
  | growing (layout : Layout)
  deriving DecidableEq, Repr

structure State where
  mem : Mem
  head : Nat
  pages : Nat
  pc : Pc
  /-- what the kernel handed out, and what the program has -/
  chunks : List Extent
  live : List Live

inductive Event
  | alloc (layout : Layout)
  | frames (base : Nat)
  | search (links : Nat)
  | free (ptr links : Nat)
  | write (a : Nat) (value : Block)
  deriving DecidableEq, Repr

namespace State

variable (s : State)

def extent (a : Nat) : Extent :=
  ⟨a, (s.mem a).size⟩

/-- `ensure` and `grow` with frames from the kernel: the chunk becomes the first free block. -/
def claim (base n : Nat) (next : Nat) : State :=
  { s with
    mem := setNext (setSize s.mem base (n * page)) base next
    head := base
    chunks := ⟨base, n * page⟩ :: s.chunks }

/-- The link that led to a block is the head or the link of the block before. -/
def setLink (prev a : Nat) : State :=
  if prev = 0 then { s with head := a } else { s with mem := setNext s.mem prev a }

/-- `alloc` takes a block that is large enough out of the list. -/
def take (need prev cur : Nat) : State :=
  let size := (s.mem cur).size
  if minBlock ≤ size - need then
    let rest := cur + need
    let mem := setSize s.mem rest (size - need)
    let mem := setNext mem rest (mem cur).next
    let mem := setNext (setSize mem cur need) cur 0
    let s := setLink { s with mem } prev rest
    { s with mem := setNext s.mem cur 0 }
  else
    let s := s.setLink prev (s.mem cur).next
    { s with mem := setNext s.mem cur 0 }

/-- `free` of a block behind the first one: it goes between `prev` and `cur`. -/
def insert (block prev cur : Nat) : State :=
  let mem := setNext (setNext s.mem block cur) prev block
  if cur ≠ 0 ∧ block + (mem block).size = cur then
    let mem := setSize mem block ((mem block).size + (mem cur).size)
    { s with mem := setNext mem block (mem cur).next }
  else { s with mem }

def free (block links : Nat) : Option State :=
  if s.head = 0 ∨ block < s.head then
    some { s with mem := setNext s.mem block s.head, head := block }
  else
    (findPlace s.mem block links s.head (s.mem s.head).next).map fun place =>
      s.insert block place.1 place.2

/-- Frames that nobody was given before. -/
def Fresh (base n : Nat) : Prop :=
  base % page = 0 ∧ base ≠ 0 ∧ ∀ c ∈ s.chunks, c.Apart ⟨base, n * page⟩

instance (base n : Nat) : Decidable (s.Fresh base n) :=
  inferInstanceAs (Decidable (_ ∧ _ ∧ _))

/-- Memory that somebody else than the heap may write to: a payload, or outside of the heap. -/
def Foreign (a : Nat) : Prop :=
  (∃ x ∈ s.live, x.ptr ≤ a ∧ a < x.block + (s.mem x.block).size) ∨ ∀ c ∈ s.chunks, ¬ c.Has a

def answer (layout : Layout) (base n pages next : Nat) : Option State :=
  if base = 0 then some { s with pc := .idle }
  else if s.Fresh base n then some { s.claim base n next with pages, pc := .searching layout }
  else none

def found (layout : Layout) : Option (Nat × Nat) → State
  | none => { s with pc := if maxPages ≤ s.pages then .idle else .growing layout }
  | some (prev, cur) =>
    { s.take (blockSize layout) prev cur with
      pc := .idle, live := ⟨cur + header, layout.size⟩ :: s.live }

/-- The steps but for writes to foreign memory. -/
def next : Event → Option State
  | .alloc layout =>
    if s.pc = .idle ∧ layout.align ≤ 16 then
      some { s with pc := if s.head ≠ 0 then .searching layout else .ensuring layout }
    else none
  | .frames base =>
    match s.pc with
    | .ensuring layout => s.answer layout base initialPages initialPages 0
    | .growing layout =>
      let n := min (maxPages - s.pages) growPages
      s.answer layout base n (s.pages + n) s.head
    | _ => none
  | .search links =>
    match s.pc with
    | .searching layout =>
      (findFit s.mem (blockSize layout) links 0 s.head).map (s.found layout)
    | _ => none
  | .free ptr links =>
    match s.pc, s.live.find? (·.ptr = ptr) with
    | .idle, some x => free { s with live := s.live.erase x } (ptr - header) links
    | _, _ => none
  | .write _ _ => none

inductive Step (s : State) : Event → State → Prop
  | call {e : Event} {s' : State} : s.next e = some s' → Step s e s'
  | write {a : Nat} {value : Block} : s.pc = .idle → a % header = 0 → s.Foreign a →
      Step s (.write a value) { s with mem := Function.update s.mem a value }

/-- A heap that was never used, over any memory. -/
def start (mem : Mem) : State :=
  { mem, head := 0, pages := 0, pc := .idle, chunks := [], live := [] }

/-- The blocks in use and the blocks of the free list. -/
def blocks (free : List Nat) : List Nat :=
  s.live.map Live.block ++ free

/-- `free` is the free list, and it and the blocks in use are what the claimed chunks were
carved into. -/
structure Safe (s : State) (free : List Nat) : Prop where
  listed : Seg (fun a => (s.mem a).next) s.head free 0
  apart : ((s.blocks free).map s.extent).Pairwise Extent.Apart
  inside : ∀ a ∈ s.blocks free, ∀ x, (s.extent a).Has x → ∃ c ∈ s.chunks, c.Has x
  aligned : ∀ x ∈ s.live, x.ptr % 16 = 0
  large : ∀ x ∈ s.live, x.ptr + x.size ≤ x.block + (s.mem x.block).size
  sum : total ((s.blocks free).map s.extent) = total s.chunks

/-- No walk goes on forever. -/
def Answers : Prop :=
  (∀ layout, s.pc = .searching layout → ∃ links s', s.Step (.search links) s') ∧
    ∀ x ∈ s.live, s.pc = .idle → ∃ links s', s.Step (.free x.ptr links) s'

end State

/-! ## Sizes -/

theorem le_nextMultipleOf : n ≤ nextMultipleOf n header := by
  simp only [nextMultipleOf, header]
  omega

theorem blockSize_mod : blockSize layout % header = 0 :=
  Nat.mul_mod_left ..

theorem le_blockSize : header + layout.size ≤ blockSize layout := by
  rw [blockSize]
  refine Nat.le_trans ?_ (le_nextMultipleOf _)
  split
  · exact Nat.le_add_right _ _
  · exact Nat.le_refl _

/-! ## The walks -/

section Walks

variable {mem : Mem} {need block links prev cur p c : Nat} {l : List Nat}

section

variable (hseg : Seg (fun a => (mem a).next) cur l 0)

include hseg

/-- What the walk of `alloc` finds is a block of the list, with the block before it. -/
theorem findFit_found (h : findFit mem need links prev cur = some (some (p, c))) :
    ∃ front back, l = front ++ c :: back ∧ p = front.getLastD prev ∧ need ≤ (mem c).size := by
  induction links generalizing prev cur l with
  | zero => cases h
  | succ links ih =>
    rw [findFit] at h
    split at h
    · cases h
    · next hcur =>
      cases l with
      | nil => exact absurd hseg hcur
      | cons a l =>
        obtain ⟨rfl, hseg⟩ := hseg
        split at h
        · next hfit =>
            cases h
            exact ⟨[], l, rfl, rfl, hfit⟩
        · obtain ⟨front, back, rfl, rfl, hfit⟩ := ih hseg h
          exact ⟨cur :: front, back, rfl, (List.getLastD_cons ..).symm, hfit⟩

theorem findFit_total (need prev : Nat) :
    ∃ r, findFit mem need (l.length + 1) prev cur = some r := by
  induction l generalizing prev cur with
  | nil =>
    obtain rfl := hseg
    exact ⟨none, rfl⟩
  | cons a l ih =>
    obtain ⟨rfl, hseg⟩ := hseg
    rw [findFit]
    split
    · exact ⟨none, rfl⟩
    · split
      · exact ⟨some (prev, cur), rfl⟩
      · exact ih hseg cur

/-- The place that the walk of `free` finds cuts the list in two. -/
theorem findPlace_found (h : findPlace mem block links prev cur = some (p, c)) :
    ∃ front back, l = front ++ back ∧ p = front.getLastD prev ∧ c = back.headD 0 := by
  induction links generalizing prev cur l with
  | zero => cases h
  | succ links ih =>
    rw [findPlace] at h
    split at h
    · next hcur =>
      cases l with
      | nil => exact absurd hseg hcur.1
      | cons a l =>
        obtain ⟨rfl, hseg⟩ := hseg
        obtain ⟨front, back, rfl, rfl, rfl⟩ := ih hseg h
        exact ⟨cur :: front, back, rfl, (List.getLastD_cons ..).symm, rfl⟩
    · cases h
      exact ⟨[], l, rfl, rfl, hseg.start_eq⟩

theorem findPlace_total (block prev : Nat) :
    ∃ r, findPlace mem block (l.length + 1) prev cur = some r := by
  induction l generalizing prev cur with
  | nil =>
    obtain rfl := hseg
    exact ⟨(prev, 0), rfl⟩
  | cons a l ih =>
    obtain ⟨rfl, hseg⟩ := hseg
    rw [findPlace]
    split
    · exact ih hseg cur
    · exact ⟨(prev, cur), rfl⟩

end

end Walks

end Tanix.Sys
