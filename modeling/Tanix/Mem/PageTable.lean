/-
# `Tanix.Mem.PageTable` — building, walking and freeing translation tables

The functions of `kernel/src/mem/page_table.rs`.  Physical memory is kept page
by page: `mem p i` is word `i` of the 4 KiB page at address `p`.  Every pointer
the code follows here is page-aligned (a frame, a root, or the address bits of
a descriptor), and every index is masked to nine bits.

`Ram` is the memory together with the frame allocator.  Functions that allocate
return `Except Panic`: the code has `expect("page table: out of memory")` where
a frame is missing, and `debug_assert`s on alignment.

The recursions over the levels count down: `rem = 3` is a root, `rem = 0` a
level-3 table.  TLB and cache maintenance have no counterpart in the model.
-/
import Tanix.Mem.Descriptor
import Mathlib.Data.List.FinRange

namespace Tanix

abbrev Idx := Fin 512

structure Ram where
  frames : FrameAllocator
  mem : Nat → Idx → Nat

/-! ## Indices -/

/-- `(va >> shift) & 0x1FF` -/
def idxAt (shift va : Nat) : Idx :=
  ⟨va / 2 ^ shift % 512, Nat.mod_lt _ (by decide)⟩

def l0Idx (va : Nat) : Idx := idxAt 39 va
def l1Idx (va : Nat) : Idx := idxAt 30 va
def l2Idx (va : Nat) : Idx := idxAt 21 va
def l3Idx (va : Nat) : Idx := idxAt 12 va

/-- A level-2 block: 2 MiB. -/
abbrev blockSize : Nat := 2 * 1024 * 1024

namespace Ram

/-! ## Memory and frames -/

variable (r : Ram)

/-- `PageTable::set_entry` -/
def setEntry (tbl : Nat) (i : Idx) (v : Nat) : Ram :=
  { r with mem := Function.update r.mem tbl (Function.update (r.mem tbl) i v) }

/-- Overwrite a whole page. -/
def setPage (p : Nat) (words : Idx → Nat) : Ram :=
  { r with mem := Function.update r.mem p words }

/-- `alloc_frame` -/
def allocFrame : Option (Ram × Nat) :=
  r.frames.alloc.map fun (a, p) => ({ r with frames := a }, p)

/-- `alloc_frames` -/
def allocFrames (n : Nat) : Option (Ram × Nat) :=
  (r.frames.allocContiguous n).map fun (a, p) => ({ r with frames := a }, p)

/-- `free_frame` -/
def freeFrame (p : Nat) : Except Panic Ram :=
  match r.frames.release p with
  | .ok a => .ok { r with frames := a }
  | .error e => .error e

/-- `alloc_table`: a zeroed table. -/
def allocTable : Except Panic (Ram × Nat) :=
  match r.allocFrame with
  | none => .error .pageTableOom
  | some (r, p) => .ok (r.setPage p fun _ => 0, p)

/-- `alloc_table_frame`: a frame with whatever is in it, reserved once more. -/
def allocTableFrame : Except Panic (Ram × Nat) :=
  match r.allocFrame with
  | none => .error .pageTableOom
  | some (r, p) => .ok ({ r with frames := r.frames.reserveRegion p pageSize }, p)

/-! ## Mapping -/

/-- `ensure_table`: follow any valid descriptor, or hang a new table in. -/
def ensureTable (tbl : Nat) (i : Idx) : Except Panic (Ram × Nat) :=
  if isValid (r.mem tbl i) then .ok (r, addrOf (r.mem tbl i))
  else do
    let (r, child) ← r.allocTable
    return (r.setEntry tbl i (child ||| descValid ||| descTable), child)

variable (kernelL0 va : Nat)

/-- `map_page`, in the kernel's own tables. -/
def mapPage (pa flags : Nat) : Except Panic Ram := do
  if va % pageSize ≠ 0 ∨ pa % pageSize ≠ 0 then .error .mapUnaligned
  else
    let (r, l1) ← r.ensureTable kernelL0 (l0Idx va)
    let (r, l2) ← r.ensureTable l1 (l1Idx va)
    if isBlock (r.mem l2 (l2Idx va)) then return r
    else
      let (r, l3) ← r.ensureTable l2 (l2Idx va)
      return r.setEntry l3 (l3Idx va) (pa ||| flags ||| descPage)

/-- `map_range`: identity, page by page. -/
def mapRange (pa size flags : Nat) : Except Panic Ram :=
  (List.range ((size + pageSize - 1) / pageSize)).foldlM
    (fun r i => r.mapPage kernelL0 (pa + i * pageSize) (pa + i * pageSize) flags) r

/-- `map_block`: identity, by 2 MiB blocks, all in the table of the first address. -/
def mapBlock (pa size flags : Nat) : Except Panic Ram := do
  if va % blockSize ≠ 0 ∨ pa % blockSize ≠ 0 then .error .mapUnaligned
  else
    let (r, l1) ← r.ensureTable kernelL0 (l0Idx va)
    let (r, l2) ← r.ensureTable l1 (l1Idx va)
    return (List.range ((size + blockSize - 1) / blockSize)).foldl
      (fun r i => r.setEntry l2 (l2Idx (va + i * blockSize)) (pa + i * blockSize ||| flags)) r

/-- `clone_level`, for a table with `rem` levels below it. -/
def cloneLevel : Nat → Ram → Nat → Except Panic (Ram × Nat)
  | 0, r, src => do
      let (r, dst) ← r.allocTableFrame
      let r ← (List.finRange 512).foldlM
        (fun (r : Ram) i => (.ok (r.setEntry dst i (r.mem src i)) : Except Panic Ram)) r
      return (r, dst)
  | rem + 1, r, src => do
      let (r, dst) ← r.allocTableFrame
      let r ← (List.finRange 512).foldlM
        (fun (r : Ram) i =>
          let e := r.mem src i
          if isTable e then do
            let (r, child) ← cloneLevel rem r (addrOf e)
            return r.setEntry dst i (child ||| descValid ||| descTable)
          else (.ok (r.setEntry dst i e) : Except Panic Ram)) r
      return (r, dst)

/-- `clone_kernel_table` -/
def cloneKernelTable : Except Panic (Ram × Nat) :=
  cloneLevel 3 r kernelL0

/-- Split a covering block into a level-3 table that keeps the block's attributes. -/
def splitBlock (l2 cur : Nat) : Except Panic Ram := do
  let l2e := r.mem l2 (l2Idx cur)
  if isBlock l2e then
    let (r, l3) ← r.allocTableFrame
    let blockBase := cur - cur % blockSize
    let fillFlags := (l2e &&& (0xFFF ||| descUxn ||| descPxn)) ||| descPage
    let r := r.setPage l3 fun i => (blockBase + i * pageSize) ||| fillFlags
    return r.setEntry l2 (l2Idx cur) (l3 ||| descValid ||| descTable)
  else return r

/-- One turn of the loop of `map_user_pages`, for the page at `va + offset`. -/
def mapUserPage (l2 va offset flags : Nat) : Except Panic Ram := do
  let cur ← checkedAdd va offset
  let r ← r.splitBlock l2 cur
  let (r, l3) ← r.ensureTable l2 (l2Idx cur)
  return r.setEntry l3 (l3Idx cur) (cur ||| flags)

/-- `map_user_pages`: the two upper tables are looked up once, for the first address. -/
def mapUserPages (root va size flags : Nat) : Except Panic Ram := do
  if va % pageSize ≠ 0 ∨ size % pageSize ≠ 0 then .error .mapUnaligned
  else
    let (r, l1) ← r.ensureTable root (l0Idx va)
    let (r, l2) ← r.ensureTable l1 (l1Idx va)
    (List.range (size / pageSize)).foldlM
      (fun r i => r.mapUserPage l2 va (i * pageSize) flags) r

/-- `map_user_frame` -/
def mapUserFrame (root va pa flags : Nat) : Except Panic Ram := do
  if va % pageSize ≠ 0 ∨ pa % pageSize ≠ 0 then .error .mapUnaligned
  else
    let (r, l1) ← r.ensureTable root (l0Idx va)
    let (r, l2) ← r.ensureTable l1 (l1Idx va)
    let (r, l3) ← r.ensureTable l2 (l2Idx va)
    return r.setEntry l3 (l3Idx va) (pa ||| flags)

/-! ## Reading and rewriting one page descriptor -/

/-- `read_user_page`: 0 where there is no level-3 slot. -/
def readUserPage (root va : Nat) : Nat :=
  let l0e := r.mem root (l0Idx va)
  if !isValid l0e then 0
  else
    let l1e := r.mem (addrOf l0e) (l1Idx va)
    if !isValid l1e then 0
    else
      let l2e := r.mem (addrOf l1e) (l2Idx va)
      if !isTable l2e then 0
      else r.mem (addrOf l2e) (l3Idx va)

/-- `write_user_page` -/
def writeUserPage (root va entry : Nat) : Ram :=
  let l1 := addrOf (r.mem root (l0Idx va))
  let l2 := addrOf (r.mem l1 (l1Idx va))
  let l3 := addrOf (r.mem l2 (l2Idx va))
  r.setEntry l3 (l3Idx va) entry

/-! ## Freeing a tree -/

/-- `walk` of `free_task_tables`: children first, then the table itself. -/
def walk : Nat → Ram → Nat → Except Panic Ram
  | 0, r, tbl => r.freeFrame tbl
  | rem + 1, r, tbl => do
      let r ← (List.finRange 512).foldlM
        (fun (r : Ram) i =>
          if isTable (r.mem tbl i) then walk rem r (addrOf (r.mem tbl i))
          else (.ok r : Except Panic Ram)) r
      r.freeFrame tbl

/-- `free_task_tables` -/
def freeTaskTables (root : Nat) : Except Panic Ram :=
  if root = kernelL0 then .error .kernelTable else walk 3 r root

end Ram

end Tanix
