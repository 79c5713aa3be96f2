/-
# `Tanix.Vm.Loader` — loading an image

`kernel/src/vm/loader.rs`.  The image is a list of bytes, the memory it is loaded into a byte
at every address.  The loader follows the headers of the image through raw pointers; each of
its accesses is checked here against the bytes it may touch, and the first one outside of them
ends the load, since what the code would do afterwards is not determined:

    a read outside of the image                   `Stop.wildRead`
    a write outside of the target region          `Stop.wildWrite`
    `image[i..]` with `i` behind the end          `Stop.index`
    a sum that leaves 64 bits                     `Stop.overflow`
    `Err` of the function                         `Stop.err`

The region is not known to the code: a guest is loaded at the start of its RAM, a server with
base 0 and the end of its region as the size.
-/
import Tanix.Lib.Gives
import Tanix.Lib.Memory
import Tanix.Mem.Frame

namespace Tanix.Vm

open Memory

inductive HvError where
  | noMemory
  | notSupported
  deriving DecidableEq, Repr

inductive Stop where
  | err (e : HvError)
  | overflow
  | index
  | wildRead
  | wildWrite
  deriving DecidableEq, Repr

/-- The addresses the loader may write. -/
structure Region where
  lo : Nat
  hi : Nat

variable (region : Region)

/-- No byte of `[a, a + n)` is outside of the region. -/
def Region.Holds (a n : Nat) : Prop :=
  n = 0 ∨ region.lo ≤ a ∧ a + n ≤ region.hi

instance (a n : Nat) : Decidable (region.Holds a n) :=
  inferInstanceAs (Decidable (_ ∨ _))

/-! ## Accesses -/

variable (image : List UInt8)

/-- The little-endian number in `n` bytes of the image. -/
def field (off n : Nat) : Nat :=
  fromLe ((image.drop off).take n)

def readField (off n : Nat) : Except Stop Nat :=
  if off + n ≤ image.length then .ok (field image off n) else .error .wildRead

/-- `usize` addition -/
def sum (a b : Nat) : Except Stop Nat :=
  if a + b < 2 ^ 64 then .ok (a + b) else .error .overflow

/-- `image[off..]` -/
def sliceFrom (off : Nat) : Except Stop Unit :=
  if off ≤ image.length then .ok () else .error .index

variable (ram : Mem)

def writeBytes (a : Nat) (l : List UInt8) : Except Stop Mem :=
  if region.Holds a l.length then .ok (store ram a l) else .error .wildWrite

/-- `copy_nonoverlapping` out of the image -/
def copyIn (region : Region) (ram : Mem) (off dst n : Nat) : Except Stop Mem := do
  sliceFrom image off
  if off + n ≤ image.length then writeBytes region ram dst ((image.drop off).take n)
  else .error .wildRead

/-! ## Headers -/

abbrev elfMag : List UInt8 := [0x7f, 0x45, 0x4c, 0x46]
abbrev emAarch64 : Nat := 183
abbrev ptLoad : Nat := 1
abbrev rAarch64Abs64 : Nat := 257
abbrev rAarch64Relative : Nat := 1027

section Headers

variable (image : List UInt8)

/-! `Elf64Hdr`, within the first 64 bytes -/

def eEntry : Nat := field image 24 8
def ePhoff : Nat := field image 32 8
def eShoff : Nat := field image 40 8
def ePhentsize : Nat := field image 54 2
def ePhnum : Nat := field image 56 2
def eShentsize : Nat := field image 58 2
def eShnum : Nat := field image 60 2
def eShstrndx : Nat := field image 62 2

/-- `ELFCLASS64`, `ELFDATA2LSB` and `EM_AARCH64` -/
def headerValid : Bool :=
  field image 4 1 == 2 && field image 5 1 == 1 && field image 18 2 == emAarch64

end Headers

/-! ## Segments -/

/-- One turn of the first pass: the end of the LOAD footprint so far. -/
def scanHeader (footprint i : Nat) : Except Stop Nat := do
  let off ← sum (ePhoff image) (i * ePhentsize image)
  let last ← sum off (ePhentsize image)
  if image.length < last then .error (.err .notSupported)
  else
    sliceFrom image off
    let type ← readField image off 4
    if type ≠ ptLoad then return footprint
    else
      let vaddr ← readField image (off + 16) 8
      let memsz ← readField image (off + 40) 8
      let segEnd ← sum vaddr memsz
      return if footprint < segEnd then segEnd else footprint

variable (ramBase : Nat)

/-- One turn of the second pass: copy the file bytes, zero the rest. -/
def copySegment (region : Region) (ram : Mem) (i : Nat) :
    Except Stop Mem := do
  let off ← sum (ePhoff image) (i * ePhentsize image)
  let last ← sum off (ePhentsize image)
  if image.length < last then .error (.err .notSupported)
  else
    sliceFrom image off
    let type ← readField image off 4
    if type ≠ ptLoad then return ram
    else
      let fileOffset ← readField image (off + 8) 8
      let fileSize ← readField image (off + 32) 8
      let memSize ← readField image (off + 40) 8
      let vaddr ← readField image (off + 16) 8
      let dst ← sum ramBase vaddr
      let ram ← if 0 < fileSize then copyIn image region ram fileOffset dst fileSize else pure ram
      if fileSize < memSize then
        writeBytes region ram (dst + fileSize) (List.replicate (memSize - fileSize) 0)
      else return ram

/-! ## Relocations -/

/-- One relocation record of a section. -/
def relocateEntry (region : Region) (relOff entsize : Nat) (ram : Mem) (k : Nat) :
    Except Stop Mem := do
  let r ← sum relOff (k * entsize)
  sliceFrom image r
  let info ← readField image (r + 8) 8
  if info % 2 ^ 32 ≠ rAarch64Abs64 ∧ info % 2 ^ 32 ≠ rAarch64Relative then return ram
  else
    let offset ← readField image r 8
    let dst ← sum ramBase offset
    writeBytes region ram dst (le 8 (word ram dst + UInt64.ofNat ramBase).toNat)

/-- One section: its target is the section that `sh_info` names. -/
def relocateSection (footprint : Nat) (region : Region) (ram : Mem) (i : Nat) :
    Except Stop Mem := do
  let s ← sum (eShoff image) (i * eShentsize image)
  let last ← sum s 64
  if image.length < last then return ram
  else
    sliceFrom image s
    let infoIdx ← readField image (s + 44) 4
    if eShnum image ≤ infoIdx then return ram
    else
      let target ← sum (eShoff image) (infoIdx * eShentsize image)
      sliceFrom image target
      let flags ← readField image (target + 8) 8
      if flags / 2 % 2 = 0 then return ram -- `SHF_ALLOC`
      else
        let addr ← readField image (target + 16) 8
        if addr = 0 ∨ footprint ≤ addr then return ram
        else
          let relOff ← readField image (s + 24) 8
          let relSize ← readField image (s + 32) 8
          let entsize ← readField image (s + 56) 8
          if entsize = 0 then return ram
          else
            let relEnd ← sum relOff relSize
            if image.length < relEnd then return ram
            else
              (List.range (relSize / entsize)).foldlM (relocateEntry image ramBase region relOff entsize) ram

/-- `apply_relocations` -/
def applyRelocations (footprint : Nat) (region : Region) (ram : Mem) :
    Except Stop Mem := do
  if eShoff image = 0 ∨ eShstrndx image = 0 ∨ eShnum image = 0 ∨ eShentsize image < 64 then return ram
  else
    let s ← sum (eShoff image) (eShstrndx image * eShentsize image)
    let last ← sum s 64
    if image.length < last then return ram
    else
      sliceFrom image s
      let shstrOff ← readField image (s + 24) 8
      if image.length ≤ shstrOff then return ram
      else
        (List.range (eShnum image)).foldlM (relocateSection image ramBase footprint region) ram

/-! ## The loader -/

structure LoadedImage where
  entry : Nat
  imageEnd : Nat

/-- `load_elf64`: the memory, the entry point and the footprint -/
def loadElf64 (ramSize : Nat) (region : Region) (ram : Mem) :
    Except Stop (Mem × Nat × Nat) := do
  if headerValid image = false then .error (.err .notSupported)
  else
    let entry ← sum ramBase (eEntry image)
    let footprint ← (List.range (ePhnum image)).foldlM (scanHeader image) 0
    if ramSize < footprint then .error (.err .noMemory)
    else
      let ram ← (List.range (ePhnum image)).foldlM (copySegment image ramBase region) ram
      let ram ← applyRelocations image ramBase footprint region ram
      return (ram, entry, footprint)

/-- The image has the ELF magic. -/
def isElf : Bool :=
  64 ≤ image.length && image.take 4 == elfMag

/-- `load_flat_full` -/
def loadFlatFull (ramSize : Nat) (region : Region) (ram : Mem) :
    Except Stop (Mem × LoadedImage) := do
  if isElf image then
    let (ram, entry, footprint) ← loadElf64 image ramBase ramSize region ram
    let last ← sum footprint 0xFFF
    return (ram, ⟨entry, pageDown last⟩)
  else if ramSize < image.length then .error (.err .noMemory)
  else
    let ram ← writeBytes region ram ramBase image
    let last ← sum ramBase image.length
    let last ← sum last 0xFFF
    return (ram, ⟨ramBase, pageDown last⟩)

/-- `load_flat_full` as `spawn_by_name_locked` calls it: the image is linked at its final
address, so the base is 0 and the size is the end of the region. -/
def loadServer (base ramSize : Nat) (ram : Mem) : Except Stop (Mem × LoadedImage) :=
  loadFlatFull image 0 (base + ramSize) ⟨base, base + ramSize⟩ ram

end Tanix.Vm
