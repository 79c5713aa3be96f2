/-
# `Tanix.Mem.Calls` — the memory system calls

The calls of `kernel/src/ipc/syscall.rs` that map, share and give back memory.  They
work on `Ram` alone, for a caller or a destination with root `ttbr0`, and return the
memory afterwards and the result.  A root of 0 is a task without tables of its own;
the calls then leave its mappings alone.
-/
import Tanix.Server

namespace Tanix

namespace Ram

variable (r : Ram) (ttbr0 : Nat)

/-- Open or close a run of pages at a root, when there is one. -/
def mapIfUser (va size flags : Nat) : Except Panic Ram :=
  if ttbr0 ≠ 0 then r.mapUserPages ttbr0 va size flags else .ok r

variable (pages : UInt32)

/-- `sys_alloc_frames`, for a caller with root `ttbr0` -/
def sysAllocFrames : Except Panic (Ram × UInt64) := do
  match r.allocFrames pages.toNat with
  | none => return (r, 0)
  | some (r, base) =>
    let r ← r.mapIfUser ttbr0 base (pages.toNat * pageSize) flagsUserRwx
    return (r, UInt64.ofNat base)

/-- One turn of the loop of `sys_free_frames`. -/
def freeOne (base i : Nat) : Except Panic Ram := do
  let pa ← checkedAdd base (i * pageSize)
  let r ← r.mapIfUser ttbr0 pa pageSize flagsKernelRwx
  r.freeFrame pa

/-- `sys_free_frames` -/
def sysFreeFrames (base : UInt64) (pages : UInt32) :
    Except Panic (Ram × Int32) := do
  let r ← (List.range pages.toNat).foldlM (fun r i => r.freeOne ttbr0 base.toNat i) r
  return (r, 0)

/-- The kernel's own view of a device window. -/
def mapDevicePages (kernelL0 base pages : Nat) : Except Panic Ram :=
  (List.range pages).foldlM
    (fun r i => r.mapPage kernelL0 (base + i * pageSize) (base + i * pageSize) flagsDevice) r

/-- `sys_map_device` -/
def sysMapDevice (b : Board) (name : String) (ttbr0 : Nat) (phys pages : UInt64) :
    Except Panic (Ram × Int32) := do
  let base := phys.toNat
  let size := pages.toNat * pageSize
  if base % pageSize ≠ 0 then return (r, -12)
  else if pages = 0 ∨ 65536 < pages then return (r, -12)
  else if !b.machine.capPermits name base size then return (r, -13)
  else
    let r ← r.mapDevicePages b.kernelL0 base pages.toNat
    let r ← r.mapIfUser ttbr0 base size flagsUserDevice
    return (r, 0)

/-- `sys_map_cap` -/
def sysMapCap (b : Board) (name : String) (ttbr0 : Nat) (idx : UInt64) :
    Except Panic (Ram × UInt64) := do
  if ttbr0 = 0 then return (r, 0)
  else
    match b.machine.capWindowFor name idx.toNat with
    | none => return (r, 0)
    | some (base, size) =>
      if base = 0 ∨ size = 0 then return (r, 0)
      else
        let r ← r.mapDevicePages b.kernelL0 base ((size + pageSize - 1) / pageSize)
        let r ← r.mapIfUser ttbr0 base size flagsUserDevice
        return (r, UInt64.ofNat base)

/-- `sys_map_cow`, into the task with root `dst` (`none`: no such task) -/
def sysMapCow (dst : Option Nat) (phys : UInt64) (pages : UInt32) :
    Except Panic (Ram × Int32) := do
  let size := pages.toNat * pageSize
  if phys = 0 ∨ pages = 0 ∨ 4096 < pages then return (r, -11)
  else if phys.toNat % pageSize ≠ 0 then return (r, -12)
  else
    let fin ← checkedAdd phys.toNat size
    if r.frames.ramStart + r.frames.ramSize < fin ∨ phys.toNat < r.frames.ramStart then
      return (r, -12)
    else
      match dst with
      | none => return (r, -3)
      | some ttbr0 =>
        let r ← r.mapIfUser ttbr0 phys.toNat size flagsUserCow
        return (r, 0)

/-- `sys_share_frames` -/
def sysShareFrames (dst : Option Nat) (base : UInt64) (pages : UInt32) :
    Except Panic (Ram × Int32) := do
  if base = 0 ∨ pages = 0 ∨ 4096 < pages then return (r, -11)
  else
    match dst with
    | none => return (r, -3)
    | some ttbr0 =>
      let r ← r.mapIfUser ttbr0 base.toNat (pages.toNat * pageSize) flagsUserRwx
      return (r, 0)

/-- One turn of the loop of `sys_unshare_frames`. -/
def unshareOne (base i : Nat) : Except Panic Ram := do
  let va ← checkedAdd base (i * pageSize)
  r.mapUserPages ttbr0 va pageSize flagsKernelRwx

/-- `sys_unshare_frames` -/
def sysUnshareFrames (dst : Option Nat) (base : UInt64) (pages : UInt32) :
    Except Panic (Ram × Int32) := do
  if base = 0 ∨ pages = 0 ∨ 4096 < pages then return (r, -11)
  else
    match dst with
    | none => return (r, -3)
    | some ttbr0 =>
      if ttbr0 = 0 then return (r, 0)
      else
        let r ← (List.range pages.toNat).foldlM
          (fun r i => r.unshareOne ttbr0 base.toNat i) r
        return (r, 0)

end Ram

end Tanix
