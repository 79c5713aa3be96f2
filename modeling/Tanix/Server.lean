/-
# `Tanix.Server` — the server registry, capabilities and spawning

`kernel/src/server.rs`: the fixed region of each server, its device windows,
its priority, and `spawn_by_name_locked`.

The embedded server images are not part of the sources.  A `Board` carries,
besides the machine, what `load_flat_full` makes of each image: the pages of the
server's region afterwards and the end of the image, or an error.
-/
import Tanix.Sched.Lifecycle
import Tanix.Mem.PageTable

namespace Tanix

/-- `SERVER_RAM_PAGES` pages: 128 KiB for each server. -/
abbrev serverRamSize : Nat := 32 * pageSize

/-- `USER_STACK_SIZE` -/
abbrev userStackSize : Nat := 16 * 1024

/-- `DISPLAY_MMIO_BASE` -/
def displayMmioBase : Nat := 0x0A000000

/-- `DISPLAY_MMIO_SIZE` -/
def displayMmioSize : Nat := 32 * 0x200

structure Machine where
  sbsa : Bool
  dramBase : Nat
  uartBase : Nat
  virtioMmioBase : Nat

/-- What loading one embedded image does to its region. -/
structure Image where
  pages : Nat → Idx → Nat
  /-- `image_end`, or `none` when the loader refuses the image -/
  imageEnd : Option Nat

structure Board where
  machine : Machine
  /-- `machine().id`, copied into the boot page -/
  machineId : Nat
  /-- the static root table of the kernel -/
  kernelL0 : Nat
  /-- the shared zero page -/
  zeroPage : Nat
  /-- `SERVER_BINS`, loaded -/
  bins : String → Option Image

/-! ## Capabilities -/

inductive CapKind where
  | uart
  | virtioMmio
  | ecam
  | pciMem
  deriving DecidableEq

structure MmioCap where
  kind : CapKind
  size : Nat

/-- `SERVER_MMIO_CAPS` -/
def serverMmioCaps : String → Option (List MmioCap)
  | "dev" => some [⟨.uart, pageSize⟩]
  | "net" => some [⟨.ecam, 16 * 1024 * 1024⟩, ⟨.pciMem, 0x30000000⟩]
  | "fs" => some [⟨.ecam, 16 * 1024 * 1024⟩, ⟨.pciMem, 0x30000000⟩]
  | "display" => some [⟨.virtioMmio, displayMmioSize⟩]
  | _ => none

variable (m : Machine)

def Machine.capBase : CapKind → Nat
  | .uart => m.uartBase
  | .virtioMmio => m.virtioMmioBase
  | .ecam => if m.sbsa then 0xF0000000 else 0x3F000000
  | .pciMem => if m.sbsa then 0xC0000000 else 0x10000000

variable (name : String)

/-- `cap_window_for` -/
def Machine.capWindowFor (idx : Nat) : Option (Nat × Nat) := do
  let caps ← serverMmioCaps name
  let cap ← caps[idx]?
  if m.capBase cap.kind = 0 then none else some (m.capBase cap.kind, cap.size)

/-- `cap_permits` -/
def Machine.capPermits (base size : Nat) : Bool :=
  (List.range 16).any fun i =>
    match m.capWindowFor name i with
    | some (capBase, capSize) =>
      decide (capBase ≤ base) && decide (size ≤ capSize) &&
        decide (base - capBase + size ≤ capSize)
    | none => false

/-! ## Regions and priorities -/

/-- `SERVER_BASES` -/
def serverBases : List (String × Nat) :=
  [("init", 0x41000000), ("pm", 0x41020000), ("mem", 0x41040000), ("dev", 0x41060000),
    ("worker", 0x41080000), ("display", 0x410A0000), ("ui-demo", 0x410C0000),
    ("hog", 0x410E0000), ("wm", 0x41100000), ("counter", 0x41120000), ("clock", 0x41140000),
    ("ramfs", 0x41160000), ("shell", 0x41180000), ("net", 0x411A0000), ("ping", 0x411C0000),
    ("pong", 0x411E0000), ("sec", 0x41200000), ("fs", 0x41220000)]

/-- `machine_base_shift` -/
def Machine.baseShift : Nat :=
  if m.sbsa then (m.dramBase + 2 ^ 64 - 0x40000000) % 2 ^ 64 + 0x2000000 else 0

/-- `server_link_base` -/
def Machine.serverLinkBase : Nat :=
  match serverBases.find? fun p => p.1 == name with
  | some p => p.2 + m.baseShift
  | none => 0

/-- `SERVER_PRIOS` -/
def serverPrios : String → UInt8
  | "init" | "pm" | "mem" | "dev" | "worker" => 128
  | "display" => 32
  | "wm" => 48
  | "ramfs" => 64
  | "ui-demo" | "counter" | "clock" | "shell" | "net" | "ping" | "pong" | "sec" | "fs" => 96
  | "hog" => 192
  | _ => prioNormal

/-! ## Spawning -/

/-- Zero the region at `base` and load the image into it. -/
def Ram.loadRegion (r : Ram) (base : Nat) (img : Image) : Ram :=
  { r with mem := fun p => if base ≤ p ∧ p < base + serverRamSize then img.pages p else r.mem p }

/-- The address space of a new server: a clone of the kernel's tables with the image, the boot
page and the top page of the stack opened to EL0. -/
def Board.userSpace (b : Board) (r : Ram) (name : String) (base bootPage : Nat) :
    Except Panic (Ram × Nat) := do
  let (r, ttbr0) ← r.cloneKernelTable b.kernelL0
  if base + serverRamSize < bootPage + pageSize + userStackSize then .error .imageTooLarge
  else if bootPage < base then .error .overflow
  else
    let r ← r.mapUserPages ttbr0 base (bootPage - base) flagsUserRwx
    let r ← r.mapUserPages ttbr0 bootPage pageSize flagsUserRwx
    let r ← r.mapUserPages ttbr0 (bootPage + userStackSize) pageSize flagsUserRwx
    let r ← if name = "display" then
        r.mapUserPages ttbr0 displayMmioBase displayMmioSize flagsUserDevice
      else .ok r
    return (r, ttbr0)

/-- The task-table half: the slot, the stack window, the priority. -/
def spawnServer (s : Scheduler) (name : String) (ttbr0 base bootPage : Nat) :
    Except Panic (Option (Scheduler × UInt32)) := do
  match ← s.spawnUser name ttbr0 base bootPage with
  | none => return none
  | some (s', _) =>
    let s' ← s'.pushRegionFor s.nextId .stack (bootPage + pageSize) (userStackSize / pageSize)
    return some (s'.setPriority s.nextId (serverPrios name), s.nextId)

/-- `spawn_by_name_locked`: the new task's id, or an error number. -/
def Board.spawnByNameLocked (b : Board) (s : Scheduler) (r : Ram) (name : String) :
    Except Panic (Scheduler × Ram × Except Int32 UInt32) := do
  match b.bins name with
  | none => return (s, r, .error (-7))
  | some img =>
    let base := b.machine.serverLinkBase name
    if base = 0 then return (s, r, .error (-7))
    else
      let r := r.loadRegion base img
      match img.imageEnd with
      | none => return (s, r, .error (-9))
      | some bootPage =>
        let (r, ttbr0) ← b.userSpace r name base bootPage
        match ← spawnServer s name ttbr0 base bootPage with
        | none => return (s, r, .error (-8))
        | some (s', id) =>
          return (s', r.setEntry bootPage 0 (id.toNat + b.machineId * 2 ^ 32), .ok id)

/-! ## What a spawn can come to -/

variable {name}

theorem Board.userSpace_ok {b : Board} {r r' : Ram} {base bootPage ttbr0 : Nat}
    (h : b.userSpace r name base bootPage = .ok (r', ttbr0)) :
    base ≤ bootPage ∧ bootPage + pageSize + userStackSize ≤ base + serverRamSize ∧
      ∃ r₁ r₂ r₃ r₄, r.cloneKernelTable b.kernelL0 = .ok (r₁, ttbr0) ∧
        r₁.mapUserPages ttbr0 base (bootPage - base) flagsUserRwx = .ok r₂ ∧
        r₂.mapUserPages ttbr0 bootPage pageSize flagsUserRwx = .ok r₃ ∧
        r₃.mapUserPages ttbr0 (bootPage + userStackSize) pageSize flagsUserRwx = .ok r₄ ∧
        (r' = r₄ ∨
          r₄.mapUserPages ttbr0 displayMmioBase displayMmioSize flagsUserDevice = .ok r') := by
  unfold userSpace at h
  obtain ⟨⟨r₁, root⟩, h₁, h⟩ := bind_eq_ok.mp h
  simp only at h
  split at h
  · cases h
  · rename_i hfits
    split at h
    · cases h
    · rename_i hbase
      obtain ⟨r₂, h₂, h⟩ := bind_eq_ok.mp h
      obtain ⟨r₃, h₃, h⟩ := bind_eq_ok.mp h
      obtain ⟨r₄, h₄, h⟩ := bind_eq_ok.mp h
      have hroot : root = ttbr0 ∧ (r' = r₄ ∨
          r₄.mapUserPages root displayMmioBase displayMmioSize flagsUserDevice = .ok r') := by
        split at h
        · obtain ⟨r₅, h₅, h⟩ := bind_eq_ok.mp h
          cases h
          exact ⟨rfl, Or.inr h₅⟩
        · cases h
          exact ⟨rfl, Or.inl rfl⟩
      obtain ⟨rfl, hdisplay⟩ := hroot
      exact ⟨Nat.le_of_not_lt hbase, Nat.le_of_not_lt hfits, r₁, r₂, r₃, r₄, h₁, h₂, h₃, h₄, hdisplay⟩

/-- The outcomes of `spawn_by_name_locked`. -/
inductive Board.Spawning (b : Board) (s : Scheduler) (r : Ram) (name : String) :
    Scheduler → Ram → Except Int32 UInt32 → Prop
  | unknown : Spawning b s r name s r (.error (-7))
  | refused (img : Image) (himg : b.bins name = some img)
      (hbase : b.machine.serverLinkBase name ≠ 0) (hend : img.imageEnd = none) :
      Spawning b s r name s (r.loadRegion (b.machine.serverLinkBase name) img) (.error (-9))
  | full (img : Image) (bootPage ttbr0 : Nat) (r' : Ram) (himg : b.bins name = some img)
      (hbase : b.machine.serverLinkBase name ≠ 0) (hend : img.imageEnd = some bootPage)
      (hspace : b.userSpace (r.loadRegion (b.machine.serverLinkBase name) img) name
        (b.machine.serverLinkBase name) bootPage = .ok (r', ttbr0))
      (hfull : spawnServer s name ttbr0 (b.machine.serverLinkBase name) bootPage = .ok none) :
      Spawning b s r name s r' (.error (-8))
  | spawned (img : Image) (bootPage ttbr0 : Nat) (r' : Ram) (s' : Scheduler) (id : UInt32)
      (himg : b.bins name = some img) (hbase : b.machine.serverLinkBase name ≠ 0)
      (hend : img.imageEnd = some bootPage)
      (hspace : b.userSpace (r.loadRegion (b.machine.serverLinkBase name) img) name
        (b.machine.serverLinkBase name) bootPage = .ok (r', ttbr0))
      (hspawn : spawnServer s name ttbr0 (b.machine.serverLinkBase name) bootPage =
        .ok (some (s', id))) :
      Spawning b s r name s' (r'.setEntry bootPage 0 (id.toNat + b.machineId * 2 ^ 32)) (.ok id)

theorem Board.spawnByNameLocked_ok {b : Board} {s s' : Scheduler} {r r' : Ram}
    {res : Except Int32 UInt32} (h : b.spawnByNameLocked s r name = .ok (s', r', res)) :
    b.Spawning s r name s' r' res := by
  unfold spawnByNameLocked at h
  split at h
  · cases h
    exact .unknown
  · rename_i img himg
    simp only at h
    split at h
    · cases h
      exact .unknown
    · rename_i hbase
      split at h
      · rename_i hend
        cases h
        exact .refused img himg hbase hend
      · rename_i bootPage hend
        obtain ⟨⟨r₁, ttbr0⟩, hspace, h⟩ := bind_eq_ok.mp h
        obtain ⟨spawned, hspawn, h⟩ := bind_eq_ok.mp h
        cases spawned with
        | none =>
          cases h
          exact .full img bootPage ttbr0 _ himg hbase hend hspace hspawn
        | some sid =>
          obtain ⟨s₁, id⟩ := sid
          cases h
          exact .spawned img bootPage ttbr0 r₁ _ _ himg hbase hend hspace hspawn

end Tanix
