/-
# `Tanix.Monitor.Services` — the secure services of the EL3 monitor

`monitor_smc_dispatch` and the services of `kernel/src/arch/aarch64/monitor.rs`.  The monitor
runs with the MMU off: an argument that is a pointer is a physical address, and the secure
payload with the store, the keybox and the secret is memory like any other.

    +0x6018  tick count       +0x8000  store    32 slots of 256 bytes
    +0x6020  counter          +0xA000  keybox   16 slots of 32 bytes
    +0x6028  measurement      +0xA200  secret

A store slot is a magic word, the name, the length and the blob; a keybox slot is a valid
word, the key in two words and the use counter.

Pointer arithmetic that leaves 64 bits stops the monitor (`Panic.overflow`), except in
`fnv1a64`, which wraps.  The timer that seeds `keybox_gen` is an argument.  The secure timer,
the console and the wake-up interrupt of `CPU_ON` have no counterpart.
-/
import Tanix.Fallible
import Tanix.Monitor.Cipher
import Mathlib.Data.Fin.VecNotation

namespace Tanix.Monitor

open Memory

structure Secure where
  /-- `__sec_runtime_base`, zero until the payload is installed -/
  base : Nat
  mem : Mem
  /-- `__monitor_cpu_count` -/
  cpuCount : UInt64
  /-- `__psci_cmd_slots` -/
  cmdSlots : Fin 8 → UInt64 × UInt64

/-! ## Layout -/

abbrev ticksOff : Nat := 0x6018
abbrev counterOff : Nat := 0x6020
abbrev measureOff : Nat := 0x6028
abbrev storeOff : Nat := 0x8000
abbrev keyboxOff : Nat := 0xA000
abbrev secretOff : Nat := 0xA200

abbrev storeSlots : Nat := 32
abbrev storeSlotSize : Nat := 256
abbrev storeMagic : UInt64 := 0x53544F52
abbrev storeDataMax : Nat := 232
abbrev sealMax : Nat := 256
abbrev keyboxKeys : Nat := 16
abbrev keyboxSlotSize : Nat := 32
abbrev attestRegionMax : Nat := 16 * 1024 * 1024

/-- The result `!0`. -/
abbrev failure : UInt64 := 0xFFFFFFFFFFFFFFFF

/-- The result `-2` of GET: the buffer is too small. -/
abbrev tooSmall : UInt64 := 0xFFFFFFFFFFFFFFFE

namespace Secure

variable (s : Secure)

/-- `sec_addr` -/
def secAddr (off : Nat) : Nat :=
  if s.base = 0 then 0 else s.base + off

/-- `sec_read_u64` -/
def secRead (off : Nat) : UInt64 :=
  if s.base = 0 then 0 else word s.mem (s.base + off)

/-- `sec_write_u64` -/
def secWrite (off : Nat) (v : UInt64) : Secure :=
  if s.base = 0 then s else { s with mem := setWord s.mem (s.base + off) v }

/-! ## Hashes and random numbers -/

def fnvPrime : UInt64 := 0x100000001B3

def fnvByte (hash : UInt64) (b : UInt8) : UInt64 :=
  (hash ^^^ b.toUInt64) * fnvPrime

def fnvLoop (m : Mem) : UInt64 → Nat → Nat → UInt64
  | hash, _, 0 => hash
  | hash, p, n + 1 => fnvLoop m (fnvByte hash (m p)) ((p + 1) % 2 ^ 64) n

/-- `fnv1a64` -/
def fnv1a64 (m : Mem) (base size : Nat) : UInt64 :=
  fnvLoop m 0xCBF29CE484222325 base size

/-- `fnv1a_extend` -/
def fnv1aExtend (hash w : UInt64) : UInt64 :=
  (le 8 w.toNat).foldl fnvByte hash

def splitmix64 (x : UInt64) : UInt64 :=
  let z := x + 0x9E3779B97F4A7C15
  let z := (z ^^^ (z >>> 30)) * 0xBF58476D1CE4E5B9
  let z := (z ^^^ (z >>> 27)) * 0x94D049BB133111EB
  z ^^^ (z >>> 31)

/-! ## Secure storage -/

/-- The addresses `p, …, p + n - 1`, each computed by a checked addition. -/
def span (p : UInt64) (n : Nat) : Except Panic Nat :=
  if p.toNat + n ≤ 2 ^ 64 then .ok p.toNat else .error .overflow

/-- `read_name64` -/
def readName64 (m : Mem) (p : UInt64) : Except Panic UInt64 := do
  let a ← span p 8
  return word m a

def storeSlot (store i : Nat) : Nat :=
  store + i * storeSlotSize

/-- The slot is taken. -/
def slotTaken (m : Mem) (store i : Nat) : Bool :=
  word m (storeSlot store i) == storeMagic

/-- The slot is taken by this name. -/
def slotNamed (m : Mem) (store : Nat) (name : UInt64) (i : Nat) : Bool :=
  slotTaken m store i && word m (storeSlot store i + 8) == name

/-- The scan of PUT: the slot with this name, or the first free one. -/
def scanSlots (m : Mem) (store : Nat) (name : UInt64) : List Nat → Option Nat → Option Nat
  | [], free => free
  | i :: is, free =>
    if slotTaken m store i then
      if word m (storeSlot store i + 8) = name then some i else scanSlots m store name is free
    else scanSlots m store name is (free <|> some i)

/-- `sec_svc_storage_put` -/
def storagePut (namePtr dataPtr len : UInt64) : Except Panic (Secure × UInt64) := do
  let store := s.secAddr storeOff
  if store = 0 ∨ storeDataMax < len.toNat then return (s, failure)
  else
    let name ← readName64 s.mem namePtr
    match scanSlots s.mem store name (List.range storeSlots) none with
    | none => return (s, failure)
    | some i =>
      let slot := storeSlot store i
      let m := setWord s.mem slot storeMagic
      let m := setWord m (slot + 8) name
      let m := setWord m (slot + 16) len
      let src ← span dataPtr len.toNat
      return ({ s with mem := copy m src (slot + 24) len.toNat }, 0)

/-- `sec_svc_storage_get` -/
def storageGet (namePtr outPtr cap : UInt64) : Except Panic (Secure × UInt64) := do
  let store := s.secAddr storeOff
  if store = 0 then return (s, failure)
  else
    let name ← readName64 s.mem namePtr
    match (List.range storeSlots).find? (slotNamed s.mem store name) with
    | none => return (s, failure)
    | some i =>
      let slot := storeSlot store i
      let len := word s.mem (slot + 16)
      if cap < len then return (s, tooSmall)
      else
        let dst ← span outPtr len.toNat
        return ({ s with mem := copy s.mem (slot + 24) dst len.toNat }, len)

/-! ## Keybox -/

/-- `secure_keybox_gen`, with the timer reading it is seeded from -/
def keyboxGen (entropy id : UInt64) : Secure × UInt64 :=
  let kbox := s.secAddr keyboxOff
  if kbox = 0 ∨ keyboxKeys ≤ id.toNat then (s, failure)
  else
    let rng := splitmix64 entropy ^^^ s.secRead secretOff
    let k0 := splitmix64 rng
    let k1 := splitmix64 (splitmix64 rng)
    let slot := kbox + id.toNat * keyboxSlotSize
    let m := setWord s.mem slot 1
    let m := setWord m (slot + 8) k0
    let m := setWord m (slot + 16) k1
    ({ s with mem := setWord m (slot + 24) 0 }, 0)

/-- `keybox_slot` -/
def keyboxSlot (id : UInt64) : Option Nat :=
  let kbox := s.secAddr keyboxOff
  if kbox = 0 ∨ keyboxKeys ≤ id.toNat then none
  else
    let slot := kbox + id.toNat * keyboxSlotSize
    if word s.mem slot = 1 then some slot else none

/-- The key in a slot. -/
def slotKey (m : Mem) (slot : Nat) : Key :=
  let k0 := word m (slot + 8)
  let k1 := word m (slot + 16)
  ![k0.toUInt32, (k0 >>> 32).toUInt32, k1.toUInt32, (k1 >>> 32).toUInt32]

/-- `keybox_cipher` -/
def keyboxCipher (id buf len : UInt64) (encrypt : Bool) : Except Panic (Secure × UInt64) := do
  if sealMax < len.toNat then return (s, failure)
  else
    match s.keyboxSlot id with
    | none => return (s, failure)
    | some slot =>
      let ctr := word s.mem (slot + 24)
      if ctr = 0xFFFFFFFFFFFFFFFF then return (s, failure)
      else
        let a ← span buf len.toNat
        let data := xteaCfb (slotKey s.mem slot) ctr (load s.mem a len.toNat) encrypt
        return ({ s with mem := setWord (store s.mem a data) (slot + 24) (ctr + 1) }, 0)

/-! ## Measurement and attestation -/

/-- `secure_measure` -/
def measure (base size : UInt64) : Secure × UInt64 :=
  let hash := fnv1a64 s.mem base.toNat size.toNat
  (s.secWrite measureOff hash, hash)

/-- The MAC of a quote: secret, nonce and digest. -/
def attestMac (secret nonce digest : UInt64) : UInt64 :=
  fnv1aExtend (fnv1aExtend (fnv1aExtend 0xCBF29CE484222325 secret) nonce) digest

/-- `secure_attest` -/
def attest (base size nonce out cap : UInt64) : Except Panic (Secure × UInt64) := do
  if cap < 16 ∨ attestRegionMax < size.toNat then return (s, failure)
  else
    let digest := fnv1a64 s.mem base.toNat size.toNat
    let mac := attestMac (s.secRead secretOff) nonce digest
    let high ← checkedAdd out.toNat 8
    return ({ s with mem := setWord (setWord s.mem out.toNat digest) high mac }, 0)

/-! ## Dispatch -/

def psciNotSupported : UInt64 := 0xFFFFFFFF
def psciInvalidParams : UInt64 := 0xFFFFFFFE
def cmdMagic : UInt64 := 0x434D4454

/-- `psci_cpu_on` -/
def psciCpuOn (target entry : UInt64) : Secure × UInt64 :=
  let cpu := (target &&& 0xFF).toNat
  if h : cpu < 8 then
    if s.cpuCount.toNat ≤ cpu ∨ cpu = 0 then (s, psciInvalidParams)
    else ({ s with cmdSlots := Function.update s.cmdSlots ⟨cpu, h⟩ (cmdMagic, entry) }, 0)
  else (s, psciInvalidParams)

end Secure

/-- An SMC: the function, its arguments, and the timer when it is taken. -/
structure Smc where
  fn : UInt64
  a1 : UInt64
  a2 : UInt64
  a3 : UInt64
  a4 : UInt64
  a5 : UInt64
  entropy : UInt64

def smcccVersion : UInt64 := 0x80000000
def psciVersion : UInt64 := 0xC4000000
def psciCpuOnFn : UInt64 := 0xC4000003
def psciFeatures : UInt64 := 0xC400000A
def secMeasure : UInt64 := 0x83000001
def secTickGet : UInt64 := 0x83000002
def secTickArm : UInt64 := 0x83000003
def secTcbPrint : UInt64 := 0x83000005
def secCounterIncr : UInt64 := 0x83000006
def secStoragePut : UInt64 := 0x83000007
def secStorageGet : UInt64 := 0x83000008
def secKeyboxGen : UInt64 := 0x83000009
def secKeyboxSeal : UInt64 := 0x8300000A
def secKeyboxUnseal : UInt64 := 0x8300000B
def secAttest : UInt64 := 0x8300000C

/-- `monitor_smc_dispatch` -/
def Secure.dispatch (s : Secure) (c : Smc) : Except Panic (Secure × UInt64) :=
  if c.fn = smcccVersion ∨ c.fn = psciVersion then .ok (s, 0x00010001)
  else if c.fn = psciCpuOnFn then .ok (s.psciCpuOn c.a1 c.a2)
  else if c.fn = psciFeatures then .ok (s, 0)
  else if c.fn = secMeasure then .ok (s.measure c.a1 c.a2)
  else if c.fn = secTickGet then .ok (s, s.secRead ticksOff)
  else if c.fn = secTickArm ∨ c.fn = secTcbPrint then .ok (s, 0)
  else if c.fn = secCounterIncr then
    let v := s.secRead counterOff + 1
    .ok (s.secWrite counterOff v, v)
  else if c.fn = secStoragePut then s.storagePut c.a1 c.a2 c.a3
  else if c.fn = secStorageGet then s.storageGet c.a1 c.a2 c.a3
  else if c.fn = secKeyboxGen then .ok (s.keyboxGen c.entropy c.a1)
  else if c.fn = secKeyboxSeal then s.keyboxCipher c.a1 c.a2 c.a3 true
  else if c.fn = secKeyboxUnseal then s.keyboxCipher c.a1 c.a2 c.a3 false
  else if c.fn = secAttest then s.attest c.a1 c.a2 c.a3 c.a4 c.a5
  else .ok (s, Secure.psciNotSupported)

/-- A monitor with its payload at 512 MiB. -/
def Secure.installed : Secure :=
  ⟨0x20000000, fun _ => 0, 1, fun _ => (0, 0)⟩

end Tanix.Monitor
