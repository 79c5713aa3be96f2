/-
# `Tanix.Fs.Fat` — the FAT16 volume

`servers/libtanix-fs/src/lib.rs`.  A volume is read and written through a `BlockIo`, one
sector a call; what a disk returns is up to the disk.  Mounting caches the first FAT; chains are
walked and clusters allocated in the cache, and `flush_fat` puts it back.

    sector 0             boot sector
    fat_base ..          FAT, 16-bit entries: 0 free, 0xFFF8 and above the end of a chain
    root_base ..         root directory, 32 bytes an entry
    data_base ..         cluster 2, cluster 3, …

A sector and the cached FAT are bytes by offset; offsets from 512 and from 8192 on are not
looked at, every slice is checked.  What stops the server is a `FsPanic`: a slice out of bounds,
a subtraction below zero, and a loop that does not come to an end (`stuck`, when the number of
turns its measure allows is used up).
-/
import Tanix.Lib.Memory

namespace Tanix.Fs

open Memory

inductive FsPanic where
  | index
  | underflow
  | stuck
  deriving DecidableEq, Repr

abbrev Sector := Mem

structure BlockIo (σ : Type) where
  readSector : σ → Nat → Option Sector × σ
  writeSector : σ → Nat → Sector → Bool × σ

/-- `MAX_CACHED_CLUSTERS` -/
abbrev maxCachedClusters : Nat := 4096

/-- `MAX_ROOT_ENTRIES` -/
abbrev maxRootEntries : Nat := 512

/-- `fat.len()` -/
abbrev fatLen : Nat := maxCachedClusters * 2

/-- `FAT_EOC` -/
abbrev fatEoc : Nat := 0xFFFF

/-! ## Checked operations -/

/-- A 16-bit little-endian number. -/
def half (m : Mem) (a : Nat) : Nat :=
  fromLe (load m a 2)

/-- A subtraction of unsigned numbers. -/
def sub (a b : Nat) : Except FsPanic Nat :=
  if b ≤ a then .ok (a - b) else .error .underflow

/-- `buf[s..s + n]` of a buffer of `len` bytes. -/
def slice (buf : Mem) (len s n : Nat) : Except FsPanic (List UInt8) :=
  if s + n ≤ len then .ok (load buf s n) else .error .index

/-- `buf[s..s + bytes.len()].copy_from_slice(bytes)` -/
def patch (buf : Mem) (len s : Nat) (bytes : List UInt8) : Except FsPanic Mem :=
  if s + bytes.length ≤ len then .ok (store buf s bytes) else .error .index

/-! ## Root-directory entries -/

abbrev attrVolumeId : UInt8 := 0x08
abbrev attrDirectory : UInt8 := 0x10
abbrev attrArchive : UInt8 := 0x20

/-- `DirEntry`; `stamps` are the fields between, which are carried along. -/
structure DirEntry where
  name : List UInt8
  attr : UInt8
  stamps : List UInt8
  startCluster : UInt16
  size : UInt32
  name_length : name.length = 11
  stamps_length : stamps.length = 14
  deriving DecidableEq

namespace DirEntry

/-- Read the entry that starts at `a`. -/
def decode (sec : Sector) (a : Nat) : DirEntry where
  name := load sec a 11
  attr := sec (a + 11)
  stamps := load sec (a + 12) 14
  startCluster := UInt16.ofNat (half sec (a + 26))
  size := UInt32.ofNat (fromLe (load sec (a + 28) 4))
  name_length := load_length ..
  stamps_length := load_length ..

def encode (e : DirEntry) : List UInt8 :=
  e.name ++ [e.attr] ++ e.stamps ++ le 2 e.startCluster.toNat ++ le 4 e.size.toNat

def isDeleted (e : DirEntry) : Bool :=
  e.name.head? == some 0xE5

def isEmpty (e : DirEntry) : Bool :=
  e.name.head? == some 0

def isVolume (e : DirEntry) : Bool :=
  e.attr &&& (attrVolumeId ||| attrDirectory) == attrVolumeId

/-- A fresh entry: `DirEntry::EMPTY` with a name and `ATTR_ARCHIVE`. -/
def fresh (name : List UInt8) (h : name.length = 11) : DirEntry :=
  ⟨name, attrArchive, List.replicate 14 0, 0, 0, h, List.length_replicate⟩

end DirEntry

/-! ## The volume -/

structure Fat16 where
  sectorsPerCluster : Nat
  fatBase : Nat
  fatSectors : Nat
  rootBase : Nat
  rootEntries : Nat
  dataBase : Nat
  totalClusters : Nat
  clusterBytes : Nat
  fat : Mem
  fatEntries : Nat

def isPowerOfTwo (n : Nat) : Bool :=
  (List.range 8).any fun k => 2 ^ k == n

/-- The boot sector: the geometry that `mount` accepts, with an empty cache. -/
def parseBoot (bs : Sector) : Option Fat16 :=
  if bs 510 ≠ 0x55 ∨ bs 511 ≠ 0xAA then none
  else if half bs 0x0B ≠ 512 then none
  else
    let sectorsPerCluster := (bs 0x0D).toNat
    if sectorsPerCluster = 0 ∨ isPowerOfTwo sectorsPerCluster = false then none
    else
      let reserved := half bs 0x0E
      let numFats := (bs 0x10).toNat
      let rootEntries := half bs 0x11
      let totalSectors := half bs 0x13
      let fatSectors := half bs 0x16
      if numFats = 0 ∨ fatSectors = 0 ∨ totalSectors = 0 then none
      else
        let rootSectors := (rootEntries * 32 + 511) / 512
        let rootBase := reserved + numFats * fatSectors
        let dataBase := rootBase + rootSectors
        if totalSectors ≤ dataBase then none
        else
          let totalClusters := (totalSectors - dataBase) / sectorsPerCluster
          if totalClusters < 2 ∨ maxCachedClusters < totalClusters then none
          else
            some
              { sectorsPerCluster := sectorsPerCluster
                fatBase := reserved
                fatSectors := fatSectors
                rootBase := rootBase
                rootEntries := min rootEntries maxRootEntries
                dataBase := dataBase
                totalClusters := totalClusters
                clusterBytes := 512 * sectorsPerCluster
                fat := fun _ => 0
                fatEntries := totalClusters }

namespace Fat16

variable {σ : Type} (blk : BlockIo σ)

/-- The loop of `mount` that loads the FAT. -/
def loadFat (fs : Fat16) : List Nat → σ → Except FsPanic (Option Fat16 × σ)
  | [], d => .ok (some fs, d)
  | i :: is, d =>
    match blk.readSector d (fs.fatBase + i) with
    | (none, d) => .ok (none, d)
    | (some sec, d) => do
        let dst := i * 512
        let room ← sub fatLen dst
        let bytes ← slice sec 512 0 (min room 512)
        let fat ← patch fs.fat fatLen dst bytes
        loadFat { fs with fat := fat } is d

def mount (d : σ) : Except FsPanic (Option Fat16 × σ) :=
  match blk.readSector d 0 with
  | (none, d) => .ok (none, d)
  | (some bs, d) =>
    match parseBoot bs with
    | none => .ok (none, d)
    | some fs => loadFat blk fs (List.range fs.fatSectors) d

/-! ## The cached FAT -/

variable (fs : Fat16) (cluster : Nat)

/-- The entry as it is cached. -/
def entryAt : Nat :=
  half fs.fat (cluster * 2)

/-- `fat_entry` -/
def fatEntry : Except FsPanic Nat :=
  if cluster * 2 + 1 < fatLen then .ok (fs.entryAt cluster) else .error .index

/-- `set_fat_entry` -/
def setFatEntry (value : Nat) : Except FsPanic Fat16 :=
  if cluster * 2 + 1 < fatLen then .ok { fs with fat := store fs.fat (cluster * 2) (le 2 value) }
  else .error .index

/-- The loop of `flush_fat`. -/
def flushLoop (fs : Fat16) : List Nat → σ → Except FsPanic (Bool × σ)
  | [], d => .ok (true, d)
  | i :: is, d => do
      let n := fs.fatEntries * 2
      let src := i * 512
      let sec ←
        if src < n then do
          let bytes ← slice fs.fat fatLen src (min (n - src) 512)
          patch (fun _ => 0) 512 0 bytes
        else pure fun _ => 0
      match blk.writeSector d (fs.fatBase + i) sec with
      | (false, d) => .ok (false, d)
      | (true, d) => flushLoop fs is d

def flushFat (d : σ) : Except FsPanic (Bool × σ) :=
  fs.flushLoop blk (List.range fs.fatSectors) d

def sectorOf : Except FsPanic Nat := do
  let n ← sub cluster 2
  return fs.dataBase + n * fs.sectorsPerCluster

/-- The clusters that `alloc_cluster` and `free_clusters` look at. -/
def candidates : List Nat :=
  List.range' 2 (fs.fatEntries - 2)

def freeClusters : Nat :=
  fs.candidates.countP fun c => fs.entryAt c = 0

/-- The first free cluster. -/
def findFree (fs : Fat16) : List Nat → Except FsPanic (Option Nat)
  | [] => .ok none
  | c :: cs => do
      let e ← fs.fatEntry c
      if e = 0 then return some c else findFree fs cs

def allocCluster (prev : Nat) : Except FsPanic (Option (Fat16 × Nat)) := do
  match ← fs.findFree fs.candidates with
  | none => return none
  | some c =>
    let fs ← fs.setFatEntry c fatEoc
    if prev ≠ 0 then
      let fs ← fs.setFatEntry prev c
      return some (fs, c)
    else return some (fs, c)

/-- The successor an entry names; 0 at the end of the chain. -/
def successor (e : Nat) : Nat :=
  if 0xFFF8 ≤ e ∨ e < 2 then 0 else e

def nextCluster : Except FsPanic Nat := do
  let e ← fs.fatEntry cluster
  return successor e

/-! ## Root directory -/

/-- The sector of entry `idx`, and where in it the entry starts. -/
def rootSector (idx : Nat) : Nat :=
  fs.rootBase + idx / 16

def rootOffset (idx : Nat) : Nat :=
  idx % 16 * 32

def findRootFrom (fs : Fat16) (name : List UInt8) : List Nat → σ → Option (Nat × DirEntry) × σ
  | [], d => (none, d)
  | idx :: is, d =>
    match blk.readSector d (fs.rootSector idx) with
    | (none, d) => (none, d)
    | (some sec, d) =>
      let e := DirEntry.decode sec (rootOffset idx)
      if e.isEmpty then (none, d)
      else if e.isDeleted = false ∧ e.isVolume = false ∧ e.name = name then (some (idx, e), d)
      else findRootFrom fs name is d

def findRoot (d : σ) (name : List UInt8) : Option (Nat × DirEntry) × σ :=
  fs.findRootFrom blk name (List.range fs.rootEntries) d

def writeRootEntry (d : σ) (idx : Nat) (e : DirEntry) : Bool × σ :=
  match blk.readSector d (fs.rootSector idx) with
  | (none, d) => (false, d)
  | (some sec, d) => blk.writeSector d (fs.rootSector idx) (store sec (rootOffset idx) e.encode)

def createFrom (fs : Fat16) (e : DirEntry) : List Nat → σ → Option Nat × σ
  | [], d => (none, d)
  | idx :: is, d =>
    match blk.readSector d (fs.rootSector idx) with
    | (none, d) => (none, d)
    | (some sec, d) =>
      let old := DirEntry.decode sec (rootOffset idx)
      if old.isEmpty ∨ old.isDeleted then
        match fs.writeRootEntry blk d idx e with
        | (true, d) => (some idx, d)
        | (false, d) => (none, d)
      else createFrom fs e is d

/-- `create_root_file` -/
def createRootFile (d : σ) (name : List UInt8) (h : name.length = 11) : Option Nat × σ :=
  fs.createFrom blk (.fresh name h) (List.range fs.rootEntries) d

/-! ## Reading -/

/-- Walk to the cluster that holds byte `skip`; `none` when the chain is too short. -/
def seekRead (fs : Fat16) : Nat → Nat → Nat → Except FsPanic (Option (Nat × Nat))
  | 0, cluster, skip =>
    if 2 ≤ cluster ∧ fs.clusterBytes ≤ skip then .error .stuck else .ok (some (cluster, skip))
  | fuel + 1, cluster, skip =>
    if 2 ≤ cluster ∧ fs.clusterBytes ≤ skip then do
      let next ← fs.nextCluster cluster
      if next = 0 then return none else seekRead fs fuel next (skip - fs.clusterBytes)
    else .ok (some (cluster, skip))

/-- The sectors of one cluster.  `acc` is what has been read; `false` when a sector cannot be. -/
def readCluster (remain outLen sector : Nat) :
    List Nat → List UInt8 → Nat → σ → Except FsPanic (Bool × List UInt8 × σ)
  | [], acc, _, d => .ok (true, acc, d)
  | i :: is, acc, sskip, d =>
    if remain ≤ acc.length ∨ outLen ≤ acc.length then .ok (true, acc, d)
    else
      match blk.readSector d (sector + i) with
      | (none, d) => .ok (false, acc, d)
      | (some sec, d) => do
          let s := min sskip 512
          let inSector ← sub 512 s
          let inFile ← sub remain acc.length
          let inOut ← sub outLen acc.length
          let bytes ← slice sec 512 s (min (min inSector inFile) inOut)
          if outLen < acc.length + bytes.length then .error .index
          else readCluster remain outLen sector is (acc ++ bytes) (sskip - 512) d

def readLoop (fs : Fat16) (remain outLen : Nat) :
    Nat → Nat → List UInt8 → Nat → σ → Except FsPanic (List UInt8 × σ)
  | 0, cluster, acc, _, d =>
    if 2 ≤ cluster ∧ acc.length < remain ∧ acc.length < outLen then .error .stuck else .ok (acc, d)
  | fuel + 1, cluster, acc, sskip, d =>
    if 2 ≤ cluster ∧ acc.length < remain ∧ acc.length < outLen then do
      let sector ← fs.sectorOf cluster
      let (more, acc, d) ← readCluster blk remain outLen sector (List.range fs.sectorsPerCluster) acc sskip d
      if more then
        let next ← fs.nextCluster cluster
        readLoop fs remain outLen fuel next acc 0 d
      else return (acc, d)
    else .ok (acc, d)

/-- `read_file`: the bytes it puts into the first places of a buffer of `outLen` bytes -/
def readFile (d : σ) (firstCluster size offset outLen : Nat) :
    Except FsPanic (List UInt8 × σ) := do
  if size ≤ offset ∨ outLen = 0 then return ([], d)
  else
    match ← fs.seekRead (offset / fs.clusterBytes) firstCluster offset with
    | none => return ([], d)
    | some (cluster, skip) =>
      if cluster < 2 then return ([], d)
      else fs.readLoop blk (size - offset) outLen (min (size - offset) outLen) cluster [] skip d

/-! ## Writing -/

/-- Walk to the cluster that holds byte `skip`, with new clusters behind the end of the chain;
`none` when the volume is full. -/
def seekWrite (fs : Fat16) : Nat → Nat → Nat → Except FsPanic (Fat16 × Option (Nat × Nat))
  | 0, cluster, skip =>
    if 2 ≤ cluster ∧ fs.clusterBytes ≤ skip then .error .stuck else .ok (fs, some (cluster, skip))
  | fuel + 1, cluster, skip =>
    if 2 ≤ cluster ∧ fs.clusterBytes ≤ skip then do
      let next ← fs.nextCluster cluster
      if next = 0 then
        match ← fs.allocCluster cluster with
        | none => return (fs, none)
        | some (fs', c) => seekWrite fs' fuel c (skip - fs.clusterBytes)
      else seekWrite fs fuel next (skip - fs.clusterBytes)
    else .ok (fs, some (cluster, skip))

/-- The sectors of one cluster.  `src` bytes have been written; `false` when the disk fails.  A
sector that is not overwritten as a whole is read first. -/
def writeCluster (data : List UInt8) (sector : Nat) :
    List Nat → Nat → Nat → σ → Except FsPanic (Bool × Nat × σ)
  | [], src, _, d => .ok (true, src, d)
  | i :: is, src, sskip, d =>
    if src = data.length then .ok (true, src, d)
    else do
      let s := min sskip 512
      let inSector ← sub 512 s
      let left ← sub data.length src
      let need := min inSector left
      let (sec, d) := if 0 < s ∨ need < 512 then blk.readSector d (sector + i) else (some fun _ => 0, d)
      match sec with
      | none => .ok (false, src, d)
      | some sec =>
        let sec ← patch sec 512 s ((data.drop src).take need)
        match blk.writeSector d (sector + i) sec with
        | (false, d) => .ok (false, src, d)
        | (true, d) => writeCluster data sector is (src + need) (sskip - 512) d

def writeLoop (data : List UInt8) :
    Fat16 → Nat → Nat → Nat → Nat → σ → Except FsPanic (Bool × Fat16 × σ)
  | fs, 0, _, src, _, d => if src < data.length then .error .stuck else .ok (true, fs, d)
  | fs, fuel + 1, cluster, src, sskip, d =>
    if src < data.length then do
      let sector ← fs.sectorOf cluster
      let (done, src, d) ← writeCluster blk data sector (List.range fs.sectorsPerCluster) src sskip d
      if done = false then return (false, fs, d)
      else if src < data.length then
        let next ← fs.nextCluster cluster
        if next = 0 then
          match ← fs.allocCluster cluster with
          | none => return (false, fs, d)
          | some (fs', c) => writeLoop data fs' fuel c src 0 d
        else writeLoop data fs fuel next src 0 d
      else return (true, fs, d)
    else .ok (true, fs, d)

/-- What `write_file` returns, and the entry it was handed by reference. -/
structure Written (σ : Type) where
  size : Option UInt32
  fs : Fat16
  entry : DirEntry
  disk : σ

/-- `write_file` from the first cluster on -/
def writeFrom (d : σ) (idx : Nat) (e : DirEntry) (offset : Nat) (data : List UInt8) :
    Except FsPanic (Written σ) := do
  match ← fs.seekWrite (offset / fs.clusterBytes) e.startCluster.toNat offset with
  | (fs, none) => return ⟨none, fs, e, d⟩
  | (fs, some (cluster, skip)) =>
    if cluster < 2 then return ⟨none, fs, e, d⟩
    else
      match ← writeLoop blk data fs data.length cluster 0 skip d with
      | (false, fs, d) => return ⟨none, fs, e, d⟩
      | (true, fs, d) =>
        let e := { e with size := max e.size (UInt32.ofNat (offset + data.length)) }
        match ← fs.flushFat blk d with
        | (false, d) => return ⟨none, fs, e, d⟩
        | (true, d) =>
          let (_, d) := fs.writeRootEntry blk d idx e
          return ⟨some e.size, fs, e, d⟩

def writeFile (d : σ) (idx : Nat) (e : DirEntry) (offset : Nat) (data : List UInt8) :
    Except FsPanic (Written σ) := do
  if data = [] then return ⟨some e.size, fs, e, d⟩
  else if e.startCluster = 0 then
    match ← fs.allocCluster 0 with
    | none => return ⟨none, fs, e, d⟩
    | some (fs, c) => writeFrom blk fs d idx { e with startCluster := UInt16.ofNat c } offset data
  else writeFrom blk fs d idx e offset data

end Fat16

end Tanix.Fs
