/-
# `Tanix.Fs.Contents` — where the bytes of a file are

A disk that keeps what is written to it is a byte at every address (`flat`), and byte `j` of a
file lies in cluster number `j / cluster_bytes` of its chain.  Reading a file gives these bytes
(`readFile_eq`): at sector start `p` of the file the loop has read the bytes below `p`.
-/
import Tanix.Fs.Chains

namespace Tanix.Fs

open Memory List

variable {σ : Type}

/-! ## Disks -/

/-- The disk keeps its sectors: a call fails and changes nothing, or reads what is there, or
writes what it is given. -/
structure BlockIo.Keeps (blk : BlockIo σ) (view : σ → Nat → Sector) : Prop where
  read : ∀ d n, ((blk.readSector d n).1 = none ∨ (blk.readSector d n).1 = some (view d n)) ∧
    view (blk.readSector d n).2 = view d
  write : ∀ d n sec, ((blk.writeSector d n sec).1 = false ∧ view (blk.writeSector d n sec).2 = view d) ∨
    ((blk.writeSector d n sec).1 = true ∧
      view (blk.writeSector d n sec).2 = Function.update (view d) n sec)

/-- No read fails. -/
def BlockIo.Reads (blk : BlockIo σ) : Prop :=
  ∀ d n, (blk.readSector d n).1 ≠ none

/-- No call fails. -/
structure BlockIo.Reliable (blk : BlockIo σ) : Prop where
  read : ∀ d n, (blk.readSector d n).1 ≠ none
  write : ∀ d n sec, (blk.writeSector d n sec).1 = true

/-- A disk in memory. -/
def ramDisk : BlockIo (Nat → Sector) where
  readSector d n := (some (d n), d)
  writeSector d n sec := (true, Function.update d n sec)

theorem ramDisk_keeps : ramDisk.Keeps id :=
  ⟨fun _ _ => ⟨Or.inr rfl, rfl⟩, fun _ _ _ => Or.inr ⟨rfl, rfl⟩⟩

theorem ramDisk_reliable : ramDisk.Reliable :=
  ⟨fun _ _ => Option.some_ne_none _, fun _ _ _ => rfl⟩

variable (v : Nat → Sector)

/-- The bytes of all sectors. -/
def flat : Mem :=
  fun a => v (a / 512) (a % 512)

theorem flat_sector {n r : Nat} (hr : r < 512) : flat v (512 * n + r) = v n r := by
  rw [flat, Nat.mul_add_div (by decide), Nat.div_eq_of_lt hr, Nat.mul_add_mod, Nat.mod_eq_of_lt hr, Nat.add_zero]

theorem load_flat {n s k : Nat} (h : s + k ≤ 512) :
    load (v n) s k = load (flat v) (512 * n + s) k := by
  refine ext_getElem? fun i => ?_
  rw [load_getElem?, load_getElem?]
  split
  · rename_i hi
    rw [Nat.add_assoc, flat_sector v (by omega)]
  · rfl

namespace Fat16

/-! ## Geometry -/

/-- What `mount` makes sure of: the FAT, the root directory and the clusters follow each
other. -/
structure Geometry (fs : Fat16) : Prop where
  sectors_pos : 0 < fs.sectorsPerCluster
  sectors_le : fs.sectorsPerCluster ≤ 128
  bytes : fs.clusterBytes = 512 * fs.sectorsPerCluster
  entries : fs.fatEntries ≤ maxCachedClusters
  root : fs.fatBase + fs.fatSectors ≤ fs.rootBase
  data : 16 * fs.rootBase + fs.rootEntries ≤ 16 * fs.dataBase

theorem parseBoot_geometry {bs : Sector} {fs : Fat16} (h : parseBoot bs = some fs) : fs.Geometry := by
  simp only [parseBoot, Option.ite_none_left_eq_some, Option.some.injEq, not_or] at h
  obtain ⟨-, -, ⟨hspc, hpow⟩, ⟨hfats, -, -⟩, -, ⟨-, htotal⟩, rfl⟩ := h
  refine ⟨Nat.pos_of_ne_zero hspc, ?_, rfl, Nat.not_lt.mp htotal, ?_, ?_⟩
  · rw [Bool.not_eq_false, isPowerOfTwo, List.any_eq_true] at hpow
    obtain ⟨k, hk, heq⟩ := hpow
    rw [← eq_of_beq heq]
    exact Nat.pow_le_pow_right (by decide) (Nat.le_of_lt_succ (mem_range.mp hk))
  · exact Nat.add_le_add_left (Nat.le_mul_of_pos_left _ (Nat.pos_of_ne_zero hfats)) _
  · dsimp only
    omega

variable {fs : Fat16} {cs : List Nat} {c k q : Nat}

theorem Geometry.bytes_pos (h : fs.Geometry) : 0 < fs.clusterBytes := by
  rw [h.bytes]
  exact Nat.mul_pos (by decide) h.sectors_pos

/-- The address of the first byte of a cluster. -/
def clusterAt (fs : Fat16) (c : Nat) : Nat :=
  512 * (fs.dataBase + (c - 2) * fs.sectorsPerCluster)

theorem sectorOf_eq (hc : 2 ≤ c) : fs.sectorOf c = .ok (fs.dataBase + (c - 2) * fs.sectorsPerCluster) := by
  rw [sectorOf, sub, if_pos hc]
  rfl

/-- Clusters do not overlap. -/
theorem clusterAt_apart (h : fs.Geometry) {c' : Nat} (hc : 2 ≤ c) (hc' : 2 ≤ c') (hne : c ≠ c') :
    fs.clusterAt c + fs.clusterBytes ≤ fs.clusterAt c' ∨ fs.clusterAt c' + fs.clusterBytes ≤ fs.clusterAt c := by
  have key : ∀ {a b : Nat}, 2 ≤ a → a < b → fs.clusterAt a + fs.clusterBytes ≤ fs.clusterAt b := by
    intro a b ha hab
    rw [clusterAt, clusterAt, h.bytes, ← Nat.mul_add, Nat.add_assoc, ← Nat.succ_mul]
    exact Nat.mul_le_mul_left _ (Nat.add_le_add_left (Nat.mul_le_mul_right _ (by omega)) _)
  rcases Nat.lt_or_gt_of_ne hne with hlt | hgt
  · exact Or.inl (key hc hlt)
  · exact Or.inr (key hc' hgt)

/-- The address of byte `j` of a file. -/
def byteAddr (fs : Fat16) (cs : List Nat) (j : Nat) : Nat :=
  fs.clusterAt (cs[j / fs.clusterBytes]?.getD 0) + j % fs.clusterBytes

theorem byteAddr_eq (hk : cs[k]? = some c) (hq : q < fs.clusterBytes) :
    fs.byteAddr cs (k * fs.clusterBytes + q) = fs.clusterAt c + q := by
  have hdiv : (k * fs.clusterBytes + q) / fs.clusterBytes = k := by
    rw [Nat.mul_comm, Nat.mul_add_div (Nat.zero_lt_of_lt hq), Nat.div_eq_of_lt hq, Nat.add_zero]
  have hmod : (k * fs.clusterBytes + q) % fs.clusterBytes = q := by
    rw [Nat.mul_comm, Nat.mul_add_mod, Nat.mod_eq_of_lt hq]
  rw [byteAddr, hdiv, hmod, hk]
  rfl

/-- Bytes `lo, …, lo + n - 1` of a file. -/
def contents (fs : Fat16) (m : Mem) (cs : List Nat) (lo n : Nat) : List UInt8 :=
  (List.range' lo n).map fun j => m (fs.byteAddr cs j)

@[simp] theorem contents_length (m : Mem) (lo n : Nat) : (fs.contents m cs lo n).length = n := by
  rw [contents, length_map, length_range']

theorem contents_append (m : Mem) (lo n n' : Nat) :
    fs.contents m cs lo (n + n') = fs.contents m cs lo n ++ fs.contents m cs (lo + n) n' := by
  rw [contents, contents, contents, ← map_append, range'_append_1]

theorem contents_getElem? (m : Mem) (lo n i : Nat) :
    (fs.contents m cs lo n)[i]? = if i < n then some (m (fs.byteAddr cs (lo + i))) else none := by
  split
  · rename_i hi
    rw [contents, getElem?_map, getElem?_range' hi, Nat.one_mul]
    rfl
  · rename_i hi
    exact getElem?_eq_none (by rw [contents_length]; omega)

/-- Bytes of one cluster lie together. -/
theorem contents_eq_load (m : Mem) (hk : cs[k]? = some c) {n : Nat} (hn : q + n ≤ fs.clusterBytes) :
    fs.contents m cs (k * fs.clusterBytes + q) n = load m (fs.clusterAt c + q) n := by
  refine ext_getElem? fun i => ?_
  rw [contents_getElem?, load_getElem?]
  split
  · rename_i hi
    rw [Nat.add_assoc, byteAddr_eq hk (by omega), Nat.add_assoc]
  · rfl

/-- The bytes of a file are those of its clusters. -/
theorem contents_congr {m m' : Mem} {lo n : Nat} (hpos : 0 < fs.clusterBytes)
    (hn : lo + n ≤ max lo (cs.length * fs.clusterBytes)) (h : ∀ c ∈ cs,
      load m' (fs.clusterAt c) fs.clusterBytes = load m (fs.clusterAt c) fs.clusterBytes) :
    fs.contents m' cs lo n = fs.contents m cs lo n := by
  refine map_congr_left fun j hj => ?_
  rw [mem_range'_1] at hj
  have hlt : j / fs.clusterBytes < cs.length := Nat.div_lt_of_lt_mul (by rw [Nat.mul_comm]; omega)
  have hbyte := congrArg (·[j % fs.clusterBytes]?) (h _ (getElem_mem hlt))
  simp only [load_getElem?, if_pos (Nat.mod_lt j hpos)] at hbyte
  simpa [byteAddr, hlt] using hbyte

/-! ## Walking a chain -/

theorem nextCluster_chain (hchain : Links.Chain fs.entryAt IsNode IsEnd cs) (hk : cs[k]? = some c) :
    fs.nextCluster c = .ok (cs[k + 1]?.getD 0) := by
  have hnode := hchain.node (mem_of_getElem? hk)
  rw [nextCluster_eq hnode.2]
  cases hk' : cs[k + 1]? with
  | none =>
    have hend : 0xFFF8 ≤ fs.entryAt c := hchain.last hk hk'
    rw [successor, if_pos (Or.inl hend)]
    rfl
  | some c' =>
    have hnode' := hchain.node (mem_of_getElem? hk')
    simp only [IsNode, maxCachedClusters] at hnode'
    rw [hchain.next hk hk', successor, if_neg (by omega)]
    rfl

/-- A walk passes through these clusters one after the other and comes to `far` then. -/
def Path (fs : Fat16) (cs : List Nat) (far : Nat) : Prop :=
  ∀ {k c}, cs[k]? = some c → IsNode c ∧ fs.nextCluster c = .ok (cs[k + 1]?.getD far)

variable {far : Nat} (hpath : fs.Path cs far)

include hpath

theorem seekRead_path (hpos : 0 < fs.clusterBytes) {n skip : Nat} (hk : cs[k]? = some c)
    (hn : skip / fs.clusterBytes = n) (hend : k + n < cs.length ∨ far = 0) :
    fs.seekRead n c skip = .ok (cs[k + n]?.map fun c' => (c', skip % fs.clusterBytes)) := by
  induction n generalizing k c skip with
  | zero =>
    have hlt : skip < fs.clusterBytes := (Nat.div_eq_zero_iff_lt hpos).mp hn
    rw [seekRead, if_neg (by omega), Nat.mod_eq_of_lt hlt, Nat.add_zero, hk]
    rfl
  | succ n ih =>
    obtain ⟨hnode, hnext⟩ := hpath hk
    have hle : fs.clusterBytes ≤ skip := by
      rw [← Nat.one_le_div_iff hpos, hn]
      exact Nat.succ_pos n
    rw [seekRead, if_pos ⟨hnode.1, hle⟩, hnext]
    cases hk₁ : cs[k + 1]? with
    | none =>
      have hlen := List.getElem?_eq_none_iff.mp hk₁
      obtain rfl : far = 0 := hend.resolve_left (by omega)
      rw [getElem?_eq_none (by omega)]
      rfl
    | some c₁ =>
      have hnode₁ := (hpath hk₁).1
      show (if c₁ = 0 then _ else _) = _
      rw [if_neg (by have := hnode₁.1; omega), Option.getD_some, ih hk₁ ?_ (by omega),
        ← Nat.mod_eq_sub_mod hle, Nat.add_assoc, Nat.add_comm 1 n]
      have := Nat.div_eq_sub_div hpos hle
      omega

omit hpath

/-! ## Reading -/

variable {blk : BlockIo σ} {view : σ → Nat → Sector}

theorem slice_eq {buf : Mem} {len s n : Nat} (h : s + n ≤ len) : slice buf len s n = .ok (load buf s n) :=
  if_pos h

theorem sub_eq {a b : Nat} (h : b ≤ a) : sub a b = .ok (a - b) :=
  if_pos h

theorem readSector_eq (hkeeps : blk.Keeps view) (hread : blk.Reads) (d : σ) (n : Nat) :
    ∃ d', blk.readSector d n = (some (view d n), d') ∧ view d' = view d := by
  obtain ⟨hsec, hview⟩ := hkeeps.read d n
  refine ⟨(blk.readSector d n).2, ?_, hview⟩
  exact Prod.ext (hsec.resolve_left (hread d n)) rfl

/-- How many of the wanted bytes a sector holds: at sector start `p` of the file those below `p`,
`w` of them, are done. -/
theorem sector_amount {want offset p s w : Nat} (hw : w = min want (p - offset)) (hmore : w < want)
    (hs : s = min (offset - p) 512) :
    s + min (512 - s) (want - w) ≤ 512 ∧ w + min (512 - s) (want - w) = min want (p + 512 - offset) ∧
      (min (512 - s) (want - w) = 0 ∨ offset + w = p + s) := by
  obtain rfl : w = p - offset := by omega
  rcases Nat.le_total offset p with hle | hle
  · obtain rfl : s = 0 := by omega
    omega
  · rw [Nat.sub_eq_zero_of_le hle] at *
    omega

/-- The sectors from `i` on of cluster `k` of a file. -/
theorem readCluster_path (hgeo : fs.Geometry) (blk : BlockIo σ) (view : σ → Nat → Sector) (hk : cs[k]? = some c)
    {offset remain outLen i n : Nat} (hn : i + n = fs.sectorsPerCluster) (d : σ) {acc : List UInt8} {sskip : Nat}
    (hlen : acc.length = min (min remain outLen) (k * fs.clusterBytes + 512 * i - offset))
    (hskip : sskip = offset - (k * fs.clusterBytes + 512 * i)) :
    ∃ more acc' d', readCluster blk remain outLen (fs.dataBase + (c - 2) * fs.sectorsPerCluster) (List.range' i n)
        acc sskip d = .ok (more, acc', d') ∧
      (more = true → acc'.length = min (min remain outLen) ((k + 1) * fs.clusterBytes - offset)) ∧
      (blk.Keeps view → blk.Reads → acc = fs.contents (flat (view d)) cs offset acc.length →
        more = true ∧ acc' = fs.contents (flat (view d)) cs offset acc'.length ∧ view d' = view d) := by
  have hend : (k + 1) * fs.clusterBytes = k * fs.clusterBytes + 512 * (i + n) := by
    rw [Nat.succ_mul, hgeo.bytes, hn]
  rw [hend]
  clear hend
  generalize hwant : min remain outLen = want at hlen ⊢
  induction n generalizing i acc sskip d with
  | zero => exact ⟨true, acc, d, rfl, fun _ => hlen, fun _ _ hacc => ⟨rfl, hacc, rfl⟩⟩
  | succ n ih =>
    have hskip₁ : sskip - 512 = offset - (k * fs.clusterBytes + 512 * (i + 1)) := by omega
    have hn₁ : i + 1 + n = fs.sectorsPerCluster := by omega
    have hroom : 512 * i + 512 ≤ fs.clusterBytes := by
      rw [hgeo.bytes]
      omega
    rw [range'_succ, readCluster]
    by_cases hbreak : remain ≤ acc.length ∨ outLen ≤ acc.length
    · exact ⟨true, acc, d, if_pos hbreak, fun _ => by omega, fun _ _ hacc => ⟨rfl, hacc, rfl⟩⟩
    · rw [if_neg hbreak]
      obtain ⟨hr, ho⟩ := not_or.mp hbreak
      rw [Nat.not_le] at hr ho
      have hneed : min (min (512 - min sskip 512) (remain - acc.length)) (outLen - acc.length) =
          min (512 - min sskip 512) (want - acc.length) := by
        rw [Nat.min_assoc, Nat.sub_min_sub_right, hwant]
      obtain ⟨hsec, hsum, hpos⟩ := sector_amount hlen (hwant ▸ lt_min hr ho) (congrArg (min · 512) hskip)
      cases hread : blk.readSector d (fs.dataBase + (c - 2) * fs.sectorsPerCluster + i) with | mk sec d₁
      cases sec with
      | none => exact ⟨false, acc, d₁, rfl, nofun, fun _ hreads => absurd (congrArg Prod.fst hread) (hreads d _)⟩
      | some sec =>
        simp only [bind, Except.bind]
        rw [sub_eq (Nat.min_le_right _ _), sub_eq (Nat.le_of_lt hr), sub_eq (Nat.le_of_lt ho)]
        simp only [hneed]
        generalize min (512 - min sskip 512) (want - acc.length) = need at hsec hsum hpos
        have hout : acc.length + need ≤ outLen := by
          rw [hsum, ← hwant]
          exact Nat.le_trans (Nat.min_le_left _ _) (Nat.min_le_right _ _)
        simp only [slice_eq hsec, load_length]
        rw [if_neg (Nat.not_lt.mpr hout)]
        have hlen₁ : (acc ++ load sec (min sskip 512) need).length =
            min want (k * fs.clusterBytes + 512 * (i + 1) - offset) := by
          rw [length_append, load_length, hsum, Nat.mul_succ, Nat.add_assoc (k * _)]
        obtain ⟨more, acc', d', hrest, hfull, hkept⟩ := ih hn₁ d₁ hskip₁ hlen₁
        rw [Nat.add_assoc i 1 n, Nat.add_comm 1 n] at hfull
        refine ⟨more, acc', d', hrest, hfull, fun hkeeps hreads hacc => ?_⟩
        obtain ⟨d₂, hread', hview⟩ := readSector_eq hkeeps hreads d (fs.dataBase + (c - 2) * fs.sectorsPerCluster + i)
        cases hread.symm.trans hread'
        rw [hview] at hkept
        -- the bytes of the sector follow what has been read
        have hbytes : load (view d (fs.dataBase + (c - 2) * fs.sectorsPerCluster + i)) (min sskip 512) need =
            fs.contents (flat (view d)) cs (offset + acc.length) need := by
          rcases hpos with rfl | hpos
          · rfl
          · have hin : 512 * i + min sskip 512 + need ≤ fs.clusterBytes := by
              rw [Nat.add_assoc]
              exact Nat.le_trans (Nat.add_le_add_left hsec _) hroom
            rw [load_flat _ hsec, hpos, Nat.add_assoc (k * _), contents_eq_load _ hk hin, clusterAt, Nat.mul_add,
              Nat.add_assoc]
        refine hkept hkeeps hreads ?_
        rw [length_append, load_length, contents_append, ← hacc, hbytes]

/-- Cluster by cluster: at cluster `k` the wanted bytes below `k * cluster_bytes` have been read.
Every turn reads at least one byte. -/
theorem readLoop_path (hgeo : fs.Geometry) (blk : BlockIo σ) (view : σ → Nat → Sector) (hpath : fs.Path cs far)
    {offset remain outLen : Nat} (hend : far = 0 ∨ offset + min remain outLen ≤ cs.length * fs.clusterBytes)
    {fuel : Nat} (d : σ) {acc : List UInt8} (hkl : k ≤ cs.length)
    (hlen : acc.length = min (min remain outLen) (k * fs.clusterBytes - offset))
    (hfuel : min remain outLen ≤ acc.length + fuel) (hoff : offset < (k + 1) * fs.clusterBytes) :
    ∃ acc' d', fs.readLoop blk remain outLen fuel (cs[k]?.getD far) acc (offset - k * fs.clusterBytes) d =
        .ok (acc', d') ∧
      (blk.Keeps view → blk.Reads → acc = fs.contents (flat (view d)) cs offset acc.length →
        acc' = fs.contents (flat (view d)) cs offset
          (min (min remain outLen) (cs.length * fs.clusterBytes - offset)) ∧ view d' = view d) := by
  -- all that is wanted has been read, or the chain ends here
  have hstop : ∀ {k} {acc : List UInt8}, k ≤ cs.length →
      acc.length = min (min remain outLen) (k * fs.clusterBytes - offset) →
      min remain outLen ≤ acc.length ∨ k = cs.length →
      acc.length = min (min remain outLen) (cs.length * fs.clusterBytes - offset) := by
    intro k acc hkl hlen h
    have hle := Nat.mul_le_mul_right fs.clusterBytes hkl
    rcases h with h | rfl
    · omega
    · exact hlen
  induction fuel generalizing k d acc with
  | zero =>
    refine ⟨acc, d, ?_, fun _ _ hacc => ⟨hstop hkl hlen (Or.inl hfuel) ▸ hacc, rfl⟩⟩
    rw [readLoop, if_neg (by omega)]
  | succ fuel ih =>
    rw [readLoop]
    by_cases hmore : min remain outLen ≤ acc.length
    · exact ⟨acc, d, if_neg (by omega), fun _ _ hacc => ⟨hstop hkl hlen (Or.inl hmore) ▸ hacc, rfl⟩⟩
    rcases Nat.lt_or_eq_of_le hkl with hlt | rfl
    · have hk : cs[k]? = some cs[k] := getElem?_eq_getElem hlt
      obtain ⟨hnode, hnext⟩ := hpath hk
      obtain ⟨more, acc₁, d₁, hcluster, hfull, hkept⟩ :=
        readCluster_path hgeo blk view hk (i := 0) (Nat.zero_add _) d hlen rfl
      rw [hk, Option.getD_some, if_pos ⟨hnode.1, by omega, by omega⟩, sectorOf_eq hnode.1]
      simp only [bind, Except.bind, range_eq_range', Nat.mul_zero, Nat.add_zero] at hcluster ⊢
      rw [hcluster]
      cases more with
      | false => exact ⟨acc₁, d₁, rfl, fun hkeeps hreads hacc => absurd (hkept hkeeps hreads hacc).1 (by decide)⟩
      | true =>
        have hfull := hfull rfl
        simp only [if_true, hnext]
        have hpos := hgeo.bytes_pos
        have hstep : (k + 1) * fs.clusterBytes = k * fs.clusterBytes + fs.clusterBytes := Nat.succ_mul ..
        have hstep' : (k + 1 + 1) * fs.clusterBytes = (k + 1) * fs.clusterBytes + fs.clusterBytes :=
          Nat.succ_mul ..
        have hfuel₁ : min remain outLen ≤ acc₁.length + fuel := by
          clear hend hstop
          omega
        obtain ⟨acc', d', hrest, hkept'⟩ := ih (k := k + 1) d₁ hlt hfull hfuel₁ (by omega)
        rw [Nat.sub_eq_zero_of_le (Nat.le_of_lt hoff)] at hrest
        refine ⟨acc', d', hrest, fun hkeeps hreads hacc => ?_⟩
        obtain ⟨-, hacc₁, hview⟩ := hkept hkeeps hreads hacc
        rw [hview] at hkept'
        exact hkept' hkeeps hreads hacc₁
    · obtain rfl : far = 0 := hend.resolve_right (by omega)
      refine ⟨acc, d, ?_, fun _ _ hacc => ⟨hlen ▸ hacc, rfl⟩⟩
      rw [getElem?_eq_none (Nat.le_refl _), if_neg (by simp)]

/-- The first cluster of a file, 0 for one without clusters. -/
def headOf (cs : List Nat) : Nat :=
  cs.head?.getD 0

/-- Reading gives the bytes of the clusters on the path, as many as are wanted and there are. -/
theorem readFile_path (hgeo : fs.Geometry) (blk : BlockIo σ) (view : σ → Nat → Sector) (hpath : fs.Path cs far)
    {first size : Nat} (hfirst : 0 < size → cs[0]? = some first)
    (hend : far = 0 ∨ size ≤ cs.length * fs.clusterBytes) (d : σ) (offset outLen : Nat) :
    ∃ out d', fs.readFile blk d first size offset outLen = .ok (out, d') ∧
      (blk.Keeps view → blk.Reads → out = fs.contents (flat (view d)) cs offset
        (min (min (size - offset) outLen) (cs.length * fs.clusterBytes - offset)) ∧ view d' = view d) := by
  by_cases hnone : size ≤ offset ∨ outLen = 0
  · refine ⟨[], d, if_pos hnone, fun _ _ => ⟨?_, rfl⟩⟩
    rw [show min (size - offset) outLen = 0 by omega, Nat.zero_min]
    rfl
  · have hpos := hgeo.bytes_pos
    have hbase : offset / fs.clusterBytes * fs.clusterBytes ≤ offset := Nat.div_mul_le_self ..
    have hlt : offset < (offset / fs.clusterBytes + 1) * fs.clusterBytes := by
      rw [Nat.succ_mul]
      exact Nat.lt_div_mul_add hpos
    have hin : offset / fs.clusterBytes < cs.length ∨ far = 0 := by
      refine hend.symm.imp (fun hc => ?_) id
      exact Nat.div_lt_of_lt_mul (by rw [Nat.mul_comm]; omega)
    rw [readFile, if_neg hnone, seekRead_path hpath hpos (hfirst (by omega)) rfl (by rwa [Nat.zero_add]),
      Nat.zero_add]
    cases hk : cs[offset / fs.clusterBytes]? with
    | none =>
      have hlen := Nat.mul_le_mul_right fs.clusterBytes (List.getElem?_eq_none_iff.mp hk)
      refine ⟨[], d, rfl, fun _ _ => ⟨?_, rfl⟩⟩
      rw [Nat.sub_eq_zero_of_le (Nat.le_trans hlen hbase), Nat.min_zero]
      rfl
    | some c =>
      show ∃ out d', (if c < 2 then _ else _) = _ ∧ _
      rw [if_neg (Nat.not_lt.mpr (hpath hk).1.1)]
      have hnothing : ([] : List UInt8).length = min (min (size - offset) outLen)
          (offset / fs.clusterBytes * fs.clusterBytes - offset) := by
        rw [Nat.sub_eq_zero_of_le hbase, Nat.min_zero]
        rfl
      obtain ⟨out, d', hloop, hkept⟩ := readLoop_path hgeo blk view hpath (hend.imp id fun hc => by omega) d
        (Nat.le_of_lt (List.getElem?_eq_some_iff.mp hk).1) hnothing (Nat.le_add_left _ _) hlt
      rw [hk, Option.getD_some, ← Nat.mod_eq_sub_div_mul] at hloop
      exact ⟨out, d', hloop, fun hkeeps hreads => hkept hkeeps hreads rfl⟩

/-- Reading gives the bytes of the file, as many as there are and the buffer holds. -/
theorem readFile_eq (hgeo : fs.Geometry) (hkeeps : blk.Keeps view) (hrel : blk.Reliable)
    (hchain : Links.Chain fs.entryAt IsNode IsEnd cs) {size : Nat}
    (hcover : size ≤ cs.length * fs.clusterBytes) (d : σ) (offset outLen : Nat) :
    ∃ d', fs.readFile blk d (headOf cs) size offset outLen =
        .ok (fs.contents (flat (view d)) cs offset (min (size - offset) outLen), d') ∧
      view d' = view d := by
  have hpath : fs.Path cs 0 := fun hk => ⟨hchain.node (mem_of_getElem? hk), nextCluster_chain hchain hk⟩
  have hfirst : 0 < size → cs[0]? = some (headOf cs) := by
    intro hpos
    have hlen : 0 < cs.length := Nat.pos_of_mul_pos_right (Nat.lt_of_lt_of_le hpos hcover)
    rw [headOf, head?_eq_getElem?, getElem?_eq_getElem hlen]
    rfl
  obtain ⟨out, d', hread, hkept⟩ := readFile_path hgeo blk view hpath hfirst (Or.inl rfl) d offset outLen
  obtain ⟨rfl, hview⟩ := hkept hkeeps hrel.read
  rw [Nat.min_eq_left (by omega)] at hread
  exact ⟨d', hread, hview⟩

/-! ## Chains that do not end -/

/-- The clusters on the walk from `start` along the cached links. -/
inductive Reach (fs : Fat16) (start : Nat) : Nat → Prop
  | start : Reach fs start start
  | next {c : Nat} : Reach fs start c → 2 ≤ c → c < maxCachedClusters → successor (fs.entryAt c) ≠ 0 →
      Reach fs start (successor (fs.entryAt c))

/-- Every one of them has an entry in the cache. -/
def Safe (fs : Fat16) (start : Nat) : Prop :=
  ∀ c, Reach fs start c → c < maxCachedClusters

theorem Safe.lt (h : fs.Safe c) : c < maxCachedClusters :=
  h c .start

theorem Safe.next (h : fs.Safe c) (hc : 2 ≤ c) (hnext : successor (fs.entryAt c) ≠ 0) :
    fs.Safe (successor (fs.entryAt c)) := by
  intro x hx
  refine h x ?_
  induction hx with
  | start => exact .next .start hc h.lt hnext
  | next _ h₂ hlt hne ih => exact .next ih h₂ hlt hne

theorem two_le_successor {e : Nat} (h : successor e ≠ 0) : 2 ≤ successor e := by
  rw [successor] at h ⊢
  split at h
  · exact absurd rfl h
  · rename_i hin
    rw [if_neg hin]
    omega

/-- The first `n` clusters from `c` on. -/
def chainFrom (fs : Fat16) : Nat → Nat → List Nat
  | 0, _ => []
  | n + 1, c => if c < 2 then [] else c :: chainFrom fs n (successor (fs.entryAt c))

theorem chainFrom_low (hc : c < 2) (n : Nat) : fs.chainFrom n c = [] := by
  cases n with
  | zero => rfl
  | succ n => exact if_pos hc

/-- They are a path to a cluster behind them, or to the end. -/
theorem chainFrom_path (n : Nat) (hsafe : c ≠ 0 → 2 ≤ c ∧ fs.Safe c) :
    ∃ far, fs.Path (fs.chainFrom n c) far ∧ (fs.chainFrom n c)[0]?.getD far = c ∧
      (far = 0 ∨ (fs.chainFrom n c).length = n) := by
  induction n generalizing c with
  | zero => exact ⟨c, (fun h => by cases h), rfl, Or.inr rfl⟩
  | succ n ih =>
    by_cases h0 : c = 0
    · subst h0
      exact ⟨0, (fun h => by cases h), rfl, Or.inl rfl⟩
    · obtain ⟨htwo, hsafe⟩ := hsafe h0
      rw [chainFrom, if_neg (Nat.not_lt.mpr htwo)]
      obtain ⟨far, hpath, hhead, hlen⟩ := ih fun hnext => ⟨two_le_successor hnext, hsafe.next htwo hnext⟩
      refine ⟨far, fun {k c'} hk => ?_, rfl, hlen.imp id (congrArg (· + 1))⟩
      cases k with
      | zero =>
        obtain rfl := Option.some.inj hk
        exact ⟨⟨htwo, hsafe.lt⟩, (nextCluster_eq hsafe.lt).trans (congrArg Except.ok hhead.symm)⟩
      | succ k => exact hpath hk

/-- The bytes of a list of clusters, one cluster after the other. -/
theorem contents_all (hpos : 0 < fs.clusterBytes) (m : Mem) (cs : List Nat) :
    fs.contents m cs 0 (cs.length * fs.clusterBytes) =
      cs.flatMap fun c => load m (fs.clusterAt c) fs.clusterBytes := by
  induction cs with
  | nil => rw [length_nil, Nat.zero_mul]; rfl
  | cons c cs ih =>
    have hfirst := fs.contents_eq_load (q := 0) m (getElem?_cons_zero (a := c) (l := cs)) (Nat.le_of_eq (Nat.zero_add _))
    have hrest : ∀ i, fs.byteAddr (c :: cs) (fs.clusterBytes + i) = fs.byteAddr cs i := fun i => by
      rw [byteAddr, byteAddr, Nat.add_div_left i hpos, Nat.add_mod_left, getElem?_cons_succ]
    rw [flatMap_cons, ← ih, length_cons, Nat.succ_mul, Nat.add_comm, contents_append]
    rw [Nat.zero_mul] at hfirst
    refine congrArg₂ _ hfirst (ext_getElem? fun i => ?_)
    simp only [contents_getElem?, Nat.zero_add, hrest]

/-- Whatever the links are, so long as they stay in the cache: a read returns, and if no sector fails,
then with the bytes from `offset` to the end of the file, of the buffer or of the chain. -/
theorem readFile_from (hgeo : fs.Geometry) {first size n : Nat} (hsafe : fs.Safe first) (blk : BlockIo σ)
    (view : σ → Nat → Sector) (hn : size ≤ n * fs.clusterBytes) (d : σ) (offset outLen : Nat) :
    ∃ out d', fs.readFile blk d first size offset outLen = .ok (out, d') ∧
      (blk.Keeps view → blk.Reads → out = (((fs.chainFrom n first).flatMap fun c =>
        load (flat (view d)) (fs.clusterAt c) fs.clusterBytes).take (min size (offset + outLen))).drop offset) := by
  by_cases hlow : first < 2
  · refine ⟨[], d, ?_, fun _ _ => by rw [chainFrom_low hlow, flatMap_nil, take_nil, drop_nil]⟩
    rw [readFile]
    split
    · rfl
    · rw [seekRead.eq_def]
      split <;> simp only [Nat.not_le.mpr hlow, false_and, if_false, bind, Except.bind, hlow, if_true] <;> rfl
  · obtain ⟨far, hpath, -, hlen⟩ := fs.chainFrom_path n fun _ => ⟨Nat.not_lt.mp hlow, hsafe⟩
    have hfirst : 0 < size → (fs.chainFrom n first)[0]? = some first := by
      intro hpos
      cases n with
      | zero => omega
      | succ n => rw [chainFrom, if_neg hlow]; rfl
    obtain ⟨out, d', hread, hkept⟩ :=
      readFile_path hgeo blk view hpath hfirst (hlen.imp id fun h => by rwa [h]) d offset outLen
    refine ⟨out, d', hread, fun hkeeps hreads => (hkept hkeeps hreads).1.trans (ext_getElem? fun i => ?_)⟩
    rw [← contents_all hgeo.bytes_pos, getElem?_drop, getElem?_take, contents_getElem?, contents_getElem?, Nat.zero_add]
    by_cases hi : offset + i < min size (offset + outLen)
    · rw [if_pos hi]
      exact if_congr (by omega) rfl rfl
    · rw [if_neg hi, if_neg (by omega)]

theorem readFile_chain (hgeo : fs.Geometry) (hkeeps : blk.Keeps view) (hreads : blk.Reads)
    (hlinks : ∀ c, IsNode c → successor (fs.entryAt c) < maxCachedClusters) {first size n : Nat}
    (hfirst : first < maxCachedClusters) (hn : size ≤ n * fs.clusterBytes) (d : σ) (offset outLen : Nat) :
    ∃ d', fs.readFile blk d first size offset outLen =
      .ok ((((fs.chainFrom n first).flatMap fun c => load (flat (view d)) (fs.clusterAt c) fs.clusterBytes).take
        (min size (offset + outLen))).drop offset, d') := by
  have hsafe : fs.Safe first := by
    intro c hc
    cases hc with
    | start => exact hfirst
    | next _ htwo hlt _ => exact hlinks _ ⟨htwo, hlt⟩
  obtain ⟨out, d', hread, hkept⟩ := readFile_from hgeo hsafe blk view hn d offset outLen
  exact ⟨d', hkept hkeeps hreads ▸ hread⟩

/-- A volume with four free clusters of one sector each. -/
def small : Fat16 where
  sectorsPerCluster := 1
  fatBase := 1
  fatSectors := 1
  rootBase := 2
  rootEntries := 16
  dataBase := 3
  totalClusters := 6
  clusterBytes := 512
  fat := fun _ => 0
  fatEntries := 6

theorem small_geometry : small.Geometry := by
  constructor <;> decide

/-- A cluster that is linked to itself is read again and again. -/
theorem readFile_chain_loop :
    ∃ d', (small.withEntry 2 2).readFile ramDisk (fun _ _ => 7) 2 1024 510 4 = .ok ([7, 7, 7, 7], d') := by
  have hgeo : (small.withEntry 2 2).Geometry := by constructor <;> decide
  have hlinks : ∀ c, IsNode c → successor ((small.withEntry 2 2).entryAt c) < maxCachedClusters := by
    intro c _
    rw [entryAt_withEntry _ _ (by decide), Function.update_apply]
    split
    · decide
    · exact (by decide : successor 0 < maxCachedClusters)
  obtain ⟨d', hread⟩ := readFile_chain (n := 2) hgeo ramDisk_keeps ramDisk_reliable.read hlinks
    (by decide : 2 < maxCachedClusters) (by decide : 1024 ≤ 2 * 512) (fun _ _ => 7) 510 4
  exact ⟨d', hread.trans (congrArg (fun l => Except.ok (l, d')) (by decide +kernel))⟩

end Fat16

end Tanix.Fs
