/-
# `Tanix.Fs.Returns` — on any disk

Nothing is assumed about the disk: every call may fail or bring any sector.  Loops end, since a
seek takes a cluster off the offset in every turn and a read or a write moves at least one byte
per cluster, through whatever cycle of links.  What can go wrong is an index: cluster numbers are
16 bits wide and taken from the disk, and the cache has 4096 entries (`Safe`); and a FAT of more
than 17 sectors, whose surplus is subtracted from the cache's size (`mount`).
-/
import Tanix.Fs.Persist

namespace Tanix.Fs

open Memory List

variable {σ : Type}

namespace Fat16

variable {blk : BlockIo σ} {fs fs' : Fat16} {c : Nat}

/-- A cluster that leads at most to itself. -/
theorem safe_of_stop (hc : c < maxCachedClusters) (h : successor (fs.entryAt c) = 0 ∨ successor (fs.entryAt c) = c) :
    fs.Safe c := by
  intro x hx
  have hself : x = c := by
    induction hx with
    | start => rfl
    | next _ _ _ hne ih =>
      subst ih
      exact h.resolve_left hne
  rw [hself]
  exact hc

/-- A new cluster is safe to go on from, whatever cluster it was linked to. -/
theorem allocCluster_returns (hentries : fs.fatEntries ≤ maxCachedClusters) {prev : Nat}
    (hprev : prev < maxCachedClusters) :
    fs.allocCluster prev = .ok none ∨
      ∃ c fat, fs.allocCluster prev = .ok (some ({ fs with fat := fat }, c)) ∧ 2 ≤ c ∧
        Safe { fs with fat := fat } c := by
  rcases allocCluster_cases hentries hprev with ⟨hnone, -⟩ | ⟨c, fat, hrun, hmem, -, hlink⟩
  · exact Or.inl hnone
  · obtain ⟨htwo, hlt⟩ := mem_candidates.mp hmem
    have hc := Nat.lt_of_lt_of_le hlt hentries
    refine Or.inr ⟨c, fat, hrun, htwo, safe_of_stop hc ?_⟩
    rw [hlink, if_pos rfl]
    split
    · -- a free cluster that was linked to: it is linked to itself
      simp only [maxCachedClusters] at hc
      rw [successor, if_neg (by omega)]
      exact Or.inr rfl
    · exact Or.inl rfl

/-! ## Writing -/

/-- The next cluster of a walk that writes. -/
theorem advance_returns (hgeo : fs.Geometry) (hc : 2 ≤ c) (hsafe : fs.Safe c) :
    fs.advance c = .ok none ∨ ∃ c' fat, fs.advance c = .ok (some ({ fs with fat := fat }, c')) ∧ 2 ≤ c' ∧
      Safe { fs with fat := fat } c' := by
  rw [advance, nextCluster_eq hsafe.lt]
  by_cases hnext : successor (fs.entryAt c) = 0
  · rw [hnext]
    exact allocCluster_returns hgeo.entries hsafe.lt
  · exact Or.inr ⟨_, fs.fat, if_neg hnext, two_le_successor hnext, hsafe.next hc hnext⟩

theorem seekWrite_returns (hgeo : fs.Geometry) {n skip : Nat} (hsafe : 2 ≤ c → fs.Safe c)
    (hn : skip / fs.clusterBytes ≤ n) :
    ∃ fat r, fs.seekWrite n c skip = .ok ({ fs with fat := fat }, r) ∧
      ∀ p, r = some p → 2 ≤ p.1 → p.2 < fs.clusterBytes ∧ Safe { fs with fat := fat } p.1 := by
  have hpos := hgeo.bytes_pos
  induction n generalizing fs c skip with
  | zero =>
    have hlt : skip < fs.clusterBytes := (Nat.div_eq_zero_iff_lt hpos).mp (Nat.le_zero.mp hn)
    refine ⟨fs.fat, some (c, skip), ?_, ?_⟩
    · rw [seekWrite, if_neg (by omega)]
    · rintro _ ⟨⟩ hc
      exact ⟨hlt, hsafe hc⟩
  | succ n ih =>
    rw [seekWrite_advance]
    by_cases hcond : 2 ≤ c ∧ fs.clusterBytes ≤ skip
    · have hn₁ : (skip - fs.clusterBytes) / fs.clusterBytes ≤ n := by
        have := Nat.div_eq_sub_div hpos hcond.2
        omega
      rw [if_pos hcond]
      obtain hadv | ⟨c', fat, hadv, -, hsafe'⟩ := advance_returns hgeo hcond.1 (hsafe hcond.1)
      · rw [hadv]
        exact ⟨fs.fat, none, rfl, fun _ h => by cases h⟩
      · rw [hadv]
        exact ih (hgeo.withFat fat) (fun _ => hsafe') hn₁ hpos
    · rw [if_neg hcond]
      refine ⟨fs.fat, some (c, skip), rfl, ?_⟩
      rintro _ ⟨⟩ hc
      exact ⟨by omega, hsafe hc⟩

theorem writeLoop_returns (hgeo : fs.Geometry) (blk : BlockIo σ) {data : List UInt8} {offset fuel k src : Nat} (hc : 2 ≤ c)
    (hsafe : fs.Safe c) (hoff : offset < (k + 1) * fs.clusterBytes)
    (hsrc : src = min data.length (k * fs.clusterBytes - offset)) (hfuel : data.length ≤ src + fuel) (d : σ) :
    ∃ done fat d', writeLoop blk data fs fuel c src (offset - k * fs.clusterBytes) d =
      .ok (done, { fs with fat := fat }, d') := by
  induction fuel generalizing fs c k src d with
  | zero =>
    rw [writeLoop, if_neg (by omega)]
    exact ⟨true, fs.fat, d, rfl⟩
  | succ fuel ih =>
    rw [writeLoop_advance]
    by_cases hmore : src < data.length
    · have hpos := hgeo.bytes_pos
      have hstep : (k + 1) * fs.clusterBytes = k * fs.clusterBytes + fs.clusterBytes := Nat.succ_mul ..
      have hstep₁ : (k + 1 + 1) * fs.clusterBytes = (k + 1) * fs.clusterBytes + fs.clusterBytes := Nat.succ_mul ..
      rw [if_pos hmore, sectorOf_eq hc]
      obtain ⟨done, src₁, d₁, hcluster, -, hdone, -⟩ := writeCluster_chain hgeo blk (fun _ _ _ => 0) (fun _ => 0)
        (getElem?_replicate_of_lt (Nat.lt_succ_self k)) (i := 0) (Nat.zero_add _) d hsrc rfl
      simp only [bind, Except.bind, range_eq_range', Nat.mul_zero, Nat.add_zero] at hcluster ⊢
      rw [hcluster]
      cases done with
      | false => exact ⟨false, fs.fat, d₁, rfl⟩
      | true =>
        have hsrc₁ := hdone rfl
        simp only [Bool.true_eq_false, if_false]
        by_cases hmore₁ : src₁ < data.length
        · rw [if_pos hmore₁]
          obtain hadv | ⟨c', fat, hadv, hc', hsafe'⟩ := advance_returns hgeo hc hsafe
          · rw [hadv]
            exact ⟨false, fs.fat, d₁, rfl⟩
          · rw [hadv]
            have hrest := ih (hgeo.withFat fat) hc' hsafe' (k := k + 1) (by dsimp only; omega) hsrc₁ (by omega) d₁
            rwa [Nat.sub_eq_zero_of_le (Nat.le_of_lt hoff)] at hrest
        · rw [if_neg hmore₁]
          exact ⟨true, fs.fat, d₁, rfl⟩
    · rw [if_neg hmore]
      exact ⟨true, fs.fat, d, rfl⟩

theorem writeFrom_returns (hgeo : fs.Geometry) {e : DirEntry} (hsafe : fs.Safe e.startCluster.toNat)
    (blk : BlockIo σ) (d : σ) (idx offset : Nat) (data : List UInt8) :
    ∃ w, writeFrom blk fs d idx e offset data = .ok w := by
  rw [writeFrom]
  obtain ⟨fat, _ | ⟨c', skip⟩, hseek, hsafe'⟩ :=
    seekWrite_returns hgeo (fun _ => hsafe) (Nat.le_refl (offset / fs.clusterBytes))
  · rw [hseek]
    exact ⟨_, rfl⟩
  · rw [hseek]
    simp only [bind, Except.bind]
    by_cases hlow : c' < 2
    · rw [if_pos hlow]
      exact ⟨_, rfl⟩
    · rw [if_neg hlow]
      have hc := Nat.not_lt.mp hlow
      obtain ⟨hskip, hsafe'⟩ := hsafe' (c', skip) rfl hc
      have hnothing : 0 = min data.length (0 * fs.clusterBytes - skip) := by
        rw [Nat.zero_mul, Nat.zero_sub, Nat.min_zero]
      obtain ⟨done, fat', d', hloop⟩ := writeLoop_returns (hgeo.withFat fat) blk hc hsafe'
        (by rwa [Nat.zero_add, Nat.one_mul]) hnothing (Nat.le_add_left _ _) d
      rw [Nat.zero_mul, Nat.sub_zero] at hloop
      rw [hloop]
      cases done with
      | false => exact ⟨_, rfl⟩
      | true =>
        obtain ⟨_ | _, d₂, hflush, -⟩ := flushFat_spec blk (fun _ _ _ => 0) (hgeo.withFat fat').entries d'
        · simp only [hflush]
          exact ⟨_, rfl⟩
        · simp only [hflush]
          exact ⟨_, rfl⟩

theorem writeFile_returns (hgeo : fs.Geometry) {e : DirEntry} (hsafe : fs.Safe e.startCluster.toNat)
    (blk : BlockIo σ) (d : σ) (idx offset : Nat) (data : List UInt8) :
    ∃ w, fs.writeFile blk d idx e offset data = .ok w := by
  rw [writeFile]
  by_cases hdata : data = []
  · rw [if_pos hdata]
    exact ⟨_, rfl⟩
  · rw [if_neg hdata]
    by_cases hstart : e.startCluster = 0
    · rw [if_pos hstart]
      obtain hnone | ⟨c', fat, hsome, -, hsafe'⟩ := allocCluster_returns hgeo.entries (by decide : 0 < maxCachedClusters)
      · rw [hnone]
        exact ⟨_, rfl⟩
      · rw [hsome]
        refine writeFrom_returns (hgeo.withFat fat) ?_ blk d idx offset data
        have hc := Nat.lt_trans hsafe'.lt (by decide : maxCachedClusters < 2 ^ 16)
        rwa [UInt16.toNat_ofNat_of_lt' hc]
    · rw [if_neg hstart]
      exact writeFrom_returns hgeo hsafe blk d idx offset data

/-! ## Mounting -/

/-- A volume that has been mounted, from whatever disk. -/
theorem mount_geometry {d d' : σ} (h : mount blk d = .ok (some fs, d')) : fs.Geometry := by
  rcases hread : blk.readSector d 0 with ⟨_ | bs, d₁⟩
  · rw [mount, hread] at h
    cases h
  · rw [mount, hread] at h
    cases hboot : parseBoot bs with
    | none =>
      simp only [hboot] at h
      cases h
    | some fs₀ =>
      simp only [hboot, range_eq_range'] at h
      obtain ⟨-, fat, rfl⟩ := loadFat_some h
      exact (parseBoot_geometry hboot).withFat fat

theorem loadFat_underflow (hrel : blk.Reliable) {n : Nat} (hn : 17 < n) (d : σ) :
    fs.loadFat blk (List.range' 0 n) d = .error .underflow := by
  rcases loadFat_cases (n := n) blk fs (Nat.zero_le 17) d with ⟨_, -, hun⟩ | ⟨hle, -⟩ | ⟨-, h⟩
  · exact absurd hrel hun
  · omega
  · exact h

/-- Mounting returns, whatever the disk brings after the boot sector. -/
def MountReturns (bs : Sector) : Prop :=
  ∀ (σ : Type) (blk : BlockIo σ) (d d' : σ), blk.readSector d 0 = (some bs, d') → ∃ r, mount blk d = .ok r

theorem mount_ramDisk {d : Nat → Sector} (hboot : parseBoot (d 0) = some fs) :
    mount ramDisk d = fs.loadFat ramDisk (List.range fs.fatSectors) d := by
  have hread : ramDisk.readSector d 0 = (some (d 0), d) := rfl
  rw [mount, hread]
  dsimp only
  rw [hboot]

theorem mountReturns_iff (bs : Sector) : MountReturns bs ↔ ∀ fs, parseBoot bs = some fs → fs.fatSectors ≤ 17 := by
  constructor
  · intro h fs hboot
    by_contra hmany
    let d : Nat → Sector := fun n => if n = 0 then bs else fun _ => 0
    obtain ⟨r, hr⟩ := h _ ramDisk d d rfl
    rw [mount_ramDisk hboot, range_eq_range', loadFat_underflow ramDisk_reliable (Nat.not_le.mp hmany)] at hr
    cases hr
  · intro h σ blk d d' hread
    rw [mount, hread]
    cases hboot : parseBoot bs with
    | none =>
      simp only [hboot]
      exact ⟨_, rfl⟩
    | some fs =>
      simp only [hboot, range_eq_range']
      rcases loadFat_cases blk fs (Nat.zero_le 17) d' with ⟨_, h', -⟩ | ⟨-, _, _, h'⟩ | ⟨hn, -⟩
      · exact ⟨_, h'⟩
      · exact ⟨_, h'⟩
      · exact absurd hn (Nat.not_lt.mpr (Nat.zero_add _ ▸ h fs hboot))

/-! ## A walk that leaves the cache -/

/-- The cluster after `n` links. -/
def walk (fs : Fat16) (start : Nat) : Nat → Nat
  | 0 => start
  | n + 1 => successor (fs.entryAt (fs.walk start n))

theorem walk_add (fs : Fat16) (start i t : Nat) : fs.walk start (i + t) = fs.walk (fs.walk start i) t := by
  induction t with
  | zero => rfl
  | succ t ih => rw [← Nat.add_assoc, walk, ih, walk]

/-- The first `n` clusters of the walk have an entry, and a successor. -/
def Inside (fs : Fat16) (start n : Nat) : Prop :=
  ∀ k < n, 2 ≤ fs.walk start k ∧ fs.walk start k < maxCachedClusters ∧ fs.walk start (k + 1) ≠ 0

theorem Reach.walk {start : Nat} (h : Reach fs start c) : ∃ n, fs.walk start n = c ∧ fs.Inside start n := by
  induction h with
  | start => exact ⟨0, rfl, fun _ hk => absurd hk (Nat.not_lt_zero _)⟩
  | next _ h₂ hlt hne ih =>
    obtain ⟨n, rfl, hin⟩ := ih
    refine ⟨n + 1, rfl, fun k hk => ?_⟩
    rcases Nat.lt_succ_iff_lt_or_eq.mp hk with hk | rfl
    · exact hin k hk
    · exact ⟨h₂, hlt, hne⟩

/-- Before a walk leaves the cache it does not come to a cluster twice. -/
theorem Inside.length_le {start n : Nat} (h : fs.Inside start n) (hout : maxCachedClusters ≤ fs.walk start n) :
    n ≤ maxCachedClusters := by
  have hinj : ∀ i j, i < j → j < n → fs.walk start i ≠ fs.walk start j := by
    intro i j hij hj heq
    have hback : fs.walk start (i + (n - j)) = fs.walk start n := by
      rw [walk_add, heq, ← walk_add, Nat.add_sub_cancel' (Nat.le_of_lt hj)]
    have := (h (i + (n - j)) (by omega)).2.1
    omega
  have hnodup : ((List.range n).map (fs.walk start)).Nodup := by
    refine nodup_range.map_on fun i hi j hj heq => ?_
    rw [mem_range] at hi hj
    rcases Nat.lt_trichotomy i j with hlt | rfl | hgt
    · exact absurd heq (hinj i j hlt hj)
    · rfl
    · exact absurd heq.symm (hinj j i hgt hi)
  have hsub : (List.range n).map (fs.walk start) ⊆ List.range maxCachedClusters := by
    intro x hx
    obtain ⟨k, hk, rfl⟩ := List.mem_map.mp hx
    exact mem_range.mpr (h k (mem_range.mp hk)).2.1
  have hlen := (subperm_of_subset hnodup hsub).length_le
  rwa [length_map, length_range, length_range] at hlen

theorem seekWrite_outside {n : Nat} (h : fs.Inside c n) (hout : maxCachedClusters ≤ fs.walk c n) :
    fs.seekWrite (n + 1) c ((n + 1) * fs.clusterBytes) = .error .index := by
  induction n generalizing c with
  | zero =>
    have hout : maxCachedClusters ≤ c := hout
    simp only [maxCachedClusters] at hout
    rw [seekWrite, if_pos ⟨by omega, by omega⟩, nextCluster, fatEntry, if_neg ?_]
    · rfl
    · simp only [fatLen, maxCachedClusters]
      omega
  | succ n ih =>
    obtain ⟨h₂, hlt, hne⟩ := h 0 (Nat.succ_pos n)
    have hlt : c < maxCachedClusters := hlt
    have hne : successor (fs.entryAt c) ≠ 0 := hne
    have hshift : ∀ k, fs.walk (successor (fs.entryAt c)) k = fs.walk c (k + 1) := fun k => by
      rw [Nat.add_comm, walk_add]
      rfl
    have hstep : (n + 1 + 1) * fs.clusterBytes = (n + 1) * fs.clusterBytes + fs.clusterBytes := Nat.succ_mul ..
    rw [seekWrite, if_pos ⟨h₂, by omega⟩, nextCluster_eq hlt]
    simp only [bind, Except.bind]
    rw [if_neg hne, hstep, Nat.add_sub_cancel]
    refine ih (fun k hk => ?_) (by rwa [hshift])
    rw [hshift, hshift]
    exact h (k + 1) (by omega)

/-- Reading and writing the file of an entry returns, at every offset and for every buffer and
disk. -/
def FileReturns (fs : Fat16) (e : DirEntry) : Prop :=
  ∀ (σ : Type) (blk : BlockIo σ) (d : σ) (idx : Nat) (offset : UInt32) (outLen : Nat) (data : List UInt8),
    (∃ r, fs.readFile blk d e.startCluster.toNat e.size.toNat offset.toNat outLen = .ok r) ∧
      ∃ w, fs.writeFile blk d idx e offset.toNat data = .ok w

theorem fileReturns_iff (hgeo : fs.Geometry) (e : DirEntry) : FileReturns fs e ↔ fs.Safe e.startCluster.toNat := by
  constructor
  · intro h c hreach
    by_contra hout
    obtain ⟨n, rfl, hin⟩ := hreach.walk
    have hout := Nat.not_lt.mp hout
    have hbytes : fs.clusterBytes ≤ 65536 := by
      rw [hgeo.bytes]
      have := hgeo.sectors_le
      omega
    have hoff : (n + 1) * fs.clusterBytes < 2 ^ 32 :=
      calc (n + 1) * fs.clusterBytes ≤ 4097 * 65536 :=
            Nat.mul_le_mul (Nat.succ_le_succ (hin.length_le hout)) hbytes
        _ < 2 ^ 32 := by decide
    obtain ⟨-, w, hw⟩ := h Unit ⟨fun d _ => (none, d), fun d _ _ => (false, d)⟩ () 0
      (UInt32.ofNat ((n + 1) * fs.clusterBytes)) 0 [0]
    have hstart : e.startCluster ≠ 0 := by
      intro h0
      rw [h0] at hout hin
      cases n with
      | zero => exact absurd (show maxCachedClusters ≤ 0 from hout) (by decide)
      | succ n => exact absurd (show 2 ≤ 0 from (hin 0 (Nat.succ_pos n)).1) (by decide)
    rw [UInt32.toNat_ofNat_of_lt' hoff, writeFile, if_neg (cons_ne_nil _ _), if_neg hstart, writeFrom,
      Nat.mul_div_cancel _ hgeo.bytes_pos, seekWrite_outside hin hout] at hw
    cases hw
  · intro hsafe σ blk d idx offset outLen data
    obtain ⟨out, d', hread, -⟩ := readFile_from hgeo hsafe blk (fun _ _ _ => 0)
      (Nat.le_mul_of_pos_right e.size.toNat hgeo.bytes_pos) d offset.toNat outLen
    exact ⟨⟨_, hread⟩, writeFile_returns hgeo hsafe blk d idx _ data⟩

/-- On any disk: mounting returns just when the FAT has at most 17 sectors, an entry of the root
directory lies inside its sector, and on a mounted volume reading and writing the file of an entry
return just when the links from its start cluster stay below the 4096 entries of the cache. -/
theorem fat_returns_iff (bs : Sector) (idx : Nat) (σ : Type) (blk : BlockIo σ) (d d' : σ) (fs : Fat16) (e : DirEntry) :
    (MountReturns bs ↔ ∀ fs, parseBoot bs = some fs → fs.fatSectors ≤ 17) ∧
      rootOffset idx + 32 ≤ 512 ∧
      (mount blk d = .ok (some fs, d') → (FileReturns fs e ↔ fs.Safe e.startCluster.toNat)) := by
  refine ⟨mountReturns_iff bs, ?_, fun hmount => fileReturns_iff (mount_geometry hmount) e⟩
  rw [rootOffset]
  omega

theorem fat_returns_iff_smallDisk : ∃ fs, mount ramDisk (smallDisk 2) = .ok (some fs, smallDisk 2) ∧
    FileReturns fs newEntry := by
  obtain ⟨-, -, hfile⟩ := fat_returns_iff smallBoot 0 _ ramDisk _ _ _ newEntry
  refine ⟨_, mount_smallDisk 2, (hfile (mount_smallDisk 2)).mpr ?_⟩
  exact safe_of_stop (by decide) (Or.inl rfl)

def indexed {α : Type} : Except FsPanic α → Bool
  | .error .index => true
  | _ => false

theorem indexed_eq {α : Type} {x : Except FsPanic α} (h : indexed x = true) : x = .error .index := by
  rcases x with (_ | _ | _) | _
  · rfl
  all_goals cases h

/-- The small boot sector with 18 FAT sectors. -/
def longBoot : Sector := fun r => if r = 0x16 then 18 else if r = 0x13 then 40 else smallBoot r

/-- A disk with a file that starts at cluster 4096. -/
def strayDisk : Nat → Sector := fun n =>
  if n = 2 then store (fun _ => 0) 0 (DirEntry.encode { newEntry with startCluster := 4096, size := 1 })
  else smallDisk 2 n

/-- Mounting a FAT of 18 sectors computes below zero, and reading a file that starts at cluster
4096 looks at an entry that is not cached. -/
theorem mount_and_read_overrun :
    (∃ d, mount ramDisk d = .error .underflow) ∧
      ∃ fs idx e, mount ramDisk strayDisk = .ok (some fs, strayDisk) ∧
        fs.findRoot ramDisk strayDisk newEntry.name = (some (idx, e), strayDisk) ∧
        fs.readFile ramDisk strayDisk e.startCluster.toNat e.size.toNat 0 1 = .error .index := by
  constructor
  · let d : Nat → Sector := fun _ => longBoot
    have hsectors : (parseBoot (d 0)).map (·.fatSectors) = some 18 := by decide +kernel
    obtain ⟨fs, hboot, hfat⟩ := Option.map_eq_some_iff.mp hsectors
    refine ⟨d, ?_⟩
    rw [mount_ramDisk hboot, range_eq_range', hfat]
    exact loadFat_underflow ramDisk_reliable (by decide) d
  · have hboot : parseBoot (id strayDisk 0) = some small := smallBoot_parse
    obtain ⟨d, hmount, hview⟩ := mount_eq ramDisk_keeps ramDisk_reliable hboot (by decide)
    obtain rfl : d = strayDisk := hview
    refine ⟨_, 0, DirEntry.decode (strayDisk 2) 0, hmount, ?_, ?_⟩
    · show findRootFrom ramDisk _ newEntry.name (0 :: List.range' 1 15) strayDisk = _
      rw [findRootFrom]
      show (if (DirEntry.decode (strayDisk 2) 0).isEmpty then _ else if _ then _ else _) = _
      rw [if_neg (by decide +kernel), if_pos (by decide +kernel)]
      rfl
    · have htest : indexed (readFile ramDisk { small with fat := small.cached (flat strayDisk) } strayDisk
          (DirEntry.decode (strayDisk 2) 0).startCluster.toNat (DirEntry.decode (strayDisk 2) 0).size.toNat 0 1) = true := by
        decide +kernel
      exact indexed_eq htest

end Fat16

end Tanix.Fs
