/-
# `Tanix.Fs.Persist` — the FAT on the disk and in the cache

`mount` caches at most the 4096 entries there is room for, `flush_fat` writes back the first
`fat_entries` of them, and the clusters of the data area are numbered up to
`total_clusters + 1`, where `fat_entries` is `total_clusters`:

    entry          0 … total_clusters - 1     total_clusters, total_clusters + 1
    mount          cached                     cached
    flush_fat      written back               overwritten with 0

So the entries of the last two clusters survive a flush just when they are 0, and a volume that
is mounted again has the cached entries when besides the FAT has a sector for all of them.
-/
import Tanix.Fs.Files

namespace Tanix.Fs

open Memory List

variable {σ : Type}

namespace Fat16

variable {blk : BlockIo σ} {view : σ → Nat → Sector} {fs fs' : Fat16} {m : Mem} {c : Nat}

/-! ## Mounting -/

/-- The volume with sector `i` of the FAT in the cache. -/
def withSector (fs : Fat16) (i : Nat) (sec : Sector) : Fat16 :=
  { fs with fat := store fs.fat (i * 512) (load sec 0 (min (fatLen - i * 512) 512)) }

variable {a n i r : Nat}

variable {sec bs : Sector}

/-- A FAT sector that fits into the cache, or of which nothing does. -/
theorem loadFat_near (hi : i ≤ 16) (is : List Nat) {d d' : σ}
    (hread : blk.readSector d (fs.fatBase + i) = (some sec, d')) :
    fs.loadFat blk (i :: is) d = (fs.withSector i sec).loadFat blk is d' := by
  have hroom : i * 512 ≤ fatLen := by
    simp only [fatLen, maxCachedClusters]
    omega
  have hsec : 0 + min (fatLen - i * 512) 512 ≤ 512 := by
    rw [Nat.zero_add]
    exact Nat.min_le_right ..
  have hfat : i * 512 + (load sec 0 (min (fatLen - i * 512) 512)).length ≤ fatLen := by
    rw [load_length]
    exact Nat.add_le_of_le_sub' hroom (Nat.min_le_left ..)
  rw [loadFat, hread]
  simp only [bind, Except.bind, sub_eq hroom, slice_eq hsec, patch_eq hfat]
  rfl

/-- The cache when FAT sectors `i, …, i + n - 1` have been loaded. -/
def loaded (fs : Fat16) (m : Mem) (i n : Nat) : Mem :=
  fun b => if 512 * i ≤ b ∧ b < min (512 * (i + n)) fatLen then m (512 * fs.fatBase + b) else fs.fat b

theorem loaded_succ (fs : Fat16) (v : Nat → Sector) (i n : Nat) :
    (fs.withSector i (v (fs.fatBase + i))).loaded (flat v) (i + 1) n = fs.loaded (flat v) i (n + 1) := by
  funext b
  rw [loaded, loaded, withSector]
  dsimp only
  generalize fatLen = fatLen
  by_cases hlow : 512 * (i + 1) ≤ b
  · have hout : i * 512 + (load (v (fs.fatBase + i)) 0 (min (fatLen - i * 512) 512)).length ≤ b := by
      simp only [load_length]
      omega
    rw [store_outside (Or.inr hout), show i + 1 + n = i + (n + 1) by omega]
    simp only [hlow, show 512 * i ≤ b by omega, true_and]
  · rw [if_neg (by omega)]
    by_cases hin : 512 * i ≤ b ∧ b < fatLen
    · obtain ⟨r, rfl⟩ := Nat.exists_eq_add_of_le hin.1
      have hget : (load (v (fs.fatBase + i)) 0 (min (fatLen - i * 512) 512))[r]? = some (v (fs.fatBase + i) r) := by
        rw [load_getElem?, if_pos (by omega), Nat.zero_add]
      rw [if_pos (by omega), Nat.mul_comm 512 i, store_inside hget, Nat.mul_comm i 512, ← Nat.add_assoc,
        ← Nat.mul_add, flat_sector v (by omega)]
    · rw [if_neg (by omega), store_outside ?_]
      simp only [load_length]
      omega

theorem loadFat_spec (hkeeps : blk.Keeps view) (hrel : blk.Reliable) (fs : Fat16)
    (hn : i + n ≤ 17) (d : σ) :
    ∃ d', fs.loadFat blk (List.range' i n) d = .ok (some { fs with fat := fs.loaded (flat (view d)) i n }, d') ∧
      view d' = view d := by
  induction n generalizing i fs d with
  | zero =>
    have hsame : fs.loaded (flat (view d)) i 0 = fs.fat := funext fun b => if_neg (by omega)
    rw [hsame]
    exact ⟨d, rfl, rfl⟩
  | succ n ih =>
    obtain ⟨d₁, hread, hview⟩ := readSector_eq hkeeps hrel.read d (fs.fatBase + i)
    rw [range'_succ, loadFat_near (by omega) _ hread, ← loaded_succ, ← hview]
    obtain ⟨d', hrest, hview'⟩ := ih (fs.withSector i (view d (fs.fatBase + i))) (i := i + 1) (by omega) d₁
    rw [hview] at hrest ⊢
    exact ⟨d', hrest, hview'.trans hview⟩

/-- On any disk: a sector cannot be read, or there are at most 17 of them, or too many. -/
theorem loadFat_cases (blk : BlockIo σ) (fs : Fat16) (hi : i ≤ 17) (d : σ) :
    (∃ d', fs.loadFat blk (List.range' i n) d = .ok (none, d') ∧ ¬ blk.Reliable) ∨
      (i + n ≤ 17 ∧ ∃ fat d', fs.loadFat blk (List.range' i n) d = .ok (some { fs with fat := fat }, d')) ∨
      (17 < i + n ∧ fs.loadFat blk (List.range' i n) d = .error .underflow) := by
  induction n generalizing i fs d with
  | zero => exact Or.inr (Or.inl ⟨hi, fs.fat, d, rfl⟩)
  | succ n ih =>
    rw [range'_succ, ← Nat.add_assoc, Nat.add_right_comm]
    rcases hread : blk.readSector d (fs.fatBase + i) with ⟨_ | sec, d₁⟩
    · refine Or.inl ⟨d₁, ?_, fun hrel => hrel.read d _ (congrArg Prod.fst hread)⟩
      rw [loadFat, hread]
    · rcases Nat.lt_or_ge i 17 with hlt | hge
      · rw [loadFat_near (by omega) _ hread]
        exact ih (fs.withSector i sec) hlt d₁
      · -- from sector 17 on the room that is left is computed below zero
        refine Or.inr (Or.inr ⟨by omega, ?_⟩)
        rw [loadFat, hread]
        simp only [bind, Except.bind]
        rw [sub, if_neg (by simp only [fatLen, maxCachedClusters]; omega)]

theorem loadFat_some {d d' : σ} (h : fs.loadFat blk (List.range' 0 n) d = .ok (some fs', d')) :
    n ≤ 17 ∧ ∃ fat, fs' = { fs with fat := fat } := by
  rcases loadFat_cases blk fs (Nat.zero_le 17) d with ⟨_, h', -⟩ | ⟨hn, fat, _, h'⟩ | ⟨-, h'⟩ <;>
    cases h.symm.trans h'
  exact ⟨Nat.zero_add n ▸ hn, fat, rfl⟩

/-- The cache of a volume that has just been mounted. -/
def cached (fs : Fat16) (m : Mem) : Mem :=
  fun b => if b < min (512 * fs.fatSectors) fatLen then m (512 * fs.fatBase + b) else 0

theorem parseBoot_fat (h : parseBoot bs = some fs) :
    fs.fat = (fun _ => 0) ∧ fs.fatEntries = fs.totalClusters ∧ 0 < fs.fatSectors ∧ 2 ≤ fs.totalClusters := by
  simp only [parseBoot, Option.ite_none_left_eq_some, Option.some.injEq, not_or] at h
  obtain ⟨-, -, -, ⟨-, hfat, -⟩, -, ⟨htwo, -⟩, rfl⟩ := h
  exact ⟨rfl, rfl, Nat.pos_of_ne_zero hfat, Nat.not_lt.mp htwo⟩

theorem loaded_eq_cached (h : parseBoot bs = some fs) (m : Mem) :
    fs.loaded m 0 fs.fatSectors = fs.cached m := by
  funext b
  rw [loaded, cached, (parseBoot_fat h).1, Nat.zero_add]
  simp only [Nat.mul_zero, Nat.zero_le, true_and]

theorem mount_eq (hkeeps : blk.Keeps view) (hrel : blk.Reliable) {d : σ} (hboot : parseBoot (view d 0) = some fs)
    (hsectors : fs.fatSectors ≤ 17) :
    ∃ d', mount blk d = .ok (some { fs with fat := fs.cached (flat (view d)) }, d') ∧ view d' = view d := by
  obtain ⟨d₁, hread, hview⟩ := readSector_eq hkeeps hrel.read d 0
  obtain ⟨d', hload, hview'⟩ := loadFat_spec hkeeps hrel fs (Nat.zero_add fs.fatSectors ▸ hsectors) d₁
  rw [hview, loaded_eq_cached hboot] at hload
  refine ⟨d', ?_, hview'.trans hview⟩
  rw [mount, hread]
  simp only [hboot, range_eq_range']
  exact hload

/-- A volume that `mount` accepts. -/
theorem mount_some (hkeeps : blk.Keeps view) (hrel : blk.Reliable) {d d' : σ}
    (h : mount blk d = .ok (some fs, d')) :
    ∃ fs₀, parseBoot (view d 0) = some fs₀ ∧ fs₀.fatSectors ≤ 17 ∧
      fs = { fs₀ with fat := fs₀.cached (flat (view d)) } ∧ view d' = view d := by
  obtain ⟨d₁, hread, -⟩ := readSector_eq hkeeps hrel.read d 0
  cases hboot : parseBoot (view d 0) with
  | none =>
    rw [mount, hread] at h
    simp only [hboot] at h
    cases h
  | some fs₀ =>
    have hload := h
    rw [mount, hread] at hload
    simp only [hboot, range_eq_range'] at hload
    have hsectors := (loadFat_some hload).1
    obtain ⟨d'', hmount, hview⟩ := mount_eq hkeeps hrel hboot hsectors
    obtain ⟨hfs, rfl⟩ := Prod.mk.inj (Except.ok.inj (h.symm.trans hmount))
    exact ⟨fs₀, rfl, hsectors, Option.some.inj hfs, hview⟩

/-! ## Entries on the disk -/

/-- The entry of cluster `c` on the disk. -/
def diskEntry (fs : Fat16) (m : Mem) (c : Nat) : Nat :=
  half m (512 * fs.fatBase + c * 2)

theorem half_congr {m' : Mem} {a' : Nat} (h₀ : m a = m' a') (h₁ : m (a + 1) = m' (a' + 1)) :
    half m a = half m' a' := by
  rw [half, half, load, load, load, load, load, load, h₀, h₁]

/-- The entries of a volume that has just been mounted. -/
theorem entryAt_cached (fs : Fat16) (m : Mem) (c : Nat) :
    entryAt { fs with fat := fs.cached m } c =
      if c < 256 * fs.fatSectors ∧ c < maxCachedClusters then fs.diskEntry m c else 0 := by
  split
  · rename_i hc
    refine half_congr ?_ ?_
    · exact if_pos (by simp only [fatLen]; omega)
    · rw [Nat.add_assoc]
      exact if_pos (by simp only [fatLen]; omega)
  · rename_i hc
    have hzero : half (fun _ => 0) 0 = 0 := rfl
    rw [← hzero]
    refine half_congr ?_ ?_
    · exact if_neg (by simp only [fatLen]; omega)
    · exact if_neg (by simp only [fatLen]; omega)

/-- The FAT on the disk is what `flush_fat` writes. -/
def Flushed (fs : Fat16) (m : Mem) : Prop :=
  ∀ i < fs.fatSectors, ∀ r < 512, m (512 * (fs.fatBase + i) + r) = fs.fatSector i r

theorem Flushed.byte (h : fs.Flushed m) {b : Nat} (hb : b < 512 * fs.fatSectors) :
    m (512 * fs.fatBase + b) = if b < fs.fatEntries * 2 then fs.fat b else 0 := by
  have hr : b % 512 < 512 := Nat.mod_lt b (by decide)
  have hsplit : b / 512 * 512 + b % 512 = b := Nat.div_add_mod' b 512
  have hat := h (b / 512) (Nat.div_lt_of_lt_mul hb) (b % 512) hr
  rw [Nat.mul_add, Nat.add_assoc, Nat.mul_comm 512 (b / 512), hsplit] at hat
  rw [hat, fatSector]
  split
  · have hget : (load fs.fat (b / 512 * 512) (min (fs.fatEntries * 2 - b / 512 * 512) 512))[b % 512]? =
        some (fs.fat b) := by
      rw [load_getElem?, if_pos (by omega), hsplit]
    rw [← Nat.zero_add (b % 512), store_inside hget]
  · rw [store_outside]
    rw [load_length]
    omega

theorem Flushed.entry (h : fs.Flushed m) (hc : c < 256 * fs.fatSectors) :
    fs.diskEntry m c = if c < fs.fatEntries then fs.entryAt c else 0 := by
  have h₀ := h.byte (b := c * 2) (by omega)
  have h₁ := h.byte (b := c * 2 + 1) (by omega)
  rw [← Nat.add_assoc] at h₁
  split
  · rw [if_pos (by omega)] at h₀ h₁
    exact half_congr h₀ h₁
  · rw [if_neg (by omega)] at h₀ h₁
    have hzero : half (fun _ => 0) 0 = 0 := rfl
    rw [← hzero]
    exact half_congr h₀ h₁

/-- The entries of the last two clusters are 0, as far as the FAT reaches. -/
def TopFree (fs : Fat16) (m : Mem) : Prop :=
  ∀ c, fs.totalClusters ≤ c → c ≤ fs.totalClusters + 1 → c < 256 * fs.fatSectors → fs.diskEntry m c = 0

/-- A flush right after mounting leaves the entries of all clusters of the data area. -/
def FlushKeeps (blk : BlockIo σ) (view : σ → Nat → Sector) (fs : Fat16) (d : σ) : Prop :=
  ∃ d', fs.flushFat blk d = .ok (true, d') ∧ ∀ c, 2 ≤ c → c ≤ fs.totalClusters + 1 →
    fs.diskEntry (flat (view d')) c = fs.diskEntry (flat (view d)) c

theorem flushKeeps_iff (hkeeps : blk.Keeps view) (hrel : blk.Reliable) {d d₁ : σ}
    (hmount : mount blk d = .ok (some fs, d₁)) : FlushKeeps blk view fs d₁ ↔ fs.TopFree (flat (view d₁)) := by
  obtain ⟨fs₀, hboot, -, hfs, hview⟩ := mount_some hkeeps hrel hmount
  obtain ⟨-, hentries, -, htwo⟩ := parseBoot_fat hboot
  have hT : fs.fatEntries = fs.totalClusters := by rw [hfs]; exact hentries
  have htwo : 2 ≤ fs.totalClusters := by rw [hfs]; exact htwo
  have hle : fs.fatEntries ≤ maxCachedClusters := by rw [hfs]; exact (parseBoot_geometry hboot).entries
  have hcached : ∀ c, fs.entryAt c =
      if c < 256 * fs.fatSectors ∧ c < maxCachedClusters then fs.diskEntry (flat (view d₁)) c else 0 := by
    intro c
    rw [hview, hfs]
    exact entryAt_cached fs₀ (flat (view d)) c
  obtain ⟨ok, d₂, hflush, hkept⟩ := flushFat_spec blk view hle d₁
  obtain ⟨hframe, hfat, hok⟩ := hkept hkeeps
  obtain rfl := hok hrel
  have hflushed : fs.Flushed (flat (view d₂)) := fun i hi r hr => by
    rw [flat_sector _ hr]
    exact congrFun (hfat rfl i hi) r
  constructor
  · rintro ⟨d', hflush', hkept⟩ c hlo hhi hc
    obtain ⟨-, rfl⟩ := Prod.mk.inj (Except.ok.inj (hflush.symm.trans hflush'))
    rw [← hkept c (by omega) hhi, hflushed.entry hc, if_neg (by omega)]
  · intro htop
    refine ⟨d₂, hflush, fun c hlo hhi => ?_⟩
    by_cases hc : c < 256 * fs.fatSectors
    · rw [hflushed.entry hc]
      split
      · rw [hcached, if_pos ⟨hc, by omega⟩]
      · exact (htop c (by omega) hhi hc).symm
    · exact half_congr (hframe _ (Or.inr (by omega))) (hframe _ (Or.inr (by omega)))

/-! ## Mounting again -/

/-- Through every sequence of calls on well-formed files: after a call that has written data the
volume mounts again, with the entries the cache held. -/
def Remounts (blk : BlockIo σ) (fs : Fat16) (d : σ) : Prop :=
  ∀ (v : Volume σ) (chain : Nat → List Nat) (calls : List WriteCall) (v' : Volume σ),
    v.fs = fs → v.disk = d → v.WellFormed chain → LTS.Run (Volume.Step blk) v calls v' →
    ∀ i e offset data w, v'.file i = some e → offset ≤ e.size.toNat → data ≠ [] →
      v'.fs.writeFile blk v'.disk i e offset data = .ok w → w.size ≠ none →
      ∃ fs' d', mount blk w.disk = .ok (some fs', d') ∧
        ∀ c, 2 ≤ c → c ≤ fs.totalClusters + 1 → fs'.entryAt c = w.fs.entryAt c

theorem parseBoot_congr {bs' : Sector} (h : ∀ r, r < 512 → bs' r = bs r) :
    parseBoot bs' = parseBoot bs := by
  have hhalf : ∀ a, a + 2 ≤ 512 → half bs' a = half bs a := fun a ha =>
    half_congr (h a (by omega)) (h (a + 1) (by omega))
  simp only [parseBoot, h 510 (by decide), h 511 (by decide), h 0x0D (by decide), h 0x10 (by decide),
    hhalf 0x0B (by decide), hhalf 0x0E (by decide), hhalf 0x11 (by decide), hhalf 0x13 (by decide),
    hhalf 0x16 (by decide)]

/-- What the calls leave of a volume that was mounted with free top entries. -/
structure Kept (view : σ → Nat → Sector) (fs : Fat16) (d : σ) (v : Volume σ) : Prop where
  same : ∃ fat, v.fs = { fs with fat := fat }
  boot : ∀ r, r < 512 → flat (view v.disk) r = flat (view d) r
  top : ∀ c, fs.totalClusters ≤ c → c ≤ fs.totalClusters + 1 → v.fs.entryAt c = 0

theorem boot_untouched (hgeo : fs.Geometry) (hbase : 1 ≤ fs.fatBase) {cs : List Nat}
    (hr : r < 512) : ¬ fs.Touched i cs r := by
  have hroot := hgeo.root
  have hdata := hgeo.data
  rintro (hfat | hslot | ⟨c, -, hlo, -⟩)
  · omega
  · simp only [slotAt] at hslot
    omega
  · have := fs.clusterAt_data c
    omega

/-- No chain that has grown holds one of the top clusters. -/
theorem Grown.top {cs cs' : List Nat} (h : Grown fs cs fs' cs') (hchain : Links.Chain fs.entryAt IsNode IsEnd cs)
    (hc : fs.fatEntries ≤ c) (hzero : fs.entryAt c = 0) : fs'.entryAt c = 0 := by
  rw [h.frame c, hzero]
  obtain ⟨new, rfl, hnew, -⟩ := h.added
  rw [mem_append]
  rintro (hin | hin)
  · exact chain_ne_zero hchain hin hzero
  · have := (hnew c hin).1
    omega

theorem Kept.write (hkeeps : blk.Keeps view) {d : σ} (hbase : 1 ≤ fs.fatBase)
    (hT : fs.fatEntries = fs.totalClusters) {v : Volume σ} {chain : Nat → List Nat}
    (h : Kept view fs d v) (hv : v.WellFormed chain) {offset : Nat} {e : DirEntry}
    {data : List UInt8} {w : Written σ} (hfile : v.file i = some e) (hoff : offset ≤ e.size.toNat)
    (hwrite : v.fs.writeFile blk v.disk i e offset data = .ok w) :
    Kept view fs d (v.after i w) := by
  obtain ⟨hi, hfc⟩ := hv.file hfile
  obtain ⟨w', cs', hrun, hgrown, -, hframe⟩ := writeFile_effect hv.geometry hkeeps hfc hoff hi data v.disk
  obtain rfl := Except.ok.inj (hwrite.symm.trans hrun)
  obtain ⟨fat, hfs⟩ := h.same
  obtain ⟨fat', hfs'⟩ := hgrown.same
  refine ⟨⟨fat', by rw [hfs] at hfs'; exact hfs'⟩, fun r hr => ?_, fun c hlo hhi => ?_⟩
  · rw [← h.boot r hr]
    refine hframe r (boot_untouched hv.geometry ?_ hr)
    rw [hfs]
    exact hbase
  · refine hgrown.top hfc.chain ?_ (h.top c hlo hhi)
    rw [hfs]
    exact hT ▸ hlo

theorem Kept.run (hkeeps : blk.Keeps view) {d : σ} (hbase : 1 ≤ fs.fatBase) (hT : fs.fatEntries = fs.totalClusters)
    {v v' : Volume σ} {chain : Nat → List Nat} (h : Kept view fs d v) (hv : v.WellFormed chain)
    {calls : List WriteCall} (hrun : LTS.Run (Volume.Step blk) v calls v') :
    Kept view fs d v' ∧ ∃ chain', v'.WellFormed chain' := by
  refine LTS.Run.invariant (I := fun v => Kept view fs d v ∧ ∃ chain, v.WellFormed chain) ?_ hrun ⟨h, chain, hv⟩
  rintro v call v' ⟨h, chain, hv⟩ hstep
  obtain ⟨chain', hconf⟩ := hstep.confined hkeeps hv
  obtain ⟨hfile, hoff, hwrite⟩ := hstep
  exact ⟨h.write hkeeps hbase hT hv hfile hoff hwrite, chain', hconf.wellFormed⟩

theorem flat_boot (v : Nat → Sector) (hr : r < 512) : flat v r = v 0 r := by
  rw [flat, Nat.div_eq_of_lt hr, Nat.mod_eq_of_lt hr]

/-- The volume mounts again while its boot sector is there. -/
theorem mount_again (hkeeps : blk.Keeps view) (hrel : blk.Reliable) {d d' : σ}
    (hsame : ∀ r, r < 512 → flat (view d') r = flat (view d) r) (hboot : parseBoot (view d 0) = some fs)
    (hsectors : fs.fatSectors ≤ 17) :
    ∃ d'', mount blk d' = .ok (some { fs with fat := fs.cached (flat (view d')) }, d'') := by
  have hboot' : parseBoot (view d' 0) = some fs := by
    rw [← hboot]
    refine parseBoot_congr fun r hr => ?_
    exact (flat_boot _ hr).symm.trans ((hsame r hr).trans (flat_boot _ hr))
  obtain ⟨d'', hmount, -⟩ := mount_eq hkeeps hrel hboot' hsectors
  exact ⟨d'', hmount⟩

theorem remounts_of_topFree (hkeeps : blk.Keeps view) (hrel : blk.Reliable) {d d₁ : σ}
    (hmount : mount blk d = .ok (some fs, d₁)) (hbase : 1 ≤ fs.fatBase) (htop : fs.TopFree (flat (view d₁)))
    (hreach : fs.totalClusters ≤ 256 * fs.fatSectors) : Remounts blk fs d₁ := by
  obtain ⟨fs₀, hboot, hsectors, hfs, hview⟩ := mount_some hkeeps hrel hmount
  have hT : fs.fatEntries = fs.totalClusters := by rw [hfs]; exact (parseBoot_fat hboot).2.1
  have hle : fs.fatEntries ≤ maxCachedClusters := by rw [hfs]; exact (parseBoot_geometry hboot).entries
  rintro v chain calls v' hvfs rfl hv hrun i e offset data w hfile hoff hdata hwrite hsize
  have hinit : Kept view fs v.disk v := by
    refine ⟨⟨fs.fat, hvfs⟩, fun _ _ => rfl, fun c hlo hhi => ?_⟩
    rw [hvfs]
    have hcached := entryAt_cached fs₀ (flat (view d)) c
    rw [← hfs] at hcached
    rw [hcached]
    split
    · rename_i hc
      rw [hview, hfs] at htop
      rw [hfs] at hlo hhi
      exact htop c hlo hhi hc.1
    · rfl
  obtain ⟨hkept, chain', hv'⟩ := hinit.run hkeeps hbase hT hv hrun
  have hlast := hkept.write hkeeps hbase hT hv' hfile hoff hwrite
  -- the FAT on the disk is the one of the cache, up to `fat_entries`
  obtain ⟨hi, hfc⟩ := hv'.file hfile
  obtain ⟨w', cs', hwrite', hout⟩ := writeFile_outcome hv'.geometry hkeeps hfc hoff hi hdata v'.disk
  obtain rfl := Except.ok.inj (hwrite.symm.trans hwrite')
  obtain ⟨fat, hwfs⟩ := hlast.same
  have hflushed : w.fs.Flushed (flat (view w.disk)) := by
    obtain ⟨_, hgrown⟩ := hout.grown.same
    intro i hi r hr
    rw [← hout.flushed hsize i (by rw [hgrown] at hi; exact hi) r hr, hgrown]
  rw [← hview] at hboot
  obtain ⟨d', hmount'⟩ := mount_again hkeeps hrel hlast.boot hboot hsectors
  refine ⟨_, d', hmount', fun c hlo hhi => ?_⟩
  have hentry : ∀ c, c < 256 * fs.fatSectors → fs₀.diskEntry (flat (view w.disk)) c =
      if c < fs.totalClusters then w.fs.entryAt c else 0 := by
    intro c hc
    have hwfs : w.fs = { fs with fat := fat } := hwfs
    rw [hwfs] at hflushed ⊢
    rw [← hT]
    refine Eq.trans ?_ (hflushed.entry hc)
    rw [hfs]
    rfl
  rw [entryAt_cached]
  have hsame : fs₀.fatSectors = fs.fatSectors := by rw [hfs]
  rw [hsame]
  by_cases hc : c < fs.totalClusters
  · rw [if_pos ⟨by omega, by omega⟩]
    exact (hentry c (by omega)).trans (if_pos hc)
  · have hzero : w.fs.entryAt c = 0 := hlast.top c (by omega) hhi
    rw [hzero]
    split
    · rename_i hin
      exact (hentry c hin.1).trans (if_neg hc)
    · rfl

/-- A new file can take all that is free. -/
theorem fill_volume (hgeo : fs.Geometry) (hkeeps : blk.Keeps view) (hrel : blk.Reliable) (hroot : 0 < fs.rootEntries)
    (hfree : 0 < fs.freeClusters) (d : σ) :
    ∃ data w, data ≠ [] ∧ fs.writeFile blk d 0 newEntry 0 data = .ok w ∧ w.size ≠ none ∧ w.fs.freeClusters = 0 := by
  have hpos := hgeo.bytes_pos
  have hlen : 0 < fs.freeClusters * fs.clusterBytes := Nat.mul_pos hfree hpos
  have hdata : List.replicate (fs.freeClusters * fs.clusterBytes) (0 : UInt8) ≠ [] := by
    rw [← length_pos_iff, length_replicate]
    exact hlen
  obtain ⟨w, cs', hrun, hout⟩ := writeFile_outcome hgeo hkeeps (newEntry_fileChain fs) (Nat.zero_le 0) hroot hdata d
  obtain ⟨new, hcs', -, hcount⟩ := hout.grown.added
  rw [nil_append] at hcs'
  subst hcs'
  have hsome : w.size ≠ none := by
    -- a call that fails has taken every free cluster, and these are enough
    intro hnone
    obtain ⟨hfull, hshort, -⟩ := hout.failed hrel hnone
    rw [length_replicate, Nat.zero_add, ← hcount, hfull, Nat.zero_add] at hshort
    exact Nat.lt_irrefl _ hshort
  refine ⟨_, w, hdata, hrun, hsome, ?_⟩
  obtain ⟨n, hn⟩ := Option.ne_none_iff_exists'.mp hsome
  obtain ⟨hentry, hsize, -⟩ := hout.written hn
  have hcover := hout.cover
  rw [← hentry, hsize, length_replicate, Nat.zero_add] at hcover
  have hall : fs.freeClusters ≤ cs'.length :=
    Nat.le_of_mul_le_mul_right (Nat.le_trans (Nat.le_max_right ..) hcover) hpos
  omega

theorem reach_of_remounts (hkeeps : blk.Keeps view) (hrel : blk.Reliable) {d d₁ : σ}
    (hmount : mount blk d = .ok (some fs, d₁)) (hbase : 1 ≤ fs.fatBase) (hroot : 0 < fs.rootEntries)
    (h : Remounts blk fs d₁) : fs.totalClusters ≤ 256 * fs.fatSectors := by
  obtain ⟨fs₀, hboot, hsectors, hfs, hview⟩ := mount_some hkeeps hrel hmount
  obtain ⟨-, hentries, hfat, -⟩ := parseBoot_fat hboot
  have hgeo : fs.Geometry := by
    rw [hfs]
    exact (parseBoot_geometry hboot).withFat _
  have hT : fs.fatEntries = fs.totalClusters := by rw [hfs]; exact hentries
  have hfat : 0 < fs.fatSectors := by rw [hfs]; exact hfat
  by_contra hshort
  -- the last cluster that can be allocated has no entry on the disk
  have hlast : ∀ m, entryAt { fs₀ with fat := fs₀.cached m } (fs.totalClusters - 1) = 0 := by
    intro m
    rw [entryAt_cached]
    have hsame : fs₀.fatSectors = fs.fatSectors := by rw [hfs]
    exact if_neg (by rw [hsame]; omega)
  have hmem : fs.totalClusters - 1 ∈ fs.candidates := mem_candidates.mpr (by omega)
  have hzero : fs.entryAt (fs.totalClusters - 1) = 0 := by
    have := hlast (flat (view d))
    rwa [← hfs] at this
  have hfree : 0 < fs.freeClusters := countP_pos_iff.mpr ⟨_, hmem, decide_eq_true hzero⟩
  obtain ⟨data, w, hdata, hwrite, hsize, hfull⟩ := fill_volume hgeo hkeeps hrel hroot hfree d₁
  let v : Volume σ := ⟨fs, d₁, fun i => if i = 0 then some newEntry else none⟩
  have hv : v.WellFormed fun _ => [] := by
    refine ⟨hgeo, fun {i e} hi => ?_, fun _ _ _ => disjoint_nil_left _⟩
    obtain ⟨rfl, he⟩ := Option.ite_none_right_eq_some.mp hi
    obtain rfl := Option.some.inj he
    exact ⟨hroot, newEntry_fileChain fs⟩
  obtain ⟨fs', d', hmount', hsame⟩ := h v _ [] v rfl rfl hv (.nil v) 0 newEntry 0 data w rfl (Nat.zero_le 0) hdata
    hwrite hsize
  obtain ⟨w', cs', hwrite', hgrown, -, hframe⟩ :=
    writeFile_effect hgeo hkeeps (newEntry_fileChain fs) (Nat.zero_le 0) hroot data d₁
  obtain rfl := Except.ok.inj (hwrite.symm.trans hwrite')
  rw [← hview] at hboot
  obtain ⟨d'', hmount''⟩ := mount_again hkeeps hrel (fun r hr => hframe r (boot_untouched hgeo hbase hr)) hboot hsectors
  obtain ⟨hfs', -⟩ := Prod.mk.inj (Except.ok.inj (hmount'.symm.trans hmount''))
  obtain rfl := Option.some.inj hfs'
  -- but no cluster that can be allocated is free any more
  have htaken : w.fs.entryAt (fs.totalClusters - 1) ≠ 0 := by
    have hcand : fs.totalClusters - 1 ∈ w.fs.candidates := by
      obtain ⟨_, hwfs⟩ := hgrown.same
      rw [hwfs]
      exact hmem
    exact of_decide_eq_false (Bool.not_eq_true _ ▸ countP_eq_zero.mp hfull _ hcand)
  exact htaken ((hsame _ (by omega) (by omega)).symm.trans (hlast _))

/-- For every volume that `mount` accepts.  A flush leaves the entries of the data area just when
those of the last two clusters are 0.  If the FAT does not start with the boot sector, the
volume also mounts again with the cached entries just when besides the FAT has room for an entry
of each cluster that can be allocated, or there is no root entry to write. -/
theorem fat_persists_iff (hkeeps : blk.Keeps view) (hrel : blk.Reliable) {d d₁ : σ}
    (hmount : mount blk d = .ok (some fs, d₁)) :
    (FlushKeeps blk view fs d₁ ↔ fs.TopFree (flat (view d₁))) ∧
      (1 ≤ fs.fatBase → (FlushKeeps blk view fs d₁ ∧ Remounts blk fs d₁ ↔
        fs.TopFree (flat (view d₁)) ∧ (fs.rootEntries = 0 ∨ fs.totalClusters ≤ 256 * fs.fatSectors))) := by
  have hflush := flushKeeps_iff hkeeps hrel hmount
  refine ⟨hflush, fun hbase => ⟨fun h => ⟨hflush.mp h.1, ?_⟩, fun h => ⟨hflush.mpr h.1, ?_⟩⟩⟩
  · rcases Nat.eq_zero_or_pos fs.rootEntries with hnone | hroot
    · exact Or.inl hnone
    · exact Or.inr (reach_of_remounts hkeeps hrel hmount hbase hroot h.2)
  · rcases h.2 with hnone | hreach
    · -- no root entry, so no file
      rintro v chain calls v' rfl - hv hrun i e - - - hfile - - - -
      have hempty : ∀ i e, v.file i ≠ some e := fun i e hi =>
        absurd (hv.file hi).1 (by rw [hnone]; exact Nat.not_lt_zero i)
      cases hrun with
      | nil => exact absurd hfile (hempty i e)
      | cons hstep _ =>
        obtain ⟨hcall, -, -⟩ := hstep
        exact absurd hcall (hempty _ _)
    · exact remounts_of_topFree hkeeps hrel hmount hbase h.1 hreach

/-- A boot sector for six clusters of one sector, with one FAT sector. -/
def smallBoot : Sector := fun r =>
  ([(0x0C, 2), (0x0D, 1), (0x0E, 1), (0x10, 1), (0x11, 16), (0x13, 9), (0x16, 1), (510, 0x55), (511, 0xAA)].lookup
    r).getD 0

theorem smallBoot_parse : parseBoot smallBoot = some small := by
  have hwords : half smallBoot 0x0B = 512 ∧ half smallBoot 0x0E = 1 ∧ half smallBoot 0x11 = 16 ∧
      half smallBoot 0x13 = 9 ∧ half smallBoot 0x16 = 1 := by decide +kernel
  have hbytes : (smallBoot 0x0D).toNat = 1 ∧ (smallBoot 0x10).toNat = 1 ∧ smallBoot 510 = 0x55 ∧
      smallBoot 511 = 0xAA := by decide +kernel
  simp only [parseBoot, hwords, hbytes]
  rfl

/-- A disk with this boot sector, and with an end mark for cluster `c`. -/
def smallDisk (c : Nat) : Nat → Sector
  | 0 => smallBoot
  | 1 => fun r => if r / 2 = c then 0xFF else 0
  | _ => fun _ => 0

theorem mount_smallDisk (c : Nat) :
    mount ramDisk (smallDisk c) = .ok (some { small with fat := small.cached (flat (smallDisk c)) }, smallDisk c) := by
  have hboot : parseBoot (id (smallDisk c) 0) = some small := smallBoot_parse
  obtain ⟨d, hmount, hview⟩ := mount_eq ramDisk_keeps ramDisk_reliable hboot (by decide)
  have hsame : d = smallDisk c := hview
  rw [hsame] at hmount
  exact hmount

theorem fat_persists_iff_smallDisk :
    ∃ fs, mount ramDisk (smallDisk 2) = .ok (some fs, smallDisk 2) ∧ FlushKeeps ramDisk id fs (smallDisk 2) ∧
      Remounts ramDisk fs (smallDisk 2) := by
  refine ⟨_, mount_smallDisk 2,
    ((fat_persists_iff ramDisk_keeps ramDisk_reliable (mount_smallDisk 2)).2 (by decide)).mpr ⟨?_, Or.inr (by decide)⟩⟩
  intro c hlo hhi _
  have hlo : 6 ≤ c := hlo
  have hhi : c ≤ 7 := hhi
  obtain rfl | rfl : c = 6 ∨ c = 7 := by omega
  · show half (flat (smallDisk 2)) 524 = 0
    decide +kernel
  · show half (flat (smallDisk 2)) 526 = 0
    decide +kernel

/-- Cluster 6 of a volume with six clusters is the end of a chain before the flush, and free
after it. -/
theorem flush_loses_last_cluster :
    ∃ fs d', mount ramDisk (smallDisk 6) = .ok (some fs, smallDisk 6) ∧
      fs.flushFat ramDisk (smallDisk 6) = .ok (true, d') ∧ 2 ≤ 6 ∧ 6 ≤ fs.totalClusters + 1 ∧
      fs.diskEntry (flat (smallDisk 6)) 6 = 0xFFFF ∧ fs.diskEntry (flat d') 6 = 0 := by
  obtain ⟨ok, d', hflush, hkept⟩ := flushFat_spec ramDisk id
    (small_geometry.withFat (small.cached (flat (smallDisk 6)))).entries (smallDisk 6)
  obtain ⟨-, hfat, hok⟩ := hkept ramDisk_keeps
  obtain rfl := hok ramDisk_reliable
  refine ⟨_, d', mount_smallDisk 6, hflush, by decide, by decide, ?_, ?_⟩
  · show half (flat (smallDisk 6)) 524 = 0xFFFF
    decide +kernel
  · have hflushed : Flushed { small with fat := small.cached (flat (smallDisk 6)) } (flat d') := fun i hi r hr => by
      rw [flat_sector _ hr]
      exact congrFun (hfat rfl i hi) r
    exact hflushed.entry (by decide)

end Fat16

end Tanix.Fs
