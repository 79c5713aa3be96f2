/-
# `Tanix.Fs.Write` — what writing a file does

The memory of the disk is followed through a write as one expression: at sector start `p` of the
file it is the old memory with the first bytes of the data, those that belong below `p`, put at
their places (`scatter`).  Behind the loop the FAT is flushed and the root entry written, both
below the clusters.

A disk may fail in the middle.  Then fewer bytes have been put, the chain may have grown
already, and still nothing outside of the file's clusters, its root entry and the FAT has
changed.
-/
import Tanix.Fs.Contents

namespace Tanix.Fs

open Memory List

variable {σ : Type}

namespace Fat16

variable {fs fs' : Fat16} {cs cs' : List Nat} {c k : Nat}

/-! ## Addresses of a file -/

variable {j i n s src : Nat}

theorem byteAddr_append {new : List Nat} (hj : j < cs.length * fs.clusterBytes) :
    fs.byteAddr (cs ++ new) j = fs.byteAddr cs j := by
  have hlt : j / fs.clusterBytes < cs.length :=
    Nat.div_lt_of_lt_mul (by rwa [Nat.mul_comm])
  rw [byteAddr, byteAddr, getElem?_append_left hlt]

/-- Byte `j` is in a cluster of the chain. -/
theorem byteAddr_mem (hj : j < cs.length * fs.clusterBytes) :
    ∃ c ∈ cs, fs.clusterAt c ≤ fs.byteAddr cs j ∧ fs.byteAddr cs j < fs.clusterAt c + fs.clusterBytes := by
  have hlt : j / fs.clusterBytes < cs.length :=
    Nat.div_lt_of_lt_mul (by rwa [Nat.mul_comm])
  have hpos : 0 < fs.clusterBytes := by
    rcases Nat.eq_zero_or_pos fs.clusterBytes with h0 | hpos
    · rw [h0, Nat.mul_zero] at hj
      exact absurd hj (Nat.not_lt_zero j)
    · exact hpos
  refine ⟨cs[j / fs.clusterBytes], getElem_mem hlt, ?_⟩
  rw [byteAddr, getElem?_eq_getElem hlt, Option.getD_some]
  exact ⟨Nat.le_add_right .., Nat.add_lt_add_left (Nat.mod_lt j hpos) _⟩

/-- Different bytes of a file have different addresses. -/
theorem byteAddr_inj (hgeo : fs.Geometry) (hchain : Links.Chain fs.entryAt IsNode IsEnd cs)
    (hi : i < cs.length * fs.clusterBytes) (hj : j < cs.length * fs.clusterBytes)
    (h : fs.byteAddr cs i = fs.byteAddr cs j) : i = j := by
  have hpos := hgeo.bytes_pos
  have hki : i / fs.clusterBytes < cs.length := Nat.div_lt_of_lt_mul (by rwa [Nat.mul_comm])
  have hkj : j / fs.clusterBytes < cs.length := Nat.div_lt_of_lt_mul (by rwa [Nat.mul_comm])
  have hmi := Nat.mod_lt i hpos
  have hmj := Nat.mod_lt j hpos
  rw [byteAddr, byteAddr, getElem?_eq_getElem hki, getElem?_eq_getElem hkj, Option.getD_some,
    Option.getD_some] at h
  have hsame : cs[i / fs.clusterBytes] = cs[j / fs.clusterBytes] := by
    by_contra hne
    have hni := hchain.node (getElem_mem hki)
    have hnj := hchain.node (getElem_mem hkj)
    have := clusterAt_apart hgeo hni.1 hnj.1 hne
    omega
  rw [hsame] at h
  have hdiv : i / fs.clusterBytes = j / fs.clusterBytes := (hchain.nodup.getElem_inj_iff).mp hsame
  rw [← Nat.div_add_mod i fs.clusterBytes, ← Nat.div_add_mod j fs.clusterBytes, hdiv]
  omega

variable {m : Mem} {l : List UInt8}

/-- Bytes put into one cluster lie together. -/
theorem scatter_cluster {q : Nat} (hk : cs[k]? = some c) (hq : q + l.length ≤ fs.clusterBytes) :
    scatter (fs.byteAddr cs) m (k * fs.clusterBytes + q) l = store m (fs.clusterAt c + q) l := by
  refine scatter_eq_store fun i hi => ?_
  rw [Nat.add_assoc, byteAddr_eq hk (by omega), Nat.add_assoc]

/-! ## Splicing -/

/-- A byte string with the data put at `offset`. -/
def splice (old : List UInt8) (offset : Nat) (data : List UInt8) : List UInt8 :=
  old.take offset ++ data ++ old.drop (offset + data.length)

theorem splice_getElem? {old data : List UInt8} {offset : Nat} (h : offset ≤ old.length) (i : Nat) :
    (splice old offset data)[i]? =
      if offset ≤ i ∧ i < offset + data.length then data[i - offset]? else old[i]? := by
  rw [splice, getElem?_append, getElem?_append, length_append, length_take,
    Nat.min_eq_left h, getElem?_drop]
  by_cases hlow : i < offset
  · rw [if_pos (by omega), if_pos hlow, if_neg (by omega), getElem?_take_of_lt hlow]
  · by_cases hin : i < offset + data.length
    · rw [if_pos hin, if_neg hlow, if_pos ⟨by omega, hin⟩]
    · rw [if_neg hin, if_neg (by omega), show offset + data.length + (i - (offset + data.length)) = i by omega]

/-- The bytes of the file after data has been put into it. -/
theorem contents_scatter (hgeo : fs.Geometry) (hchain : Links.Chain fs.entryAt IsNode IsEnd cs)
    {size offset : Nat} {data : List UInt8} (hoff : offset ≤ size)
    (hcover : max size (offset + data.length) ≤ cs.length * fs.clusterBytes) :
    fs.contents (scatter (fs.byteAddr cs) m offset data) cs 0 (max size (offset + data.length)) =
      splice (fs.contents m cs 0 size) offset data := by
  refine ext_getElem? fun i => ?_
  rw [splice_getElem? (by rw [contents_length]; exact hoff), contents_getElem?, contents_getElem?, Nat.zero_add]
  by_cases hin : offset ≤ i ∧ i < offset + data.length
  · obtain ⟨j, rfl⟩ := Nat.exists_eq_add_of_le hin.1
    have hj : data[j]? = some data[j] := getElem?_eq_getElem (by omega)
    rw [if_pos hin, if_pos (by omega), Nat.add_sub_cancel_left, hj]
    congr 1
    refine scatter_inside (fun j' hlo hhi heq => ?_) hj
    exact byteAddr_inj hgeo hchain (by omega) (by omega) heq
  · rw [if_neg hin]
    by_cases hi : i < size
    · rw [if_pos hi, if_pos (by omega), scatter_outside fun j hlo hhi heq => hin ?_]
      have := byteAddr_inj hgeo hchain (by omega) (by omega) heq
      omega
    · rw [if_neg hi, if_neg (by omega)]

/-! ## Sectors -/

variable {blk : BlockIo σ} {view : σ → Nat → Sector}

/-- A sector that is written back with some bytes replaced. -/
theorem flat_update_store (v : Nat → Sector) {sec : Sector} (hs : s + l.length ≤ 512)
    (h : ∀ r, r < 512 → sec r = store (v n) s l r) :
    flat (Function.update v n sec) = store (flat v) (512 * n + s) l := by
  funext a
  by_cases ha : 512 * n ≤ a ∧ a < 512 * n + 512
  · obtain ⟨r, rfl⟩ := Nat.exists_eq_add_of_le ha.1
    have hr : r < 512 := by omega
    rw [flat_sector _ hr, Function.update_self, h r hr]
    rw [store, store, flat_sector v hr, Nat.add_sub_add_left]
    simp only [Nat.add_le_add_iff_left]
  · rw [flat, Function.update_of_ne (by omega), store_outside (by omega), flat]

theorem readSector_cases (hkeeps : blk.Keeps view) (d : σ) (n : Nat) :
    ∃ d', view d' = view d ∧
      (blk.readSector d n = (none, d') ∧ ¬ blk.Reliable ∨ blk.readSector d n = (some (view d n), d')) := by
  obtain ⟨hread, hview⟩ := hkeeps.read d n
  refine ⟨(blk.readSector d n).2, hview, hread.imp (fun h => ⟨Prod.ext h rfl, ?_⟩) fun h => Prod.ext h rfl⟩
  exact fun hrel => hrel.read d n h

theorem writeSector_cases (hkeeps : blk.Keeps view) (d : σ) (n : Nat) (sec : Sector) :
    ∃ d', (blk.writeSector d n sec = (false, d') ∧ view d' = view d ∧ ¬ blk.Reliable) ∨
      (blk.writeSector d n sec = (true, d') ∧ view d' = Function.update (view d) n sec) := by
  refine ⟨(blk.writeSector d n sec).2, (hkeeps.write d n sec).imp ?_ ?_⟩
  · rintro ⟨hfail, hview⟩
    exact ⟨Prod.ext hfail rfl, hview, fun hrel => absurd (hrel.write d n sec) (by rw [hfail]; decide)⟩
  · rintro ⟨hok, hview⟩
    exact ⟨Prod.ext hok rfl, hview⟩

theorem writeSector_kept (hkeeps : blk.Keeps view) {d d' : σ} {sec : Sector} {ok : Bool}
    (h : blk.writeSector d n sec = (ok, d')) :
    (ok = false → view d' = view d ∧ ¬ blk.Reliable) ∧ (ok = true → view d' = Function.update (view d) n sec) := by
  obtain ⟨d₁, ⟨hwrite, hkept⟩ | ⟨hwrite, hview⟩⟩ := writeSector_cases hkeeps d n sec
  · cases h.symm.trans hwrite
    exact ⟨fun _ => hkept, nofun⟩
  · cases h.symm.trans hwrite
    exact ⟨nofun, fun _ => hview⟩

/-- The sector a write starts from: what is on the disk, or zeros that are overwritten as a
whole. -/
theorem fetch_kept (hkeeps : blk.Keeps view) {d d' : σ} {need : Nat} {o : Option Sector}
    (h : (if 0 < s ∨ need < 512 then blk.readSector d n else (some fun _ => 0, d)) = (o, d')) :
    view d' = view d ∧ (o = none → ¬ blk.Reliable) ∧ ∀ sec, o = some sec →
      ∀ l : List UInt8, l.length = need → ∀ r, r < 512 → store sec s l r = store (view d n) s l r := by
  by_cases hpart : 0 < s ∨ need < 512
  · rw [if_pos hpart] at h
    obtain ⟨d₁, hview, ⟨hread, hunrel⟩ | hread⟩ := readSector_cases hkeeps d n
    · cases h.symm.trans hread
      exact ⟨hview, fun _ => hunrel, nofun⟩
    · cases h.symm.trans hread
      refine ⟨hview, nofun, ?_⟩
      rintro _ ⟨⟩ _ _ _ _
      rfl
  · rw [if_neg hpart] at h
    cases h
    refine ⟨rfl, nofun, ?_⟩
    rintro _ ⟨⟩ l hl r hr
    obtain rfl : s = 0 := by omega
    have hget : l[r]? = some l[r] := getElem?_eq_getElem (by omega)
    rw [← Nat.zero_add r, store_inside hget, store_inside hget]

theorem patch_eq {buf : Mem} {len : Nat} (h : s + l.length ≤ len) :
    patch buf len s l = .ok (store buf s l) :=
  if_pos h

/-- The sectors from `i` on of cluster `k` of a file. -/
theorem writeCluster_chain (hgeo : fs.Geometry) (blk : BlockIo σ) (view : σ → Nat → Sector) (m : Mem)
    (hk : cs[k]? = some c) {data : List UInt8} {offset : Nat} (hn : i + n = fs.sectorsPerCluster) (d : σ)
    {sskip : Nat} (hsrc : src = min data.length (k * fs.clusterBytes + 512 * i - offset))
    (hskip : sskip = offset - (k * fs.clusterBytes + 512 * i)) :
    ∃ done src' d', writeCluster blk data (fs.dataBase + (c - 2) * fs.sectorsPerCluster) (List.range' i n)
        src sskip d = .ok (done, src', d') ∧
      src' ≤ min data.length ((k + 1) * fs.clusterBytes - offset) ∧
      (done = true → src' = min data.length ((k + 1) * fs.clusterBytes - offset)) ∧
      (blk.Keeps view → flat (view d) = scatter (fs.byteAddr cs) m offset (data.take src) →
        flat (view d') = scatter (fs.byteAddr cs) m offset (data.take src') ∧ (blk.Reliable → done = true)) := by
  have hend : (k + 1) * fs.clusterBytes = k * fs.clusterBytes + 512 * (i + n) := by
    rw [Nat.succ_mul, hgeo.bytes, hn]
  rw [hend]
  clear hend
  induction n generalizing i src sskip d with
  | zero => exact ⟨true, src, d, rfl, Nat.le_of_eq hsrc, fun _ => hsrc, fun _ hmem => ⟨hmem, fun _ => rfl⟩⟩
  | succ n ih =>
    have hskip₁ : sskip - 512 = offset - (k * fs.clusterBytes + 512 * (i + 1)) := by omega
    have hn₁ : i + 1 + n = fs.sectorsPerCluster := by omega
    have hroom : 512 * i + 512 ≤ fs.clusterBytes := by
      rw [hgeo.bytes]
      omega
    have hle : src ≤ min data.length (k * fs.clusterBytes + 512 * (i + (n + 1)) - offset) := by omega
    rw [range'_succ, writeCluster]
    by_cases hall : src = data.length
    · exact ⟨true, src, d, if_pos hall, hle, fun _ => by omega, fun _ hmem => ⟨hmem, fun _ => rfl⟩⟩
    · rw [if_neg hall]
      have hmore : src < data.length := by omega
      obtain ⟨hsec, hsum, hpos⟩ := sector_amount hsrc hmore (congrArg (min · 512) hskip)
      simp only [bind, Except.bind]
      rw [sub_eq (Nat.min_le_right _ _), sub_eq (Nat.le_of_lt hmore)]
      simp only []
      generalize min (512 - min sskip 512) (data.length - src) = need at hsec hsum hpos ⊢
      have hlen : ((data.drop src).take need).length = need := by
        rw [length_take, length_drop]
        omega
      generalize hat : fs.dataBase + (c - 2) * fs.sectorsPerCluster + i = at'
      cases hfetch : (if 0 < min sskip 512 ∨ need < 512 then blk.readSector d at' else (some fun _ => 0, d))
        with | mk sec d₁
      have hfetched := fun hkeeps : blk.Keeps view => fetch_kept hkeeps hfetch
      cases sec with
      | none =>
        refine ⟨false, src, d₁, rfl, hle, nofun, fun hkeeps hmem => ?_⟩
        obtain ⟨hview, hunrel, -⟩ := hfetched hkeeps
        exact ⟨hview ▸ hmem, fun hrel => absurd hrel (hunrel rfl)⟩
      | some sec =>
        simp only [patch_eq (hlen.symm ▸ hsec)]
        cases hwrite : blk.writeSector d₁ at' (store sec (min sskip 512) ((data.drop src).take need)) with | mk ok d₂
        have hwritten := fun hkeeps : blk.Keeps view => writeSector_kept hkeeps hwrite
        cases ok with
        | false =>
          refine ⟨false, src, d₂, rfl, hle, nofun, fun hkeeps hmem => ?_⟩
          obtain ⟨hview, hunrel⟩ := (hwritten hkeeps).1 rfl
          exact ⟨hview ▸ (hfetched hkeeps).1 ▸ hmem, fun hrel => absurd hrel hunrel⟩
        | true =>
          have hsrc₂ : src + need = min data.length (k * fs.clusterBytes + 512 * (i + 1) - offset) := by
            rw [hsum, Nat.mul_succ, Nat.add_assoc]
          obtain ⟨done, src', d', hrest, hle', hdone, hkept⟩ := ih hn₁ d₂ hsrc₂ hskip₁
          rw [Nat.add_assoc i 1 n, Nat.add_comm 1 n] at hle' hdone
          refine ⟨done, src', d', hrest, hle', hdone, fun hkeeps hmem => hkept hkeeps ?_⟩
          obtain ⟨hview₁, -, hsame⟩ := hfetched hkeeps
          -- the sector with the bytes that belong into it is the memory with these bytes put
          rw [(hwritten hkeeps).2 rfl, hview₁, flat_update_store (view d) (hlen.symm ▸ hsec) (hsame _ rfl _ hlen), hmem,
            take_add, scatter_append, length_take, Nat.min_eq_left (Nat.le_of_lt hmore)]
          rcases hpos with rfl | hpos
          · rw [take_zero, store_nil, scatter]
          · rw [hpos, Nat.add_assoc (k * _), scatter_cluster hk (by rw [hlen]; omega), clusterAt, ← hat, Nat.mul_add,
              Nat.add_assoc]

/-! ## Growing while walking -/

theorem Geometry.withFat (h : fs.Geometry) (fat : Mem) : Geometry { fs with fat := fat } :=
  { h with }

theorem Grown.preserves (h : Grown fs cs fs' cs') (hgeo : fs.Geometry) : fs'.Geometry := by
  obtain ⟨fat, rfl⟩ := h.same
  exact hgeo.withFat fat

theorem Grown.byteAddr_eq (h : Grown fs cs fs' cs') : fs'.byteAddr = fs.byteAddr := by
  obtain ⟨_, rfl⟩ := h.same
  rfl

/-- The cluster a walk that writes comes to next, a new one behind the end of the chain. -/
def advance (fs : Fat16) (c : Nat) : Except FsPanic (Option (Fat16 × Nat)) := do
  let next ← fs.nextCluster c
  if next = 0 then fs.allocCluster c else return some (fs, next)

theorem seekWrite_advance (fs : Fat16) (fuel c skip : Nat) :
    fs.seekWrite (fuel + 1) c skip =
      if 2 ≤ c ∧ fs.clusterBytes ≤ skip then do
        match ← fs.advance c with
        | none => return (fs, none)
        | some (fs', c') => seekWrite fs' fuel c' (skip - fs.clusterBytes)
      else .ok (fs, some (c, skip)) := by
  rw [seekWrite, advance]
  rcases fs.nextCluster c with _ | next
  · rfl
  · by_cases h : next = 0 <;> simp only [bind, Except.bind, h, if_true, if_false] <;> rfl

theorem writeLoop_advance (data : List UInt8) (fs : Fat16) (fuel c src sskip : Nat) (d : σ) :
    writeLoop blk data fs (fuel + 1) c src sskip d =
      if src < data.length then do
        let sector ← fs.sectorOf c
        let (done, src, d) ← writeCluster blk data sector (List.range fs.sectorsPerCluster) src sskip d
        if done = false then return (false, fs, d)
        else if src < data.length then
          match ← fs.advance c with
          | none => return (false, fs, d)
          | some (fs', c') => writeLoop blk data fs' fuel c' src 0 d
        else return (true, fs, d)
      else .ok (true, fs, d) := by
  rw [writeLoop, advance]
  rcases fs.nextCluster c with _ | next
  · rfl
  · by_cases h : next = 0 <;> simp only [bind, Except.bind, h, if_true, if_false] <;> rfl

/-- The cluster behind cluster `k`: the chain's own, or a new one, or none when the volume is
full. -/
theorem advance_cases (hgeo : fs.Geometry) (hchain : Links.Chain fs.entryAt IsNode IsEnd cs)
    (hk : cs[k]? = some c) :
    (fs.advance c = .ok none ∧ k + 1 = cs.length ∧ fs.freeClusters = 0) ∨
      ∃ fs' cs' c', fs.advance c = .ok (some (fs', c')) ∧ Grown fs cs fs' cs' ∧ cs'[k + 1]? = some c' := by
  have hlt := (List.getElem?_eq_some_iff.mp hk).1
  rw [advance, nextCluster_chain hchain hk]
  cases hk' : cs[k + 1]? with
  | some c' =>
    have hnode := hchain.node (mem_of_getElem? hk')
    refine Or.inr ⟨fs, cs, c', if_neg ?_, .refl hchain, hk'⟩
    have := hnode.1
    exact Nat.ne_of_gt (Nat.lt_of_lt_of_le Nat.two_pos this)
  | none =>
    have hlast : k + 1 = cs.length := by
      have := List.getElem?_eq_none_iff.mp hk'
      omega
    have halloc := allocCluster_spec hgeo.entries hchain
    rw [lastOf, getLast?_eq_getElem?, ← hlast, Nat.add_sub_cancel, hk] at halloc
    obtain ⟨hnone, hfree⟩ | ⟨c', fs', hsome, hgrown⟩ := halloc
    · exact Or.inl ⟨hnone, hlast, hfree⟩
    · exact Or.inr ⟨fs', cs ++ [c'], c', hsome, hgrown, by rw [hlast, getElem?_concat_length]⟩

/-- The walk to the cluster of byte `skip` from cluster `k` on. -/
theorem seekWrite_chain (hgeo : fs.Geometry) (hchain : Links.Chain fs.entryAt IsNode IsEnd cs)
    {skip : Nat} (hk : cs[k]? = some c) (hn : skip / fs.clusterBytes = n) :
    (∃ fs' cs', fs.seekWrite n c skip = .ok (fs', none) ∧ Grown fs cs fs' cs' ∧ fs'.freeClusters = 0 ∧
        cs'.length * fs.clusterBytes ≤ k * fs.clusterBytes + skip) ∨
      ∃ fs' cs' c', fs.seekWrite n c skip = .ok (fs', some (c', skip % fs.clusterBytes)) ∧
        Grown fs cs fs' cs' ∧ cs'[k + n]? = some c' := by
  have hpos := hgeo.bytes_pos
  induction n generalizing fs cs k c skip with
  | zero =>
    have hlt : skip < fs.clusterBytes := (Nat.div_eq_zero_iff_lt hpos).mp hn
    refine Or.inr ⟨fs, cs, c, ?_, .refl hchain, hk⟩
    rw [seekWrite, if_neg (by omega), Nat.mod_eq_of_lt hlt]
  | succ n ih =>
    have hnode := hchain.node (mem_of_getElem? hk)
    have hle : fs.clusterBytes ≤ skip := by
      rw [← Nat.one_le_div_iff hpos, hn]
      exact Nat.succ_pos n
    have hn₁ : (skip - fs.clusterBytes) / fs.clusterBytes = n := by
      have := Nat.div_eq_sub_div hpos hle
      omega
    have hstep : (k + 1) * fs.clusterBytes = k * fs.clusterBytes + fs.clusterBytes := Nat.succ_mul ..
    rw [seekWrite_advance, if_pos ⟨hnode.1, hle⟩]
    obtain ⟨hadv, hlast, hfree⟩ | ⟨fs₁, cs₁, c₁, hadv, hgrown, hk₁⟩ := advance_cases hgeo hchain hk
    · rw [hadv]
      exact Or.inl ⟨fs, cs, rfl, .refl hchain, hfree, by rw [← hlast]; omega⟩
    · rw [hadv]
      obtain ⟨fat, rfl⟩ := hgrown.same
      rw [Nat.mod_eq_sub_mod hle, ← Nat.add_assoc, Nat.add_right_comm]
      obtain ⟨fs', cs', hfull, hgrown', hfree, hend⟩ | ⟨fs', cs', c', hseek, hgrown', hk'⟩ :=
        ih (hgeo.withFat fat) hgrown.chain hk₁ hn₁ hpos
      · exact Or.inl ⟨fs', cs', hfull, hgrown.trans hgrown', hfree, Nat.le_trans hend (by dsimp only; omega)⟩
      · exact Or.inr ⟨fs', cs', c', hseek, hgrown.trans hgrown', hk'⟩

/-- Cluster by cluster: at cluster `k` the bytes that belong below `k * cluster_bytes` have been
put. -/
theorem writeLoop_chain (hkeeps : blk.Keeps view) {data : List UInt8} {offset fuel : Nat}
    (hgeo : fs.Geometry) (hchain : Links.Chain fs.entryAt IsNode IsEnd cs) (hk : cs[k]? = some c)
    (hoff : offset < (k + 1) * fs.clusterBytes) (d : σ)
    (hsrc : src = min data.length (k * fs.clusterBytes - offset))
    (hmem : flat (view d) = scatter (fs.byteAddr cs) m offset (data.take src))
    (hfuel : data.length ≤ src + fuel) :
    ∃ done fs' d' cs' src',
      writeLoop blk data fs fuel c src (offset - k * fs.clusterBytes) d = .ok (done, fs', d') ∧
      Grown fs cs fs' cs' ∧ flat (view d') = scatter (fs.byteAddr cs') m offset (data.take src') ∧
      src' ≤ data.length ∧ offset + src' ≤ cs'.length * fs.clusterBytes ∧ (done = true → src' = data.length) ∧
      (blk.Reliable → done = false →
        fs'.freeClusters = 0 ∧ offset + src' = cs'.length * fs.clusterBytes ∧ src' < data.length) := by
  have hstep : (k + 1) * fs.clusterBytes = k * fs.clusterBytes + fs.clusterBytes := Nat.succ_mul ..
  have hlast : (k + 1) * fs.clusterBytes ≤ cs.length * fs.clusterBytes :=
    Nat.mul_le_mul_right _ (List.getElem?_eq_some_iff.mp hk).1
  induction fuel generalizing fs cs k c src d with
  | zero =>
    have hall : src = data.length := by omega
    rw [writeLoop, if_neg (by omega)]
    exact ⟨true, fs, d, cs, src, rfl, .refl hchain, hmem, by omega, by omega, fun _ => hall, fun _ h => by cases h⟩
  | succ fuel ih =>
    rw [writeLoop_advance]
    by_cases hmore : src < data.length
    · have hpos := hgeo.bytes_pos
      have hnode := hchain.node (mem_of_getElem? hk)
      rw [if_pos hmore, sectorOf_eq hnode.1]
      obtain ⟨done, src₁, d₁, hcluster, hle₁, hdone, hkept⟩ :=
        writeCluster_chain hgeo blk view m hk (i := 0) (Nat.zero_add _) d hsrc rfl
      obtain ⟨hmem₁, hrel⟩ := hkept hkeeps hmem
      simp only [bind, Except.bind, range_eq_range', Nat.mul_zero, Nat.add_zero] at hcluster ⊢
      rw [hcluster]
      cases done with
      | false =>
        refine ⟨false, fs, d₁, cs, src₁, rfl, .refl hchain, hmem₁, by omega, by omega, (fun h => by cases h), ?_⟩
        exact fun h => absurd (hrel h) (by decide)
      | true =>
        have hsrc₁ := hdone rfl
        simp only [Bool.true_eq_false, if_false]
        by_cases hmore₁ : src₁ < data.length
        · have hfuel₁ : data.length ≤ src₁ + fuel := by omega
          have hskip₁ : offset - (k + 1) * fs.clusterBytes = 0 := Nat.sub_eq_zero_of_le (Nat.le_of_lt hoff)
          have hstep₁ : (k + 1 + 1) * fs.clusterBytes = (k + 1) * fs.clusterBytes + fs.clusterBytes :=
            Nat.succ_mul ..
          rw [if_pos hmore₁]
          obtain ⟨hadv, hend, hfree⟩ | ⟨fs₁, cs₁, c₁, hadv, hgrown, hk₁⟩ := advance_cases hgeo hchain hk
          · -- the volume is full: the chain is filled up to its end
            rw [hadv]
            rw [hend] at hsrc₁ hoff
            exact ⟨false, fs, d₁, cs, src₁, rfl, .refl hchain, hmem₁, by omega, by omega, (fun h => by cases h),
              fun _ _ => ⟨hfree, by omega, hmore₁⟩⟩
          · obtain ⟨new, rfl, -⟩ := hgrown.added
            obtain ⟨fat, rfl⟩ := hgrown.same
            have hput : scatter (fs.byteAddr (cs ++ new)) m offset (data.take src₁) =
                scatter (fs.byteAddr cs) m offset (data.take src₁) :=
              scatter_congr fun _ _ hj => byteAddr_append (Nat.lt_of_lt_of_le hj (by rw [length_take]; omega))
            have hlast₁ := Nat.mul_le_mul_right fs.clusterBytes (List.getElem?_eq_some_iff.mp hk₁).1
            obtain ⟨done, fs', d', cs', src', hrun, hgrown', hrest⟩ := ih (hgeo.withFat fat) hgrown.chain hk₁
              (by dsimp only; omega) d₁ hsrc₁ (hmem₁.trans hput.symm) hfuel₁ hstep₁ hlast₁
            refine ⟨done, fs', d', cs', src', ?_, hgrown.trans hgrown', hrest⟩
            rw [hadv, ← hrun]
            exact congrArg (fun skip => writeLoop blk data { fs with fat := fat } fuel c₁ src₁ skip d₁) hskip₁.symm
        · rw [if_neg hmore₁]
          exact ⟨true, fs, d₁, cs, src₁, rfl, .refl hchain, hmem₁, by omega, by omega, fun _ => by omega,
            fun _ h => by cases h⟩
    · have hall : src = data.length := by omega
      rw [if_neg hmore]
      exact ⟨true, fs, d, cs, src, rfl, .refl hchain, hmem, by omega, by omega, fun _ => hall, fun _ h => by cases h⟩

/-! ## The FAT and the root entry -/

/-- Sector `i` of the FAT as `flush_fat` writes it. -/
def fatSector (fs : Fat16) (i : Nat) : Sector :=
  store (fun _ => 0) 0 (load fs.fat (i * 512) (min (fs.fatEntries * 2 - i * 512) 512))

theorem flushLoop_cons (hentries : fs.fatEntries ≤ maxCachedClusters) (i : Nat) (l : List Nat) (d : σ) :
    fs.flushLoop blk (i :: l) d =
      match blk.writeSector d (fs.fatBase + i) (fs.fatSector i) with
      | (false, d) => .ok (false, d)
      | (true, d) => fs.flushLoop blk l d := by
  rw [flushLoop, fatSector]
  by_cases hin : i * 512 < fs.fatEntries * 2
  · simp only [if_pos hin, bind, Except.bind]
    rw [slice_eq (by simp only [fatLen, maxCachedClusters] at hentries ⊢; omega)]
    simp only []
    rewrite [patch_eq (by rw [load_length, Nat.zero_add]; exact Nat.min_le_right ..)]
    rfl
  · simp only [if_neg hin, bind, Except.bind]
    rw [show fs.fatEntries * 2 - i * 512 = 0 by omega, Nat.zero_min, load, store_nil]
    rfl

theorem flushLoop_spec (blk : BlockIo σ) (view : σ → Nat → Sector) (hentries : fs.fatEntries ≤ maxCachedClusters)
    (l : List Nat) (d : σ) :
    ∃ ok d', fs.flushLoop blk l d = .ok (ok, d') ∧ (blk.Keeps view →
      (∀ n, (∀ i ∈ l, n ≠ fs.fatBase + i) → view d' n = view d n) ∧
      (ok = true → ∀ i ∈ l, view d' (fs.fatBase + i) = fs.fatSector i) ∧ (blk.Reliable → ok = true)) := by
  induction l generalizing d with
  | nil => exact ⟨true, d, rfl, fun _ => ⟨fun _ _ => rfl, fun _ _ h => (not_mem_nil h).elim, fun _ => rfl⟩⟩
  | cons i l ih =>
    rw [flushLoop_cons hentries]
    cases hwrite : blk.writeSector d (fs.fatBase + i) (fs.fatSector i) with | mk ok d₁
    have hwritten := fun hkeeps : blk.Keeps view => writeSector_kept hkeeps hwrite
    cases ok with
    | false =>
      refine ⟨false, d₁, rfl, fun hkeeps => ?_⟩
      obtain ⟨hview, hunrel⟩ := (hwritten hkeeps).1 rfl
      exact ⟨fun n _ => by rw [hview], nofun, fun hrel => absurd hrel hunrel⟩
    | true =>
      obtain ⟨ok, d', hrest, hkept⟩ := ih d₁
      refine ⟨ok, d', hrest, fun hkeeps => ?_⟩
      have hview := (hwritten hkeeps).2 rfl
      obtain ⟨hframe, hflushed, hrel⟩ := hkept hkeeps
      refine ⟨fun n hn => ?_, fun hok i' hi' => ?_, hrel⟩
      · rw [hframe n fun i' hi' => hn i' (mem_cons_of_mem i hi'), hview,
          Function.update_of_ne (hn i mem_cons_self)]
      · by_cases hin : i' ∈ l
        · exact hflushed hok i' hin
        · obtain rfl : i' = i := (mem_cons.mp hi').resolve_right hin
          rw [hframe _ fun i'' hi'' heq => hin (by rwa [Nat.add_left_cancel heq]), hview, Function.update_self]

/-- `flush_fat` writes the sectors of the FAT and nothing else. -/
theorem flushFat_spec (blk : BlockIo σ) (view : σ → Nat → Sector) (hentries : fs.fatEntries ≤ maxCachedClusters)
    (d : σ) :
    ∃ ok d', fs.flushFat blk d = .ok (ok, d') ∧ (blk.Keeps view →
      (∀ a, a < 512 * fs.fatBase ∨ 512 * (fs.fatBase + fs.fatSectors) ≤ a →
        flat (view d') a = flat (view d) a) ∧
      (ok = true → ∀ i < fs.fatSectors, view d' (fs.fatBase + i) = fs.fatSector i) ∧
      (blk.Reliable → ok = true)) := by
  obtain ⟨ok, d', hrun, hkept⟩ := flushLoop_spec blk view hentries (List.range fs.fatSectors) d
  refine ⟨ok, d', hrun, fun hkeeps => ?_⟩
  obtain ⟨hframe, hflushed, hrel⟩ := hkept hkeeps
  refine ⟨fun a ha => ?_, fun hok i hi => hflushed hok i (mem_range.mpr hi), hrel⟩
  rw [flat, flat, hframe]
  intro i hi
  rw [mem_range] at hi
  omega

theorem encode_length (e : DirEntry) : e.encode.length = 32 := by
  simp only [DirEntry.encode, length_append, e.name_length, e.stamps_length, le_length, length_singleton]

/-- The address of root entry `idx`. -/
def slotAt (fs : Fat16) (idx : Nat) : Nat :=
  512 * fs.rootBase + 32 * idx

theorem slotAt_eq (fs : Fat16) (idx : Nat) : 512 * fs.rootSector idx + rootOffset idx = fs.slotAt idx := by
  rw [rootSector, rootOffset, slotAt]
  omega

theorem writeRootEntry_spec (hkeeps : blk.Keeps view) (fs : Fat16) (d : σ) (idx : Nat) (e : DirEntry) :
    ∃ ok d', fs.writeRootEntry blk d idx e = (ok, d') ∧
      ((ok = false ∧ flat (view d') = flat (view d) ∧ ¬ blk.Reliable) ∨
        (ok = true ∧ flat (view d') = store (flat (view d)) (fs.slotAt idx) e.encode)) := by
  rw [writeRootEntry]
  obtain ⟨d₁, hview₁, ⟨hread, hunrel⟩ | hread⟩ := readSector_cases hkeeps d (fs.rootSector idx)
  · rw [hread]
    exact ⟨false, d₁, rfl, Or.inl ⟨rfl, by rw [hview₁], hunrel⟩⟩
  · rw [hread]
    obtain ⟨d₂, ⟨hwrite, hview₂, hunrel⟩ | ⟨hwrite, hview₂⟩⟩ := writeSector_cases hkeeps d₁ (fs.rootSector idx)
      (store (view d (fs.rootSector idx)) (rootOffset idx) e.encode)
    · exact ⟨false, d₂, hwrite, Or.inl ⟨rfl, by rw [hview₂, hview₁], hunrel⟩⟩
    · refine ⟨true, d₂, hwrite, Or.inr ⟨rfl, ?_⟩⟩
      have hin : rootOffset idx + e.encode.length ≤ 512 := by
        rw [encode_length, rootOffset]
        omega
      rw [hview₂, hview₁, flat_update_store (view d) hin fun _ _ => rfl, slotAt_eq]

/-! ## The whole call -/

/-- What a write of the file may touch: the FAT, the root entry and the file's clusters. -/
def Touched (fs : Fat16) (idx : Nat) (cs : List Nat) (a : Nat) : Prop :=
  (512 * fs.fatBase ≤ a ∧ a < 512 * (fs.fatBase + fs.fatSectors)) ∨
    (fs.slotAt idx ≤ a ∧ a < fs.slotAt idx + 32) ∨
    ∃ c ∈ cs, fs.clusterAt c ≤ a ∧ a < fs.clusterAt c + fs.clusterBytes

theorem clusterAt_data (fs : Fat16) (c : Nat) : 512 * fs.dataBase ≤ fs.clusterAt c :=
  Nat.mul_le_mul_left _ (Nat.le_add_right ..)

theorem Geometry.slot (h : fs.Geometry) {idx : Nat} (hidx : idx < fs.rootEntries) :
    512 * (fs.fatBase + fs.fatSectors) ≤ fs.slotAt idx ∧ fs.slotAt idx + 32 ≤ 512 * fs.dataBase := by
  have := h.root
  have := h.data
  rw [slotAt]
  omega

/-- What is on a chain fits into the size field of an entry. -/
theorem cover_lt (hgeo : fs.Geometry) (hchain : Links.Chain fs.entryAt IsNode IsEnd cs)
    (hn : n ≤ cs.length * fs.clusterBytes) : n < 2 ^ 32 := by
  have hlen : cs.length ≤ maxCachedClusters := hchain.length_le fun _ hc => hc.2
  have hbytes : fs.clusterBytes ≤ 65536 := by
    rw [hgeo.bytes]
    have := hgeo.sectors_le
    omega
  calc n ≤ cs.length * fs.clusterBytes := hn
    _ ≤ 4096 * 65536 := Nat.mul_le_mul hlen hbytes
    _ < 2 ^ 32 := by decide


/-- What a call with data has done when it returns. -/
structure Outcome (blk : BlockIo σ) (view : σ → Nat → Sector) (fs : Fat16) (cs : List Nat) (d : σ) (idx : Nat)
    (e : DirEntry) (offset : Nat) (data : List UInt8) (w : Written σ) (cs' : List Nat) : Prop where
  grown : Grown fs cs w.fs cs'
  start : w.entry.startCluster.toNat = headOf cs'
  entry : ∃ start size, w.entry = { e with startCluster := start, size := size }
  cover : w.entry.size.toNat ≤ cs'.length * fs.clusterBytes
  frame : ∀ a, ¬ fs.Touched idx cs' a → flat (view w.disk) a = flat (view d) a
  written : ∀ {n}, w.size = some n → n = w.entry.size ∧ n.toNat = max e.size.toNat (offset + data.length) ∧
    ∀ j < cs'.length * fs.clusterBytes, flat (view w.disk) (fs.byteAddr cs' j) =
      scatter (fs.byteAddr cs') (flat (view d)) offset data (fs.byteAddr cs' j)
  flushed : w.size ≠ none → ∀ i < fs.fatSectors, ∀ r < 512,
    flat (view w.disk) (512 * (fs.fatBase + i) + r) = w.fs.fatSector i r
  recorded : blk.Reliable → w.size ≠ none → load (flat (view w.disk)) (fs.slotAt idx) 32 = w.entry.encode
  failed : blk.Reliable → w.size = none → w.fs.freeClusters = 0 ∧
    cs'.length * fs.clusterBytes < offset + data.length ∧ w.entry.size = e.size ∧
    flat (view w.disk) = scatter (fs.byteAddr cs') (flat (view d)) offset
      (data.take (cs'.length * fs.clusterBytes - offset))

variable {e : DirEntry} {idx offset : Nat} {data : List UInt8}

/-- Bytes put into the file leave what is not in its clusters. -/
theorem scatter_frame (h : offset + l.length ≤ cs.length * fs.clusterBytes) {a : Nat}
    (ha : ¬ fs.Touched idx cs a) : scatter (fs.byteAddr cs) m offset l a = m a := by
  refine scatter_outside fun j _ hj heq => ha (Or.inr (Or.inr ?_))
  obtain ⟨c, hc, hin⟩ := byteAddr_mem (Nat.lt_of_lt_of_le hj h)
  exact ⟨c, hc, heq ▸ hin⟩

theorem Grown.cover (h : Grown fs cs fs' cs') : cs.length * fs.clusterBytes ≤ cs'.length * fs.clusterBytes := by
  obtain ⟨new, rfl, -⟩ := h.added
  rw [length_append]
  exact Nat.mul_le_mul_right _ (Nat.le_add_right ..)

theorem Grown.head (h : Grown fs cs fs' cs') (hc : cs[0]? = some c) : c = headOf cs' := by
  obtain ⟨new, rfl, -⟩ := h.added
  rw [headOf, head?_append, head?_eq_getElem?, hc]
  rfl

/-- The call stops before the FAT is flushed. -/
theorem Outcome.stopped {d d' : σ} (hgrown : Grown fs cs fs' cs')
    (hstart : e.startCluster.toNat = headOf cs')
    (hsize : e.size.toNat ≤ cs.length * fs.clusterBytes)
    (hmem : flat (view d') = scatter (fs.byteAddr cs') (flat (view d)) offset (data.take src))
    (hsrc : src ≤ data.length) (hin : offset + src ≤ cs'.length * fs.clusterBytes) (hfull :
    blk.Reliable → fs'.freeClusters = 0 ∧ offset + src = cs'.length * fs.clusterBytes ∧ src <
    data.length) : Outcome blk view fs cs d idx e offset data ⟨none, fs', e, d'⟩ cs' where
  grown := hgrown
  start := hstart
  entry := ⟨e.startCluster, e.size, rfl⟩
  cover := Nat.le_trans hsize hgrown.cover
  frame a ha := by
    rw [hmem, scatter_frame ?_ ha]
    rwa [length_take, Nat.min_eq_left hsrc]
  written := nofun
  flushed h := absurd rfl h
  recorded _ h := absurd rfl h
  failed hrel _ := by
    obtain ⟨hfree, hend, hlt⟩ := hfull hrel
    refine ⟨hfree, by omega, rfl, ?_⟩
    rw [← hend, Nat.add_sub_cancel_left, hmem]

/-- The bytes are on the disk; the FAT and the root entry are to follow. -/
theorem writeFrom_finish (hgeo : fs.Geometry) (hkeeps : blk.Keeps view) {fs₂ : Fat16} {cs₂ : List Nat}
    (hgrown : Grown fs cs fs₂ cs₂) (hstart : e.startCluster.toNat = headOf cs₂)
    (hsize : e.size.toNat ≤ cs.length * fs.clusterBytes) (hidx : idx < fs.rootEntries) {d d₂ : σ}
    (hmem : flat (view d₂) = scatter (fs.byteAddr cs₂) (flat (view d)) offset data)
    (hin : offset + data.length ≤ cs₂.length * fs.clusterBytes) {e₂ : DirEntry}
    (he₂ : e₂ = { e with size := max e.size (UInt32.ofNat (offset + data.length)) }) :
    (∃ d₃, fs₂.flushFat blk d₂ = .ok (false, d₃) ∧
        Outcome blk view fs cs d idx e offset data ⟨none, fs₂, e₂, d₃⟩ cs₂) ∨
      ∃ d₃, fs₂.flushFat blk d₂ = .ok (true, d₃) ∧
        Outcome blk view fs cs d idx e offset data
          ⟨some e₂.size, fs₂, e₂, (fs₂.writeRootEntry blk d₃ idx e₂).2⟩ cs₂ := by
  have hsize₂ : e₂.size.toNat = max e.size.toNat (offset + data.length) := by
    rw [he₂]
    show (max e.size _).toNat = _
    rw [UInt32.toNat_max, UInt32.toNat_ofNat_of_lt' (cover_lt (hgrown.preserves hgeo) hgrown.chain ?_)]
    rw [hgrown.geometry]
    exact hin
  have hcover : e₂.size.toNat ≤ cs₂.length * fs.clusterBytes := by
    rw [hsize₂]
    exact Nat.max_le.mpr ⟨Nat.le_trans hsize hgrown.cover, hin⟩
  have hstart₂ : e₂.startCluster.toNat = headOf cs₂ := by
    rw [he₂]
    exact hstart
  have hentry : ∃ start size, e₂ = { e with startCluster := start, size := size } := ⟨_, _, he₂⟩
  have hslot := hgeo.slot hidx
  obtain ⟨ok, d₃, hflush, hkept⟩ := flushFat_spec blk view (hgrown.preserves hgeo).entries d₂
  obtain ⟨hframe₃, hfat, hrel⟩ := hkept hkeeps
  obtain ⟨fat, rfl⟩ := hgrown.same
  have hkept₃ : ∀ a, ¬ fs.Touched idx cs₂ a → flat (view d₃) a = flat (view d) a := by
    intro a ha
    rw [hframe₃ a ?_, hmem, scatter_frame hin ha]
    by_contra hfat
    exact ha (Or.inl (by simp only [not_or, Nat.not_lt, Nat.not_le] at hfat; exact hfat))
  cases ok with
  | false =>
    refine Or.inl ⟨d₃, hflush, hgrown, hstart₂, hentry, hcover, hkept₃, nofun, fun h => absurd rfl h,
      fun _ h => absurd rfl h, fun h => absurd (hrel h) (by decide)⟩
  | true =>
    refine Or.inr ⟨d₃, hflush, ?_⟩
    obtain ⟨ok, d₄, hroot, hmem₄⟩ := writeRootEntry_spec hkeeps { fs with fat := fat } d₃ idx e₂
    rw [hroot]
    -- outside of the root entry nothing changes any more
    have hframe₄ : ∀ a, a < fs.slotAt idx ∨ fs.slotAt idx + 32 ≤ a → flat (view d₄) a = flat (view d₃) a := by
      intro a ha
      rcases hmem₄ with ⟨-, hsame, -⟩ | ⟨-, hstore⟩
      · rw [hsame]
      · rw [hstore]
        exact store_outside (by rw [encode_length]; exact ha)
    refine ⟨hgrown, hstart₂, hentry, hcover, fun a ha => ?_, fun hn => ?_, fun _ i hi r hr => ?_, fun h _ => ?_,
      nofun⟩
    · rw [hframe₄ a ?_, hkept₃ a ha]
      by_contra hslot
      exact ha (Or.inr (Or.inl (by simp only [not_or, Nat.not_lt, Nat.not_le] at hslot; exact hslot)))
    · obtain rfl := Option.some.inj hn
      refine ⟨rfl, hsize₂, fun j hj => ?_⟩
      have hdata : 512 * fs.dataBase ≤ fs.byteAddr cs₂ j := Nat.le_trans (fs.clusterAt_data _) (Nat.le_add_right ..)
      rw [hframe₄ _ (Or.inr (by omega)), hframe₃ _ (Or.inr ?_), hmem]
      show 512 * (fs.fatBase + fs.fatSectors) ≤ _
      omega
    · rw [hframe₄ _ (Or.inl (by omega)), flat_sector _ hr]
      exact congrFun (hfat rfl i hi) r
    · rcases hmem₄ with ⟨-, -, hunrel⟩ | ⟨-, hstore⟩
      · exact absurd h hunrel
      · rw [hstore]
        exact load_store_self _ _ (encode_length e₂)

theorem writeFrom_outcome (hgeo : fs.Geometry) (hkeeps : blk.Keeps view)
    (hchain : Links.Chain fs.entryAt IsNode IsEnd cs) (hstart : cs[0]? = some e.startCluster.toNat)
    (hsize : e.size.toNat ≤ cs.length * fs.clusterBytes) (hoff : offset ≤ cs.length * fs.clusterBytes)
    (hidx : idx < fs.rootEntries) (hdata : data ≠ []) (d : σ) :
    ∃ w cs', writeFrom blk fs d idx e offset data = .ok w ∧
      Outcome blk view fs cs d idx e offset data w cs' := by
  have hpos := hgeo.bytes_pos
  have hlen : 0 < data.length := length_pos_iff.mpr hdata
  rw [writeFrom]
  obtain ⟨fs₁, cs₁, hseek, hgrown, hfree, hend⟩ | ⟨fs₁, cs₁, c₁, hseek, hgrown, hk⟩ :=
    seekWrite_chain hgeo hchain hstart rfl
  · -- the file ends with its last cluster and there is no other
    rw [hseek]
    rw [Nat.zero_mul, Nat.zero_add] at hend
    have hoff := Nat.le_trans hoff hgrown.cover
    exact ⟨_, cs₁, rfl, .stopped hgrown (hgrown.head hstart) hsize rfl (Nat.zero_le _) hoff
      fun _ => ⟨hfree, Nat.le_antisymm hoff hend, hlen⟩⟩
  · rw [Nat.zero_add, ← hgrown.geometry] at hk
    have hgeo₁ := hgrown.preserves hgeo
    have hnode := hgrown.chain.node (mem_of_getElem? hk)
    have hnothing : 0 = min data.length (offset / fs₁.clusterBytes * fs₁.clusterBytes - offset) := by
      rw [Nat.sub_eq_zero_of_le (Nat.div_mul_le_self ..), Nat.min_zero]
    have hmem₀ : flat (view d) = scatter (fs₁.byteAddr cs₁) (flat (view d)) offset (data.take 0) := rfl
    have hcluster : offset < (offset / fs₁.clusterBytes + 1) * fs₁.clusterBytes := by
      rw [Nat.succ_mul]
      exact Nat.lt_div_mul_add hgeo₁.bytes_pos
    have hskip : offset % fs.clusterBytes = offset - offset / fs₁.clusterBytes * fs₁.clusterBytes := by
      rw [hgrown.geometry]
      exact Nat.mod_eq_sub_div_mul
    obtain ⟨done, fs₂, d₂, cs₂, src, hloop, hgrown₂, hmem, hsrc, hin, hdone, hfull⟩ :=
      writeLoop_chain hkeeps hgeo₁ hgrown.chain hk hcluster d hnothing hmem₀ (Nat.le_add_left data.length 0)
    have hall := hgrown.trans hgrown₂
    have hhead := hall.head hstart
    rw [hgrown.byteAddr_eq] at hmem
    rw [hgrown.geometry] at hin hfull
    rw [hseek]
    simp only [bind, Except.bind]
    rw [if_neg (Nat.not_lt.mpr hnode.1), hskip, hloop]
    cases done with
    | false => exact ⟨_, cs₂, rfl, .stopped hall hhead hsize hmem hsrc hin fun h => hfull h rfl⟩
    | true =>
      obtain rfl := hdone rfl
      rw [take_length] at hmem
      obtain ⟨d₃, hflush, hout⟩ | ⟨d₃, hflush, hout⟩ :=
        writeFrom_finish hgeo hkeeps hall hhead hsize hidx hmem hin rfl
      · simp only [hflush]
        exact ⟨_, cs₂, rfl, hout⟩
      · simp only [hflush]
        exact ⟨_, cs₂, rfl, hout⟩

/-- The chain of a file, as its entry starts it. -/
structure FileChain (fs : Fat16) (e : DirEntry) (cs : List Nat) : Prop where
  chain : Links.Chain fs.entryAt IsNode IsEnd cs
  start : e.startCluster.toNat = headOf cs
  cover : e.size.toNat ≤ cs.length * fs.clusterBytes

/-- The first cluster of the file was allocated before. -/
theorem Outcome.first {d : σ} {w : Written σ} {start : UInt16} (hgrown : Grown fs [] fs' [c])
    (h : Outcome blk view fs' [c] d idx { e with startCluster := start } offset data w cs') :
    Outcome blk view fs [] d idx e offset data w cs' := by
  obtain ⟨_, _, hentry⟩ := h.entry
  have hall := hgrown.trans h.grown
  obtain ⟨_, rfl⟩ := hgrown.same
  exact ⟨hall, h.start, ⟨_, _, hentry⟩, h.cover, h.frame, h.written, h.flushed, h.recorded, h.failed⟩

theorem writeFile_outcome (hgeo : fs.Geometry) (hkeeps : blk.Keeps view) (hfile : fs.FileChain e cs)
    (hoff : offset ≤ e.size.toNat) (hidx : idx < fs.rootEntries) (hdata : data ≠ []) (d : σ) :
    ∃ w cs', fs.writeFile blk d idx e offset data = .ok w ∧
      Outcome blk view fs cs d idx e offset data w cs' := by
  obtain ⟨hchain, hstart, hcover⟩ := hfile
  rw [writeFile, if_neg hdata]
  cases cs with
  | nil =>
    -- a file without clusters: the first one is allocated
    rw [length_nil, Nat.zero_mul] at hcover
    obtain rfl : offset = 0 := by omega
    rw [if_pos (UInt16.toNat_inj.mp hstart)]
    obtain ⟨halloc, hfree⟩ | ⟨c, fs₁, halloc, hgrown⟩ := allocCluster_spec hgeo.entries hchain
    · refine ⟨⟨none, fs, e, d⟩, [], ?_, ?_⟩
      · exact congrArg (fun r => r >>= _) halloc
      · exact .stopped (.refl hchain) hstart (by omega) rfl (Nat.zero_le _) (Nat.zero_le _)
          fun _ => ⟨hfree, by rw [length_nil, Nat.zero_mul], length_pos_iff.mpr hdata⟩
    · have hc : (UInt16.ofNat c).toNat = c := by
        have := (hgrown.chain.node (mem_singleton_self c)).2
        exact UInt16.toNat_ofNat_of_lt' (Nat.lt_trans this (by decide))
      obtain ⟨w, cs', hrun, hout⟩ := writeFrom_outcome (e := { e with startCluster := UInt16.ofNat c })
        (hgrown.preserves hgeo) hkeeps hgrown.chain (congrArg some hc.symm) (Nat.le_trans hcover (Nat.zero_le _))
        (Nat.zero_le _) (by obtain ⟨_, rfl⟩ := hgrown.same; exact hidx) hdata d
      refine ⟨w, cs', ?_, hout.first hgrown⟩
      rw [← hrun]
      exact congrArg (fun r => r >>= _) halloc
  | cons c cs =>
    have hnode := hchain.node mem_cons_self
    have hne : e.startCluster ≠ 0 := by
      intro h0
      rw [h0] at hstart
      have hzero : 0 = c := hstart
      exact absurd hnode.1 (by rw [← hzero]; decide)
    rw [if_neg hne]
    exact writeFrom_outcome hgeo hkeeps hchain (congrArg some hstart.symm) hcover (Nat.le_trans hoff hcover) hidx
      hdata d

/-! ## Writing and reading back -/

theorem Outcome.fileChain {d : σ} {w : Written σ} (h : Outcome blk view fs cs d idx e offset data w cs') :
    w.fs.FileChain w.entry cs' :=
  ⟨h.grown.chain, h.start, by rw [h.grown.geometry]; exact h.cover⟩

/-- Reading a whole file. -/
theorem readFile_whole (hgeo : fs.Geometry) (hkeeps : blk.Keeps view) (hrel : blk.Reliable)
    (hfile : fs.FileChain e cs) (d : σ) {outLen : Nat} (hout : e.size.toNat ≤ outLen) :
    ∃ d', fs.readFile blk d e.startCluster.toNat e.size.toNat 0 outLen =
      .ok (fs.contents (flat (view d)) cs 0 e.size.toNat, d') := by
  obtain ⟨d', hread, -⟩ := readFile_eq hgeo hkeeps hrel hfile.chain hfile.cover d 0 outLen
  refine ⟨d', ?_⟩
  rw [hfile.start, hread, Nat.sub_zero, Nat.min_eq_left hout]

/-- The file after a write that returned a size. -/
theorem Outcome.contents_eq {d : σ} {w : Written σ} {n : UInt32} (hgeo : fs.Geometry)
    (h : Outcome blk view fs cs d idx e offset data w cs') (hcover : e.size.toNat ≤ cs.length * fs.clusterBytes)
    (hoff : offset ≤ e.size.toNat) (hn : w.size = some n) :
    fs.contents (flat (view w.disk)) cs' 0 n.toNat =
      splice (fs.contents (flat (view d)) cs 0 e.size.toNat) offset data := by
  obtain ⟨hentry, hsize, hbytes⟩ := h.written hn
  have hcover' : n.toNat ≤ cs'.length * fs.clusterBytes := hentry ▸ h.cover
  obtain ⟨new, hcs', -⟩ := h.grown.added
  have hold : fs.contents (flat (view d)) cs 0 e.size.toNat = fs.contents (flat (view d)) cs' 0 e.size.toNat := by
    rw [hcs']
    refine map_congr_left fun j hj => ?_
    rw [mem_range'_1] at hj
    rw [byteAddr_append (by omega)]
  have hnew : fs.contents (flat (view w.disk)) cs' 0 n.toNat =
      fs.contents (scatter (fs.byteAddr cs') (flat (view d)) offset data) cs' 0 n.toNat := by
    refine map_congr_left fun j hj => ?_
    rw [mem_range'_1] at hj
    exact hbytes j (by omega)
  have hchain : Links.Chain w.fs.entryAt IsNode IsEnd cs' := h.grown.chain
  rw [hsize] at hcover' hnew ⊢
  rw [hnew, hold]
  obtain ⟨fat, hfs⟩ := h.grown.same
  rw [hfs] at hchain
  exact contents_scatter (hgeo.withFat fat) hchain hoff hcover'

/-- On a disk that does not fail, `write_file` returns for every file, every data and every offset
in the file.  When it returns a size, the chain covers it and the file reads as before with the
data in its place. -/
theorem write_then_read (hgeo : fs.Geometry) (hkeeps : blk.Keeps view) (hrel : blk.Reliable)
    (hfile : fs.FileChain e cs) (hoff : offset ≤ e.size.toNat) (hidx : idx < fs.rootEntries)
    (data : List UInt8) (d : σ) :
    ∃ w, fs.writeFile blk d idx e offset data = .ok w ∧ ∀ n, w.size = some n →
      n.toNat = max e.size.toNat (offset + data.length) ∧ w.entry.size = n ∧
      (∃ cs', w.fs.FileChain w.entry cs' ∧ n.toNat ≤ cs'.length * w.fs.clusterBytes) ∧
      ∀ outLen, n.toNat ≤ outLen → ∃ old d₁ d₂,
        fs.readFile blk d e.startCluster.toNat e.size.toNat 0 outLen = .ok (old, d₁) ∧
        w.fs.readFile blk w.disk w.entry.startCluster.toNat n.toNat 0 outLen =
          .ok (splice old offset data, d₂) := by
  by_cases hdata : data = []
  · refine ⟨⟨some e.size, fs, e, d⟩, ?_, fun n hn => ?_⟩
    · rw [writeFile, if_pos hdata]
      rfl
    · obtain rfl : e.size = n := Option.some.inj hn
      subst hdata
      refine ⟨?_, rfl, ⟨cs, hfile, hfile.cover⟩, fun outLen hout => ?_⟩
      · rw [length_nil]
        omega
      · obtain ⟨d₁, hread⟩ := readFile_whole hgeo hkeeps hrel hfile d hout
        refine ⟨_, d₁, d₁, hread, ?_⟩
        rw [hread, splice, append_nil, length_nil, Nat.add_zero, take_append_drop]
  · obtain ⟨w, cs', hrun, hres⟩ := writeFile_outcome hgeo hkeeps hfile hoff hidx hdata d
    refine ⟨w, hrun, fun n hn => ?_⟩
    obtain ⟨hentry, hsize, -⟩ := hres.written hn
    have hfile' := hres.fileChain
    refine ⟨hsize, hentry.symm, ⟨cs', hfile', by rw [hentry]; exact hfile'.cover⟩, fun outLen hout => ?_⟩
    have hout₁ : e.size.toNat ≤ outLen := Nat.le_trans (hsize ▸ Nat.le_max_left ..) hout
    have hout₂ : w.entry.size.toNat ≤ outLen := hentry ▸ hout
    obtain ⟨d₁, hread⟩ := readFile_whole hgeo hkeeps hrel hfile d hout₁
    obtain ⟨d₂, hread'⟩ := readFile_whole (hres.grown.preserves hgeo) hkeeps hrel hfile' w.disk hout₂
    refine ⟨_, d₁, d₂, hread, ?_⟩
    rw [← hentry] at hread'
    rw [hread', ← hres.contents_eq hgeo hfile.cover hoff hn]
    obtain ⟨_, hfs⟩ := hres.grown.same
    rw [hfs]
    rfl

/-- An entry for a new file. -/
def newEntry : DirEntry :=
  .fresh (List.replicate 11 65) rfl

theorem newEntry_fileChain (fs : Fat16) : fs.FileChain newEntry [] :=
  ⟨.empty, rfl, Nat.zero_le _⟩

theorem write_then_read_oneByte :
    ∃ w, small.writeFile ramDisk (fun _ _ => 0) 0 newEntry 0 [7] = .ok w ∧ w.size = some 1 ∧
      ∃ d', w.fs.readFile ramDisk w.disk w.entry.startCluster.toNat 1 0 1 = .ok ([7], d') := by
  obtain ⟨w, hrun, hsome⟩ := write_then_read small_geometry ramDisk_keeps ramDisk_reliable
    (newEntry_fileChain small) (Nat.zero_le 0) (show 0 < small.rootEntries by decide) [7] fun _ _ => 0
  have hsize : w.size = some 1 := by
    have htest : (match small.writeFile ramDisk (fun _ _ => 0) 0 newEntry 0 [7] with
        | .ok w => w.size == some 1
        | .error _ => false) = true := by decide +kernel
    rw [hrun] at htest
    exact eq_of_beq htest
  refine ⟨w, hrun, hsize, ?_⟩
  obtain ⟨-, -, -, hread⟩ := hsome 1 hsize
  obtain ⟨old, d₁, d₂, hold, hnew⟩ := hread 1 (Nat.le_refl 1)
  obtain rfl : [] = old := congrArg Prod.fst (Except.ok.inj hold)
  exact ⟨d₂, hnew⟩

end Fat16

end Tanix.Fs
