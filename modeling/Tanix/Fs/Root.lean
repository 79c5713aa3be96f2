/-
# `Tanix.Fs.Root` — the root directory

`find_root` stops at the first empty slot, `create_root_file` takes the first slot that is empty
or deleted.  Where nothing stands behind an empty slot (`Compact`), the new file is the only
change that a lookup sees (`createRootFile_inserts`).
-/
import Tanix.Fs.Write

namespace Tanix.Fs

open Memory List

variable {σ : Type} {m m' : Mem} {a b : Nat}

/-! ## One slot -/

namespace DirEntry

theorem load_field {l : List UInt8} {k n : Nat} (h : load m a 32 = l) (hk : k + n ≤ 32) :
    load m (a + k) n = (l.drop k).take n := by
  rw [← load_slice m a hk, h]

theorem decode_congr (h : load m a 32 = load m' b 32) : decode m a = decode m' b := by
  have hfield {k n : Nat} (hk : k + n ≤ 32) : load m (a + k) n = load m' (b + k) n :=
    (load_field h hk).trans (load_slice m' b hk)
  have hattr := (cons.inj (hfield (k := 11) (n := 1) (by decide))).1
  have hname : load m a 11 = load m' b 11 := hfield (k := 0) (by decide)
  have hstamps : load m (a + 12) 14 = load m' (b + 12) 14 := hfield (by decide)
  have hstart : load m (a + 26) 2 = load m' (b + 26) 2 := hfield (by decide)
  have hsize : load m (a + 28) 4 = load m' (b + 28) 4 := hfield (by decide)
  simp only [decode, half, hattr, hname, hstamps, hstart, hsize]

theorem decode_encode {e : DirEntry} (h : load m a 32 = e.encode) : decode m a = e := by
  obtain ⟨name, attr, stamps, start, size, hname, hstamps⟩ := e
  rw [encode] at h
  have h₁ : load m a 11 = name := by
    simpa [hname] using load_field (k := 0) (n := 11) h (by decide)
  have h₂ : load m (a + 11) 1 = [attr] := by
    simpa [hname, drop_append] using load_field (k := 11) (n := 1) h (by decide)
  have h₃ : load m (a + 12) 14 = stamps := by
    simpa [hname, hstamps, drop_append, drop_eq_nil_of_le] using
      load_field (k := 12) (n := 14) h (by decide)
  have h₄ : load m (a + 26) 2 = le 2 start.toNat := by
    simpa [hname, hstamps, drop_append, drop_eq_nil_of_le] using
      load_field (k := 26) (n := 2) h (by decide)
  have h₅ : load m (a + 28) 4 = le 4 size.toNat := by
    simpa [hname, hstamps, drop_append, drop_eq_nil_of_le, take_of_length_le] using
      load_field (k := 28) (n := 4) h (by decide)
  cases h₂
  simp [decode, half, h₁, h₃, h₄, h₅, fromLe_le]

end DirEntry

namespace Fat16

variable {blk : BlockIo σ} {view : σ → Nat → Sector} {fs : Fat16} {d d' : σ}
  {name : List UInt8} {i : Nat}

/-- The entry in slot `i`. -/
def slot (fs : Fat16) (m : Mem) (i : Nat) : DirEntry :=
  .decode m (fs.slotAt i)

theorem slot_store (fs : Fat16) (m : Mem) (i : Nat) (e : DirEntry) :
    fs.slot (store m (fs.slotAt i) e.encode) = Function.update (fs.slot m) i e := by
  funext j
  by_cases hj : j = i
  · subst hj
    rw [Function.update_self, slot]
    refine DirEntry.decode_encode ?_
    exact load_store_self _ _ (encode_length e)
  · rw [Function.update_of_ne hj, slot, slot]
    refine DirEntry.decode_congr (load_store_of_apart ?_)
    rw [encode_length, slotAt, slotAt]
    omega

theorem decode_root (fs : Fat16) (v : Nat → Sector) (i : Nat) :
    DirEntry.decode (v (fs.rootSector i)) (rootOffset i) = fs.slot (flat v) i := by
  refine DirEntry.decode_congr ?_
  rw [load_flat v (by rw [rootOffset]; omega), slotAt_eq]

/-- Nothing stands behind an empty slot. -/
def Compact (fs : Fat16) (m : Mem) : Prop :=
  (range fs.rootEntries).Pairwise fun i j => (fs.slot m i).isEmpty → (fs.slot m j).isEmpty

/-! ## Lookups -/

/-- A lookup in slots. -/
def lookup (slot : Nat → DirEntry) (name : List UInt8) : List Nat → Option (Nat × DirEntry)
  | [] => none
  | i :: is =>
    if (slot i).isEmpty then none
    else if (slot i).isDeleted = false ∧ (slot i).isVolume = false ∧ (slot i).name = name then
      some (i, slot i)
    else lookup slot name is

theorem findRootFrom_eq (hkeeps : blk.Keeps view) (hreads : blk.Reads) (is : List Nat) (d : σ) :
    (fs.findRootFrom blk name is d).1 = lookup (fs.slot (flat (view d))) name is := by
  induction is generalizing d with
  | nil => rfl
  | cons i is ih =>
    obtain ⟨d₁, hread, hview⟩ := readSector_eq hkeeps hreads d (fs.rootSector i)
    rw [findRootFrom, hread, lookup]
    dsimp only
    rw [decode_root, apply_ite Prod.fst, apply_ite Prod.fst, ih, hview]

/-- The first slot that is empty or deleted gets the entry, unless the disk fails. -/
theorem createFrom_spec (hkeeps : blk.Keeps view) (fs : Fat16) (e : DirEntry) (is : List Nat)
    (d : σ) :
    ∃ r d', fs.createFrom blk e is d = (r, d') ∧
      (∀ i, r = some i → fs.slot (flat (view d')) = Function.update (fs.slot (flat (view d))) i e) ∧
      (r.isSome ∨ blk.Reliable → r = is.find? fun i =>
        (fs.slot (flat (view d)) i).isEmpty || (fs.slot (flat (view d)) i).isDeleted) := by
  induction is generalizing d with
  | nil => exact ⟨none, d, rfl, nofun, fun _ => rfl⟩
  | cons i is ih =>
    obtain ⟨d₁, hview, ⟨hread, hunrel⟩ | hread⟩ := readSector_cases hkeeps d (fs.rootSector i)
    · rw [createFrom, hread]
      exact ⟨none, d₁, rfl, nofun, fun h => h.elim nofun fun hrel => absurd hrel hunrel⟩
    rw [createFrom, hread, find?_cons]
    dsimp only
    rw [decode_root]
    by_cases hfree : (fs.slot (flat (view d)) i).isEmpty ∨ (fs.slot (flat (view d)) i).isDeleted
    · rw [if_pos hfree, (Bool.or_eq_true _ _).mpr hfree]
      obtain ⟨ok, d₂, hwrite, ⟨rfl, _, hunrel⟩ | ⟨rfl, hstored⟩⟩ :=
        writeRootEntry_spec hkeeps fs d₁ i e
      · rw [hwrite]
        exact ⟨none, d₂, rfl, nofun, fun h => h.elim nofun fun hrel => absurd hrel hunrel⟩
      · rw [hwrite]
        refine ⟨some i, d₂, rfl, ?_, fun _ => rfl⟩
        rintro _ ⟨⟩
        rw [hstored, slot_store, hview]
    · rw [if_neg hfree, Bool.eq_false_iff.mpr (mt (Bool.or_eq_true _ _).mp hfree), ← hview]
      exact ih d₁

variable {s s' : Nat → DirEntry} {is : List Nat} {e : DirEntry}

theorem lookup_congr (h : ∀ i ∈ is, s' i = s i) : lookup s' name is = lookup s name is := by
  induction is with
  | nil => rfl
  | cons i is ih =>
    obtain ⟨hi, his⟩ := forall_mem_cons.mp h
    rw [lookup, lookup, hi, ih his]

/-- Putting an entry into the first slot that is not used. -/
theorem lookup_insert (he : e.isEmpty = false ∧ e.isDeleted = false ∧ e.isVolume = false)
    (hnodup : is.Nodup) (hdir : is.Pairwise fun a b => (s a).isEmpty → (s b).isEmpty)
    (hfirst : is.find? (fun a => (s a).isEmpty || (s a).isDeleted) = some i) :
    (lookup s e.name is = none → lookup (Function.update s i e) e.name is = some (i, e)) ∧
      (∀ other, other ≠ e.name → lookup (Function.update s i e) other is = lookup s other is) ∧
      is.Pairwise fun a b =>
        (Function.update s i e a).isEmpty → (Function.update s i e b).isEmpty := by
  induction is with
  | nil => cases hfirst
  | cons j is ih =>
    obtain ⟨hj, hnodup⟩ := nodup_cons.mp hnodup
    obtain ⟨htail, hdir⟩ := pairwise_cons.mp hdir
    simp only [lookup, pairwise_cons]
    rw [find?_cons] at hfirst
    split at hfirst
    · rename_i hfree
      obtain rfl := Option.some.inj hfirst
      have hsame : ∀ a ∈ is, Function.update s j e a = s a := fun a ha =>
        Function.update_of_ne (ne_of_mem_of_not_mem ha hj) ..
      simp only [Function.update_self, he, if_neg Bool.false_ne_true, lookup_congr hsame]
      refine ⟨fun _ => if_pos ⟨trivial, trivial, trivial⟩, fun other hne => ?_, fun _ _ => nofun, ?_⟩
      · rw [if_neg fun h => hne h.2.2.symm]
        split
        · rename_i hempty
          cases is with
          | nil => rfl
          | cons b is => rw [lookup, if_pos (htail b (mem_cons_self ..) hempty)]
        · rename_i hempty
          have hdeleted := ((Bool.or_eq_true _ _).mp hfree).resolve_left hempty
          rw [if_neg fun h => absurd (h.1.symm.trans hdeleted) (by decide)]
      · exact hdir.imp_of_mem fun ha hb hab => by rwa [hsame _ ha, hsame _ hb]
    · rename_i hused
      have hji : j ≠ i := fun hji => hj (hji ▸ mem_of_find?_eq_some hfirst)
      obtain ⟨hself, hother, hpair⟩ := ih hnodup hdir hfirst
      rw [Function.update_of_ne hji, (Bool.or_eq_false_iff.mp hused).1]
      refine ⟨fun hnone => ?_, fun other hne => by rw [hother other hne], fun _ _ => nofun, hpair⟩
      rw [if_neg Bool.false_ne_true] at hnone ⊢
      split at hnone
      · cases hnone
      · rename_i hmatch
        rw [if_neg hmatch, hself hnone]

/-- If `create_root_file` returns a slot, the file is found there, empty, every other lookup is as
before and the directory is compact; if no sector operation fails, it returns one where there is one
to take.  The lookups are through `look`, which reads without fail. -/
theorem createRootFile_inserts {look : BlockIo σ} (hkeeps : blk.Keeps view)
    (hlook : look.Keeps view) (hreads : look.Reads) (hlen : name.length = 11)
    (hvalid : name.head? ≠ some 0 ∧ name.head? ≠ some 0xE5) (hdir : fs.Compact (flat (view d)))
    (habsent : (fs.findRoot look d name).1 = none) :
    (∀ i, fs.createRootFile blk d name hlen = (some i, d') →
      (∃ e, (fs.findRoot look d' name).1 = some (i, e) ∧ e.size = 0 ∧ e.startCluster = 0) ∧
      (∀ other, other ≠ name → (fs.findRoot look d' other).1 = (fs.findRoot look d other).1) ∧
      fs.Compact (flat (view d'))) ∧
    (blk.Reliable → (fs.createRootFile blk d name hlen).1 = none → ∀ i < fs.rootEntries,
      (fs.slot (flat (view d)) i).isEmpty = false ∧
        (fs.slot (flat (view d)) i).isDeleted = false) := by
  obtain ⟨r, d₁, hrun, hslots, hfound⟩ :=
    createFrom_spec hkeeps fs (.fresh name hlen) (range fs.rootEntries) d
  rw [createRootFile, hrun]
  simp only [findRoot, findRootFrom_eq hlook hreads] at habsent ⊢
  rw [Compact] at hdir ⊢
  constructor
  · rintro i ⟨⟩
    have he : (DirEntry.fresh name hlen).isEmpty = false ∧
        (DirEntry.fresh name hlen).isDeleted = false ∧
        (DirEntry.fresh name hlen).isVolume = false := by
      refine ⟨?_, ?_,
        show (attrArchive &&& (attrVolumeId ||| attrDirectory) == attrVolumeId) = false by decide⟩
      · simpa [DirEntry.isEmpty, DirEntry.fresh] using hvalid.1
      · simpa [DirEntry.isDeleted, DirEntry.fresh] using hvalid.2
    rw [hslots i rfl]
    obtain ⟨hself, hother, hcompact⟩ := lookup_insert he nodup_range hdir (hfound (Or.inl rfl)).symm
    exact ⟨⟨_, hself habsent, rfl, rfl⟩, hother, hcompact⟩
  · rintro hrel ⟨⟩ i hi
    have hno := find?_eq_none.mp (hfound (Or.inr hrel)).symm i (mem_range.mpr hi)
    simpa using hno

/-- The first file of an empty volume. -/
theorem createRootFile_inserts_first : ∃ d' e,
    small.createRootFile ramDisk (fun _ _ => 0) newEntry.name newEntry.name_length = (some 0, d') ∧
      (small.findRoot ramDisk d' newEntry.name).1 = some (0, e) ∧ e.size = 0 ∧ e.startCluster = 0 := by
  have hrun : (small.createRootFile ramDisk (fun _ _ => 0) newEntry.name
      newEntry.name_length).1 = some 0 := by
    decide +kernel
  obtain ⟨⟨e, he⟩, -⟩ := (createRootFile_inserts ramDisk_keeps ramDisk_keeps ramDisk_reliable.read
    newEntry.name_length (by decide) (by unfold Compact; decide +kernel) (by decide +kernel)).1 0
    (Prod.ext hrun rfl)
  exact ⟨_, e, Prod.ext hrun rfl, he⟩

end Fat16

end Tanix.Fs
