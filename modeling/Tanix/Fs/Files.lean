/-
# `Tanix.Fs.Files` — many files on one volume

The files of a volume have chains that share no cluster.  A call of `write_file` works on one of
them, and whatever its disk does, the chains stay apart and every other file keeps its clusters,
their bytes and its root entry.  A sequence of calls keeps it too, by the induction over runs.
-/
import Tanix.Fs.Write
import Tanix.Lib.Run

namespace Tanix.Fs

open Memory
open Option
open Function (update_of_ne update_self)

variable {σ : Type}

/-- What every call does, with data or without, whether it returns a size or not. -/
theorem Fat16.writeFile_effect {blk : BlockIo σ} {view : σ → Nat → Sector} {fs : Fat16} {e : DirEntry}
    {cs : List Nat} {idx offset : Nat} (hgeo : fs.Geometry) (hkeeps : blk.Keeps view) (hfile : fs.FileChain e cs)
    (hoff : offset ≤ e.size.toNat) (hidx : idx < fs.rootEntries) (data : List UInt8) (d : σ) :
    ∃ w cs', fs.writeFile blk d idx e offset data = .ok w ∧ Grown fs cs w.fs cs' ∧
      w.fs.FileChain w.entry cs' ∧ ∀ a, ¬ fs.Touched idx cs' a → flat (view w.disk) a = flat (view d) a := by
  by_cases hdata : data = []
  · refine ⟨⟨some e.size, fs, e, d⟩, cs, ?_, .refl hfile.chain, hfile, fun _ _ => rfl⟩
    rw [writeFile, if_pos hdata]
    rfl
  · obtain ⟨w, cs', hrun, hres⟩ := writeFile_outcome hgeo hkeeps hfile hoff hidx hdata d
    exact ⟨w, cs', hrun, hres.grown, hres.fileChain, hres.frame⟩

/-- A mounted volume with the entries of its files, by their places in the root directory. -/
structure Volume (σ : Type) where
  fs : Fat16
  disk : σ
  file : Nat → Option DirEntry

/-- The arguments of a call. -/
structure WriteCall where
  idx : Nat
  offset : Nat
  data : List UInt8

namespace Volume

/-- The volume after a call for file `i`. -/
def after (v : Volume σ) (i : Nat) (w : Fat16.Written σ) : Volume σ :=
  ⟨w.fs, w.disk, Function.update v.file i (some w.entry)⟩

theorem after_file_of_ne (v : Volume σ) {i j : Nat} (w : Fat16.Written σ) (h : j ≠ i) :
    (v.after i w).file j = v.file j :=
  update_of_ne h ..

/-- A call of `write_file` for a file of the volume, at an offset that is not behind its end. -/
inductive Step (blk : BlockIo σ) : Volume σ → WriteCall → Volume σ → Prop
  | write {v : Volume σ} {call : WriteCall} {e : DirEntry} {w : Fat16.Written σ} :
      v.file call.idx = some e → call.offset ≤ e.size.toNat →
      v.fs.writeFile blk v.disk call.idx e call.offset call.data = .ok w → Step blk v call (v.after call.idx w)

/-- `chain i` are the clusters of file `i`: acyclic, terminated, long enough, and no cluster
belongs to two files. -/
structure WellFormed (v : Volume σ) (chain : Nat → List Nat) : Prop where
  geometry : v.fs.Geometry
  file : ∀ {i e}, v.file i = some e → i < v.fs.rootEntries ∧ v.fs.FileChain e (chain i)
  apart : ∀ {i j}, i ≠ j → v.file i ≠ none → v.file j ≠ none → (chain i).Disjoint (chain j)

/-- File `i` is what it was: its entry, its chain with the links, its root entry and the data
sectors on the disk. -/
structure Same (view : σ → Nat → Sector) (v : Volume σ) (chain : Nat → List Nat) (v' : Volume σ)
    (chain' : Nat → List Nat) (i : Nat) : Prop where
  volume : ∃ fat, v'.fs = { v.fs with fat := fat }
  entry : v'.file i = v.file i
  clusters : chain' i = chain i
  links : ∀ c ∈ chain i, v'.fs.entryAt c = v.fs.entryAt c
  slot : load (flat (view v'.disk)) (v.fs.slotAt i) 32 = load (flat (view v.disk)) (v.fs.slotAt i) 32
  bytes : ∀ c ∈ chain i, load (flat (view v'.disk)) (v.fs.clusterAt c) v.fs.clusterBytes =
    load (flat (view v.disk)) (v.fs.clusterAt c) v.fs.clusterBytes

/-- All that a call for file `i` may do. -/
structure Confined (view : σ → Nat → Sector) (v : Volume σ) (chain : Nat → List Nat) (i : Nat) (v' : Volume σ)
    (chain' : Nat → List Nat) : Prop where
  wellFormed : v'.WellFormed chain'
  others : ∀ j, j ≠ i → v.file j ≠ none → Same view v chain v' chain' j
  grows : ∃ new, chain' i = chain i ++ new ∧ v'.fs.freeClusters + new.length = v.fs.freeClusters

variable {blk : BlockIo σ} {view : σ → Nat → Sector} {v v' v'' : Volume σ} {chain chain' chain'' : Nat → List Nat}
  {i : Nat} {e : DirEntry}

theorem Same.refl (v : Volume σ) (chain : Nat → List Nat) (i : Nat) : Same view v chain v chain i :=
  ⟨⟨v.fs.fat, rfl⟩, rfl, rfl, fun _ _ => rfl, rfl, fun _ _ => rfl⟩

theorem Same.trans (h : Same view v chain v' chain' i) (h' : Same view v' chain' v'' chain'' i) :
    Same view v chain v'' chain'' i := by
  obtain ⟨fat', hfs'⟩ := h'.volume
  obtain ⟨fat, hfs⟩ := h.volume
  have hslot := h'.slot
  have hbytes := h'.bytes
  have hlinks := h'.links
  rw [h.clusters] at hbytes hlinks
  rw [hfs] at hslot hbytes
  refine ⟨⟨fat', by rw [hfs', hfs]⟩, h'.entry.trans h.entry, h'.clusters.trans h.clusters, fun c hc => ?_,
    hslot.trans h.slot, fun c hc => (hbytes c hc).trans (h.bytes c hc)⟩
  rw [hlinks c hc, h.links c hc]

/-! ## One call -/

theorem write_confined (hkeeps : blk.Keeps view) (hv : v.WellFormed chain) (hfile : v.file i = some e)
    {offset : Nat} (hoff : offset ≤ e.size.toNat) (data : List UInt8) :
    ∃ w chain', v.fs.writeFile blk v.disk i e offset data = .ok w ∧
      Confined view v chain i (v.after i w) chain' := by
  obtain ⟨hi, hfc⟩ := hv.file hfile
  obtain ⟨w, cs', hrun, hgrown, hfc', hframe⟩ :=
    Fat16.writeFile_effect hv.geometry hkeeps hfc hoff hi data v.disk
  -- a chain of another file: apart from the grown one, and linked as before
  have hother : ∀ {j e'}, j ≠ i → v.file j = some e' → cs'.Disjoint (chain j) ∧
      Links.Chain w.fs.entryAt IsNode IsEnd (chain j) := by
    intro j e' hne hj
    refine hgrown.other (hv.file hj).2.chain (hv.apart hne.symm ?_ ?_)
    · rw [hfile]
      exact some_ne_none e
    · rw [hj]
      exact some_ne_none e'
  have hkept : ∀ {j}, j ≠ i → (v.after i w).file j ≠ none → v.file j ≠ none := by
    intro j hne hj
    rwa [after_file_of_ne v w hne] at hj
  have hfs := hgrown.same
  refine ⟨w, Function.update chain i cs', hrun, ⟨hgrown.preserves hv.geometry, ?_, ?_⟩, ?_, ?_⟩
  · intro j e' hj
    have hroot : w.fs.rootEntries = v.fs.rootEntries := by
      obtain ⟨_, hfs⟩ := hfs
      rw [hfs]
    show j < w.fs.rootEntries ∧ _
    rw [hroot]
    by_cases hne : j = i
    · subst hne
      have hj : Function.update v.file j (some w.entry) j = some e' := hj
      rw [update_self] at hj
      cases hj
      rw [update_self]
      exact ⟨hi, hfc'⟩
    · have hj : v.file j = some e' := (after_file_of_ne v w hne).symm.trans hj
      obtain ⟨hlt, hfcj⟩ := hv.file hj
      rw [update_of_ne hne]
      refine ⟨hlt, (hother hne hj).2, hfcj.start, ?_⟩
      show _ ≤ _ * w.fs.clusterBytes
      rw [hgrown.geometry]
      exact hfcj.cover
  · intro j k hjk hj hk
    by_cases hji : j = i
    · subst hji
      obtain ⟨e', hk⟩ := ne_none_iff_exists'.mp (hkept hjk.symm hk)
      rw [update_self, update_of_ne hjk.symm]
      exact (hother hjk.symm hk).1
    · by_cases hki : k = i
      · subst hki
        obtain ⟨e', hj⟩ := ne_none_iff_exists'.mp (hkept hjk hj)
        rw [update_self, update_of_ne hjk]
        exact fun c hc hc' => (hother hjk hj).1 hc' hc
      · rw [update_of_ne hji, update_of_ne hki]
        exact hv.apart hjk (hkept hji hj) (hkept hki hk)
  · intro j hne hj
    obtain ⟨e', hj⟩ := ne_none_iff_exists'.mp hj
    obtain ⟨hlt, hfcj⟩ := hv.file hj
    obtain ⟨hdisj, -⟩ := hother hne hj
    refine ⟨hfs, after_file_of_ne v w hne, update_of_ne hne .., fun c hc => ?_, ?_, fun c hc => ?_⟩
    · exact hgrown.frame c fun hin => hdisj hin hc
    · -- the root entry of another file is not touched
      refine load_congr fun a hlo hhi => hframe a ?_
      have hslot := hv.geometry.slot hlt
      rintro (hfat | hroot | ⟨c, -, hc, -⟩)
      · omega
      · simp only [Fat16.slotAt] at hlo hhi hroot
        omega
      · have := v.fs.clusterAt_data c
        omega
    · -- nor is a cluster of its chain
      refine load_congr fun a hlo hhi => hframe a ?_
      have hslot := hv.geometry.slot hi
      have hdata := v.fs.clusterAt_data c
      rintro (hfat | hroot | ⟨c', hc', hlo', hhi'⟩)
      · omega
      · omega
      · have := Fat16.clusterAt_apart hv.geometry (hfcj.chain.node hc).1 (hgrown.chain.node hc').1
          fun heq => hdisj (heq ▸ hc') hc
        omega
  · obtain ⟨new, hcs', -, hcount⟩ := hgrown.added
    exact ⟨new, by rw [update_self, hcs'], hcount⟩

/-! ## Every sequence of calls -/

theorem Step.confined (hkeeps : blk.Keeps view) (hv : v.WellFormed chain) {call : WriteCall}
    (h : Step blk v call v') : ∃ chain', Confined view v chain call.idx v' chain' := by
  obtain ⟨hfile, hoff, hwrite⟩ := h
  obtain ⟨w, chain', hrun, hconf⟩ := write_confined hkeeps hv hfile hoff call.data
  obtain rfl := Except.ok.inj (hwrite.symm.trans hrun)
  exact ⟨chain', hconf⟩

/-- Through every sequence of calls the chains stay acyclic, terminated and apart, and a file
that no call is for is what it was. -/
theorem run_same (hkeeps : blk.Keeps view) (hv : v.WellFormed chain) {calls : List WriteCall}
    (hrun : LTS.Run (Step blk) v calls v') :
    ∃ chain', v'.WellFormed chain' ∧
      ∀ i, (∀ call ∈ calls, i ≠ call.idx) → v.file i ≠ none → Same view v chain v' chain' i := by
  induction hrun generalizing chain with
  | nil v => exact ⟨chain, hv, fun i _ _ => .refl v chain i⟩
  | cons hstep _ ih =>
    obtain ⟨chain₁, hconf⟩ := hstep.confined hkeeps hv
    obtain ⟨chain', hv', hsame⟩ := ih hconf.wellFormed
    refine ⟨chain', hv', fun i hi hfile => ?_⟩
    have hfirst := hconf.others i (hi _ List.mem_cons_self) hfile
    refine hfirst.trans (hsame i (fun call hcall => hi call (List.mem_cons_of_mem _ hcall)) ?_)
    rwa [hfirst.entry]

/-- From a well-formed volume, through every sequence of calls and on every disk that keeps its
sectors: the chains are well formed, a file that was not written is what it was, and the next
call, whichever it is, returns and is confined to its file. -/
theorem writes_confined (hkeeps : blk.Keeps view) (hv : v.WellFormed chain) {calls : List WriteCall}
    (hrun : LTS.Run (Step blk) v calls v') :
    ∃ chain', v'.WellFormed chain' ∧
      (∀ i, (∀ call ∈ calls, i ≠ call.idx) → v.file i ≠ none → Same view v chain v' chain' i) ∧
      ∀ i e offset data, v'.file i = some e → offset ≤ e.size.toNat →
        ∃ w chain'', v'.fs.writeFile blk v'.disk i e offset data = .ok w ∧
          Confined view v' chain' i (v'.after i w) chain'' := by
  obtain ⟨chain', hv', hsame⟩ := run_same hkeeps hv hrun
  exact ⟨chain', hv', hsame, fun i e offset data hfile hoff => write_confined hkeeps hv' hfile hoff data⟩

/-- Whatever the disk does in a sequence of calls for other files, `read_file` returns afterwards
what it returned before. -/
theorem reads_undisturbed {look : BlockIo σ} (hkeeps : blk.Keeps view) (hlook : look.Keeps view)
    (hrel : look.Reliable) (hv : v.WellFormed chain) {calls : List WriteCall}
    (hrun : LTS.Run (Step blk) v calls v') (hi : ∀ call ∈ calls, i ≠ call.idx) (hfile : v.file i = some e)
    (offset outLen : Nat) :
    v'.file i = some e ∧ ∃ out d d',
      v.fs.readFile look v.disk e.startCluster.toNat e.size.toNat offset outLen = .ok (out, d) ∧
      v'.fs.readFile look v'.disk e.startCluster.toNat e.size.toNat offset outLen = .ok (out, d') := by
  obtain ⟨chain', hv', hsame⟩ := run_same hkeeps hv hrun
  have hs := hsame i hi (hfile ▸ some_ne_none e)
  have hfile' := hs.entry.trans hfile
  have hfc := (hv.file hfile).2
  have hfc' := (hv'.file hfile').2
  have hcover := hfc.cover
  obtain ⟨d, hread, -⟩ := Fat16.readFile_eq hv.geometry hlook hrel hfc.chain hcover v.disk offset outLen
  obtain ⟨d', hread', -⟩ := Fat16.readFile_eq hv'.geometry hlook hrel hfc'.chain hfc'.cover v'.disk offset outLen
  obtain ⟨_, hfs⟩ := hs.volume
  have hbytes : v'.fs.contents = v.fs.contents := by
    rw [hfs]
    rfl
  rw [hs.clusters, ← hfc.start, hbytes, Fat16.contents_congr hv.geometry.bytes_pos (by omega) hs.bytes] at hread'
  rw [← hfc.start] at hread
  exact ⟨hfile', _, d, d', hread, hread'⟩

/-- Two new files on a small volume. -/
def twoFiles : Volume (Nat → Sector) :=
  ⟨Fat16.small, fun _ _ => 0, fun i => if i < 2 then some Fat16.newEntry else none⟩

theorem twoFiles_wellFormed : twoFiles.WellFormed fun _ => [] := by
  refine ⟨Fat16.small_geometry, fun {i e} h => ?_, fun _ _ _ => List.disjoint_nil_left _⟩
  obtain ⟨hi, he⟩ := ite_none_right_eq_some.mp h
  obtain rfl := Option.some.inj he
  exact ⟨Nat.lt_trans hi (by decide), Fat16.newEntry_fileChain Fat16.small⟩

theorem writes_confined_twoFiles :
    ∃ v chain w chain', LTS.Run (Step ramDisk) twoFiles [⟨0, 0, [7]⟩] v ∧ v.WellFormed chain ∧
      Same id twoFiles (fun _ => []) v chain 1 ∧
      v.fs.writeFile ramDisk v.disk 1 Fat16.newEntry 0 [8] = .ok w ∧
      Confined id v chain 1 (v.after 1 w) chain' := by
  obtain ⟨w, -, hwrite, -⟩ := write_confined ramDisk_keeps twoFiles_wellFormed
    (show twoFiles.file 0 = some Fat16.newEntry from rfl) (Nat.zero_le 0) [7]
  have hrun : LTS.Run (Step ramDisk) twoFiles [⟨0, 0, [7]⟩] (twoFiles.after 0 w) :=
    .single (.write rfl (Nat.zero_le 0) hwrite)
  obtain ⟨chain, hv, hsame, hnext⟩ := writes_confined ramDisk_keeps twoFiles_wellFormed hrun
  have hone : Same id twoFiles (fun _ => []) (twoFiles.after 0 w) chain 1 :=
    hsame 1 (by simp) (some_ne_none _)
  obtain ⟨w', chain', hwrite', hconf⟩ := hnext 1 Fat16.newEntry 0 [8] hone.entry (Nat.zero_le _)
  exact ⟨_, chain, w', chain', hrun, hv, hone, hwrite', hconf⟩

theorem reads_undisturbed_twoFiles : ∃ v out d d', LTS.Run (Step ramDisk) twoFiles [⟨0, 0, [7]⟩] v ∧
    twoFiles.fs.readFile ramDisk twoFiles.disk 0 0 0 9 = .ok (out, d) ∧
    v.fs.readFile ramDisk v.disk 0 0 0 9 = .ok (out, d') := by
  obtain ⟨w, -, hwrite, -⟩ := write_confined ramDisk_keeps twoFiles_wellFormed
    (show twoFiles.file 0 = some Fat16.newEntry from rfl) (Nat.zero_le 0) [7]
  have hrun : LTS.Run (Step ramDisk) twoFiles [⟨0, 0, [7]⟩] _ := .single (.write rfl (Nat.zero_le 0) hwrite)
  obtain ⟨-, out, d, d', h⟩ := reads_undisturbed ramDisk_keeps ramDisk_keeps ramDisk_reliable
    twoFiles_wellFormed hrun (i := 1) (by simp) rfl 0 9
  exact ⟨_, out, d, d', hrun, h⟩

end Volume

end Tanix.Fs
