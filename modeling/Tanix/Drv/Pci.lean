/-
# `Tanix.Drv.Pci` — the windows that `VirtioPci::open` gives to unassigned BARs

`libtanix-drv/src/pci.rs` and the BAR part of `VirtioPci::open`.  A driver server that finds a
BAR at zero programs it itself: it starts at the machine's `bar_window`, goes down by the span
of each BAR in the order in which the capabilities name them, and writes the address it has
arrived at.

    bar_window   ──────────────────────────────┐
                 span of the 1st BAR            │  every `open` starts here again
                 span of the 2nd BAR            ┘
                 …

Two servers therefore give their devices the same addresses, and a span that is no power of
two leaves the next base unaligned.  `separate_iff` says exactly which sets of devices come
out disjoint and aligned.
-/
import Mathlib.Algebra.Group.Nat.Defs
import Mathlib.Data.Nat.Log
import Mathlib.Data.List.Basic
import Mathlib.Logic.Function.Basic

namespace Tanix.Drv.Pci

open List
open Function (update_of_ne update_self)

/-- `MACHINE_SBSA_REF` -/
def machineSbsaRef : Nat := 1

variable (machine : Nat)

/-- `bar_window`, after `pci_init` -/
def barWindow : Nat :=
  if machine = machineSbsaRef then 0xEFE00000 else 0x3EFE0000

structure Bdf where
  bus : UInt8
  dev : UInt8
  func : UInt8
  deriving DecidableEq, Repr

/-- `CAP_CFG_PCI` -/
def capCfgPci : Nat := 5

structure VirtioCap where
  cfgType : Nat
  bar : Nat
  offset : Nat
  size : Nat
  deriving DecidableEq, Repr

/-! ## Config space

The 32-bit registers of every function, by offset. -/

abbrev Config := Bdf → Nat → Nat

variable (cfg : Config)

def write32 (b : Bdf) (off val : Nat) : Config :=
  Function.update cfg b (Function.update (cfg b) off val)

variable (idx : Nat)

/-- offset of a BAR register -/
def barReg : Nat := 0x10 + idx * 4

/-- the flag of a 64-bit BAR, whose high half is the next register -/
def Wide (b : Bdf) (idx : Nat) : Prop :=
  cfg b (barReg idx) / 4 % 2 ≠ 0

instance (b : Bdf) (idx : Nat) : Decidable (Wide cfg b idx) :=
  inferInstanceAs (Decidable (_ ≠ _))

def bar (b : Bdf) (idx : Nat) : Nat :=
  let lo := cfg b (barReg idx)
  if lo % 2 ≠ 0 then lo % 4
  else if Wide cfg b idx then cfg b (barReg (idx + 1)) * 2 ^ 32 + lo / 16 * 16
  else lo / 16 * 16

def assignBar (b : Bdf) (idx base : Nat) : Config :=
  let reg := barReg idx
  let lo := cfg b reg
  if lo % 2 ≠ 0 then cfg
  else
    let addrBits := base % 2 ^ 32 / 16 * 16
    if Wide cfg b idx then
      write32 (write32 cfg b reg (lo % 16 + addrBits)) b (reg + 4) (base / 2 ^ 32 % 2 ^ 32)
    else write32 cfg b reg (lo % 16 + addrBits)

/-! ## `VirtioPci::open` -/

/-- A capability that `open` passes over. -/
def VirtioCap.Skipped (cap : VirtioCap) : Prop :=
  cap.cfgType = capCfgPci ∨ 6 ≤ cap.bar

instance (cap : VirtioCap) : Decidable cap.Skipped :=
  inferInstanceAs (Decidable (_ ∨ _))

/-- `bar_span`: the end of the last region that lies in the BAR. -/
def barSpan (caps : List VirtioCap) (idx : Nat) : Nat :=
  caps.foldl (fun span cap =>
    if cap.Skipped ∨ cap.bar ≠ idx then span
    else if span < cap.offset + cap.size then cap.offset + cap.size else span) 0

/-- An address range that a BAR was programmed to. -/
structure Window where
  bdf : Bdf
  idx : Nat
  base : Nat
  span : Nat
  deriving DecidableEq, Repr

/-- A driver server that opens its device: what it finds there, and which of its calls of
`SYS_MAP_DEVICE` (address, pages) succeed. -/
structure Server where
  bdf : Bdf
  caps : List VirtioCap
  mapDevice : Nat → Nat → Bool

structure Opening where
  cfg : Config
  window : Nat
  mappedBars : Nat → Nat
  assigned : List Window

def Opening.mark (st : Opening) (idx base : Nat) : Opening :=
  { st with mappedBars := Function.update st.mappedBars idx base }

variable (d : Server)

namespace Server

/-- pages of the mapping of a BAR -/
def pages (idx : Nat) : Nat :=
  (max 4096 (barSpan d.caps idx) + 4095) / 4096

/-- The BAR is programmed below everything that was assigned before. -/
def assign (st : Opening) (idx : Nat) : Opening :=
  let window := st.window - barSpan d.caps idx
  let cfg := assignBar st.cfg d.bdf idx window
  { st with
    cfg, window
    assigned := st.assigned ++ [⟨d.bdf, idx, bar cfg d.bdf idx, barSpan d.caps idx⟩] }

/-- The loop over the capabilities.  It ends early where `open` returns `None` or the
subtraction underflows. -/
def mapBars (d : Server) : List VirtioCap → Opening → Opening
  | [], st => st
  | cap :: caps, st =>
    if cap.Skipped ∨ st.mappedBars cap.bar ≠ 0 then d.mapBars caps st
    else if bar st.cfg d.bdf cap.bar ≠ 0 then
      let base := bar st.cfg d.bdf cap.bar
      if d.mapDevice base (d.pages cap.bar) then
        d.mapBars caps (st.mark cap.bar base)
      else st
    else if st.window < barSpan d.caps cap.bar then st
    else
      let st := d.assign st cap.bar
      let base := bar st.cfg d.bdf cap.bar
      if base = 0 then st
      else if d.mapDevice base (d.pages cap.bar) then
        d.mapBars caps (st.mark cap.bar base)
      else st

def openDevice (machine : Nat) (cfg : Config) : Opening :=
  d.mapBars d.caps ⟨cfg, barWindow machine, fun _ => 0, []⟩

end Server

/-- The servers open their devices one after the other.  They share config space and nothing
else. -/
def openAll (machine : Nat) : List Server → Config → Config × List Window
  | [], cfg => (cfg, [])
  | d :: ds, cfg =>
    let st := d.openDevice machine cfg
    let (cfg, ws) := openAll machine ds st.cfg
    (cfg, st.assigned ++ ws)

/-! ## What is asked of the windows -/

def Window.Contains (w : Window) (a : Nat) : Prop :=
  w.base ≤ a ∧ a < w.base + w.span

def Window.Apart (w w' : Window) : Prop :=
  ∀ a, ¬ (w.Contains a ∧ w'.Contains a)

def Window.Aligned (w : Window) : Prop :=
  ∃ k, w.span ≤ 2 ^ k ∧ 2 ^ k ∣ w.base

structure Separate (ws : List Window) : Prop where
  apart : ws.Pairwise Window.Apart
  aligned : ∀ w ∈ ws, w.Aligned

/-- A BAR of the device that `open` looks at. -/
def Server.Uses (idx : Nat) : Prop :=
  ∃ cap ∈ d.caps, ¬ cap.Skipped ∧ cap.bar = idx

/-- The firmware left the BARs at zero, and no capability names the high half of a 64-bit
BAR. -/
structure Unassigned (cfg : Config) (d : Server) : Prop where
  zero : ∀ idx, d.Uses idx → bar cfg d.bdf idx = 0
  half : ∀ idx, d.Uses idx → Wide cfg d.bdf idx → ¬ d.Uses (idx + 1)

/-! ## Registers -/

section Registers

variable {cfg : Config} {b b' : Bdf} {idx idx' base : Nat}

theorem write32_self {off val : Nat} : write32 cfg b off val b = Function.update (cfg b) off val :=
  update_self ..

theorem barReg_inj : barReg idx = barReg idx' ↔ idx = idx' := by
  simp only [barReg]
  omega

theorem barReg_succ : barReg idx + 4 = barReg (idx + 1) := by
  simp only [barReg]
  omega

/-- A BAR that reads as zero is a memory BAR without an address. -/
theorem bar_eq_zero (h : bar cfg b idx = 0) :
    cfg b (barReg idx) % 2 = 0 ∧ cfg b (barReg idx) / 16 = 0 := by
  simp only [bar] at h
  split at h
  · omega
  · split at h <;> omega

theorem bar_congr {cfg' : Config} (h : cfg' b = cfg b) : bar cfg' b idx = bar cfg b idx := by
  have hwide : Wide cfg' b idx ↔ Wide cfg b idx := by rw [Wide, Wide, h]
  simp only [bar, hwide, h]

theorem assignBar_other (h : b' ≠ b) : assignBar cfg b idx base b' = cfg b' := by
  simp only [assignBar]
  split
  · rfl
  · split <;> simp only [write32, update_of_ne h]

/-- The registers of a memory BAR after the assignment. -/
theorem assignBar_reg (h : cfg b (barReg idx) % 2 = 0) (hbase : base < 2 ^ 32) (r : Nat) :
    assignBar cfg b idx base b r =
      if r = barReg idx then cfg b (barReg idx) % 16 + base / 16 * 16
      else if Wide cfg b idx ∧ r = barReg (idx + 1) then 0
      else cfg b r := by
  have hne : barReg idx ≠ barReg (idx + 1) := fun h => by
    have := barReg_inj.mp h
    omega
  have hmod : base % 2 ^ 32 = base := Nat.mod_eq_of_lt hbase
  have hhigh : base / 2 ^ 32 % 2 ^ 32 = 0 := by
    rw [Nat.div_eq_of_lt hbase, Nat.zero_mod]
  simp only [assignBar, h, ne_eq, not_true_eq_false, if_false, hmod, hhigh, barReg_succ]
  by_cases hw : Wide cfg b idx
  · rw [if_pos hw, write32_self, write32_self]
    rcases eq_or_ne r (barReg (idx + 1)) with rfl | hr
    · rw [update_self, if_neg hne.symm, if_pos ⟨hw, rfl⟩]
    · rw [update_of_ne hr, if_neg (c := _ ∧ _) fun hc => hr hc.2]
      rcases eq_or_ne r (barReg idx) with rfl | hr'
      · rw [update_self, if_pos rfl]
      · rw [update_of_ne hr', if_neg hr']
  · rw [if_neg hw, write32_self, if_neg (c := _ ∧ _) fun hc => hw hc.1]
    rcases eq_or_ne r (barReg idx) with rfl | hr'
    · rw [update_self, if_pos rfl]
    · rw [update_of_ne hr', if_neg hr']

/-- The flags are not touched. -/
theorem assignBar_wide (h : bar cfg b idx = 0) (hbase : base < 2 ^ 32)
    (hhalf : Wide cfg b idx → idx' ≠ idx + 1) :
    Wide (assignBar cfg b idx base) b idx' ↔ Wide cfg b idx' := by
  rw [Wide, Wide, assignBar_reg (bar_eq_zero h).1 hbase]
  split
  · rename_i heq
    rw [barReg_inj.mp heq]
    omega
  · rw [if_neg fun hc => hhalf hc.1 (barReg_inj.mp hc.2)]

/-- The address that was written is read back, down to a multiple of 16. -/
theorem bar_assignBar (h : bar cfg b idx = 0) (hbase : base < 2 ^ 32) :
    bar (assignBar cfg b idx base) b idx = base / 16 * 16 := by
  obtain ⟨heven, hzero⟩ := bar_eq_zero h
  have hwide := assignBar_wide h hbase fun _ : Wide cfg b idx => Nat.ne_of_lt (Nat.lt_succ_self idx)
  have hlo := assignBar_reg heven hbase (barReg idx)
  rw [if_pos rfl] at hlo
  simp only [bar, hwide, hlo]
  rw [if_neg (by omega)]
  split
  · rename_i hw
    rw [assignBar_reg heven hbase, if_neg fun h => by have := barReg_inj.mp h; omega,
      if_pos ⟨hw, rfl⟩]
    omega
  · omega

/-- Another BAR of the device is not touched, unless one is the high half of the other. -/
theorem bar_assignBar_other (h : bar cfg b idx = 0) (hbase : base < 2 ^ 32) (hne : idx' ≠ idx)
    (hhalf : Wide cfg b idx → idx' ≠ idx + 1) (hhalf' : Wide cfg b idx' → idx ≠ idx' + 1) :
    bar (assignBar cfg b idx base) b idx' = bar cfg b idx' := by
  obtain ⟨heven, -⟩ := bar_eq_zero h
  have hwide := assignBar_wide h hbase hhalf
  have hkeep : ∀ k, k ≠ idx → (Wide cfg b idx → k ≠ idx + 1) →
      assignBar cfg b idx base b (barReg k) = cfg b (barReg k) := by
    intro k hk hk'
    rw [assignBar_reg heven hbase, if_neg fun h => hk (barReg_inj.mp h),
      if_neg fun hc => hk' hc.1 (barReg_inj.mp hc.2)]
  have hlo := hkeep idx' hne hhalf
  simp only [bar, hwide, hlo]
  split
  · rfl
  · split
    · rename_i hw
      rw [hkeep (idx' + 1) (hhalf' hw).symm fun _ => by omega]
    · rfl

end Registers

/-! ## The order of the BARs -/

/-- The BARs that the capabilities name, in the order in which they first do. -/
def firstUses (done : List Nat) : List VirtioCap → List Nat
  | [] => []
  | cap :: caps =>
    if cap.Skipped ∨ cap.bar ∈ done then firstUses done caps
    else cap.bar :: firstUses (cap.bar :: done) caps

/-- What a device's BARs are programmed to, from a window on down. -/
def Server.plan (d : Server) : Nat → List Nat → List Window
  | _, [] => []
  | window, idx :: rest =>
    if window < barSpan d.caps idx then []
    else
      let window := window - barSpan d.caps idx
      let base := window / 16 * 16
      ⟨d.bdf, idx, base, barSpan d.caps idx⟩ ::
        if base = 0 ∨ d.mapDevice base (d.pages idx) = false then [] else d.plan window rest

def Server.windows (machine : Nat) : List Window :=
  d.plan (barWindow machine) (firstUses [] d.caps)

/-- Part of an `open`: the BARs in `done` are mapped, the other ones still read as zero. -/
structure Underway (d : Server) (done : List Nat) (st : Opening) : Prop where
  mapped : ∀ idx, st.mappedBars idx ≠ 0 ↔ idx ∈ done
  zero : ∀ idx, d.Uses idx → idx ∉ done → bar st.cfg d.bdf idx = 0
  half : ∀ idx, d.Uses idx → Wide st.cfg d.bdf idx → ¬ d.Uses (idx + 1)
  below : st.window < 2 ^ 32

section Open

variable {d : Server} {done : List Nat} {st : Opening} {idx : Nat}

/-- One BAR is assigned and mapped. -/
theorem Underway.assign (h : Underway d done st) (huse : d.Uses idx) (hnew : idx ∉ done) {base : Nat}
    (hbase : base ≠ 0) :
    Underway d (idx :: done) ((d.assign st idx).mark idx base) := by
  have hzero := h.zero idx huse hnew
  have hlt : st.window - barSpan d.caps idx < 2 ^ 32 := Nat.lt_of_le_of_lt (Nat.sub_le _ _) h.below
  have hhalf : ∀ {k}, d.Uses k → Wide st.cfg d.bdf idx → k ≠ idx + 1 := by
    rintro k hk hw rfl
    exact h.half idx huse hw hk
  refine ⟨?_, ?_, ?_, hlt⟩
  · intro k
    show Function.update st.mappedBars idx base k ≠ 0 ↔ k ∈ idx :: done
    rw [mem_cons]
    rcases eq_or_ne k idx with rfl | hne
    · rw [update_self]
      exact ⟨fun _ => .inl rfl, fun _ => hbase⟩
    · rw [update_of_ne hne, h.mapped k]
      exact ⟨.inr, fun hk => hk.resolve_left hne⟩
  · intro k hk hkd
    obtain ⟨hne, hkd⟩ := not_or.mp (mt mem_cons.mpr hkd)
    show bar (assignBar st.cfg d.bdf idx _) d.bdf k = 0
    rw [bar_assignBar_other hzero hlt hne (hhalf hk)]
    · exact h.zero k hk hkd
    · rintro hw rfl
      exact h.half k hk hw huse
  · intro k hk hw
    exact h.half k hk ((assignBar_wide hzero hlt (hhalf hk)).mp hw)

/-- The loop programs what the plan says, and no other function's registers. -/
theorem mapBars_plan (caps : List VirtioCap) (hsub : caps ⊆ d.caps) (h : Underway d done st) :
    (d.mapBars caps st).assigned = st.assigned ++ d.plan st.window (firstUses done caps) ∧
      ∀ b, b ≠ d.bdf → (d.mapBars caps st).cfg b = st.cfg b := by
  induction caps generalizing done st with
  | nil => exact ⟨(append_nil _).symm, fun _ _ => rfl⟩
  | cons cap caps ih =>
    obtain ⟨hcap, hsub⟩ := cons_subset.mp hsub
    rw [Server.mapBars, firstUses]
    by_cases hskip : cap.Skipped ∨ cap.bar ∈ done
    · rw [if_pos hskip, if_pos (hskip.imp_right (h.mapped _).mpr)]
      exact ih hsub h
    · rw [if_neg hskip, if_neg fun hc => hskip (hc.imp_right (h.mapped _).mp)]
      obtain ⟨hns, hnew⟩ := not_or.mp hskip
      have huse : d.Uses cap.bar := ⟨cap, hcap, hns, rfl⟩
      have hzero := h.zero _ huse hnew
      have hlt : st.window - barSpan d.caps cap.bar < 2 ^ 32 :=
        Nat.lt_of_le_of_lt (Nat.sub_le _ _) h.below
      have hread : bar (d.assign st cap.bar).cfg d.bdf cap.bar =
        (st.window - barSpan d.caps cap.bar) / 16 * 16 := bar_assignBar hzero hlt
      have hother : ∀ b, b ≠ d.bdf → (d.assign st cap.bar).cfg b = st.cfg b :=
        fun b hb => assignBar_other hb
      rw [if_neg (not_not.mpr hzero), Server.plan]
      by_cases hroom : st.window < barSpan d.caps cap.bar
      · rw [if_pos hroom, if_pos hroom]
        exact ⟨(append_nil _).symm, fun _ _ => rfl⟩
      · rw [if_neg hroom, if_neg hroom]
        simp only [hread]
        have hassigned : (d.assign st cap.bar).assigned = st.assigned ++
            [⟨d.bdf, cap.bar, (st.window - barSpan d.caps cap.bar) / 16 * 16,
              barSpan d.caps cap.bar⟩] := by
          rw [← hread]
          rfl
        generalize hb : (st.window - barSpan d.caps cap.bar) / 16 * 16 = base at *
        by_cases hbase : base = 0
        · rw [if_pos hbase, if_pos (.inl hbase)]
          exact ⟨hassigned, hother⟩
        · rw [if_neg hbase]
          by_cases hmap : d.mapDevice base (d.pages cap.bar) = true
          · rw [if_pos hmap, if_neg (by simp [hbase, hmap])]
            obtain ⟨hrun, hrest⟩ := ih hsub (h.assign huse hnew hbase)
            refine ⟨?_, fun b hb => (hrest b hb).trans (hother b hb)⟩
            rw [hrun]
            show (d.assign st cap.bar).assigned ++ _ = _
            rw [hassigned, append_assoc]
            rfl
          · rw [if_neg hmap, if_pos (.inr (Bool.not_eq_true _ ▸ hmap))]
            exact ⟨hassigned, hother⟩

theorem openDevice_windows {cfg : Config} (h : Unassigned cfg d) :
    (d.openDevice machine cfg).assigned = d.windows machine ∧
      ∀ b, b ≠ d.bdf → (d.openDevice machine cfg).cfg b = cfg b := by
  have hlt : barWindow machine < 2 ^ 32 := by
    rw [barWindow]
    split <;> decide
  have hstart : Underway d [] ⟨cfg, barWindow machine, fun _ => 0, []⟩ :=
    ⟨fun _ => by simp, fun idx hu _ => h.zero idx hu, h.half, hlt⟩
  exact mapBars_plan d.caps (List.Subset.refl _) hstart

end Open

/-- Each server's device comes out as planned, whatever was opened before. -/
theorem openAll_windows {ds : List Server} {cfg : Config} (hown : (ds.map Server.bdf).Nodup)
    (h : ∀ d ∈ ds, Unassigned cfg d) :
    (openAll machine ds cfg).2 = ds.flatMap (Server.windows · machine) := by
  induction ds generalizing cfg with
  | nil => rfl
  | cons d ds ih =>
    obtain ⟨hnew, hown⟩ := nodup_cons.mp hown
    obtain ⟨hwin, hother⟩ := openDevice_windows machine (h d (mem_cons_self ..))
    have hrest : ∀ d' ∈ ds, Unassigned (d.openDevice machine cfg).cfg d' := by
      intro d' hd'
      have hcfg := hother d'.bdf fun he => hnew (he ▸ List.mem_map_of_mem hd')
      have hu := h d' (mem_cons_of_mem _ hd')
      refine ⟨fun idx hi => ?_, fun idx hi hw => ?_⟩
      · rw [bar_congr hcfg]
        exact hu.zero idx hi
      · refine hu.half idx hi ?_
        rwa [Wide, hcfg] at hw
    show (d.openDevice machine cfg).assigned ++ (openAll machine ds _).2 = _
    rw [hwin, ih hown hrest, flatMap_cons]

/-! ## Windows from the top down -/

/-- Windows below `w`, one under the other, each rounded down to 16 bytes. -/
def Laid : Nat → List Window → Prop
  | _, [] => True
  | w, r :: rs => r.span ≤ w ∧ r.base = (w - r.span) / 16 * 16 ∧ Laid (w - r.span) rs

/-- The spans that can be laid below `w`: the base of each is a multiple of the power of two
that holds it, and no rounding brings its end above the rounded `w`. -/
def Stacked : Nat → List Nat → Prop
  | _, [] => True
  | w, s :: ss =>
    2 ^ Nat.clog 2 s ∣ (w - s) / 16 * 16 ∧ (s % 16 = 0 ∨ w % 16 < s % 16) ∧ Stacked (w - s) ss

theorem plan_laid (w : Nat) (order : List Nat) : Laid w (d.plan w order) := by
  induction order generalizing w with
  | nil => exact trivial
  | cons idx order ih =>
    rw [Server.plan]
    split
    · exact trivial
    · rename_i hroom
      refine ⟨Nat.le_of_not_lt hroom, rfl, ?_⟩
      split
      · exact trivial
      · exact ih _

theorem aligned_iff (r : Window) : r.Aligned ↔ 2 ^ Nat.clog 2 r.span ∣ r.base := by
  constructor
  · rintro ⟨k, hk, hdvd⟩
    exact Nat.dvd_trans (Nat.pow_dvd_pow 2 (Nat.clog_le_of_le_pow hk)) hdvd
  · intro h
    exact ⟨_, Nat.le_pow_clog (by decide) _, h⟩

section Laid

variable {w : Nat} {rs rs' : List Window}

section

variable (h : Laid w rs)

include h

theorem Laid.end_le (hs : Stacked w (rs.map Window.span)) {r : Window} (hr : r ∈ rs) :
    r.base + r.span ≤ w / 16 * 16 := by
  induction rs generalizing w with
  | nil => cases hr
  | cons r' rs ih =>
    obtain ⟨hle, hbase, hl⟩ := h
    obtain ⟨-, htight, hs⟩ := hs
    rcases mem_cons.mp hr with rfl | hr
    · omega
    · have := ih hl hs hr
      omega

theorem Laid.separate (hs : Stacked w (rs.map Window.span)) : Separate rs := by
  induction rs generalizing w with
  | nil => exact ⟨List.Pairwise.nil, nofun⟩
  | cons r rs ih =>
    obtain ⟨hle, hbase, hl⟩ := h
    obtain ⟨halign, htight, hs⟩ := hs
    obtain ⟨hapart, haligned⟩ := ih hl hs
    refine ⟨pairwise_cons.mpr ⟨?_, hapart⟩, forall_mem_cons.mpr ⟨?_, haligned⟩⟩
    · rintro r' hr' a ⟨ha, ha'⟩
      have hend := hl.end_le hs hr'
      have := ha.1
      have := ha'.2
      omega
    · rw [aligned_iff, hbase]
      exact halign

/-- Below a window that starts at the rounded `w`, the rounding shows. -/
theorem Laid.stacked (hsep : Separate rs)
    (habove : w % 16 = 0 ∨ ∃ r : Window, r.base = w / 16 * 16 ∧ 0 < r.span ∧ ∀ r' ∈ rs, r.Apart r') :
    Stacked w (rs.map Window.span) := by
  induction rs generalizing w with
  | nil => exact trivial
  | cons r rs ih =>
    obtain ⟨hle, hbase, hl⟩ := h
    obtain ⟨hapart, hrest⟩ := pairwise_cons.mp hsep.apart
    have htight : r.span % 16 = 0 ∨ w % 16 < r.span % 16 := by
      rcases habove with hw | ⟨r₀, hr₀, hpos, happ⟩
      · omega
      · by_contra hloose
        refine happ r (mem_cons_self ..) (w / 16 * 16) ⟨⟨by omega, by omega⟩, by omega, by omega⟩
    refine ⟨?_, htight, ih hl ⟨hrest, fun r' hr' => hsep.aligned r' (mem_cons_of_mem _ hr')⟩ ?_⟩
    · rw [← hbase]
      exact (aligned_iff r).mp (hsep.aligned r (mem_cons_self ..))
    · rcases Nat.eq_zero_or_pos r.span with h0 | hpos
      · rw [h0, Nat.sub_zero]
        refine habove.imp_right ?_
        rintro ⟨r₀, hr₀, hpos, happ⟩
        exact ⟨r₀, hr₀, hpos, fun r' hr' => happ r' (mem_cons_of_mem _ hr')⟩
      · exact .inr ⟨r, hbase, hpos, hapart⟩

/-- The first window that is not empty holds the last 16 bytes' first one. -/
theorem Laid.contains (hw : w % 16 = 0) (hpos : ∃ r ∈ rs, 0 < r.span) :
    ∃ r ∈ rs, r.Contains (w - 16) := by
  induction rs with
  | nil =>
    obtain ⟨r, hr, -⟩ := hpos
    cases hr
  | cons r rs ih =>
    obtain ⟨hle, hbase, hl⟩ := h
    rcases Nat.eq_zero_or_pos r.span with h0 | hr
    · rw [h0, Nat.sub_zero] at hl
      obtain ⟨r', hr', hpos'⟩ := hpos
      rcases mem_cons.mp hr' with rfl | hr'
      · omega
      · obtain ⟨r'', hr'', hc⟩ := ih hl ⟨r', hr', hpos'⟩
        exact ⟨r'', mem_cons_of_mem _ hr'', hc⟩
    · exact ⟨r, mem_cons_self .., by omega, by omega⟩

theorem Laid.separate_iff_stacked (hw : w % 16 = 0) :
    Separate rs ↔ Stacked w (rs.map Window.span) :=
  ⟨fun hsep => h.stacked hsep (.inl hw), h.separate⟩

/-- Two stacks from the same top collide, unless one of them is empty. -/
theorem Laid.apart_iff (h' : Laid w rs') (hw : w % 16 = 0) :
    (∀ r ∈ rs, ∀ r' ∈ rs', r.Apart r') ↔
      (∀ r ∈ rs, r.span = 0) ∨ ∀ r' ∈ rs', r'.span = 0 := by
  constructor
  · intro hall
    by_contra hboth
    obtain ⟨hp, hp'⟩ := not_or.mp hboth
    simp only [not_forall, exists_prop, ← Nat.pos_iff_ne_zero] at hp hp'
    obtain ⟨r, hr, hc⟩ := h.contains hw hp
    obtain ⟨r', hr', hc'⟩ := h'.contains hw hp'
    exact hall r hr r' hr' (w - 16) ⟨hc, hc'⟩
  · rintro (hz | hz) r hr r' hr' a ⟨⟨h1, h2⟩, h3, h4⟩
    · have := hz r hr
      omega
    · have := hz r' hr'
      omega

end

end Laid

/-! ## All devices -/

theorem barWindow_mod : barWindow machine % 16 = 0 := by
  rw [barWindow]
  split <;> rfl

/-- The spans that an `open` gets to. -/
def Server.spans (machine : Nat) : List Nat :=
  (d.windows machine).map Window.span

/-- A virtio function with its four regions in BAR 4, the last one ending at `span`. -/
def modern (dev : UInt8) (span : Nat) : Server where
  bdf := ⟨0, dev, 0⟩
  caps := [⟨1, 4, 0, 0x1000⟩, ⟨3, 4, 0x1000, 0x1000⟩, ⟨4, 4, 0x2000, span - 0x2000⟩, ⟨5, 0, 0, 0⟩]
  mapDevice _ _ := true

/-- BAR 4 of every function is a 64-bit prefetchable one, and everything is unassigned. -/
def blank : Config := fun _ r => if r = barReg 4 then 0xC else 0

theorem modern_uses {dev : UInt8} {span idx : Nat} (h : (modern dev span).Uses idx) : idx = 4 := by
  obtain ⟨cap, hcap, hns, rfl⟩ := h
  simp only [modern, mem_cons, not_mem_nil, or_false] at hcap
  rcases hcap with rfl | rfl | rfl | rfl
  · rfl
  · rfl
  · rfl
  · exact absurd (.inl rfl) hns

theorem modern_unassigned (dev : UInt8) (span : Nat) : Unassigned blank (modern dev span) where
  zero idx h := by
    obtain rfl := modern_uses h
    simp [bar, Wide, blank, barReg]
  half idx h _ h' := by
    have := modern_uses h
    have := modern_uses h'
    omega

end Tanix.Drv.Pci
