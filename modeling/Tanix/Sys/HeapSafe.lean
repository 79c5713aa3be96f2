/-
# `Tanix.Sys.HeapSafe` — no two blocks of the heap meet

The blocks in use and the blocks of the free list carve up the chunks that the kernel handed
out (`Carved`), and the list of the free ones is the one that the links in memory describe.
`alloc` moves a block from the list to those in use, whole or in part, `free` moves it back
and may join it with the one behind.  The list is in no order: chunks come from anywhere and go
to its front, and nothing below needs one.
-/
import Tanix.Sys.Heap

namespace Tanix.Sys

open Extents
open List Option
open Function (update_of_ne update_self)

/-! ## Sizes and links do not disturb each other -/

section Fields

variable (mem : Mem) (a v : Nat)

theorem sizes_setSize :
    (fun b => (setSize mem a v b).size) = Function.update (fun b => (mem b).size) a v :=
  Function.comp_update Block.size mem a _

theorem links_setNext :
    (fun b => (setNext mem a v b).next) = Function.update (fun b => (mem b).next) a v :=
  Function.comp_update Block.next mem a _

theorem sizes_setNext : (fun b => (setNext mem a v b).size) = fun b => (mem b).size :=
  (Function.comp_update Block.size mem a _).trans (Function.update_eq_self a _)

theorem links_setSize : (fun b => (setSize mem a v b).next) = fun b => (mem b).next :=
  (Function.comp_update Block.next mem a _).trans (Function.update_eq_self a _)

theorem next_setSize (b : Nat) : (setSize mem a v b).next = (mem b).next :=
  congrFun (links_setSize mem a v) b

end Fields

/-! ## Blocks of sizes that memory tells -/

def extents (size : Nat → Nat) (bs : List Nat) : List Extent :=
  bs.map fun a => ⟨a, size a⟩

theorem extents_congr {size size' : Nat → Nat} {bs : List Nat} (h : ∀ a ∈ bs, size' a = size a) :
    extents size' bs = extents size bs :=
  map_congr_left fun a ha => by rw [h a ha]

/-- Blocks at multiples of 16, with sizes that are too. -/
structure Carved (cs : List Extent) (size : Nat → Nat) (bs : List Nat) : Prop where
  carves : Carves cs (extents size bs)
  shaped : ∀ a ∈ bs, a % header = 0 ∧ size a % header = 0

namespace Carved

variable {cs : List Extent} {size size' : Nat → Nat} {bs bs' : List Nat} {a x need n : Nat}

theorem perm (h : Carved cs size bs) (hp : bs.Perm bs') : Carved cs size bs' where
  carves := h.carves.perm (hp.map _)
  shaped a ha := h.shaped a (hp.mem_iff.mpr ha)

theorem congr (h : Carved cs size bs) (hsame : ∀ a ∈ bs, size' a = size a) : Carved cs size' bs where
  carves := by
    rw [extents_congr hsame]
    exact h.carves
  shaped a ha := by
    rw [hsame a ha]
    exact h.shaped a ha

theorem header_le (h : Carved cs size bs) (ha : a ∈ bs) : header ≤ size a := by
  have hpos : 0 < size a := h.carves.pos _ (List.mem_map_of_mem ha)
  have hmod := (h.shaped a ha).2
  simp only [header] at hmod ⊢
  omega

theorem has_self (h : Carved cs size bs) (ha : a ∈ bs) : Extent.Has ⟨a, size a⟩ a :=
  ⟨Nat.le_refl a, Nat.lt_add_of_pos_right (Nat.lt_of_lt_of_le (by decide) (h.header_le ha))⟩

/-- No address inside of a block is another block. -/
theorem not_mem_of_has (h : Carved cs size (a :: bs)) (hx : a ≤ x) (hx' : x < a + size a) : x ∉ bs := by
  intro hmem
  have hap := (pairwise_cons.mp h.carves.apart).1 ⟨x, size x⟩ (List.mem_map_of_mem hmem)
  exact hap.not_has ⟨hx, hx'⟩ (h.has_self (mem_cons_of_mem _ hmem))

theorem head_not_mem (h : Carved cs size (a :: bs)) : a ∉ bs :=
  h.not_mem_of_has (Nat.le_refl a) (h.has_self (mem_cons_self ..)).2

theorem nodup (h : Carved cs size bs) : bs.Nodup := by
  induction bs with
  | nil => exact nodup_nil
  | cons a bs ih =>
    refine nodup_cons.mpr ⟨h.head_not_mem, ?_⟩
    have hap := (pairwise_cons.mp h.carves.apart).2
    rw [pairwise_map] at hap
    refine hap.imp_of_mem fun {b c} hb hc hbc => ?_
    rintro rfl
    have hself := h.has_self (mem_cons_of_mem _ hb)
    exact hbc.not_has hself hself

theorem has_chunk (h : Carved cs size bs) (ha : a ∈ bs) : ∃ c ∈ cs, c.Has a :=
  h.carves.inside _ (List.mem_map_of_mem ha) a (h.has_self ha)

/-! A block gets a size. -/

theorem extents_update (hna : a ∉ bs) : extents (Function.update size a n) (a :: bs) = ⟨a, n⟩ :: extents size bs := by
  rw [extents, map_cons, update_self]
  exact congrArg _ (extents_congr fun b hb => update_of_ne (ne_of_mem_of_not_mem hb hna) ..)

theorem shaped_update (hna : a ∉ bs) (ha : a % header = 0) (hn : n % header = 0)
    (h : ∀ b ∈ bs, b % header = 0 ∧ size b % header = 0) :
    ∀ b ∈ a :: bs, b % header = 0 ∧ Function.update size a n b % header = 0 := by
  refine forall_mem_cons.mpr ⟨⟨ha, by rwa [update_self]⟩, fun b hb => ?_⟩
  rw [update_of_ne (ne_of_mem_of_not_mem hb hna)]
  exact h b hb

theorem split (h : Carved cs size (a :: bs)) (hmod : need % header = 0) (hpos : 0 < need)
    (hlt : need < size a) :
    Carved cs (Function.update (Function.update size (a + need) (size a - need)) a need)
      (a :: (a + need) :: bs) := by
  have hrest : a + need ∉ bs := h.not_mem_of_has (Nat.le_add_right a need) (Nat.add_lt_add_left hlt a)
  have hna : a ∉ (a + need) :: bs := fun hmem =>
    (mem_cons.mp hmem).elim (fun heq => absurd heq (by omega)) h.head_not_mem
  obtain ⟨⟨ha, hsize⟩, hbs⟩ := forall_mem_cons.mp h.shaped
  refine ⟨?_, shaped_update hna ha hmod (shaped_update hrest ?_ ?_ hbs)⟩
  · rw [extents_update hna, extents_update hrest]
    exact h.carves.split hpos hlt
  · rw [Nat.add_mod, ha, hmod, Nat.add_zero, Nat.zero_mod]
  · simp only [header] at *
    omega

theorem join (h : Carved cs size (a :: (a + size a) :: bs)) :
    Carved cs (Function.update size a (size a + size (a + size a))) (a :: bs) := by
  have hna := (not_or.mp (mt mem_cons.mpr h.head_not_mem)).2
  obtain ⟨⟨ha, hsize⟩, ⟨-, hsize'⟩, hbs⟩ := (forall_mem_cons.mp h.shaped).imp_right forall_mem_cons.mp
  refine ⟨?_, shaped_update hna ha ?_ hbs⟩
  · rw [extents_update hna]
    exact h.carves.join
  · rw [Nat.add_mod, hsize, hsize', Nat.add_zero, Nat.zero_mod]

/-- A chunk that is apart from all others has no block in it. -/
theorem not_mem_of_apart (h : Carved cs size bs) (hpos : 0 < n) (hc : ∀ c ∈ cs, c.Apart ⟨a, n⟩) : a ∉ bs := by
  intro ha
  obtain ⟨c, hc', hhas⟩ := h.has_chunk ha
  exact (hc c hc').not_has hhas ⟨Nat.le_refl a, Nat.lt_add_of_pos_right hpos⟩

theorem add (h : Carved cs size bs) (ha : a % header = 0) (hn : n % header = 0) (hpos : 0 < n)
    (hc : ∀ c ∈ cs, c.Apart ⟨a, n⟩) :
    Carved (⟨a, n⟩ :: cs) (Function.update size a n) (a :: bs) := by
  have hna := h.not_mem_of_apart hpos hc
  refine ⟨?_, shaped_update hna ha hn h.shaped⟩
  rw [extents_update hna]
  exact h.carves.add hpos hc

end Carved

/-! ## The heap -/

namespace State

def sizes (s : State) (a : Nat) : Nat :=
  (s.mem a).size

def links (s : State) (a : Nat) : Nat :=
  (s.mem a).next

structure Inv (s : State) (free : List Nat) : Prop where
  listed : Seg s.links s.head free 0
  carved : Carved s.chunks s.sizes (s.blocks free)
  nonnull : ∀ c ∈ s.chunks, 0 < c.base
  behind : ∀ x ∈ s.live, x.ptr = x.block + header
  large : ∀ x ∈ s.live, header + x.size ≤ s.sizes x.block

variable {s s' : State} {free front back : List Nat}

theorem Inv.safe (h : Inv s free) : Safe s free where
  listed := h.listed
  apart := h.carved.carves.apart
  inside a ha := h.carved.carves.inside (s.extent a) (List.mem_map_of_mem ha)
  aligned x hx := by
    have hmem : x.block ∈ s.blocks free := mem_append_left _ (List.mem_map_of_mem hx)
    have hmod := (h.carved.shaped _ hmem).1
    rw [h.behind x hx]
    simp only [header] at hmod ⊢
    omega
  large x hx := by
    rw [h.behind x hx, Nat.add_assoc]
    exact Nat.add_le_add_left (h.large x hx) _
  sum := h.carved.carves.sum

theorem Inv.ne_zero (h : Inv s free) {a : Nat} (ha : a ∈ s.blocks free) : a ≠ 0 := by
  obtain ⟨c, hc, hhas⟩ := h.carved.has_chunk ha
  have := h.nonnull c hc
  have := hhas.1
  omega

theorem Inv.free_ne_zero (h : Inv s free) {a : Nat} (ha : a ∈ free) : a ≠ 0 :=
  h.ne_zero (mem_append_right _ ha)

theorem Inv.free_nodup (h : Inv s free) : free.Nodup :=
  (nodup_append.mp h.carved.nodup).2.1

/-- The invariant sees memory through the sizes of blocks and the links of free ones. -/
theorem Inv.of_same (h : Inv s free) (hsize : ∀ a ∈ s.blocks free, s'.sizes a = s.sizes a)
    (hlink : ∀ a ∈ free, s'.links a = s.links a) (hhead : s'.head = s.head)
    (hchunks : s'.chunks = s.chunks) (hlive : s'.live = s.live) : Inv s' free := by
  have hblocks : s'.blocks free = s.blocks free := by rw [blocks, hlive, blocks]
  refine ⟨?_, ?_, ?_, ?_, ?_⟩
  · rw [hhead]
    exact h.listed.congr hlink
  · rw [hchunks, hblocks]
    exact h.carved.congr hsize
  · rw [hchunks]
    exact h.nonnull
  · rw [hlive]
    exact h.behind
  · intro x hx
    rw [hlive] at hx
    rw [hsize _ (mem_append_left _ (List.mem_map_of_mem hx))]
    exact h.large x hx

/-! ### The link to a block -/

/-- Where a list leads after its last link was set. -/
theorem setLink_seg {q : Nat} (hseg : Seg s.links s.head front q) (hnodup : front.Nodup)
    (hnull : ∀ a ∈ front, a ≠ 0) (r : Nat) :
    Seg (s.setLink (front.getLastD 0) r).links (s.setLink (front.getLastD 0) r).head front r := by
  cases front with
  | nil => rfl
  | cons a l =>
    have hne := cons_ne_nil a l
    have hlast : (a :: l).getLastD 0 = (a :: l).getLast hne := by
      rw [getLastD_eq_getLast?, getLast?_eq_some_getLast hne]
      rfl
    rw [hlast, setLink, if_neg (hnull _ (getLast_mem hne))]
    show Seg (fun b => (setNext s.mem _ r b).next) s.head (a :: l) r
    rw [links_setNext]
    exact hseg.redirect hnodup hne

theorem setLink_links {prev r a : Nat} (hne : a ≠ prev) : (s.setLink prev r).links a = s.links a := by
  rw [setLink]
  split
  · rfl
  · show (setNext s.mem prev r a).next = (s.mem a).next
    rw [setNext, update_of_ne hne]

theorem setLink_sizes (s : State) (prev r : Nat) : (s.setLink prev r).sizes = s.sizes := by
  funext a
  rw [setLink]
  split
  · rfl
  · exact congrFun (sizes_setNext ..) a

/-- What the heap has claimed, by its own count and in fact. -/
def claims (s : State) : Nat × List Extent :=
  (s.pages, s.chunks)

theorem setLink_claims (s : State) (prev r : Nat) : (s.setLink prev r).claims = s.claims := by
  rw [setLink]
  split
  · rfl
  · rfl

/-! ### `alloc` -/

theorem perm_taken (l : List Nat) (cur : Nat) (front back : List Nat) :
    (l ++ (front ++ cur :: back)).Perm (cur :: (l ++ (front ++ back))) := by
  rw [← append_assoc, ← append_assoc]
  exact perm_middle

/-- A block of the free list is none of the others. -/
theorem Inv.carved_taken {cur : Nat} (h : Inv s (front ++ cur :: back)) :
    Carved s.chunks s.sizes (cur :: (s.live.map Live.block ++ (front ++ back))) :=
  h.carved.perm (perm_taken _ cur front back)

/-- The end of a list is not the beginning of the rest. -/
theorem ne_getLastD {a : Nat} (ha : a ≠ 0) (hfront : a ∉ front) : a ≠ front.getLastD 0 := by
  cases front with
  | nil => exact ha
  | cons b l =>
    rw [getLastD_cons]
    exact (ne_of_mem_of_not_mem (getLastD_mem_cons ..) hfront).symm

/-- The end of `alloc`: the link that led to `cur` leads past it. -/
def pass (s : State) (prev cur r : Nat) : State :=
  { s.setLink prev r with mem := setNext (s.setLink prev r).mem cur 0 }

theorem pass_sizes (s : State) (prev cur r : Nat) : (s.pass prev cur r).sizes = s.sizes := by
  rw [← setLink_sizes s prev r]
  exact sizes_setNext ..

theorem pass_listed {tail : List Nat} {q cur r : Nat} (hfront : Seg s.links s.head front q)
    (htail : Seg s.links r tail 0) (hnodup : (front ++ tail).Nodup) (hnull : ∀ a ∈ front ++ tail, a ≠ 0)
    (hcur : cur ∉ front ++ tail) :
    Seg (s.pass (front.getLastD 0) cur r).links (s.pass (front.getLastD 0) cur r).head (front ++ tail) 0 := by
  obtain ⟨hnf, -, hdisj⟩ := nodup_append.mp hnodup
  have hkeep : ∀ a ∈ front ++ tail, (s.pass (front.getLastD 0) cur r).links a =
      (s.setLink (front.getLastD 0) r).links a := by
    intro a ha
    show (setNext _ cur 0 a).next = _
    rw [setNext, update_of_ne (ne_of_mem_of_not_mem ha hcur)]
    rfl
  refine Seg.congr ?_ hkeep
  refine seg_append.mpr ⟨r, ?_, ?_⟩
  · exact setLink_seg hfront hnf (fun a ha => hnull a (mem_append_left _ ha)) r
  · refine htail.congr fun a ha => setLink_links ?_
    exact ne_getLastD (hnull a (mem_append_right _ ha)) fun ha' => hdisj a ha' a ha rfl

/-- The header of the part that is split off, before the list is told. -/
def divide (s : State) (cur need : Nat) : State :=
  let mem := setSize s.mem (cur + need) ((s.mem cur).size - need)
  let mem := setNext mem (cur + need) (mem cur).next
  { s with mem := setNext (setSize mem cur need) cur 0 }

theorem divide_sizes (s : State) (cur need : Nat) :
    (s.divide cur need).sizes =
      Function.update (Function.update s.sizes (cur + need) (s.sizes cur - need)) cur need := by
  show (fun b => (setNext (setSize _ cur need) cur 0 b).size) = _
  rw [sizes_setNext, sizes_setSize, sizes_setNext, sizes_setSize]
  rfl

theorem divide_links (s : State) (cur need : Nat) :
    (s.divide cur need).links =
      Function.update (Function.update s.links (cur + need) (s.links cur)) cur 0 := by
  show (fun b => (setNext (setSize _ cur need) cur 0 b).next) = _
  rw [links_setNext, links_setSize, links_setNext, links_setSize, next_setSize]
  rfl

theorem take_eq (s : State) (need prev cur : Nat) :
    s.take need prev cur =
      if minBlock ≤ (s.mem cur).size - need then (s.divide cur need).pass prev cur (cur + need)
      else s.pass prev cur (s.links cur) :=
  rfl

/-- A block of the list is in use now, and the others are as they were. -/
theorem Inv.put_in_use {cur : Nat} {layout : Layout} {free' : List Nat} (h : Inv s free)
    (hlisted : Seg s'.links s'.head free' 0)
    (hcarved : Carved s.chunks s'.sizes (cur :: (s.live.map Live.block ++ free')))
    (hsize : ∀ x ∈ s.live, s'.sizes x.block = s.sizes x.block)
    (hneed : header + layout.size ≤ s'.sizes cur)
    (hchunks : s'.chunks = s.chunks) (pc : Pc) :
    Inv { s' with pc, live := ⟨cur + header, layout.size⟩ :: s.live } free' := by
  refine ⟨hlisted, ?_, ?_, ?_, ?_⟩
  · show Carved s'.chunks s'.sizes (cur :: (s.live.map Live.block ++ free'))
    rw [hchunks]
    exact hcarved
  · show ∀ c ∈ s'.chunks, 0 < c.base
    rw [hchunks]
    exact h.nonnull
  · intro x hx
    rcases mem_cons.mp hx with rfl | hx
    · rfl
    · exact h.behind x hx
  · intro x hx
    rcases mem_cons.mp hx with rfl | hx
    · exact hneed
    · exact Nat.le_trans (h.large x hx) (Nat.le_of_eq (hsize x hx).symm)

section Take

variable {cur : Nat} {layout : Layout}

theorem Inv.take_whole (h : Inv s (front ++ cur :: back)) (hfit : blockSize layout ≤ s.sizes cur)
    (pc : Pc) :
    Inv { s.pass (front.getLastD 0) cur (s.links cur) with
      pc, live := ⟨cur + header, layout.size⟩ :: s.live } (front ++ back) := by
  have hcarved := h.carved_taken
  have hcur := fun hmem => hcarved.head_not_mem (mem_append_right _ hmem)
  have hnodup := h.free_nodup.perm perm_middle
  have hnull : ∀ a ∈ front ++ back, a ≠ 0 := fun a ha =>
    h.free_ne_zero (perm_middle.mem_iff.mpr (mem_cons_of_mem _ ha))
  obtain ⟨q, hfront, -, hback⟩ := seg_append.mp h.listed
  refine h.put_in_use ?_ ?_ ?_ ?_ ?_ pc
  · exact pass_listed hfront hback (nodup_cons.mp hnodup).2 hnull hcur
  · rw [pass_sizes]
    exact hcarved
  · intro x _
    rw [pass_sizes]
  · rw [pass_sizes]
    exact Nat.le_trans (le_blockSize layout) hfit
  · exact congrArg Prod.snd (setLink_claims ..)

theorem Inv.take_part (h : Inv s (front ++ cur :: back))
    (hfit : minBlock ≤ s.sizes cur - blockSize layout) (pc : Pc) :
    Inv { (s.divide cur (blockSize layout)).pass (front.getLastD 0) cur (cur + blockSize layout) with
      pc, live := ⟨cur + header, layout.size⟩ :: s.live }
      (front ++ (cur + blockSize layout) :: back) := by
  have hneed := le_blockSize layout
  have hpos : 0 < blockSize layout := by
    simp only [header] at hneed
    omega
  have hlt : blockSize layout < s.sizes cur := by
    simp only [minBlock] at hfit
    omega
  have hcarved := h.carved_taken
  have hcarved' := hcarved.split (blockSize_mod layout) hpos hlt
  rw [← divide_sizes] at hcarved'
  -- the new block is none of the old ones
  have hcur := hcarved.head_not_mem
  have hrest : cur + blockSize layout ∉ s.live.map Live.block ++ (front ++ back) :=
    hcarved.not_mem_of_has (Nat.le_add_right _ _) (Nat.add_lt_add_left hlt cur)
  have hne : cur ≠ cur + blockSize layout := by omega
  have hkeep : ∀ a ∈ front ++ back, (s.divide cur (blockSize layout)).links a = s.links a := by
    intro a ha
    have ha := mem_append_right (s.live.map Live.block) ha
    rw [divide_links, update_of_ne (ne_of_mem_of_not_mem ha hcur),
      update_of_ne (ne_of_mem_of_not_mem ha hrest)]
  have hperm : (front ++ (cur + blockSize layout) :: back).Perm ((cur + blockSize layout) :: (front ++ back)) :=
    perm_middle
  have hnodup : (front ++ back).Nodup :=
    (nodup_cons.mp (perm_middle.nodup_iff.mp h.free_nodup)).2
  obtain ⟨q, hfront, rfl, hback⟩ := seg_append.mp h.listed
  refine h.put_in_use ?_ ?_ ?_ ?_ ?_ pc
  · refine pass_listed (hfront.congr fun a ha => hkeep a (mem_append_left _ ha)) ⟨rfl, ?_⟩ ?_ ?_ ?_
    · rw [divide_links, update_of_ne hne.symm, update_self, ← divide_links]
      exact hback.congr fun a ha => hkeep a (mem_append_right _ ha)
    · rw [hperm.nodup_iff, nodup_cons]
      exact ⟨fun hmem => hrest (mem_append_right _ hmem), hnodup⟩
    · intro a ha
      rcases mem_cons.mp (hperm.mem_iff.mp ha) with rfl | ha
      · omega
      · exact h.free_ne_zero (perm_middle.mem_iff.mpr (mem_cons_of_mem _ ha))
    · intro hmem
      rcases mem_cons.mp (hperm.mem_iff.mp hmem) with heq | hmem
      · exact hne heq
      · exact hcur (mem_append_right _ hmem)
  · rw [pass_sizes]
    exact hcarved'.perm ((perm_taken _ _ front back).symm.cons q)
  · intro x hx
    have hx := mem_append_left (front ++ back) (List.mem_map_of_mem (f := Live.block) hx)
    rw [pass_sizes, divide_sizes, update_of_ne (ne_of_mem_of_not_mem hx hcur),
      update_of_ne (ne_of_mem_of_not_mem hx hrest)]
  · rw [pass_sizes, divide_sizes, update_self]
    exact hneed
  · exact congrArg Prod.snd (setLink_claims ..)

end Take

/-! ### `free` -/

section Free

variable {x : Live} {L : List Nat} {cur : Nat}

theorem Inv.carved_released (h : Inv s free) (hx : x ∈ s.live) :
    Carved s.chunks s.sizes (x.block :: ((s.live.erase x).map Live.block ++ free)) :=
  h.carved.perm (((perm_cons_erase hx).map Live.block).append_right free)

/-- A block that was in use is on the list now. -/
theorem Inv.put_back {free' : List Nat} (h : Inv s free)
    (hlisted : Seg s'.links s'.head free' 0)
    (hcarved : Carved s.chunks s'.sizes ((s.live.erase x).map Live.block ++ free'))
    (hsize : ∀ y ∈ s.live.erase x, s'.sizes y.block = s.sizes y.block)
    (hchunks : s'.chunks = s.chunks) (hlive : s'.live = s.live.erase x) : Inv s' free' := by
  have hsub : ∀ y ∈ s'.live, y ∈ s.live.erase x := fun y hy => hlive ▸ hy
  refine ⟨hlisted, ?_, ?_, ?_, ?_⟩
  · rw [hchunks, blocks, hlive]
    exact hcarved
  · rw [hchunks]
    exact h.nonnull
  · exact fun y hy => h.behind y (mem_of_mem_erase (hsub y hy))
  · intro y hy
    rw [hsize y (hsub y hy)]
    exact h.large y (mem_of_mem_erase (hsub y hy))

theorem Inv.put_first (h : Inv s free) (hx : x ∈ s.live) :
    Inv { s with
      live := s.live.erase x, mem := setNext s.mem x.block s.head, head := x.block } (x.block :: free) := by
  have hcarved := h.carved_released hx
  have hblock : x.block ∉ free := fun hmem => hcarved.head_not_mem (mem_append_right _ hmem)
  have hsizes : (fun b => (setNext s.mem x.block s.head b).size) = s.sizes := sizes_setNext ..
  have hlinks : (fun b => (setNext s.mem x.block s.head b).next) = Function.update s.links x.block s.head :=
    links_setNext ..
  refine h.put_back ⟨rfl, ?_⟩ ?_ ?_ rfl rfl
  · show Seg (fun b => (setNext s.mem x.block s.head b).next) (setNext s.mem x.block s.head x.block).next free 0
    rw [hlinks, congrFun hlinks, update_self]
    exact h.listed.congr fun a ha => update_of_ne (ne_of_mem_of_not_mem ha hblock) ..
  · show Carved s.chunks (fun b => (setNext s.mem x.block s.head b).size) _
    rw [hsizes]
    exact hcarved.perm perm_middle.symm
  · exact fun y _ => congrFun hsizes y.block

/-- The links of `free`: `block` is between two blocks of the list. -/
def between (s : State) (block prev cur : Nat) : State :=
  { s with mem := setNext (setNext s.mem block cur) prev block }

theorem between_sizes (s : State) (block prev cur : Nat) : (s.between block prev cur).sizes = s.sizes := by
  show (fun b => (setNext _ prev block b).size) = _
  rw [sizes_setNext, sizes_setNext]
  rfl

theorem between_links (s : State) (block prev cur : Nat) :
    (s.between block prev cur).links = Function.update (Function.update s.links block cur) prev block := by
  show (fun b => (setNext _ prev block b).next) = _
  rw [links_setNext, links_setNext]
  rfl

theorem between_listed {block : Nat} (hseg : Seg s.links s.head (L ++ back) 0) (hne : L ≠ [])
    (hnodup : (L ++ back).Nodup) (hblock : block ∉ L ++ back) :
    Seg (s.between block (L.getLast hne) (back.headD 0)).links s.head (L ++ block :: back) 0 := by
  obtain ⟨hnL, -, hdisj⟩ := nodup_append.mp hnodup
  obtain ⟨hbL, hbb⟩ := not_or.mp (mt mem_append.mpr hblock)
  obtain ⟨q, hL, hback⟩ := seg_append.mp hseg
  have hlast := getLast_mem hne
  rw [between_links]
  refine seg_append.mpr ⟨block, ?_, rfl, ?_⟩
  · refine Seg.redirect (hL.congr fun a ha => ?_) hnL hne
    exact update_of_ne (ne_of_mem_of_not_mem ha hbL) ..
  · rw [update_of_ne (ne_of_mem_of_not_mem hlast hbL).symm, update_self, ← hback.start_eq]
    refine hback.congr fun a ha => ?_
    rw [update_of_ne (hdisj _ hlast a ha).symm, update_of_ne (ne_of_mem_of_not_mem ha hbb)]

/-- `block` has taken up the block behind it. -/
def joined (s : State) (block cur : Nat) : State :=
  { s with mem := setNext (setSize s.mem block ((s.mem block).size + (s.mem cur).size)) block (s.mem cur).next }

theorem joined_sizes (s : State) (block cur : Nat) :
    (s.joined block cur).sizes = Function.update s.sizes block (s.sizes block + s.sizes cur) := by
  show (fun b => (setNext _ block _ b).size) = _
  rw [sizes_setNext, sizes_setSize]
  rfl

theorem joined_links (s : State) (block cur : Nat) :
    (s.joined block cur).links = Function.update s.links block (s.links cur) := by
  show (fun b => (setNext _ block _ b).next) = _
  rw [links_setNext, links_setSize]
  rfl

theorem insert_eq (s : State) (block prev cur : Nat) :
    s.insert block prev cur =
      if cur ≠ 0 ∧ block + (s.between block prev cur).sizes block = cur then
        (s.between block prev cur).joined block cur
      else s.between block prev cur := by
  rw [insert]
  dsimp only
  split
  · next hc =>
      rw [next_setSize]
      exact (if_pos hc).symm
  · next hc => exact (if_neg hc).symm

theorem insert_live (s : State) (live : List Live) (block prev cur : Nat) :
    insert { s with live } block prev cur = { s.insert block prev cur with live } := by
  have hplain := insert_eq s block prev cur
  have hwith := insert_eq { s with live } block prev cur
  rw [between_sizes] at hplain hwith
  by_cases hjoin : cur ≠ 0 ∧ block + s.sizes block = cur
  · rw [hplain, if_pos hjoin]
    exact hwith.trans (if_pos hjoin)
  · rw [hplain, if_neg hjoin]
    exact hwith.trans (if_neg hjoin)

theorem Inv.put_between (h : Inv s (L ++ back)) (hx : x ∈ s.live) (hne : L ≠ []) :
    ∃ free', Inv { s.insert x.block (L.getLast hne) (back.headD 0) with live := s.live.erase x } free' := by
  have hcarved := h.carved_released hx
  have hblock : x.block ∉ L ++ back := fun hmem => hcarved.head_not_mem (mem_append_right _ hmem)
  have hlisted := between_listed h.listed hne h.free_nodup hblock
  rw [insert_eq, between_sizes]
  split
  · next hjoin =>
    obtain ⟨hcur, hjoin⟩ := hjoin
    cases back with
    | nil => exact absurd rfl hcur
    | cons cur back =>
      have hcur' : x.block + s.sizes x.block = cur := hjoin
      have hbL : x.block ∉ L := fun hmem => hblock (mem_append_left _ hmem)
      have hbb : x.block ∉ back := fun hmem => hblock (mem_append_right _ (mem_cons_of_mem _ hmem))
      have hbl : x.block ∉ (s.live.erase x).map Live.block :=
        fun hmem => hcarved.head_not_mem (mem_append_left _ hmem)
      have hjoined : Carved s.chunks (Function.update s.sizes x.block (s.sizes x.block + s.sizes cur))
          (x.block :: ((s.live.erase x).map Live.block ++ (L ++ back))) := by
        rw [← hcur']
        refine Carved.join ?_
        rw [hcur']
        exact hcarved.perm ((perm_taken _ cur L back).cons _)
      refine ⟨L ++ x.block :: back, ?_⟩
      show Inv { (s.between x.block (L.getLast hne) cur).joined x.block cur with live := s.live.erase x } _
      refine h.put_back ?_ ?_ ?_ rfl rfl
      · show Seg ((s.between x.block (L.getLast hne) cur).joined x.block cur).links s.head _ 0
        rw [joined_links]
        obtain ⟨q, hL, rfl, hb⟩ := seg_append.mp hlisted
        obtain ⟨-, hb⟩ := hb
        refine seg_append.mpr ⟨x.block, hL.congr fun a ha => ?_, rfl, ?_⟩
        · exact update_of_ne (ne_of_mem_of_not_mem ha hbL) ..
        · rw [update_self]
          exact hb.congr fun a ha => update_of_ne (ne_of_mem_of_not_mem ha hbb) ..
      · show Carved s.chunks ((s.between x.block (L.getLast hne) cur).joined x.block cur).sizes _
        rw [joined_sizes, between_sizes]
        exact hjoined.perm (perm_taken _ x.block L back).symm
      · intro y hy
        show ((s.between x.block (L.getLast hne) cur).joined x.block cur).sizes y.block = _
        rw [joined_sizes, between_sizes]
        exact update_of_ne (ne_of_mem_of_not_mem (List.mem_map_of_mem (f := Live.block) hy) hbl) ..
  · refine ⟨L ++ x.block :: back, h.put_back ?_ ?_ ?_ rfl rfl⟩
    · exact hlisted
    · show Carved s.chunks (s.between _ _ _).sizes _
      rw [between_sizes]
      exact hcarved.perm (perm_taken _ x.block L back).symm
    · intro y _
      show (s.between _ _ _).sizes y.block = _
      rw [between_sizes]

end Free

/-! ### Steps -/

/-- Frames from the kernel. -/
theorem Inv.claim {base n pages : Nat} {pc : Pc} (h : Inv s free) (hfresh : s.Fresh base n) (hn : 0 < n) :
    Inv { s.claim base n s.head with pages, pc } (base :: free) := by
  obtain ⟨hpage, hnull, hapart⟩ := hfresh
  have hpos : 0 < n * page := Nat.mul_pos hn (by decide)
  have hmod : base % header = 0 := by
    simp only [page, header] at hpage ⊢
    omega
  have hmod' : n * page % header = 0 := by
    simp only [page, header]
    omega
  have hsizes : (s.claim base n s.head).sizes = Function.update s.sizes base (n * page) := by
    show (fun b => (setNext _ base s.head b).size) = _
    rw [sizes_setNext, sizes_setSize]
    rfl
  have hlinks : (s.claim base n s.head).links = Function.update s.links base s.head := by
    show (fun b => (setNext _ base s.head b).next) = _
    rw [links_setNext, links_setSize]
    rfl
  have hbase : base ∉ s.blocks free := h.carved.not_mem_of_apart hpos hapart
  refine ⟨⟨rfl, ?_⟩, ?_, ?_, h.behind, ?_⟩
  · show Seg (s.claim base n s.head).links ((s.claim base n s.head).links base) free 0
    rw [hlinks, update_self]
    refine h.listed.congr fun a ha => ?_
    exact update_of_ne (ne_of_mem_of_not_mem (mem_append_right _ ha) hbase) ..
  · show Carved (⟨base, n * page⟩ :: s.chunks) (s.claim base n s.head).sizes _
    rw [hsizes]
    exact (h.carved.add hmod hmod' hpos hapart).perm perm_middle.symm
  · intro c hc
    rcases mem_cons.mp hc with rfl | hc
    · exact Nat.pos_of_ne_zero hnull
    · exact h.nonnull c hc
  · intro x hx
    have hmem := mem_append_left free (List.mem_map_of_mem (f := Live.block) hx)
    show header + x.size ≤ (s.claim base n s.head).sizes x.block
    rw [hsizes, update_of_ne (ne_of_mem_of_not_mem hmem hbase)]
    exact h.large x hx

theorem answer_cases {layout : Layout} {base n pages a : Nat} (h : s.answer layout base n pages a = some s') :
    s' = { s with pc := .idle } ∨
      s.Fresh base n ∧ s' = { s.claim base n a with pages, pc := .searching layout } := by
  rw [answer] at h
  split at h
  · cases h
    exact .inl rfl
  · obtain ⟨hfresh, ⟨⟩⟩ := ite_none_right_eq_some.mp h
    exact .inr ⟨hfresh, rfl⟩

theorem Inv.answer {layout : Layout} {base n pages : Nat} (h : Inv s free) (hn : 0 < n)
    (hans : s.answer layout base n pages s.head = some s') : ∃ free', Inv s' free' := by
  rcases answer_cases hans with rfl | ⟨hfresh, rfl⟩
  · exact ⟨free, { h with }⟩
  · exact ⟨base :: free, h.claim hfresh hn⟩

theorem Inv.found {layout : Layout} {links : Nat} {r : Option (Nat × Nat)} (h : Inv s free)
    (hr : findFit s.mem (blockSize layout) links 0 s.head = some r) : ∃ free', Inv (s.found layout r) free' := by
  cases r with
  | none => exact ⟨free, { h with }⟩
  | some r =>
    obtain ⟨prev, cur⟩ := r
    obtain ⟨front, back, rfl, rfl, hfit⟩ := findFit_found h.listed hr
    rw [State.found, take_eq]
    split
    · next hpart => exact ⟨_, h.take_part hpart .idle⟩
    · exact ⟨_, h.take_whole hfit .idle⟩

theorem Inv.released {x : Live} {links : Nat} (h : Inv s free) (hx : x ∈ s.live)
    (hfree : State.free { s with live := s.live.erase x } x.block links = some s') :
    ∃ free', Inv s' free' := by
  rw [State.free] at hfree
  split at hfree
  · cases hfree
    exact ⟨_, h.put_first hx⟩
  · next hhead =>
    obtain ⟨⟨prev, cur⟩, hplace, rfl⟩ := map_eq_some_iff.mp hfree
    have hhead : s.head ≠ 0 := fun h0 => hhead (.inl h0)
    cases free with
    | nil => exact absurd h.listed hhead
    | cons a t =>
      obtain ⟨rfl, ht⟩ := h.listed
      obtain ⟨front, back, rfl, rfl, rfl⟩ := findPlace_found ht hplace
      have hne := cons_ne_nil s.head front
      have hlast : front.getLastD s.head = (s.head :: front).getLast hne :=
        (getLast_eq_getLastD hne).symm
      rw [insert_live, hlast]
      exact Inv.put_between (L := s.head :: front) h hx hne

/-- Memory of others is neither the size of a block nor the link of a free one. -/
theorem Inv.write {a : Nat} (h : Inv s free) (hforeign : s.Foreign a) (value : Block) :
    Inv { s with mem := Function.update s.mem a value } free := by
  have hnot : a ∉ s.blocks free := by
    rcases hforeign with ⟨x, hx, hlo, hhi⟩ | hout
    · intro hmem
      have hblock : x.block ∈ s.blocks free := mem_append_left _ (List.mem_map_of_mem hx)
      rw [h.behind x hx] at hlo
      have hne : a ≠ x.block := by
        simp only [header] at hlo
        omega
      obtain ⟨l, r, hlr⟩ := append_of_mem hblock
      have hcarved := h.carved
      rw [hlr] at hcarved hmem
      refine (hcarved.perm perm_middle).not_mem_of_has (Nat.le_trans (Nat.le_add_right _ _) hlo) hhi ?_
      rcases mem_cons.mp (perm_middle.mem_iff.mp hmem) with heq | hmem
      · exact absurd heq hne
      · exact hmem
    · intro hmem
      obtain ⟨c, hc, hhas⟩ := h.carved.has_chunk hmem
      exact hout c hc hhas
  have hkeep : ∀ b ∈ s.blocks free, Function.update s.mem a value b = s.mem b :=
    fun b hb => update_of_ne (ne_of_mem_of_not_mem hb hnot) ..
  refine h.of_same (fun b hb => ?_) (fun b hb => ?_) rfl rfl rfl
  · exact congrArg Block.size (hkeep b hb)
  · exact congrArg Block.next (hkeep b (mem_append_right _ hb))

/-- What the steps do. -/
inductive Effect (s : State) (e : Event) : State → Prop
  | asked {layout : Layout} : s.head ≠ 0 → Effect s e { s with pc := .searching layout }
  | askedFirst {layout : Layout} : e = .alloc layout → s.head = 0 → Effect s e { s with pc := .ensuring layout }
  | ensured {layout : Layout} {base : Nat} {s' : State} : s.pc = .ensuring layout →
      s.answer layout base initialPages initialPages 0 = some s' → Effect s e s'
  | grown {layout : Layout} {base n : Nat} {s' : State} : s.pc = .growing layout →
      n = min (maxPages - s.pages) growPages → s.answer layout base n (s.pages + n) s.head = some s' → Effect s e s'
  | found {layout : Layout} {links : Nat} {r : Option (Nat × Nat)} :
      findFit s.mem (blockSize layout) links 0 s.head = some r → Effect s e (s.found layout r)
  | freed {x : Live} {links : Nat} {s' : State} : s.pc = .idle → x ∈ s.live →
      State.free { s with live := s.live.erase x } x.block links = some s' → Effect s e s'
  | written {a : Nat} {value : Block} : s.pc = .idle → s.Foreign a →
      Effect s e { s with mem := Function.update s.mem a value }

theorem effect {e : Event} (h : s.Step e s') : s.Effect e s' := by
  cases h with
  | write hpc _ hforeign => exact .written hpc hforeign
  | call h =>
    cases e with
    | alloc layout =>
      obtain ⟨-, ⟨⟩⟩ := ite_none_right_eq_some.mp h
      by_cases hhead : s.head ≠ 0
      · rw [if_pos hhead]
        exact .asked hhead
      · rw [if_neg hhead]
        exact .askedFirst rfl (not_not.mp hhead)
    | frames base =>
      rw [next] at h
      split at h
      · next hpc => exact .ensured hpc h
      · next hpc => exact .grown hpc rfl h
      · cases h
    | search links =>
      rw [next] at h
      split at h
      · obtain ⟨r, hr, rfl⟩ := map_eq_some_iff.mp h
        exact .found hr
      · cases h
    | free ptr links =>
      rw [next] at h
      split at h
      · next x hpc hfind =>
          have hptr := find?_some hfind
          obtain rfl : x.ptr = ptr := of_decide_eq_true hptr
          exact .freed hpc (mem_of_find?_eq_some hfind) h
      · cases h
    | write a value => cases h

/-- What `alloc` has found out by the time it asks for frames. -/
def Ready (s : State) : Prop :=
  match s.pc with
  | .ensuring _ => s.head = 0
  | .growing _ => s.pages < maxPages
  | _ => True

theorem ready_idle (h : s.pc = .idle) : s.Ready := by
  rw [Ready, h]
  trivial

theorem ready_found (layout : Layout) (r : Option (Nat × Nat)) : (s.found layout r).Ready := by
  cases r with
  | none =>
    rw [found]
    by_cases hpages : maxPages ≤ s.pages
    · rw [if_pos hpages]
      trivial
    · rw [if_neg hpages]
      exact Nat.not_le.mp hpages
  | some r => trivial

theorem free_keeps {block links : Nat} (h : s.free block links = some s') :
    s'.pc = s.pc ∧ s'.claims = s.claims := by
  rw [State.free] at h
  split at h
  · cases h
    exact ⟨rfl, rfl⟩
  · obtain ⟨place, -, rfl⟩ := map_eq_some_iff.mp h
    rw [insert_eq]
    split
    · exact ⟨rfl, rfl⟩
    · exact ⟨rfl, rfl⟩

theorem Ready.step {e : Event} (h : s.Effect e s') : s'.Ready := by
  cases h with
  | asked _ => trivial
  | askedFirst _ hhead => exact hhead
  | ensured _ h | grown _ _ h => rcases answer_cases h with rfl | ⟨-, rfl⟩ <;> trivial
  | found _ => exact ready_found _ _
  | freed hpc _ h => exact ready_idle ((free_keeps h).1.trans hpc)
  | written hpc _ => exact ready_idle hpc

theorem Inv.step {e : Event} (h : Inv s free) (hready : s.Ready) (heffect : s.Effect e s') :
    ∃ free', Inv s' free' := by
  cases heffect with
  | asked _ | askedFirst _ _ => exact ⟨free, { h with }⟩
  | ensured hpc hans =>
    have hhead : s.head = 0 := by
      rw [Ready, hpc] at hready
      exact hready
    rw [← hhead] at hans
    exact h.answer (by decide) hans
  | grown hpc hn hans =>
    have hpages : s.pages < maxPages := by
      rw [Ready, hpc] at hready
      exact hready
    exact h.answer (by rw [hn]; exact Nat.lt_min.mpr ⟨Nat.sub_pos_of_lt hpages, by decide⟩) hans
  | found hr => exact h.found hr
  | freed _ hx hfree => exact h.released hx hfree
  | written _ hforeign => exact ⟨free, h.write hforeign _⟩

/-- Every walk ends: the list has an end, and the walk stops there at the latest. -/
theorem Inv.answers (h : Inv s free) : s.Answers := by
  refine ⟨fun layout hpc => ?_, fun x hx hpc => ?_⟩
  · obtain ⟨r, hr⟩ := findFit_total h.listed (blockSize layout) 0
    refine ⟨free.length + 1, s.found layout r, .call ?_⟩
    rw [next, hpc]
    dsimp only
    exact congrArg (Option.map _) hr
  · obtain ⟨y, hy⟩ : ∃ y, s.live.find? (·.ptr = x.ptr) = some y := by
      refine isSome_iff_exists.mp (find?_isSome.mpr ⟨x, hx, ?_⟩)
      exact decide_eq_true rfl
    have hwalk : ∃ s', State.free { s with live := s.live.erase y } (x.ptr - header) free.length = some s' := by
      rw [State.free]
      split
      · exact ⟨_, rfl⟩
      · next hhead =>
        cases free with
        | nil => exact absurd h.listed fun h0 => hhead (.inl h0)
        | cons a t =>
          obtain ⟨rfl, ht⟩ := h.listed
          obtain ⟨place, hplace⟩ := findPlace_total ht (x.ptr - header) s.head
          exact ⟨_, congrArg (Option.map _) hplace⟩
    obtain ⟨s', hs'⟩ := hwalk
    refine ⟨free.length, s', .call ?_⟩
    rw [next, hy]
    split
    · next heq =>
        cases heq
        exact hs'
    · next hno => exact absurd rfl (hno y hpc)

theorem inv_start (mem : Mem) : Inv (start mem) [] where
  listed := rfl
  carved := ⟨carves_nil, fun _ h => nomatch h⟩
  nonnull _ h := nomatch h
  behind _ h := nomatch h
  large _ h := nomatch h

/-- Whatever is allocated and freed, wherever the kernel's frames come from and whatever is
written to payloads: the blocks in use and those of the free list are apart, inside of the
claimed chunks and make up all of them, payloads are aligned and large enough; and no walk
over the list goes on forever. -/
theorem heap_safe (mem : Mem) (es : List Event) (s : State) (h : LTS.Run Step (start mem) es s) :
    (∃ free, Safe s free) ∧ s.Answers := by
  have hkeep : ∀ s e s', (s.Ready ∧ ∃ free, Inv s free) → Step s e s' → s'.Ready ∧ ∃ free, Inv s' free := by
    rintro s e s' ⟨hready, free, hinv⟩ hstep
    exact ⟨.step (effect hstep), hinv.step hready (effect hstep)⟩
  obtain ⟨-, free, hinv⟩ := h.invariant hkeep ⟨trivial, [], inv_start mem⟩
  exact ⟨⟨free, hinv.safe⟩, hinv.answers⟩

/-- Two allocations, the first one freed, and a third that takes its place. -/
def fewCalls : List Event :=
  [.alloc ⟨24, 8⟩, .frames 0x40200000, .search 9, .alloc ⟨100, 16⟩, .search 9, .free 0x40200010 9,
    .alloc ⟨8, 8⟩, .search 9]

theorem heap_safe_fewCalls :
    ∃ s, LTS.Run Step (start fun _ => ⟨0, 0⟩) fewCalls s ∧ s.live.map Live.ptr = [0x40200010, 0x40200040] ∧
      (∃ free, Safe s free) ∧ s.Answers := by
  refine LTS.Run.exists_and (LTS.Run.exists_of_exec next Step.call _ _
    (·.live.map Live.ptr = [0x40200010, 0x40200040]) (by decide +kernel)) ?_
  intro s hrun hs
  exact ⟨hs, heap_safe _ fewCalls s hrun⟩

/-! ## The cap -/

/-- `alloc` finds an empty list only in a heap that has claimed nothing yet. -/
def NeverUsedUp (s : State) : Event → Prop
  | .alloc _ => s.head = 0 → s.pages = 0
  | _ => True

instance (s : State) (e : Event) : Decidable (s.NeverUsedUp e) :=
  match e with
  | .alloc _ => inferInstanceAs (Decidable (_ → _))
  | .frames _ | .search _ | .free _ _ | .write _ _ => isTrue trivial

/-- The heap counts its frames right, and `ensure` asks for the first ones only. -/
structure Counted (s : State) : Prop where
  sum : total s.chunks = s.pages * page
  cap : s.pages ≤ maxPages
  first : ∀ layout, s.pc = .ensuring layout → s.pages = 0

theorem Counted.same (h : Counted s) (hclaims : s'.claims = s.claims)
    (hpc : ∀ layout, s'.pc ≠ .ensuring layout) : Counted s' := by
  obtain ⟨hpages, hchunks⟩ := Prod.mk.inj hclaims
  refine ⟨?_, ?_, fun layout h => absurd h (hpc layout)⟩
  · rw [hchunks, hpages]
    exact h.sum
  · rw [hpages]
    exact h.cap

theorem Counted.answer {layout : Layout} {base n pages a : Nat} (h : Counted s) (hpages : pages = n + s.pages)
    (hcap : pages ≤ maxPages) (hans : s.answer layout base n pages a = some s') : Counted s' := by
  rcases answer_cases hans with rfl | ⟨-, rfl⟩
  · exact h.same rfl fun _ => nofun
  · refine ⟨?_, hcap, fun _ => nofun⟩
    show n * page + total s.chunks = pages * page
    rw [h.sum, ← Nat.add_mul, hpages]

theorem found_claims (layout : Layout) (r : Option (Nat × Nat)) : (s.found layout r).claims = s.claims := by
  cases r with
  | none => rfl
  | some r =>
    show (s.take _ _ _).claims = s.claims
    rw [take_eq]
    split
    · exact setLink_claims ..
    · exact setLink_claims ..

theorem found_pc {layout layout' : Layout} {r : Option (Nat × Nat)} :
    (s.found layout r).pc ≠ .ensuring layout' := by
  cases r with
  | none =>
    rw [found]
    split
    · nofun
    · nofun
  | some r => nofun

theorem Counted.step {e : Event} (h : Counted s) (hguard : s.NeverUsedUp e) (hstep : s.Step e s') :
    Counted s' := by
  have hcap := h.cap
  cases effect hstep with
  | asked _ => exact h.same rfl fun _ => nofun
  | askedFirst he hhead =>
    subst he
    exact { h with first := fun _ _ => hguard hhead }
  | ensured hpc hans => exact h.answer (by rw [h.first _ hpc]) (by decide) hans
  | grown _ hn hans => exact h.answer (Nat.add_comm ..) (by omega) hans
  | found _ => exact h.same (found_claims _ _) fun _ => found_pc
  | freed hpc _ hfree =>
    obtain ⟨hpc', hclaims⟩ := free_keeps hfree
    exact h.same hclaims fun _ h' => nomatch (hpc'.trans hpc).symm.trans h'
  | written hpc _ => exact h.same rfl fun _ hpc' => nomatch hpc.symm.trans hpc'

/-- The kernel is never asked for more than the cap by a heap whose free list does not run
empty between calls. -/
theorem claimed_le_cap (mem : Mem) (es : List Event) (s : State)
    (h : LTS.Run (LTS.guarded Step NeverUsedUp) (start mem) es s) : total s.chunks ≤ maxPages * page := by
  have hstart : Counted (start mem) := ⟨(Nat.zero_mul page).symm, Nat.zero_le _, fun _ => nofun⟩
  obtain ⟨hsum, hcap, -⟩ := h.invariant_guarded (I := Counted) (fun _ _ _ => Counted.step) hstart
  rw [hsum]
  exact Nat.mul_le_mul_right page hcap

theorem claimed_le_cap_fewCalls :
    ∃ s, LTS.Run (LTS.guarded Step NeverUsedUp) (start fun _ => ⟨0, 0⟩) fewCalls s ∧ s.pages = 16 ∧
      total s.chunks ≤ maxPages * page := by
  refine LTS.Run.exists_and (LTS.Run.exists_of_guarded next NeverUsedUp Step.call _ _ (·.pages = 16) (by decide +kernel)) ?_
  intro s hrun hs
  exact ⟨hs, claimed_le_cap _ fewCalls s hrun⟩

/-- Each block takes a whole chunk, so that the list is empty again and `ensure` sets the count
back. -/
theorem cap_forgotten :
    ¬ ∀ (mem : Mem) (es : List Event) (s : State),
      LTS.Run Step (start mem) es s → total s.chunks ≤ maxPages * page := by
  intro hall
  obtain ⟨s, hrun, hs⟩ := LTS.Run.exists_of_exec next Step.call (start fun _ => ⟨0, 0⟩)
    ((List.range 17).flatMap fun i => [.alloc ⟨0xFFF0, 16⟩, .frames ((i + 1) * 0x10000), .search 2])
    (fun s => ¬ total s.chunks ≤ maxPages * page) (by decide +kernel)
  exact hs (hall _ _ s hrun)

end State

end Tanix.Sys
