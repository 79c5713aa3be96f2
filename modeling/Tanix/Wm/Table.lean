/-
# `Tanix.Wm.Table` — the window table

The table of `wm/src/main.rs`: eight slots, in Z-order, later slots on top.  Slots that hold no
window have the id 0.  `raise` and the loop of `serve_close` shift windows down one slot.

`Arranged ws live` says that the windows of the table are `live`, bottom to top, and that they
fill its first slots.  On such a table

    raise   front ++ w :: back   becomes   front ++ back ++ [w]
    remove  front ++ w :: back   becomes   front ++ back
    add     live                 becomes   live ++ [w]
-/
import Mathlib.Algebra.Group.Int.Defs
import Mathlib.Algebra.Group.Nat.Defs
import Mathlib.Data.List.Nodup
import Mathlib.Data.List.Induction

namespace Tanix.Wm

open List

/-- `TITLE_H` -/
abbrev titleH : Nat := 16

/-- `BORDER` -/
abbrev border : Nat := 1

/-- `MAX_WINDOWS` -/
abbrev maxWindows : Nat := 8

structure Window where
  id : Nat
  app : Nat
  x : Nat
  y : Nat
  w : Nat
  h : Nat
  canvas : Nat
  title : List UInt8
  dirty : Bool
  deriving DecidableEq, Repr

def Window.empty : Window :=
  ⟨0, 0, 0, 0, 0, 0, 0, [], false⟩

/-! ## Frames -/

/-- `as i32` -/
def asI32 (n : Nat) : Int :=
  if n < 2 ^ 31 then n else n - 2 ^ 32

/-- `as u32` -/
def asU32 (i : Int) : Nat :=
  (i % 2 ^ 32).toNat

structure Box where
  x : Int
  y : Int
  w : Int
  h : Int
  deriving DecidableEq, Repr

variable (w : Window)

/-- Bounding box of a window including its chrome. -/
def Window.bbox : Box :=
  ⟨asI32 w.x - border, asI32 w.y - titleH - border, w.w + 2 * border, w.h + titleH + 2 * border⟩

variable (px py : Nat)

/-- The test of `hit_window`. -/
def Window.Hit : Prop :=
  w.id ≠ 0 ∧ asU32 w.bbox.x ≤ px ∧ px < asU32 (w.bbox.x + w.bbox.w) ∧
    asU32 w.bbox.y ≤ py ∧ py < asU32 (w.bbox.y + w.bbox.h)

instance : Decidable (w.Hit px py) :=
  inferInstanceAs (Decidable (_ ∧ _))

/-- The point is in the frame of the window, border and title bar included. -/
def Window.Frame : Prop :=
  w.x ≤ px + border ∧ px < w.x + w.w + border ∧ w.y ≤ py + titleH + border ∧ py < w.y + w.h + border

instance : Decidable (w.Frame px py) :=
  inferInstanceAs (Decidable (_ ∧ _))

/-- The frame has no negative corner. -/
def Window.Placed : Prop :=
  border ≤ w.x ∧ titleH + border ≤ w.y ∧ w.x + w.w + border < 2 ^ 31 ∧ w.y + w.h + border < 2 ^ 31

instance : Decidable w.Placed :=
  inferInstanceAs (Decidable (_ ∧ _))

theorem Window.Placed.hit_iff {w : Window} (h : w.Placed) (px py : Nat) :
    w.Hit px py ↔ w.id ≠ 0 ∧ w.Frame px py := by
  obtain ⟨hx, hy, hr, hb⟩ := h
  simp only [titleH, border] at hx hy hr hb
  have hix : asI32 w.x = w.x := if_pos (by omega)
  have hiy : asI32 w.y = w.y := if_pos (by omega)
  simp only [Window.Hit, Window.Frame, Window.bbox, hix, hiy, asU32, titleH, border]
  omega

/-- Is the point on the window's title bar? -/
def Window.OnTitle : Prop :=
  w.x ≤ px ∧ px < w.x + w.w ∧ w.y - titleH ≤ py ∧ py < w.y

instance : Decidable (w.OnTitle px py) :=
  inferInstanceAs (Decidable (_ ∧ _))

/-! ## Slots -/

variable (ws : List Window)

variable (slot : Nat)

/-- The window in a slot. -/
def at? : Window :=
  ws.getD slot .empty

def liveCount : Nat :=
  (ws.filter (·.id ≠ 0)).length

def findSlot (id : Nat) : Option Nat :=
  ws.findIdx? (·.id = id)

/-- Topmost window under the screen point. -/
def hitWindow (px py : Nat) : Option Nat :=
  (ws.zipIdx.reverse.find? (·.1.Hit px py)).map (·.2)

def markAllDirty : List Window :=
  ws.map fun w => if w.id ≠ 0 then { w with dirty := true } else w

/-- Move a window's content area, clamping it onto a desktop of `sw` by `sh`. -/
def clampMove (sw sh slot nx ny : Nat) : List Window :=
  let w := at? ws slot
  ws.set slot { w with
    x := min nx (sw - (w.w + 2 * border)), y := min ny (sh - (w.h + titleH + 2 * border)) }

/-- `for i in a..b { ws[i] = ws[i + 1] }` -/
def shiftDown (a b : Nat) : List Window :=
  (List.range' a (b - a)).foldl (fun ws i => ws.set i (at? ws (i + 1))) ws

def raise : List Window :=
  let n := liveCount ws
  if n ≤ 1 ∨ slot = n - 1 then ws
  else (shiftDown ws slot (n - 1)).set (n - 1) (at? ws slot)

/-- What `serve_close` does to the table. -/
def remove : List Window :=
  let n := liveCount ws
  (shiftDown (ws.set slot .empty) slot (n - 1)).set (n - 1) .empty

/-! ## Arranged tables -/

structure Arranged (ws live : List Window) : Prop where
  slots : ∃ dead, ws = live ++ dead ∧ ∀ w ∈ dead, w.id = 0
  named : ∀ w ∈ live, w.id ≠ 0
  once : (live.map Window.id).Nodup

theorem at?_append (front back : List Window) (w : Window) : at? (front ++ w :: back) front.length = w := by
  rw [at?, getD_eq_getElem?_getD, getElem?_append_right (Nat.le_refl _), Nat.sub_self]
  rfl

/-- The loop of `raise` and `serve_close`, on a part of the table. -/
theorem shiftDown_append (front back rest : List Window) (w : Window) :
    shiftDown (front ++ w :: (back ++ rest)) front.length (front.length + back.length) =
      front ++ back ++ (w :: back).getLast (cons_ne_nil w back) :: rest := by
  rw [shiftDown, Nat.add_sub_cancel_left]
  induction back generalizing front w with
  | nil =>
    rw [append_nil]
    rfl
  | cons v back ih =>
    have hat : at? (front ++ w :: v :: (back ++ rest)) (front.length + 1) = v := by
      have := at?_append (front ++ [w]) (back ++ rest) v
      rwa [length_append, length_singleton, append_assoc] at this
    have hset : (front ++ w :: v :: (back ++ rest)).set front.length v =
        (front ++ [v]) ++ v :: (back ++ rest) := by
      rw [set_append_right _ _ (Nat.le_refl _), Nat.sub_self, append_assoc]
      rfl
    rw [length_cons, range'_succ, foldl_cons, cons_append, hat, hset]
    have := ih (front ++ [v]) v
    rw [length_append, length_singleton] at this
    rw [this, append_assoc front [v] back]
    rfl

theorem sublist_without (front back : List Window) (w : Window) :
    (front ++ back).Sublist (front ++ w :: back) :=
  List.Sublist.append_left (sublist_cons_self w back) front

/-! ## The topmost window -/

section Topmost

variable {ws front back : List Window} {w : Window} {px py i : Nat}

theorem hitWindow_concat (ws : List Window) (w : Window) (px py : Nat) :
    hitWindow (ws ++ [w]) px py = if w.Hit px py then some ws.length else hitWindow ws px py := by
  rw [hitWindow, zipIdx_append, reverse_append]
  show (List.find? _ ((w, 0 + ws.length) :: ws.zipIdx.reverse)).map _ = _
  rw [find?_cons, Nat.zero_add]
  by_cases h : w.Hit px py
  · rw [decide_eq_true h, if_pos h]
    rfl
  · rw [decide_eq_false h, if_neg h]
    rfl

theorem hitWindow_append (hback : ∀ v ∈ back, ¬ v.Hit px py) :
    hitWindow (ws ++ back) px py = hitWindow ws px py := by
  induction back using List.reverseRecOn with
  | nil => rw [append_nil]
  | append_singleton back v ih =>
    have hv := hback v (mem_append_right _ (mem_singleton_self v))
    rw [← append_assoc, hitWindow_concat, if_neg hv]
    exact ih fun u hu => hback u (mem_append_left _ hu)

theorem hitWindow_split (h : hitWindow ws px py = some i) :
    ∃ front w back, ws = front ++ w :: back ∧ i = front.length ∧ w.Hit px py ∧ ∀ v ∈ back, ¬ v.Hit px py := by
  induction ws using List.reverseRecOn with
  | nil => cases h
  | append_singleton ws v ih =>
    rw [hitWindow_concat] at h
    split at h
    · next hv =>
        cases h
        exact ⟨ws, v, [], rfl, rfl, hv, fun u hu => nomatch hu⟩
    · next hv =>
        obtain ⟨front, w, back, rfl, rfl, hw, hback⟩ := ih h
        refine ⟨front, w, back ++ [v], ?_, rfl, hw, ?_⟩
        · rw [append_assoc, cons_append]
        · intro u hu
          rcases mem_append.mp hu with hu | hu
          · exact hback u hu
          · rw [mem_singleton.mp hu]
            exact hv

/-- The slot that is hit is the last one of those that a point is in. -/
theorem hitWindow_iff : hitWindow ws px py = some i ↔
    ∃ w, ws[i]? = some w ∧ w.Hit px py ∧ ∀ j v, i < j → ws[j]? = some v → ¬ v.Hit px py := by
  constructor
  · intro h
    obtain ⟨front, w, back, rfl, rfl, hw, hback⟩ := hitWindow_split h
    refine ⟨w, ?_, hw, fun j v hj hv => hback v ?_⟩
    · rw [getElem?_append_right (Nat.le_refl _), Nat.sub_self]
      rfl
    · rw [getElem?_append_right (Nat.le_of_lt hj)] at hv
      obtain ⟨k, hk⟩ : ∃ k, j - front.length = k + 1 := ⟨j - front.length - 1, by omega⟩
      rw [hk, getElem?_cons_succ] at hv
      exact mem_of_getElem? hv
  · rintro ⟨w, hw, hhit, hback⟩
    obtain ⟨hlt, rfl⟩ := List.getElem?_eq_some_iff.mp hw
    have hsplit : ws = ws.take i ++ ws[i] :: ws.drop (i + 1) := by
      rw [← drop_eq_getElem_cons hlt, take_append_drop]
    have hlen : (ws.take i).length = i := by
      rw [length_take, Nat.min_eq_left (Nat.le_of_lt hlt)]
    have heq : hitWindow (ws.take i ++ ws[i] :: ws.drop (i + 1)) px py = some (ws.take i).length := by
      rw [append_cons, hitWindow_append, hitWindow_concat, if_pos hhit]
      intro v hv
      obtain ⟨k, hk⟩ := mem_iff_getElem?.mp hv
      rw [getElem?_drop] at hk
      exact hback _ v (by omega) hk
    rw [← hsplit, hlen] at heq
    exact heq

end Topmost

variable {slot}

namespace Arranged

variable {ws live front back : List Window} {w : Window} {id : Nat}

theorem liveCount_eq (h : Arranged ws live) : liveCount ws = live.length := by
  obtain ⟨dead, rfl, hdead⟩ := h.slots
  have hlive : live.filter (·.id ≠ 0) = live :=
    filter_eq_self.mpr fun w hw => decide_eq_true (h.named w hw)
  have hnone : dead.filter (·.id ≠ 0) = [] :=
    filter_eq_nil_iff.mpr fun w hw => by simp [hdead w hw]
  rw [liveCount, filter_append, hlive, hnone, append_nil]

theorem at?_eq (h : Arranged ws (front ++ w :: back)) : at? ws front.length = w := by
  obtain ⟨dead, rfl, -⟩ := h.slots
  rw [append_assoc]
  exact at?_append front (back ++ dead) w

section

variable (h : Arranged ws live)

include h

theorem at?_of_getElem? {i : Nat} (hi : live[i]? = some w) : at? ws i = w := by
  obtain ⟨dead, rfl, -⟩ := h.slots
  rw [at?, getD_eq_getElem?_getD, getElem?_append_left (List.getElem?_eq_some_iff.mp hi).1, hi]
  rfl

theorem subset : live ⊆ ws := by
  obtain ⟨dead, rfl, -⟩ := h.slots
  exact subset_append_left live dead

/-- There is one slot with an id. -/
theorem slot_eq {v : Window} {i j : Nat} (hi : live[i]? = some w) (hj : live[j]? = some v)
    (hid : w.id = v.id) : i = j := by
  have hlt : i < (live.map Window.id).length := by
    rw [length_map]
    exact (List.getElem?_eq_some_iff.mp hi).1
  refine (getElem?_inj hlt h.once).mp ?_
  rw [getElem?_map, getElem?_map, hi, hj, Option.map_some, Option.map_some, hid]

/-- Slots without a window are never hit. -/
theorem hitWindow_live (px py : Nat) : hitWindow ws px py = hitWindow live px py := by
  obtain ⟨dead, rfl, hdead⟩ := h.slots
  exact hitWindow_append fun v hv hhit => hhit.1 (hdead v hv)

theorem mem_live (hw : w ∈ ws) (hid : w.id ≠ 0) : w ∈ live := by
  obtain ⟨dead, rfl, hdead⟩ := h.slots
  rcases mem_append.mp hw with hw | hw
  · exact hw
  · exact absurd (hdead w hw) hid

theorem eq_of_id {v : Window} (hw : w ∈ live) (hv : v ∈ live) (hid : w.id = v.id) : w = v :=
  inj_on_of_nodup_map h.once hw hv hid

/-- The slot of a window, and the windows below and above it. -/
theorem findSlot_split (hid : id ≠ 0) (hfind : findSlot ws id = some slot) :
    ∃ front w back, live = front ++ w :: back ∧ slot = front.length ∧ w.id = id := by
  obtain ⟨dead, rfl, hdead⟩ := h.slots
  obtain ⟨hlt, hw, -⟩ := findIdx?_eq_some_iff_getElem.mp hfind
  have hw := of_decide_eq_true hw
  have hslot : slot < live.length := by
    by_contra hge
    rw [getElem_append_right (Nat.not_lt.mp hge)] at hw
    exact hid (hw ▸ hdead _ (getElem_mem _))
  rw [getElem_append_left hslot] at hw
  refine ⟨live.take slot, live[slot], live.drop (slot + 1), ?_, ?_, hw⟩
  · rw [← drop_eq_getElem_cons hslot, take_append_drop]
  · rw [length_take, Nat.min_eq_left (Nat.le_of_lt hslot)]

end

section

variable (h : Arranged ws (front ++ w :: back))

include h

theorem top_eq : liveCount ws - 1 = front.length + back.length := by
  rw [h.liveCount_eq, length_append, length_cons]
  omega

theorem raise_eq :
    ∃ dead, raise ws front.length = front ++ back ++ w :: dead ∧ ∀ v ∈ dead, v.id = 0 := by
  obtain ⟨dead, hws, hdead⟩ := h.slots
  refine ⟨dead, ?_, hdead⟩
  have hat := h.at?_eq
  rw [append_assoc, cons_append] at hws
  rw [raise, h.top_eq]
  split
  · next hc =>
    -- on top already
    have hback : back = [] := by
      rw [h.liveCount_eq, length_append, length_cons] at hc
      refine eq_nil_of_length_eq_zero ?_
      omega
    subst hback
    rw [append_nil]
    exact hws
  · rw [hat, hws, shiftDown_append, set_append_right _ _ (Nat.le_of_eq length_append),
      length_append, Nat.sub_self]
    rfl

theorem arranged_raise : Arranged (raise ws front.length) (front ++ back ++ [w]) := by
  obtain ⟨dead, hws, hdead⟩ := h.raise_eq
  have hperm : (front ++ back ++ [w]).Perm (front ++ w :: back) :=
    (perm_append_singleton w (front ++ back)).trans perm_middle.symm
  refine ⟨⟨dead, ?_, hdead⟩, fun v hv => h.named v (hperm.mem_iff.mp hv), ?_⟩
  · rw [hws, append_assoc _ [w]]
    rfl
  · exact (hperm.map Window.id).nodup_iff.mpr h.once

theorem arranged_remove : Arranged (remove ws front.length) (front ++ back) := by
  obtain ⟨dead, hws, hdead⟩ := h.slots
  rw [append_assoc, cons_append] at hws
  have hset : ws.set front.length .empty = front ++ Window.empty :: (back ++ dead) := by
    rw [hws, set_append_right _ _ (Nat.le_refl _), Nat.sub_self]
    rfl
  have hrem : remove ws front.length = front ++ back ++ Window.empty :: dead := by
    rw [remove, h.top_eq, hset, shiftDown_append, set_append_right _ _ (Nat.le_of_eq length_append),
      length_append, Nat.sub_self]
    rfl
  have hsub := sublist_without front back w
  exact ⟨⟨.empty :: dead, hrem, forall_mem_cons.mpr ⟨rfl, hdead⟩⟩, fun v hv => h.named v (hsub.subset hv),
    (hsub.map Window.id).nodup h.once⟩

end

section

variable (h : Arranged ws live)

include h

/-- The first slot without a window. -/
theorem findSlot_zero (hfind : findSlot ws 0 = some slot) :
    slot = live.length ∧ ∃ v dead, ws = live ++ v :: dead ∧ ∀ v ∈ dead, v.id = 0 := by
  obtain ⟨dead, rfl, hdead⟩ := h.slots
  obtain ⟨hlt, hw, hbefore⟩ := findIdx?_eq_some_iff_getElem.mp hfind
  have hge : live.length ≤ slot := by
    by_contra hlt'
    have hlt' := Nat.not_le.mp hlt'
    rw [getElem_append_left hlt'] at hw
    exact h.named _ (getElem_mem _) (of_decide_eq_true hw)
  cases dead with
  | nil =>
    rw [append_nil] at hlt
    omega
  | cons v dead =>
    refine ⟨?_, v, dead, rfl, fun u hu => hdead u (mem_cons_of_mem _ hu)⟩
    by_contra hne
    have hgt : live.length < slot := Nat.lt_of_le_of_ne hge (Ne.symm hne)
    refine hbefore live.length hgt (decide_eq_true ?_)
    rw [getElem_append_right (Nat.le_refl _)]
    exact hdead _ (getElem_mem _)

theorem arranged_add (hfind : findSlot ws 0 = some slot) (hid : w.id ≠ 0)
    (hnew : w.id ∉ live.map Window.id) : Arranged (ws.set slot w) (live ++ [w]) := by
  obtain ⟨rfl, v, dead, rfl, hdead⟩ := h.findSlot_zero hfind
  refine ⟨⟨dead, ?_, hdead⟩, ?_, ?_⟩
  · rw [set_append_right _ _ (Nat.le_refl _), Nat.sub_self, append_assoc]
    rfl
  · exact forall_mem_append.mpr ⟨h.named, forall_mem_singleton.mpr hid⟩
  · rw [map_append, map_singleton]
    exact nodup_append.mpr ⟨h.once, nodup_singleton _, fun a ha b hb => by
      rintro rfl
      exact hnew (mem_singleton.mp hb ▸ ha)⟩

/-- A request that closes a slot without a window takes the topmost one away. -/
theorem arranged_remove_zero (hfind : findSlot ws 0 = some slot) :
    Arranged (remove ws slot) live.dropLast := by
  obtain ⟨rfl, v, dead, hws, hdead⟩ := h.findSlot_zero hfind
  have hset : ws.set live.length .empty = live ++ Window.empty :: dead := by
    rw [hws, set_append_right _ _ (Nat.le_refl _), Nat.sub_self]
    rfl
  have hdead' : ∀ u ∈ Window.empty :: dead, u.id = 0 := forall_mem_cons.mpr ⟨rfl, hdead⟩
  have hshift : shiftDown (ws.set live.length .empty) live.length (live.length - 1) =
      live ++ Window.empty :: dead := by
    rw [shiftDown, hset, Nat.sub_eq_zero_of_le (Nat.sub_le _ _)]
    rfl
  rw [remove, h.liveCount_eq, hshift]
  cases hlive : live using List.reverseRecOn with
  | nil =>
    refine ⟨⟨Window.empty :: dead, rfl, hdead'⟩, ?_, nodup_nil⟩
    exact fun u hu => nomatch hu
  | append_singleton l w =>
    subst hlive
    rw [dropLast_concat, length_append, length_singleton, Nat.add_sub_cancel,
      append_assoc, set_append_right _ _ (Nat.le_refl _), Nat.sub_self]
    have hsub : l.Sublist (l ++ [w]) := sublist_append_left l [w]
    exact ⟨⟨.empty :: .empty :: dead, rfl, forall_mem_cons.mpr ⟨rfl, hdead'⟩⟩,
      fun u hu => h.named u (hsub.subset hu), (hsub.map Window.id).nodup h.once⟩

/-! ### Changes that leave every window in its slot -/

/-- The ids tell which slots have a window. -/
theorem of_ids {ws' : List Window} (hids : ws'.map Window.id = ws.map Window.id) :
    Arranged ws' (ws'.take live.length) ∧ (ws'.take live.length).map Window.id = live.map Window.id := by
  obtain ⟨dead, rfl, hdead⟩ := h.slots
  rw [map_append] at hids
  have hlive : (ws'.take live.length).map Window.id = live.map Window.id := by
    rw [map_take, hids, take_left' (length_map _)]
  have hrest : (ws'.drop live.length).map Window.id = dead.map Window.id := by
    rw [map_drop, hids, drop_left' (length_map _)]
  refine ⟨⟨⟨ws'.drop live.length, (take_append_drop ..).symm, fun v hv => ?_⟩, fun v hv => ?_, ?_⟩, hlive⟩
  · obtain ⟨u, hu, heq⟩ := List.mem_map.mp (hrest ▸ mem_map_of_mem hv)
    exact heq ▸ hdead u hu
  · obtain ⟨u, hu, heq⟩ := List.mem_map.mp (hlive ▸ mem_map_of_mem hv)
    exact heq ▸ h.named u hu
  · rw [hlive]
    exact h.once

theorem take_eq : ws.take live.length = live := by
  obtain ⟨dead, rfl, -⟩ := h.slots
  exact take_left

theorem arranged_map {f : Window → Window} (hf : ∀ w, (f w).id = w.id) :
    Arranged (ws.map f) (live.map f) := by
  have hids : (ws.map f).map Window.id = ws.map Window.id := by
    rw [List.map_map]
    exact map_congr_left fun w _ => hf w
  have := (h.of_ids hids).1
  rwa [← map_take, h.take_eq] at this

/-- One slot changes, and not its id. -/
theorem arranged_set (hid : w.id = (at? ws slot).id) :
    Arranged (ws.set slot w) (live.set slot w) ∧ (live.set slot w).map Window.id = live.map Window.id := by
  have hids : (ws.set slot w).map Window.id = ws.map Window.id := by
    rcases Nat.lt_or_ge slot ws.length with hlt | hge
    · rw [at?, getD_eq_getElem?_getD, getElem?_eq_getElem hlt, Option.getD_some] at hid
      rw [map_set, hid, ← getElem_map Window.id (h := by rw [length_map]; exact hlt)]
      exact set_getElem_self _
    · rw [set_eq_of_length_le hge]
  have := h.of_ids hids
  rwa [take_set, h.take_eq] at this

/-- A slot that has an id has a window. -/
theorem at?_mem (hne : (at? ws slot).id ≠ 0) : at? ws slot ∈ live := by
  refine h.mem_live ?_ hne
  rw [at?, getD_eq_getElem?_getD] at hne ⊢
  cases hget : ws[slot]? with
  | none =>
    rw [hget] at hne
    exact absurd rfl hne
  | some u => exact mem_of_getElem? hget

end

end Arranged

end Tanix.Wm
