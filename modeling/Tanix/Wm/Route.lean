/-
# `Tanix.Wm.Route` — which application the pointer belongs to

A tick is answered with the pointer when `hit_window` gives the slot of the window it came for.
That is right as long as

    frames    no frame reaches over the left or the upper border: there its corner is negative,
              and the comparison as `u32` fails for every pointer
    slots     the slot, which was looked up first, still belongs to the window: a press that
              raises another one makes the topmost slot change its window, and one that raises
              this window leaves its old slot behind
    borders   a pointer on the right or lower border of a frame is not on the canvas, and is
              reported one column or row outside of it

`Routable` says so of the state before the tick.
-/
import Tanix.Wm.Server

namespace Tanix.Wm

open List

/-- The window `id` is the topmost one that the pointer is in. -/
def Topmost (ws : List Window) (id px py : Nat) : Prop :=
  ∃ i w, ws[i]? = some w ∧ w.id = id ∧ w.Frame px py ∧
    ∀ (j : Nat) (v : Window), i < j → ws[j]? = some v → v.id ≠ 0 → ¬ v.Frame px py

/-- A tick for the window `id` gets the pointer when it should, and on the canvas. -/
structure Routed (id px py : Nat) (o : Outcome) : Prop where
  exactly : (∃ x y buttons top, o.reply = some (.pointer x y buttons top)) ↔ Topmost o.state.windows id px py
  inside : ∀ x y buttons top, o.reply = some (.pointer x y buttons top) →
    ∀ w ∈ o.state.windows, w.id = id → x < w.w ∧ y < w.h

namespace State

/-- A held drag leaves its window inside of the screen, away from the left and upper border. -/
structure DragPlaced (s : State) (d : Drag) (px py : Nat) : Prop where
  left : d.dx + border ≤ px
  upper : d.dy + titleH + border ≤ py
  width : (at? s.windows d.slot).w + 3 * border ≤ s.screenW
  height : (at? s.windows d.slot).h + 2 * titleH + 3 * border ≤ s.screenH
  screenW : s.screenW < 2 ^ 31
  screenH : s.screenH < 2 ^ 31

structure Routable (s : State) (slot px py pb : Nat) : Prop where
  frames : ∀ w ∈ s.windows, w.id ≠ 0 → w.Placed
  drag : ∀ d ∈ s.drag, pb % 2 = 1 → s.DragPlaced d px py
  slots : s.drag = none → pb % 2 = 1 → s.ptr.buttons % 2 = 0 → ∀ hit ∈ hitWindow s.windows px py,
    hit ≠ liveCount s.windows - 1 → slot ≠ hit ∧ slot ≠ liveCount s.windows - 1
  borders : ¬ (∃ d ∈ s.drag, d.slot = slot ∧ pb % 2 = 1) → (at? s.windows slot).Frame px py →
    px < (at? s.windows slot).x + (at? s.windows slot).w ∧ py < (at? s.windows slot).y + (at? s.windows slot).h
  dragBorders : ∀ d ∈ s.drag, d.slot = slot → pb % 2 = 1 →
    d.dx < (at? s.windows slot).w ∧ px + 2 * border < s.screenW ∧
      d.dy < (at? s.windows slot).h ∧ py + titleH + 2 * border < s.screenH

end State

/-! ## Frames and hits -/

/-- On a table of such windows `hit_window` finds the topmost window. -/
theorem hitWindow_iff_topmost {ws live : List Window} {w : Window} {slot p q : Nat} (h : Arranged ws live)
    (hframes : ∀ w ∈ ws, w.id ≠ 0 → w.Placed) (hslot : live[slot]? = some w) :
    hitWindow ws p q = some slot ↔ Topmost ws w.id p q := by
  obtain ⟨dead, rfl, hdead⟩ := h.slots
  have hlt := (List.getElem?_eq_some_iff.mp hslot).1
  have hid := h.named w (mem_of_getElem? hslot)
  have hat : (live ++ dead)[slot]? = some w := by rw [getElem?_append_left hlt, hslot]
  have habove : ∀ (j : Nat) (v : Window), (live ++ dead)[j]? = some v → (v.Hit p q ↔ v.id ≠ 0 ∧ v.Frame p q) := by
    intro j v hv
    by_cases hv0 : v.id = 0
    · exact ⟨fun hhit => absurd hv0 hhit.1, fun hframe => absurd hv0 hframe.1⟩
    · exact (hframes v (mem_of_getElem? hv) hv0).hit_iff p q
  rw [hitWindow_iff]
  constructor
  · rintro ⟨w', hw', hhit, hrest⟩
    rw [hat] at hw'
    cases hw'
    refine ⟨slot, w, hat, rfl, ((habove slot w hat).mp hhit).2, fun j v hj hv hv0 hframe => ?_⟩
    exact hrest j v hj hv ((habove j v hv).mpr ⟨hv0, hframe⟩)
  · rintro ⟨i, w', hw', hwid, hframe, hrest⟩
    obtain rfl : i = slot := by
      have hi : i < live.length := by
        by_contra hge
        rw [getElem?_append_right (Nat.not_lt.mp hge)] at hw'
        rw [hdead w' (mem_of_getElem? hw')] at hwid
        exact hid hwid.symm
      rw [getElem?_append_left hi] at hw'
      exact h.slot_eq hw' hslot hwid
    rw [hat] at hw'
    cases hw'
    refine ⟨w, hat, (habove i w hat).mpr ⟨hid, hframe⟩, fun j v hj hv hhit => ?_⟩
    exact hrest j v hj hv hhit.1 ((habove j v hv).mp hhit).2

namespace State

variable {s : State} {live : List Window}

/-! ## The answer -/

variable {slot : Nat}

theorem route_hit (h : hitWindow s.windows s.ptr.x s.ptr.y = some slot) :
    s.route slot = .pointer (min (s.ptr.x - (at? s.windows slot).x) (at? s.windows slot).w)
      (min (s.ptr.y - (at? s.windows slot).y) (at? s.windows slot).h) s.ptr.buttons
      (slot = liveCount s.windows - 1) :=
  if_pos h

theorem route_away (h : hitWindow s.windows s.ptr.x s.ptr.y ≠ some slot) : s.route slot = .away :=
  if_neg h

/-- The pointer is given to a slot when that is hit. -/
theorem route_iff (slot : Nat) (recomposite : Bool) :
    (∃ x y buttons top, (⟨s, some (s.route slot), recomposite⟩ : Outcome).reply = some (.pointer x y buttons top)) ↔
      hitWindow s.windows s.ptr.x s.ptr.y = some slot := by
  constructor
  · rintro ⟨x, y, b, t, heq⟩
    by_contra hno
    rw [route_away hno] at heq
    cases heq
  · intro hhit
    rw [route_hit hhit]
    exact ⟨_, _, _, _, rfl⟩

variable {w v : Window}

/-- Where the slot is still the one of the window. -/
theorem routed_of_slot {recomposite : Bool} (h : Tidy s live)
    (hframes : ∀ w ∈ s.windows, w.id ≠ 0 → w.Placed) (hslot : live[slot]? = some w)
    (hborders : w.Frame s.ptr.x s.ptr.y → s.ptr.x < w.x + w.w ∧ s.ptr.y < w.y + w.h) :
    Routed w.id s.ptr.x s.ptr.y ⟨s, some (s.route slot), recomposite⟩ := by
  have hiff := hitWindow_iff_topmost (p := s.ptr.x) (q := s.ptr.y) h.arranged hframes hslot
  have hmem := mem_of_getElem? hslot
  have hid := h.arranged.named w hmem
  refine ⟨(route_iff slot recomposite).trans hiff, ?_⟩
  intro x y b t heq v hv hvid
  have hhit := (route_iff slot recomposite).mp ⟨x, y, b, t, heq⟩
  rw [route_hit hhit, h.arranged.at?_of_getElem? hslot] at heq
  cases heq
  have hone : ∀ u ∈ s.windows, u.id = w.id → u = w := fun u hu huid =>
    h.arranged.eq_of_id (h.arranged.mem_live hu (by rw [huid]; exact hid)) hmem huid
  obtain ⟨i, w', hw', hwid, hframe, -⟩ := hiff.mp hhit
  rw [hone w' (mem_of_getElem? hw') hwid] at hframe
  obtain ⟨hx, hy⟩ := hborders hframe
  have hgiven := h.given _ hmem
  have hw0 := hgiven.width
  have hh0 := hgiven.height
  simp only [minDim] at hw0 hh0
  rw [hone v hv hvid]
  constructor
  · omega
  · omega

/-- Where another window was raised: it is the topmost one now, and not the one that ticks. -/
theorem routed_of_raised {front : List Window} {id : Nat} {recomposite : Bool}
    (h : Arranged s.windows (front ++ [v])) (hplaced : v.Placed) (hv : v.Frame s.ptr.x s.ptr.y)
    (hslot : slot ≠ front.length) (hid : id ≠ v.id) (hid0 : id ≠ 0) :
    Routed id s.ptr.x s.ptr.y ⟨s, some (s.route slot), recomposite⟩ := by
  have hv0 := h.named v (mem_append_right _ (mem_singleton_self v))
  have hhit : hitWindow s.windows s.ptr.x s.ptr.y = some front.length := by
    rw [h.hitWindow_live, hitWindow_concat, if_pos ((hplaced.hit_iff _ _).mpr ⟨hv0, hv⟩)]
  have haway : s.route slot = .away := by
    refine route_away fun heq => hslot ?_
    rw [hhit] at heq
    exact (Option.some.inj heq).symm
  have hnot : ¬ Topmost s.windows id s.ptr.x s.ptr.y := by
    rintro ⟨i, u, hu, huid, -, habove⟩
    obtain ⟨dead, hws, hdead⟩ := h.slots
    have hat : s.windows[front.length]? = some v := by
      rw [hws, append_assoc, getElem?_append_right (Nat.le_refl _), Nat.sub_self]
      rfl
    rcases Nat.lt_trichotomy i front.length with hlt | rfl | hgt
    · exact habove _ v hlt hat hv0 hv
    · rw [hat] at hu
      cases hu
      exact hid huid.symm
    · rw [hws, getElem?_append_right (by rw [length_append, length_singleton]; omega)] at hu
      exact hid0 (huid.symm.trans (hdead u (mem_of_getElem? hu)))
  refine ⟨⟨?_, fun htop => absurd htop hnot⟩, ?_⟩
  · rintro ⟨x, y, b, t, heq⟩
    rw [haway] at heq
    cases heq
  · intro x y b t heq
    rw [haway] at heq
    cases heq

/-! ## Ticks -/

theorem placed_dirtied (h : w.Placed) : (dirtied w).Placed := by
  obtain ⟨b, hb⟩ := flags_dirtied w
  rw [hb]
  exact h

theorem frame_dirtied {px py : Nat} : (dirtied w).Frame px py ↔ w.Frame px py := by
  obtain ⟨b, hb⟩ := flags_dirtied w
  rw [hb]
  rfl

variable {prev : Pointer}

theorem Routable.held {d : Drag} (h : Tidy s live) (hslot : live[slot]? = some w)
    (hcond : Routable { s with ptr := prev } slot s.ptr.x s.ptr.y s.ptr.buttons)
    (hd : s.drag = some d) (hb : s.ptr.buttons % 2 = 1) :
    Routed w.id s.ptr.x s.ptr.y ⟨s.dragged d, some ((s.dragged d).route slot), true⟩ := by
  have hdrag : s.DragPlaced d s.ptr.x s.ptr.y := by
    obtain ⟨h1, h2, h3, h4, h5, h6⟩ := hcond.drag d hd hb
    exact ⟨h1, h2, h3, h4, h5, h6⟩
  have htidy := h.dragged d
  have hframes : ∀ v ∈ (s.dragged d).windows, v.id ≠ 0 → v.Placed := by
    intro v hv hv0
    obtain ⟨u, hu, rfl⟩ := List.mem_map.mp (htidy.arranged.mem_live hv hv0)
    rcases mem_or_eq_of_mem_set hu with hu | rfl
    · exact placed_dirtied (hcond.frames u (h.arranged.subset hu) (h.arranged.named u hu))
    · refine placed_dirtied ?_
      obtain ⟨h1, h2, h3, h4, h5, h6⟩ := hdrag
      simp only [titleH, border] at h1 h2 h3 h4
      simp only [Window.Placed, target, titleH, border]
      omega
  have hat := h.arranged.at?_of_getElem? hslot
  have hlt := (List.getElem?_eq_some_iff.mp hslot).1
  rcases eq_or_ne d.slot slot with rfl | hne
  · have hslot' : ((live.set d.slot (s.target d)).map dirtied)[d.slot]? = some (dirtied (s.target d)) := by
      rw [getElem?_map, getElem?_set_self hlt]
      rfl
    have hid : (dirtied (s.target d)).id = w.id := by
      rw [flags_dirtied.id_eq, ← hat]
      rfl
    rw [← hid]
    refine routed_of_slot htidy hframes hslot' fun _ => ?_
    obtain ⟨hx, hpx, hy, hpy⟩ := hcond.dragBorders d hd rfl hb
    obtain ⟨b, hb⟩ := flags_dirtied (s.target d)
    obtain ⟨h1, h2, h3, h4, -, -⟩ := hdrag
    rw [hb]
    simp only [titleH, border] at h1 h2 h3 h4 hpx hpy
    simp only [target, titleH, border]
    show s.ptr.x < _ ∧ s.ptr.y < _
    have hx : d.dx < (at? s.windows d.slot).w := hx
    have hy : d.dy < (at? s.windows d.slot).h := hy
    have hpx : s.ptr.x + 2 * 1 < s.screenW := hpx
    have hpy : s.ptr.y + 16 + 2 * 1 < s.screenH := hpy
    omega
  · have hslot' : ((live.set d.slot (s.target d)).map dirtied)[slot]? = some (dirtied w) := by
      rw [getElem?_map, getElem?_set_ne hne, hslot]
      rfl
    have hborders : w.Frame s.ptr.x s.ptr.y → s.ptr.x < w.x + w.w ∧ s.ptr.y < w.y + w.h := by
      have := hcond.borders ?_
      · rw [← hat]
        exact this
      · rintro ⟨d', hd', hslot', -⟩
        have hd' : s.drag = some d' := hd'
        rw [hd] at hd'
        cases hd'
        exact hne hslot'
    rw [← flags_dirtied.id_eq w]
    refine routed_of_slot htidy hframes hslot' ?_
    obtain ⟨b, hb⟩ := flags_dirtied w
    rw [hb]
    exact hborders

/-- Ticks that leave every window in its place. -/
theorem Routable.quiet {s' : State} {recomposite : Bool} (h : Tidy s live)
    (hslot : live[slot]? = some w)
    (hcond : Routable { s with ptr := prev } slot s.ptr.x s.ptr.y s.ptr.buttons)
    (hd : ¬ ∃ d ∈ s.drag, d.slot = slot ∧ s.ptr.buttons % 2 = 1) (hws : s'.windows = s.windows)
    (hptr : s'.ptr = s.ptr) (hid : s'.nextId = s.nextId) :
    Routed w.id s.ptr.x s.ptr.y ⟨s', some (s'.route slot), recomposite⟩ := by
  have hat := h.arranged.at?_of_getElem? hslot
  have hborders := hcond.borders hd
  rw [← hptr]
  refine routed_of_slot (h.same hws hid) ?_ hslot ?_
  · rw [hws]
    exact hcond.frames
  · rw [hptr, ← hat]
    exact hborders

theorem Routable.raised {s' : State} {front back : List Window} (h : Tidy s (front ++ v :: back))
    (hslot : (front ++ v :: back)[slot]? = some w)
    (hcond : Routable { s with ptr := prev } slot s.ptr.x s.ptr.y s.ptr.buttons)
    (hd : s.drag = none) (hpress : s.Pressed prev.buttons) (hback : back ≠ [])
    (hhit : hitWindow s.windows s.ptr.x s.ptr.y = some front.length)
    (hws : s'.windows = (s.raised front.length).windows) (hptr : s'.ptr = s.ptr) :
    Routed w.id s.ptr.x s.ptr.y ⟨s', some (s'.route slot), true⟩ := by
  have hn : liveCount s.windows - 1 = (front ++ back).length := by
    rw [h.arranged.liveCount_eq, length_append, length_cons, length_append]
    omega
  have hbelow : front.length ≠ liveCount s.windows - 1 := by
    have := length_pos_iff.mpr hback
    rw [hn, length_append]
    omega
  obtain ⟨hne, hne'⟩ := hcond.slots hd hpress.1 hpress.2 _ hhit hbelow
  have hvmem : v ∈ front ++ v :: back := mem_append_right _ (mem_cons_self ..)
  have hwmem := mem_of_getElem? hslot
  have hplaced : v.Placed := hcond.frames v (h.arranged.subset hvmem) (h.arranged.named v hvmem)
  have hframe : v.Frame s.ptr.x s.ptr.y := by
    obtain ⟨u, hu, huhit, -⟩ := hitWindow_iff.mp hhit
    have hat : at? s.windows front.length = u := by
      rw [at?, getD_eq_getElem?_getD, hu]
      rfl
    rw [h.arranged.at?_eq] at hat
    subst hat
    exact ((hplaced.hit_iff _ _).mp huhit).2
  have hid : w.id ≠ (dirtied v).id := by
    rw [flags_dirtied.id_eq]
    refine fun heq => hne (h.arranged.slot_eq hslot ?_ heq)
    rw [getElem?_append_right (Nat.le_refl _), Nat.sub_self]
    rfl
  have harr : Arranged s'.windows ((front ++ back).map dirtied ++ [dirtied v]) := by
    rw [hws]
    have := h.raised.arranged
    rwa [map_append] at this
  rw [← hptr] at hframe ⊢
  refine routed_of_raised harr (placed_dirtied hplaced) (frame_dirtied.mpr hframe) ?_ hid
    (h.arranged.named w hwmem)
  rw [length_map, ← hn]
  exact hne'

/-- Two windows, of the tasks 5 and 6. -/
def twoWindows : List Request :=
  [.create 5 200 100 0x50000 20 [], .create 6 200 100 0x60000 20 []]

end State

end Tanix.Wm
