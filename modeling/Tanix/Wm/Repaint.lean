/-
# `Tanix.Wm.Repaint` — damage tracking against a repaint from scratch

At a point of the screen, `composite` and `repaint` are compared by the topmost window there.

    the cursor is there             both show the cursor
    the point is damaged            every window that covers it is redrawn
    it is not, all windows dirty    no window covers it, now or before
    it is not, the table is as it   either a redrawn window covers it, and with it those above,
    was shown                       or the pixel is still right

What a request leaves for `composite` is one of the last two (`Changed`): `mark_all_dirty` was
called, or nothing but flags is different.
-/
import Mathlib.Order.MinMax
import Tanix.Wm.Composite

namespace Tanix.Wm

open Display Layers List

variable {W H : Nat} {c : Contents} {p : Point} {w : Window} {s : State} {d d' : Desk}

/-! ## Windows as layers -/

theorem foldl_drawWindow (fb : Point → Pixel) (l : List (Window × Bool)) :
    l.foldl (drawWindow W H c) fb = paint (layer W H c) fb l := by
  have hdraw : drawWindow W H c = fun fb item => overlay fb (layer W H c item) := by
    funext fb item
    simp only [drawWindow, overlay_overlay]
    rfl
  rw [hdraw]
  rfl

theorem Window.text_length_le (w : Window) : w.text.length ≤ w.title.length := by
  rw [Window.text]
  split
  · rw [length_map]
  · exact Nat.zero_le _

/-- A window that fits paints its frame and nothing else. -/
theorem layer_eq_none_iff (hw : w.Fits W) (hx : p.1 < W) (hy : p.2 < H) (active : Bool) :
    layer W H c (w, active) p = none ↔ ¬ w.Frame p.1 p.2 := by
  obtain ⟨⟨hx0, hy0, -, -⟩, hright, htitle⟩ := hw
  have hlen := w.text_length_le
  simp only [titleH, border, glyphAdv] at hx0 hy0 htitle
  rw [layer, Option.or_eq_none_iff, Option.or_eq_none_iff, Option.or_eq_none_iff]
  constructor
  · rintro ⟨-, -, -, hborder⟩ hframe
    rw [Window.borderLayer, fillRect, ite_eq_right_iff] at hborder
    simp only [Window.Frame, titleH, border] at hframe hborder
    exact absurd (hborder (by omega)) (Option.some_ne_none _)
  · intro hframe
    simp only [Window.Frame, titleH, border] at hframe
    refine ⟨if_neg ?_, if_neg ?_, if_neg ?_, if_neg ?_⟩
    · rintro ⟨-, htext⟩
      have hin := textAt_inside htext hx (by simp only [glyphAdv]; omega)
      simp only [titleH, glyphAdv, glyphH] at hin
      omega
    · simp only [titleH]
      omega
    · dsimp only
      omega
    · simp only [titleH, border]
      omega

theorem mem_items {ws : List Window} {item : Window × Bool} (h : item ∈ items ws) :
    item.1 ∈ ws ∧ item.1.id ≠ 0 := by
  obtain ⟨x, hx, rfl⟩ := List.mem_map.mp h
  obtain ⟨hmem, hid⟩ := mem_filter.mp hx
  exact ⟨fst_mem_of_mem_zipIdx hmem, of_decide_eq_true hid⟩

theorem items_pairwise {ws : List Window} {R : Window → Window → Prop} (h : ws.Pairwise R) :
    (items ws).Pairwise fun a b => R a.1 b.1 := by
  have hidx : ws.zipIdx.Pairwise fun a b => R a.1 b.1 := by
    rw [← pairwise_map (f := Prod.fst), zipIdx_map_fst]
    exact h
  exact pairwise_map.mpr (hidx.filter _)

/-! ## Flags do not show -/

variable (ws : List Window)

theorem items_clean :
    items (ws.map Window.clean) = (items ws).map fun item => (item.1.clean, item.2) := by
  have hlive : liveCount (ws.map Window.clean) = liveCount ws := by
    rw [liveCount, liveCount, List.filter_map, length_map]
    rfl
  rw [items, items, hlive, zipIdx_map, List.filter_map, List.map_map, List.map_map]
  rfl

theorem top_items_clean :
    top (layer W H c) (items (ws.map Window.clean)) p = top (layer W H c) (items ws) p := by
  rw [items_clean]
  induction items ws with
  | nil => rfl
  | cons item l ih =>
    rw [map_cons, top, top, ih]
    rfl

/-- Tables that differ in flags only look the same. -/
theorem top_items_congr {ws ws' : List Window} (h : ws.map Window.clean = ws'.map Window.clean) :
    top (layer W H c) (items ws) p = top (layer W H c) (items ws') p := by
  rw [← top_items_clean, h, top_items_clean]

/-! ## The damaged rectangle -/

def Rect.Has (r : Rect) (p : Point) : Prop :=
  (r.x0 ≤ p.1 ∧ p.1 < r.x1) ∧ r.y0 ≤ p.2 ∧ p.2 < r.y1

instance (r : Rect) (p : Point) : Decidable (r.Has p) :=
  inferInstanceAs (Decidable (_ ∧ _))

/-- A bounding union reaches as far as one of its parts. -/
theorem foldl_join (l : List Rect) (r : Rect) (n : Nat) :
    ((l.foldl Rect.join r).x0 ≤ n ↔ r.x0 ≤ n ∨ ∃ q ∈ l, q.x0 ≤ n) ∧
    (n < (l.foldl Rect.join r).x1 ↔ n < r.x1 ∨ ∃ q ∈ l, n < q.x1) ∧
    ((l.foldl Rect.join r).y0 ≤ n ↔ r.y0 ≤ n ∨ ∃ q ∈ l, q.y0 ≤ n) ∧
    (n < (l.foldl Rect.join r).y1 ↔ n < r.y1 ∨ ∃ q ∈ l, n < q.y1) := by
  induction l generalizing r with
  | nil => simp
  | cons q l ih =>
    obtain ⟨hx0, hx1, hy0, hy1⟩ := ih (r.join q)
    rw [foldl_cons, hx0, hx1, hy0, hy1]
    simp only [Rect.join, min_le_iff, lt_max_iff, exists_mem_cons_iff, or_assoc, and_self]

namespace State

theorem damage_eq (s : State) : s.damage = s.marks.foldl Rect.join ⟨s.screenW, s.screenH, 0, 0⟩ := by
  rw [damage, marks, foldl_append, foldl_map]
  split
  · rfl
  · rfl

theorem damage_has_iff (hp : s.OnScreen p) : s.damage.Has p ↔ s.InHull p := by
  obtain ⟨hx0, hx1, -, -⟩ := foldl_join s.marks ⟨s.screenW, s.screenH, 0, 0⟩ p.1
  obtain ⟨-, -, hy0, hy1⟩ := foldl_join s.marks ⟨s.screenW, s.screenH, 0, 0⟩ p.2
  have hw : ¬ s.screenW ≤ p.1 := Nat.not_le.mpr hp.1
  have hh : ¬ s.screenH ≤ p.2 := Nat.not_le.mpr hp.2
  rw [Rect.Has, damage_eq, hx0, hx1, hy0, hy1]
  simp only [hw, hh, false_or, Nat.not_lt_zero]
  exact ⟨fun ⟨⟨h1, h2⟩, h3, h4⟩ => ⟨h1, h2, h3, h4⟩, fun h => ⟨⟨h.left, h.right⟩, h.upper, h.lower⟩⟩

/-- No mark reaches beyond the screen. -/
theorem marks_le {r : Rect} (hr : r ∈ s.marks) : r.x1 ≤ s.screenW ∧ r.y1 ≤ s.screenH := by
  rcases mem_append.mp hr with hr | hr
  · obtain ⟨w, -, rfl⟩ := List.mem_map.mp hr
    exact ⟨Nat.min_le_right _ _, Nat.min_le_right _ _⟩
  · split at hr
    · rw [mem_singleton.mp hr]
      exact ⟨Nat.min_le_right _ _, Nat.min_le_right _ _⟩
    · cases hr

theorem damage_le (s : State) : s.damage.x1 ≤ s.screenW ∧ s.damage.y1 ≤ s.screenH := by
  obtain ⟨-, hx, -, -⟩ := foldl_join s.marks ⟨s.screenW, s.screenH, 0, 0⟩ s.screenW
  obtain ⟨-, -, -, hy⟩ := foldl_join s.marks ⟨s.screenW, s.screenH, 0, 0⟩ s.screenH
  rw [damage_eq]
  constructor
  · refine Nat.not_lt.mp fun hlt => ?_
    rcases hx.mp hlt with h | ⟨r, hr, h⟩
    · exact absurd h (Nat.not_lt_zero _)
    · exact absurd (marks_le hr).1 (Nat.not_le.mpr h)
  · refine Nat.not_lt.mp fun hlt => ?_
    rcases hy.mp hlt with h | ⟨r, hr, h⟩
    · exact absurd h (Nat.not_lt_zero _)
    · exact absurd (marks_le hr).2 (Nat.not_le.mpr h)

/-- The part on the screen, without signs. -/
theorem area_eq (hw : w.Placed) : w.area W H =
    ⟨w.x - border, w.y - (titleH + border), min (w.x + w.w + border) W, min (w.y + w.h + border) H⟩ := by
  obtain ⟨hx, hy, hr, hb⟩ := hw
  simp only [titleH, border] at hx hy hr hb
  have hix : asI32 w.x = w.x := if_pos (by omega)
  have hiy : asI32 w.y = w.y := if_pos (by omega)
  simp only [Window.area, Window.bbox, hix, hiy, titleH, border, Rect.mk.injEq]
  omega

theorem area_has_iff (hw : w.Placed) (hp : s.OnScreen p) :
    (w.area s.screenW s.screenH).Has p ↔ w.Frame p.1 p.2 := by
  obtain ⟨hpx, hpy⟩ := hp
  have hx := hw.1
  have hy := hw.2.1
  rw [area_eq hw]
  simp only [titleH, border] at hx hy
  simp only [Rect.Has, Window.Frame, titleH, border]
  omega

/-- What a mark has is in the hull. -/
theorem inHull_of_mark {r : Rect} (hr : r ∈ s.marks) (hp : r.Has p) : s.InHull p :=
  ⟨⟨r, hr, hp.1.1⟩, ⟨r, hr, hp.1.2⟩, ⟨r, hr, hp.2.1⟩, ⟨r, hr, hp.2.2⟩⟩

theorem inHull_of_dirty (hmem : w ∈ s.windows) (hid : w.id ≠ 0) (hdirty : w.dirty = true)
    (hw : w.Placed) (hp : s.OnScreen p) (hframe : w.Frame p.1 p.2) : s.InHull p := by
  refine inHull_of_mark ?_ ((area_has_iff hw hp).mpr hframe)
  exact mem_append_left _
    (List.mem_map_of_mem (mem_filter.mpr ⟨hmem, decide_eq_true ⟨hid, hdirty⟩⟩))

/-- The windows that are redrawn are those that reach into the damaged rectangle. -/
theorem redrawn_iff_touches (hid : w.id ≠ 0) (hw : w.Placed) (hdam : ¬ s.damage.IsEmpty) :
    s.Redrawn w ↔ s.Touches w := by
  obtain ⟨hdx, hdy⟩ := s.damage_le
  constructor
  · rintro ⟨-, h1, h2, h3, h4⟩
    -- the upper left corner of the common part
    let q : Point := (max (w.area s.screenW s.screenH).x0 s.damage.x0,
      max (w.area s.screenW s.screenH).y0 s.damage.y0)
    rw [Rect.IsEmpty, not_or, Nat.not_le, Nat.not_le] at hdam
    have hdamage : s.damage.Has q := ⟨⟨le_max_right _ _, max_lt h1 hdam.1⟩, le_max_right _ _, max_lt h3 hdam.2⟩
    have hq : s.OnScreen q := ⟨Nat.lt_of_lt_of_le hdamage.1.2 hdx, Nat.lt_of_lt_of_le hdamage.2.2 hdy⟩
    have hsize : (w.area s.screenW s.screenH).x0 < (w.area s.screenW s.screenH).x1 ∧
        (w.area s.screenW s.screenH).y0 < (w.area s.screenW s.screenH).y1 := by
      have hx := Nat.lt_of_lt_of_le h1 hdx
      have hy := Nat.lt_of_lt_of_le h3 hdy
      rw [area_eq hw] at hx hy ⊢
      simp only [titleH, border] at hx hy ⊢
      omega
    have harea : (w.area s.screenW s.screenH).Has q :=
      ⟨⟨le_max_left _ _, max_lt hsize.1 h2⟩, le_max_left _ _, max_lt hsize.2 h4⟩
    exact ⟨q, hq, (area_has_iff hw hq).mp harea, (damage_has_iff hq).mp hdamage⟩
  · rintro ⟨q, hq, hframe, hhull⟩
    obtain ⟨⟨ha1, ha2⟩, ha3, ha4⟩ := (area_has_iff hw hq).mpr hframe
    obtain ⟨⟨hd1, hd2⟩, hd3, hd4⟩ := (damage_has_iff hq).mpr hhull
    exact ⟨hid, Nat.lt_of_le_of_lt ha1 hd2, Nat.lt_of_le_of_lt hd1 ha2,
      Nat.lt_of_le_of_lt ha3 hd4, Nat.lt_of_le_of_lt hd3 ha4⟩

theorem not_isEmpty_of_inHull (hp : s.OnScreen p) (h : s.InHull p) : ¬ s.damage.IsEmpty := by
  obtain ⟨⟨h1, h2⟩, h3, h4⟩ := (damage_has_iff hp).mpr h
  rw [Rect.IsEmpty]
  omega

/-- Where the cursor is drawn something is damaged, if not this point. -/
theorem not_isEmpty_of_cursor (hp : s.OnScreen p) (h : cursorLayer s.screenW s.screenH s.ptr p ≠ none) :
    ¬ s.damage.IsEmpty := by
  obtain ⟨hpx, hpy⟩ := hp
  rw [cursorLayer] at h
  split at h
  · next hptr =>
    have hin : s.ptr.x - 4 ≤ p.1 ∧ s.ptr.y - 4 ≤ p.2 := by
      by_contra hout
      refine h (Option.or_eq_none_iff.mpr ⟨if_neg ?_, if_neg ?_⟩)
      · omega
      · omega
    -- a corner of the cursor's own rectangle that is on the screen
    refine not_isEmpty_of_inHull (p := (s.ptr.x - 5, s.ptr.y - 5)) ⟨by omega, by omega⟩
      (inHull_of_mark (r := s.cursorArea) ?_ ?_)
    · rw [marks, if_pos hptr]
      exact mem_append_right _ (mem_singleton_self _)
    · simp only [Rect.Has, cursorArea]
      omega
  · exact absurd rfl h

/-! ## One point -/

theorem repaint_eq (s : State) (c : Contents) (p : Point) :
    s.repaint c p = (cursorLayer s.screenW s.screenH s.ptr p).getD
      ((top (layer s.screenW s.screenH c) (items s.windows) p).getD bg) := by
  rw [repaint, foldl_drawWindow, overlay, paint_eq]

/-- The windows that are redrawn, over the cleared rectangle. -/
def redrawnTop (s : State) (c : Contents) (p : Point) : Option Pixel :=
  top (layer s.screenW s.screenH c) ((items s.windows).filter (s.Redrawn ·.1)) p

theorem composite_eq (hdam : ¬ s.damage.IsEmpty) (hp : s.OnScreen p) (fb : Point → Pixel) :
    s.composite c fb p = (cursorLayer s.screenW s.screenH s.ptr p).getD
      ((s.redrawnTop c p).getD (if s.damage.Has p then bg else fb p)) := by
  have hfill : fillRect s.screenW s.screenH s.damage.x0 s.damage.y0 (s.damage.x1 - s.damage.x0)
      (s.damage.y1 - s.damage.y0) bg p = if s.damage.Has p then some bg else none := by
    obtain ⟨hpx, hpy⟩ := hp
    refine if_congr ?_ rfl rfl
    rw [Rect.Has]
    omega
  rw [composite]
  dsimp only
  rw [if_neg hdam, foldl_drawWindow, overlay, paint_eq, overlay, hfill, apply_ite (Option.getD · (fb p))]
  rfl

end State

/-! ## What a request leaves -/

/-- Every window is dirty. -/
def AllDirty : Prop :=
  ∀ w ∈ ws, w.id ≠ 0 → w.dirty = true

theorem allDirty_markAllDirty : AllDirty (markAllDirty ws) := by
  intro w hw hid
  obtain ⟨v, -, rfl⟩ := List.mem_map.mp hw
  by_cases hv : v.id ≠ 0
  · rw [if_pos hv]
  · rw [if_neg hv] at hid
    exact absurd hid hv

theorem map_clean_set (slot : Nat) (b : Bool) :
    (ws.set slot { at? ws slot with dirty := b }).map Window.clean = ws.map Window.clean := by
  apply ext_getElem?
  intro i
  rw [getElem?_map, getElem?_map, getElem?_set]
  split
  · next hi =>
    subst hi
    split
    · next hlt =>
        rw [at?, getD_eq_getElem?_getD, getElem?_eq_getElem hlt]
        rfl
    · next hlt => rw [getElem?_eq_none (Nat.not_lt.mp hlt)]
  · rfl

namespace State

/-- The windows are as before, flags apart. -/
def SameWindows (s s' : State) : Prop :=
  s'.windows.map Window.clean = s.windows.map Window.clean

/-- What a handler leaves for `composite`. -/
structure Left (s : State) (o : Outcome) : Prop where
  width : o.state.screenW = s.screenW
  height : o.state.screenH = s.screenH
  quiet : o.composites = false → SameWindows s o.state
  changed : o.composites = true → AllDirty o.state.windows ∨ SameWindows s o.state

theorem Left.same {o : Outcome} (hw : o.state.screenW = s.screenW) (hh : o.state.screenH = s.screenH)
    (hsame : SameWindows s o.state) : Left s o :=
  ⟨hw, hh, fun _ => hsame, fun _ => .inr hsame⟩

theorem Left.marked {s' : State} {reply : Option Reply} (hw : s'.screenW = s.screenW) (hh : s'.screenH = s.screenH)
    {ws : List Window} (hws : s'.windows = markAllDirty ws) : Left s ⟨s', reply, true⟩ := by
  refine ⟨hw, hh, fun hfalse => (nomatch hfalse), fun _ => .inl ?_⟩
  show AllDirty s'.windows
  rw [hws]
  exact allDirty_markAllDirty ws

theorem endDrag_screen (s : State) (slot : Nat) :
    (s.endDrag slot).screenW = s.screenW ∧ (s.endDrag slot).screenH = s.screenH := by
  rw [endDrag]
  split
  · split
    · exact ⟨rfl, rfl⟩
    · exact ⟨rfl, rfl⟩
  · exact ⟨rfl, rfl⟩

theorem left_of_driven {live : List Window} {prev : Nat} {r : State × Bool} (hr : Driven s live prev r)
    (reply : Option Reply) : Left s ⟨r.1, reply, r.2⟩ := by
  cases hr with
  | held _ _ => exact .marked rfl rfl rfl
  | released _ _ => exact .same rfl rfl rfl
  | quiet _ => exact .same rfl rfl rfl
  | grabBelow _ _ _ _ _ _ => exact .marked rfl rfl rfl
  | grabTop _ _ => exact .same rfl rfl rfl
  | clickBelow _ _ _ _ _ => exact .marked rfl rfl rfl

theorem left_of_served {live : List Window} {r : Request} {o : Outcome} (ho : Served s live r o) : Left s o := by
  cases ho with
  | nothing => exact .same rfl rfl rfl
  | created _ _ hs' =>
    subst hs'
    exact .marked rfl rfl rfl
  | flushed _ hs' =>
    subst hs'
    exact .same rfl rfl (map_clean_set _ _ _)
  | ticked _ _ hr =>
    obtain ⟨hw, hh, hquiet, hchanged⟩ := left_of_driven hr none
    exact ⟨hw, hh, hquiet, hchanged⟩
  | closed _ _ hs' =>
    subst hs'
    exact .marked (endDrag_screen _ _).1 (endDrag_screen _ _).2 rfl

end State

/-! ## The desk -/

namespace Desk

/-- The framebuffer shows what was shown, and `composite` is called unless nothing changed. -/
structure Inv (d : Desk) : Prop where
  tidy : ∃ live, State.Tidy d.wm live
  width : d.shown.screenW = d.wm.screenW
  height : d.shown.screenH = d.wm.screenH
  fits : ∀ w ∈ d.shown.windows, w.id ≠ 0 → w.Fits d.wm.screenW
  painted : ∀ p, d.wm.OnScreen p → d.fb p = d.shown.repaint d.shownContents p
  quiet : d.pending = false → d.shown.SameWindows d.wm
  changed : d.pending = true → AllDirty d.wm.windows ∨ d.shown.SameWindows d.wm

section

variable (hc : d.Repaintable)

include hc

theorem Repaintable.layer_eq_none_iff {item : Window × Bool} (hitem : item ∈ items d.wm.windows)
    (hp : d.wm.OnScreen p) :
    layer d.wm.screenW d.wm.screenH c item p = none ↔ ¬ item.1.Frame p.1 p.2 := by
  obtain ⟨hmem, hid⟩ := mem_items hitem
  exact Wm.layer_eq_none_iff (hc.fits _ hmem hid) hp.1 hp.2 item.2

/-- Every window that covers a damaged point is redrawn. -/
theorem redrawnTop_of_damaged (hp : d.wm.OnScreen p) (hhull : d.wm.InHull p) :
    d.wm.redrawnTop d.contents p = top (layer d.wm.screenW d.wm.screenH d.contents) (items d.wm.windows) p := by
  refine top_filter_of_covering fun item hitem hcover => ?_
  obtain ⟨hmem, hid⟩ := mem_items hitem
  have hframe := not_not.mp (mt (hc.layer_eq_none_iff hitem hp).mpr hcover)
  exact (State.redrawn_iff_touches hid (hc.fits _ hmem hid).placed (State.not_isEmpty_of_inHull hp hhull)).mpr
    ⟨p, hp, hframe, hhull⟩

/-- Where a redrawn window covers a point, so are those above it. -/
theorem redrawnTop_of_redrawn (hp : d.wm.OnScreen p) (hdam : ¬ d.wm.damage.IsEmpty)
    (hsome : d.wm.redrawnTop d.contents p ≠ none) :
    d.wm.redrawnTop d.contents p = top (layer d.wm.screenW d.wm.screenH d.contents) (items d.wm.windows) p := by
  refine top_filter_of_upward ?_ ?_
  · refine (items_pairwise hc.above).imp_of_mem fun {a b} ha hb habove hkeep hcova hcovb => ?_
    obtain ⟨hma, hia⟩ := mem_items ha
    obtain ⟨hmb, hib⟩ := mem_items hb
    have hfa := not_not.mp (mt (hc.layer_eq_none_iff ha hp).mpr hcova)
    have hfb := not_not.mp (mt (hc.layer_eq_none_iff hb hp).mpr hcovb)
    have htouch := (State.redrawn_iff_touches hia (hc.fits _ hma hia).placed hdam).mp hkeep
    exact (State.redrawn_iff_touches hib (hc.fits _ hmb hib).placed hdam).mpr (habove hia hib htouch ⟨p, hp, hfa, hfb⟩)
  · by_contra hnone
    refine hsome (top_eq_none_iff.mpr fun item hitem => ?_)
    obtain ⟨hmem, hkeep⟩ := mem_filter.mp hitem
    by_contra hcover
    exact hnone ⟨item, hmem, of_decide_eq_true hkeep, hcover⟩

/-- A window over a point that is not damaged is not dirty. -/
theorem Repaintable.not_dirty (hp : d.wm.OnScreen p) (hhull : ¬ d.wm.InHull p)
    (hmem : w ∈ d.wm.windows) (hid : w.id ≠ 0) (hframe : w.Frame p.1 p.2) : w.dirty = false := by
  rw [← Bool.not_eq_true]
  intro hdirty
  exact hhull (State.inHull_of_dirty hmem hid hdirty (hc.fits w hmem hid).placed hp hframe)

/-- With all windows dirty, none covers a point that is not damaged. -/
theorem top_eq_none_of_allDirty (hall : AllDirty d.wm.windows) (hp : d.wm.OnScreen p)
    (hhull : ¬ d.wm.InHull p) :
    top (layer d.wm.screenW d.wm.screenH d.contents) (items d.wm.windows) p = none := by
  refine top_eq_none_iff.mpr fun item hitem => (hc.layer_eq_none_iff hitem hp).mpr fun hframe => ?_
  obtain ⟨hmem, hid⟩ := mem_items hitem
  have hclean := hc.not_dirty hp hhull hmem hid hframe
  rw [hall _ hmem hid] at hclean
  cases hclean

end

/-- Nor did one. -/
theorem shown_top_eq_none_of_allDirty (h : d.Inv) (hc : d.Repaintable) (hall : AllDirty d.wm.windows)
    (hp : d.wm.OnScreen p) (hhull : ¬ d.wm.InHull p) :
    top (layer d.wm.screenW d.wm.screenH d.shownContents) (items d.shown.windows) p = none := by
  refine top_eq_none_iff.mpr fun item hitem => ?_
  obtain ⟨hmem, hid⟩ := mem_items hitem
  refine (Wm.layer_eq_none_iff (h.fits _ hmem hid) hp.1 hp.2 item.2).mpr fun hframe => ?_
  rcases hc.gone _ hmem hid with hstill | hgone
  · -- it is still where it was, and dirty
    obtain ⟨v, hv, hclean⟩ := List.mem_map.mp hstill
    have hvid : v.clean.id ≠ 0 := by
      rw [hclean]
      exact hid
    have hvframe : v.clean.Frame p.1 p.2 := by
      rw [hclean]
      exact hframe
    have hflag := hc.not_dirty hp hhull hv hvid hvframe
    rw [hall v hv hvid] at hflag
    cases hflag
  · exact hhull (hgone p hp hframe)

/-- With the table as it was shown, what covers a point that is not damaged has not changed. -/
theorem shown_top_eq (hc : d.Repaintable) (hsame : d.shown.SameWindows d.wm) (hp : d.wm.OnScreen p)
    (hhull : ¬ d.wm.InHull p) :
    top (layer d.wm.screenW d.wm.screenH d.shownContents) (items d.shown.windows) p =
      top (layer d.wm.screenW d.wm.screenH d.contents) (items d.wm.windows) p := by
  rw [← top_items_congr hsame]
  refine top_congr fun item hitem => ?_
  obtain ⟨hmem, hid⟩ := mem_items hitem
  by_cases hframe : item.1.Frame p.1 p.2
  · have hdrawn := hc.drawn _ hmem hid (hc.not_dirty hp hhull hmem hid hframe)
    simp only [layer, Window.canvasLayer, hdrawn]
  · rw [(hc.layer_eq_none_iff hitem hp).mpr hframe, (hc.layer_eq_none_iff hitem hp).mpr hframe]

/-- A point that is not damaged, without cursor and redrawn windows, still has its colour. -/
theorem fb_eq_repaint (h : d.Inv) (hc : d.Repaintable) (hpend : d.pending = true) (hp : d.wm.OnScreen p)
    (hhull : ¬ d.wm.InHull p) (hcur : cursorLayer d.wm.screenW d.wm.screenH d.wm.ptr p = none) :
    d.fb p = d.wm.repaint d.contents p := by
  -- nor is the old cursor there
  have hold : cursorLayer d.wm.screenW d.wm.screenH d.shown.ptr p = none := by
    rcases hc.cursor with ⟨hx, hy⟩ | hold
    · rw [cursorLayer, hx, hy]
      exact hcur
    · exact not_not.mp fun hne => hhull (hold p hp hne)
  rw [h.painted p hp, State.repaint_eq, State.repaint_eq, h.width, h.height, hold, hcur]
  rcases h.changed hpend with hall | hsame
  · rw [top_eq_none_of_allDirty hc hall hp hhull, shown_top_eq_none_of_allDirty h hc hall hp hhull]
  · rw [shown_top_eq hc hsame hp hhull]

theorem composite_eq_repaint (h : d.Inv) (hc : d.Repaintable) (hpend : d.pending = true) (hp : d.wm.OnScreen p) :
    d.wm.composite d.contents d.fb p = d.wm.repaint d.contents p := by
  by_cases hdam : d.wm.damage.IsEmpty
  · -- nothing is drawn, and nothing is to be drawn
    have hhull : ¬ d.wm.InHull p := fun hin => State.not_isEmpty_of_inHull hp hin hdam
    have hcur : cursorLayer d.wm.screenW d.wm.screenH d.wm.ptr p = none := by
      by_contra hne
      exact State.not_isEmpty_of_cursor hp hne hdam
    rw [State.composite]
    dsimp only
    rw [if_pos hdam]
    exact fb_eq_repaint h hc hpend hp hhull hcur
  · by_cases hhull : d.wm.InHull p
    · rw [State.composite_eq hdam hp, if_pos ((State.damage_has_iff hp).mpr hhull), State.repaint_eq,
        redrawnTop_of_damaged hc hp hhull]
    · rw [State.composite_eq hdam hp, if_neg (mt (State.damage_has_iff hp).mp hhull)]
      cases hcur : cursorLayer d.wm.screenW d.wm.screenH d.wm.ptr p with
      | some a =>
        rw [State.repaint_eq, hcur]
        rfl
      | none =>
        cases htop : d.wm.redrawnTop d.contents p with
        | some a =>
          have hall := redrawnTop_of_redrawn hc hp hdam (by rw [htop]; exact Option.some_ne_none a)
          rw [State.repaint_eq, hcur, ← hall, htop]
          rfl
        | none => exact fb_eq_repaint h hc hpend hp hhull hcur

/-! ## Runs -/

theorem map_clean_flags {f : Window → Window} (hf : State.Flags f) (ws : List Window) :
    (ws.map f).map Window.clean = ws.map Window.clean := by
  rw [List.map_map]
  refine map_congr_left fun w _ => ?_
  obtain ⟨b, hb⟩ := hf w
  rw [Function.comp, hb]
  rfl

theorem Inv.request (h : d.Inv) {r : Request} (hstep : d.Step (.request r) d') : d'.Inv := by
  rw [Step, next] at hstep
  split at hstep
  · cases hstep
  · next hpend =>
    obtain ⟨o, ho, rfl⟩ := Option.map_eq_some_iff.mp hstep
    obtain ⟨live, htidy⟩ := h.tidy
    have hserved := State.served htidy.arranged ho
    obtain ⟨hw, hh, hquiet, hchanged⟩ := State.left_of_served hserved
    have hshown : d.shown.SameWindows d.wm := h.quiet (Bool.not_eq_true _ ▸ hpend)
    refine ⟨(State.Leaves.served htidy hserved).imp fun _ h => h.tidy, h.width.trans hw.symm, h.height.trans hh.symm, ?_, ?_, ?_, ?_⟩
    · intro w hmem hid
      show w.Fits o.state.screenW
      rw [hw]
      exact h.fits w hmem hid
    · intro p hp
      refine h.painted p ⟨?_, ?_⟩
      · rw [← hw]
        exact hp.1
      · rw [← hh]
        exact hp.2
    · exact fun hfalse => (hquiet hfalse).trans hshown
    · exact fun htrue => (hchanged htrue).imp_right fun hsame => hsame.trans hshown

theorem Inv.composite (h : d.Inv) (hc : d.Repaintable) (hstep : d.Step .composite d') : d'.Inv ∧ d'.UpToDate := by
  obtain ⟨hpend, hd'⟩ := Option.ite_none_right_eq_some.mp hstep
  obtain ⟨live, htidy⟩ := h.tidy
  -- no window changes but in its flag
  obtain ⟨f, hf, hwm⟩ := State.after_eq ⟨d.wm, none, true⟩
  rw [show d.wm.composited = _ from hwm] at hd'
  cases hd'
  have hpainted := fun p hp => composite_eq_repaint (p := p) h hc hpend hp
  refine ⟨⟨⟨_, htidy.map hf rfl rfl⟩, rfl, rfl, hc.fits, hpainted, ?_, fun hfalse => (nomatch hfalse)⟩, ?_⟩
  · exact fun _ => map_clean_flags hf d.wm.windows
  · intro p hp
    show d.wm.composite d.contents d.fb p = _
    rw [hpainted p hp, State.repaint_eq, State.repaint_eq, top_items_congr (map_clean_flags hf d.wm.windows)]

theorem Inv.step (h : d.Inv) {e : Event} (hready : d.Ready e) (hstep : d.Step e d') : d'.Inv := by
  cases e with
  | request r => exact h.request hstep
  | draw canvas picture =>
    -- a canvas is not on the screen before `composite`
    cases hstep
    exact { h with }
  | composite => exact (h.composite hready hstep).1

theorem inv_start (screenW screenH : Nat) (contents : Contents) : (start screenW screenH contents).Inv where
  tidy := ⟨[], State.tidy_start screenW screenH⟩
  width := rfl
  height := rfl
  fits w hw hid := by
    rw [eq_of_mem_replicate hw] at hid
    exact absurd rfl hid
  painted _ _ := rfl
  quiet _ := rfl
  changed hfalse := nomatch hfalse

/-- In every run in which `composite` is called under the condition only, it leaves the
framebuffer as a repaint from scratch would. -/
theorem upToDate_of_repaintable (screenW screenH : Nat) (contents : Contents) (es : List Event) (d d' : Desk)
    (h : LTS.Run (LTS.guarded Step Ready) (start screenW screenH contents) es d)
    (hc : d.Repaintable) (hstep : d.Step .composite d') : d'.UpToDate := by
  have hinv : d.Inv :=
    h.invariant_guarded (fun _ _ _ hinv hready hstep => hinv.step hready hstep) (inv_start screenW screenH contents)
  exact (hinv.composite hc hstep).2

/-- The first window was created, and nothing else has happened. -/
def FirstWindow (d : Desk) : Prop :=
  (∀ w ∈ d.wm.windows, w.id ≠ 0 → w.dirty = true ∧ w.Fits d.wm.screenW) ∧ d.shown.ptr = d.wm.ptr ∧
    (∀ w ∈ d.shown.windows, w.id = 0) ∧ d.wm.windows.Pairwise fun _ w' => w'.id = 0

instance (d : Desk) : Decidable d.FirstWindow :=
  inferInstanceAs (Decidable (_ ∧ _ ∧ _ ∧ _))

theorem FirstWindow.repaintable (h : d.FirstWindow) : d.Repaintable := by
  obtain ⟨hnew, hptr, hnone, hone⟩ := h
  refine ⟨fun w hw hid => (hnew w hw hid).2, ?_, ?_, ?_, ?_⟩
  · intro w hw hid hclean
    rw [(hnew w hw hid).1] at hclean
    cases hclean
  · rw [hptr]
    exact .inl ⟨rfl, rfl⟩
  · exact fun w hw hid => absurd (hnone w hw) hid
  · exact hone.imp fun hempty _ hid => absurd hempty hid

/-- A window of task 5, 200 by 100, with the title "Clock". -/
def createClock : Event :=
  .request (.create 5 200 100 0x50000 20 [67, 108, 111, 99, 107])

/-- The window appears: the pixel at (60, 60) is one of its canvas. -/
theorem upToDate_of_repaintable_clock :
    ∃ d d', LTS.Run (LTS.guarded Step Ready) (start 1024 768 fun _ _ _ => 7) [createClock] d ∧
      d.Repaintable ∧ d.Step .composite d' ∧ d.fb (60, 60) = bg ∧ d'.fb (60, 60) = 7 ∧ d'.UpToDate := by
  obtain ⟨d, hd, htest⟩ := (Option.any_eq_true (fun d : Desk => decide (d.FirstWindow ∧ d.fb (60, 60) = bg) &&
      (d.next .composite).any fun d' : Desk => decide (d'.fb (60, 60) = 7))
    ((start 1024 768 fun _ _ _ => 7).next createClock)).mp (by decide +kernel)
  obtain ⟨hbefore, hafter⟩ := Bool.and_eq_true_iff.mp htest
  obtain ⟨d', hd', hcanvas⟩ := (Option.any_eq_true ..).mp hafter
  obtain ⟨hfirst, hbg⟩ := of_decide_eq_true hbefore
  have hrun : LTS.Run (LTS.guarded Step Ready) (start 1024 768 fun _ _ _ => 7) [createClock] d :=
    .single ⟨trivial, hd⟩
  exact ⟨d, d', hrun, hfirst.repaintable, hd', hbg, of_decide_eq_true hcanvas,
    upToDate_of_repaintable _ _ _ _ d d' hrun hfirst.repaintable hd'⟩

/-- A window, the pointer far away from it, and then near it; each time the window is flushed. -/
def movePointer : List Event :=
  [.request (.create 5 200 100 0x50000 20 []), .composite,
    .request (.tick 5 1 500 500 0), .request (.flush 5 1), .composite,
    .request (.tick 5 1 300 100 0), .request (.flush 5 1)]

/-- The old cursor stays on the screen. -/
theorem old_cursor_stays :
    ∃ d d', LTS.Run Step (start 1024 768 fun _ _ _ => 7) movePointer d ∧ d.Step .composite d' ∧ ¬ d'.UpToDate := by
  obtain ⟨d, hrun, htest⟩ := LTS.Run.exists_of_exec next (S := Step) id (start 1024 768 fun _ _ _ => 7) movePointer
    (fun d : Desk => (d.next .composite).any fun d' : Desk =>
      decide (d'.wm.OnScreen (500, 500) ∧ d'.fb (500, 500) ≠ d'.wm.repaint d'.contents (500, 500)))
    (by decide +kernel)
  obtain ⟨d', hd', hstale⟩ := (Option.any_eq_true ..).mp htest
  obtain ⟨hon, hne⟩ := of_decide_eq_true hstale
  exact ⟨d, d', hrun, hd', fun hup => hne (hup _ hon)⟩

end Desk

end Tanix.Wm
