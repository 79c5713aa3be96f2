/-
# `Tanix.Wm.Server` — the requests of the window manager

The handlers of `wm/src/main.rs` over the window table.  A handler changes the state, answers
its sender and may call `composite`; here that call is its effect on the table (the windows it
redraws are clean afterwards), and what it paints is in `Tanix.Wm.Composite`.

A drag is kept as the number of a slot.  `grabbed` is not in the source: the id of the window
whose title bar received the press that started the drag in progress.
-/
import Tanix.Wm.Table
import Tanix.Lib.Run

namespace Tanix.Wm

open List

/-- `MAX_PAGES` -/
abbrev maxPages : Nat := 640

/-- `MIN_DIM` -/
abbrev minDim : Nat := 32

/-- `MAX_W` -/
abbrev maxW : Nat := 1024

/-- `MAX_H` -/
abbrev maxH : Nat := 640

/-- `u32::MAX`: no pointer was sampled yet -/
abbrev noPointer : Nat := 2 ^ 32 - 1

structure Pointer where
  x : Nat
  y : Nat
  buttons : Nat
  deriving DecidableEq, Repr

structure Drag where
  slot : Nat
  dx : Nat
  dy : Nat
  deriving DecidableEq, Repr

structure State where
  windows : List Window
  screenW : Nat
  screenH : Nat
  ptr : Pointer
  drag : Option Drag
  nextId : Nat
  created : Nat
  grabbed : Option Nat
  deriving DecidableEq, Repr

inductive Request
  | create (src w h canvas pages : Nat) (title : List UInt8)
  | flush (src id : Nat)
  | tick (src id px py pb : Nat)
  | close (src id : Nat)
  deriving DecidableEq, Repr

inductive Reply
  | created (id x y w h : Nat)
  | refused
  | done (ok : Bool)
  | pointer (x y buttons : Nat) (top : Bool)
  | away
  deriving DecidableEq, Repr

/-- What a handler leaves behind: the state, the answer, and whether `composite` is called. -/
structure Outcome where
  state : State
  reply : Option Reply
  composites : Bool
  deriving DecidableEq, Repr

def Request.src : Request → Nat
  | .create src _ _ _ _ _ | .flush src _ | .tick src _ _ _ _ | .close src _ => src

def Request.isCreate : Request → Bool
  | .create .. => true
  | _ => false

/-! ## The damaged rectangle -/

/-- Columns from `x0` up to `x1` and rows from `y0` up to `y1`, without the last ones. -/
structure Rect where
  x0 : Nat
  y0 : Nat
  x1 : Nat
  y1 : Nat
  deriving DecidableEq, Repr

def Rect.IsEmpty (r : Rect) : Prop :=
  r.x1 ≤ r.x0 ∨ r.y1 ≤ r.y0

instance (r : Rect) : Decidable r.IsEmpty :=
  inferInstanceAs (Decidable (_ ∨ _))

def Rect.Overlaps (r d : Rect) : Prop :=
  r.x0 < d.x1 ∧ d.x0 < r.x1 ∧ r.y0 < d.y1 ∧ d.y0 < r.y1

instance (r d : Rect) : Decidable (r.Overlaps d) :=
  inferInstanceAs (Decidable (_ ∧ _))

/-- The bounding union. -/
def Rect.join (d r : Rect) : Rect :=
  ⟨min d.x0 r.x0, min d.y0 r.y0, max d.x1 r.x1, max d.y1 r.y1⟩

/-- The part of a window's frame that is on the screen. -/
def Window.area (sw sh : Nat) (w : Window) : Rect :=
  ⟨(max w.bbox.x 0).toNat, (max w.bbox.y 0).toNat,
    min (max (w.bbox.x + w.bbox.w) 0).toNat sw, min (max (w.bbox.y + w.bbox.h) 0).toNat sh⟩

namespace State

variable (s : State)

def cursorArea : Rect :=
  ⟨s.ptr.x - 5, s.ptr.y - 5, min (s.ptr.x + 5) s.screenW, min (s.ptr.y + 5) s.screenH⟩

/-- The rectangle that `composite` repaints; it is empty where nothing is dirty. -/
def damage : Rect :=
  let dirty := s.windows.filter fun w => w.id ≠ 0 ∧ w.dirty
  let d := dirty.foldl (fun d w => d.join (w.area s.screenW s.screenH)) ⟨s.screenW, s.screenH, 0, 0⟩
  if s.ptr.x ≠ noPointer then d.join s.cursorArea else d

/-- Is a window redrawn? -/
def Redrawn (w : Window) : Prop :=
  w.id ≠ 0 ∧ (w.area s.screenW s.screenH).Overlaps s.damage

instance (w : Window) : Decidable (s.Redrawn w) :=
  inferInstanceAs (Decidable (_ ∧ _))

/-- The table after `composite`. -/
def composited : State :=
  if s.damage.IsEmpty then s
  else { s with windows := s.windows.map fun w => if s.Redrawn w then { w with dirty := false } else w }

/-! ## The handlers -/

def ValidWindow (w h canvas pages : Nat) : Prop :=
  minDim ≤ w ∧ w ≤ maxW ∧ minDim ≤ h ∧ h ≤ maxH ∧ pages ≤ maxPages ∧ w * h * 4 ≤ pages * 4096 ∧ canvas ≠ 0

instance (w h canvas pages : Nat) : Decidable (ValidWindow w h canvas pages) :=
  inferInstanceAs (Decidable (_ ∧ _))

/-- The window that `serve_create` makes. -/
def newWindow (src w h canvas : Nat) (title : List UInt8) : Window :=
  { id := s.nextId
    app := src
    x := min (40 + s.created % 3 * (w + 24)) (s.screenW - (w + 2 * border))
    y := 56 + s.created / 3 * (h + 48)
    w, h, canvas
    title := (title.take 12).takeWhile (· ≠ 0)
    dirty := true }

/-- `none`: an addition of 32-bit numbers overflows. -/
def serveCreate (src w h canvas pages : Nat) (title : List UInt8) : Option Outcome :=
  let slot := if ValidWindow w h canvas pages then findSlot s.windows 0 else none
  match slot with
  | none => some ⟨s, some .refused, false⟩
  | some slot =>
    let wd := s.newWindow src w h canvas title
    if wd.y < 2 ^ 32 ∧ s.nextId + 1 < 2 ^ 32 ∧ s.created + 1 < 2 ^ 32 then
      some ⟨{ s with
        windows := markAllDirty (s.windows.set slot wd), nextId := s.nextId + 1, created := s.created + 1 },
        some (.created wd.id wd.x wd.y w h), true⟩
    else none

def serveFlush (src id : Nat) : Outcome :=
  match findSlot s.windows id with
  | some slot =>
    if (at? s.windows slot).app = src then
      ⟨{ s with windows := s.windows.set slot { at? s.windows slot with dirty := true } },
        some (.done true), true⟩
    else ⟨s, some (.done false), false⟩
  | none => ⟨s, some (.done false), false⟩

/-- The window of a drag follows the pointer. -/
def dragged (d : Drag) : State :=
  let ws := clampMove s.windows s.screenW s.screenH d.slot (s.ptr.x - d.dx) (s.ptr.y - d.dy)
  { s with windows := markAllDirty ws }

def raised (hit : Nat) : State :=
  { s with windows := markAllDirty (raise s.windows hit) }

/-- A drag of slot `hit` begins; the press was on the window `id`. -/
def grab (hit id : Nat) : State :=
  let off := at? s.windows hit
  { s with drag := some ⟨hit, s.ptr.x - off.x, s.ptr.y - off.y⟩, grabbed := some id }

def release : State :=
  { s with drag := none, grabbed := none }

/-- The press edge: the left button is down, and was up in the sample before. -/
def Pressed (prev : Nat) : Prop :=
  s.ptr.buttons % 2 = 1 ∧ prev % 2 = 0

instance (prev : Nat) : Decidable (s.Pressed prev) :=
  inferInstanceAs (Decidable (_ ∧ _))

/-- A press on the window in slot `hit`. -/
def press (hit : Nat) : State × Bool :=
  let w := at? s.windows hit
  let top := hit = liveCount s.windows - 1
  if w.OnTitle s.ptr.x s.ptr.y ∧ ¬ top then ((s.raised hit).grab hit w.id, true)
  else if w.OnTitle s.ptr.x s.ptr.y then (s.grab hit w.id, false)
  else if ¬ top then (s.raised hit, true)
  else (s, false)

/-- The drag and raise state machine of `serve_tick`, after the pointer was sampled; `prev` are
the buttons of the sample before.  The second part tells whether the desktop is recomposited. -/
def drive (prev : Nat) : State × Bool :=
  match s.drag with
  | some d => if s.ptr.buttons % 2 = 1 then (s.dragged d, true) else (s.release, false)
  | none =>
    if s.Pressed prev then
      match hitWindow s.windows s.ptr.x s.ptr.y with
      | some hit => s.press hit
      | none => (s, false)
    else (s, false)

/-- The answer to a tick for the window in a slot. -/
def route (slot : Nat) : Reply :=
  let { x := px, y := py, buttons := pb } := s.ptr
  let w := at? s.windows slot
  if hitWindow s.windows px py = some slot then
    .pointer (min (px - w.x) w.w) (min (py - w.y) w.h) pb (slot = liveCount s.windows - 1)
  else .away

def serveTick (src id px py pb : Nat) : Outcome :=
  match findSlot s.windows id with
  | some slot =>
    if (at? s.windows slot).app = src then
      let r := drive { s with ptr := ⟨px, py, pb⟩ } s.ptr.buttons
      ⟨r.1, some (r.1.route slot), r.2⟩
    else ⟨s, none, false⟩
  | none => ⟨s, none, false⟩

/-- A drag of the slot that is closed ends. -/
def endDrag (slot : Nat) : State :=
  match s.drag with
  | some d => if d.slot = slot then s.release else s
  | none => s

def serveClose (src id : Nat) : Outcome :=
  match findSlot s.windows id with
  | some slot =>
    if (at? s.windows slot).app = src then
      ⟨{ s.endDrag slot with windows := markAllDirty (remove s.windows slot) }, some (.done true), true⟩
    else ⟨s, some (.done false), false⟩
  | none => ⟨s, some (.done false), false⟩

def serve : Request → Option Outcome
  | .create src w h canvas pages title => s.serveCreate src w h canvas pages title
  | .flush src id => some (s.serveFlush src id)
  | .tick src id px py pb => some (s.serveTick src id px py pb)
  | .close src id => some (s.serveClose src id)

end State

/-- The state after a request. -/
def Outcome.after (o : Outcome) : State :=
  if o.composites then o.state.composited else o.state

namespace State

def next (s : State) (r : Request) : Option State :=
  (s.serve r).map Outcome.after

def Step (s : State) (r : Request) (s' : State) : Prop :=
  s.next r = some s'

/-- The state before the first request. -/
def start (screenW screenH : Nat) : State :=
  { windows := List.replicate maxWindows .empty, screenW, screenH, ptr := ⟨noPointer, noPointer, 0⟩
    drag := none, nextId := 1, created := 0, grabbed := none }

/-! ## What the handlers do to the windows -/

/-- A window as `serve_create` makes them, with an id that was given out. -/
structure Given (nextId : Nat) (w : Window) : Prop where
  id : w.id < nextId
  width : minDim ≤ w.w
  height : minDim ≤ w.h

/-- The windows of the table are `live`, bottom to top. -/
structure Tidy (s : State) (live : List Window) : Prop where
  arranged : Arranged s.windows live
  given : ∀ w ∈ live, Given s.nextId w
  positive : 0 < s.nextId

variable {s s' : State} {live : List Window}

/-- Changes of nothing but dirty flags. -/
def Flags (f : Window → Window) : Prop :=
  ∀ w, ∃ b, f w = { w with dirty := b }

/-- What `mark_all_dirty` does to a window. -/
def dirtied (w : Window) : Window :=
  if w.id ≠ 0 then { w with dirty := true } else w

theorem flags_ite (p : Window → Prop) [DecidablePred p] (b : Bool) :
    Flags fun w => if p w then { w with dirty := b } else w := by
  intro w
  by_cases h : p w
  · exact ⟨b, if_pos h⟩
  · exact ⟨w.dirty, if_neg h⟩

theorem flags_dirtied : Flags dirtied :=
  flags_ite (fun w => w.id ≠ 0) true

section Flags

variable {f : Window → Window} (hf : Flags f) (w : Window)

include hf

theorem Flags.id_eq : (f w).id = w.id := by
  obtain ⟨b, hb⟩ := hf w
  rw [hb]

theorem Flags.x_eq : (f w).x = w.x := by
  obtain ⟨b, hb⟩ := hf w
  rw [hb]

theorem Flags.y_eq : (f w).y = w.y := by
  obtain ⟨b, hb⟩ := hf w
  rw [hb]

theorem Flags.given {nextId : Nat} (h : Given nextId w) : Given nextId (f w) := by
  obtain ⟨b, hb⟩ := hf w
  rw [hb]
  exact ⟨h.id, h.width, h.height⟩

end Flags

theorem Tidy.map {f : Window → Window} (h : Tidy s live) (hf : Flags f)
    (hws : s'.windows = s.windows.map f) (hid : s'.nextId = s.nextId) : Tidy s' (live.map f) where
  arranged := by
    rw [hws]
    exact h.arranged.arranged_map hf.id_eq
  given w hw := by
    obtain ⟨v, hv, rfl⟩ := List.mem_map.mp hw
    rw [hid]
    exact hf.given v (h.given v hv)
  positive := by
    rw [hid]
    exact h.positive

/-- `composite` touches nothing but flags. -/
theorem after_eq (o : Outcome) : ∃ f, Flags f ∧ o.after = { o.state with windows := o.state.windows.map f } := by
  have hsame : ∃ f, Flags f ∧ o.state = { o.state with windows := o.state.windows.map f } :=
    ⟨fun w => w, fun w => ⟨w.dirty, rfl⟩, by rw [List.map_id']⟩
  rw [Outcome.after]
  split
  · rw [composited]
    split
    · exact hsame
    · exact ⟨_, flags_ite (fun w => o.state.Redrawn w) false, rfl⟩
  · exact hsame

theorem Tidy.same (h : Tidy s live) (hws : s'.windows = s.windows) (hid : s'.nextId = s.nextId) : Tidy s' live := by
  refine ⟨?_, ?_, ?_⟩
  · rw [hws]
    exact h.arranged
  · rw [hid]
    exact h.given
  · rw [hid]
    exact h.positive

/-- What a tick does to the windows and to a drag. -/
inductive Driven (s : State) (live : List Window) (prev : Nat) : State × Bool → Prop
  | held {d : Drag} : s.drag = some d → s.ptr.buttons % 2 = 1 → Driven s live prev (s.dragged d, true)
  | released {d : Drag} : s.drag = some d → s.ptr.buttons % 2 ≠ 1 → Driven s live prev (s.release, false)
  | quiet : s.drag = none → Driven s live prev (s, false)
  | grabBelow {front back : List Window} {w : Window} : s.drag = none → s.Pressed prev →
      live = front ++ w :: back → back ≠ [] → hitWindow s.windows s.ptr.x s.ptr.y = some front.length →
      w.OnTitle s.ptr.x s.ptr.y →
      Driven s live prev ((s.raised front.length).grab front.length w.id, true)
  | grabTop {front : List Window} {w : Window} : s.drag = none → live = front ++ [w] →
      Driven s live prev (s.grab front.length w.id, false)
  | clickBelow {front back : List Window} {w : Window} : s.drag = none → s.Pressed prev →
      live = front ++ w :: back → back ≠ [] → hitWindow s.windows s.ptr.x s.ptr.y = some front.length →
      Driven s live prev (s.raised front.length, true)

theorem driven (h : Arranged s.windows live) (prev : Nat) : Driven s live prev (s.drive prev) := by
  rw [drive]
  split
  · next d hdrag =>
    split
    · next hb => exact .held hdrag hb
    · next hb => exact .released hdrag hb
  · next hdrag =>
    split
    · next hpress =>
      split
      · next hit hhit =>
        have hlive := hhit
        rw [h.hitWindow_live] at hlive
        obtain ⟨front, w, back, rfl, rfl, -, -⟩ := hitWindow_split hlive
        have htop : front.length = liveCount s.windows - 1 ↔ back = [] := by
          rw [h.top_eq, ← length_eq_zero_iff]
          omega
        rw [press, h.at?_eq]
        simp only [htop]
        split
        · next hc => exact .grabBelow hdrag hpress rfl hc.2 hhit hc.1
        · next hc =>
          split
          · next htitle =>
              obtain rfl : back = [] := not_not.mp fun hne => hc ⟨htitle, hne⟩
              exact .grabTop hdrag rfl
          · split
            · next hback => exact .clickBelow hdrag hpress rfl hback hhit
            · exact .quiet hdrag
      · exact .quiet hdrag
    · exact .quiet hdrag

/-- The window of a drag, where the pointer wants it. -/
def target (s : State) (d : Drag) : Window :=
  { at? s.windows d.slot with
    x := min (s.ptr.x - d.dx) (s.screenW - ((at? s.windows d.slot).w + 2 * border))
    y := min (s.ptr.y - d.dy) (s.screenH - ((at? s.windows d.slot).h + titleH + 2 * border)) }

/-- One slot changes, but neither its id nor its size. -/
theorem Tidy.set (h : Tidy s live) {slot : Nat} {w : Window} (hid : w.id = (at? s.windows slot).id)
    (hw : w.w = (at? s.windows slot).w) (hh : w.h = (at? s.windows slot).h)
    (hws : s'.windows = s.windows.set slot w) (hnext : s'.nextId = s.nextId) : Tidy s' (live.set slot w) := by
  have harr := (h.arranged.arranged_set hid).1
  refine ⟨?_, ?_, ?_⟩
  · rw [hws]
    exact harr
  · intro v hv
    rw [hnext]
    rcases mem_or_eq_of_mem_set hv with hv' | rfl
    · exact h.given v hv'
    · have hne := harr.named _ hv
      rw [hid] at hne
      have hgiven := h.given _ (h.arranged.at?_mem hne)
      exact ⟨hid ▸ hgiven.id, hw ▸ hgiven.width, hh ▸ hgiven.height⟩
  · rw [hnext]
    exact h.positive

theorem Tidy.dragged (h : Tidy s live) (d : Drag) :
    Tidy (s.dragged d) ((live.set d.slot (s.target d)).map dirtied) := by
  have hset : Tidy { s with windows := s.windows.set d.slot (s.target d) } (live.set d.slot (s.target d)) :=
    h.set rfl rfl rfl rfl rfl
  exact hset.map flags_dirtied rfl rfl

theorem Tidy.raised {front back : List Window} {w : Window} (h : Tidy s (front ++ w :: back)) :
    Tidy (s.raised front.length) ((front ++ back ++ [w]).map dirtied) := by
  have hraised : Tidy { s with windows := raise s.windows front.length } (front ++ back ++ [w]) := by
    refine ⟨h.arranged.arranged_raise, fun v hv => h.given v ?_, h.positive⟩
    simpa [or_assoc, or_comm, or_left_comm] using hv
  exact hraised.map flags_dirtied rfl rfl

/-- A window that was created is on top of the others. -/
theorem Tidy.added (h : Tidy s live) {slot : Nat} (hslot : findSlot s.windows 0 = some slot) {w : Window}
    (hid : w.id = s.nextId) (hw : minDim ≤ w.w) (hh : minDim ≤ w.h) (hws : s'.windows = markAllDirty (s.windows.set slot w))
    (hnext : s'.nextId = s.nextId + 1) : Tidy s' ((live ++ [w]).map dirtied) := by
  have hnew : w.id ∉ live.map Window.id := by
    intro hmem
    obtain ⟨v, hv, hvid⟩ := List.mem_map.mp hmem
    have := (h.given v hv).id
    omega
  have hpos := h.positive
  have hadded : Tidy { s with windows := s.windows.set slot w, nextId := s.nextId + 1 } (live ++ [w]) := by
    refine ⟨h.arranged.arranged_add hslot (by omega) hnew, fun v hv => ?_, Nat.succ_pos _⟩
    rcases mem_append.mp hv with hv | hv
    · exact { h.given v hv with id := Nat.lt_succ_of_lt (h.given v hv).id }
    · rw [mem_singleton.mp hv]
      exact ⟨Nat.lt_succ_of_le (Nat.le_of_eq hid), hw, hh⟩
  exact hadded.map flags_dirtied hws hnext

/-- What a request leaves of the table, in terms of its windows. -/
inductive Served (s : State) (live : List Window) : Request → Outcome → Prop
  | nothing {r : Request} {reply : Option Reply} : Served s live r ⟨s, reply, false⟩
  | created {src w h canvas pages slot : Nat} {title : List UInt8} {s' : State} {reply : Option Reply} :
      ValidWindow w h canvas pages → findSlot s.windows 0 = some slot →
      s' = { s with
        windows := markAllDirty (s.windows.set slot (s.newWindow src w h canvas title))
        nextId := s.nextId + 1, created := s.created + 1 } →
      Served s live (.create src w h canvas pages title) ⟨s', reply, true⟩
  | flushed {src id slot : Nat} {s' : State} {reply : Option Reply} : findSlot s.windows id = some slot →
      s' = { s with windows := s.windows.set slot { at? s.windows slot with dirty := true } } →
      Served s live (.flush src id) ⟨s', reply, true⟩
  | ticked {src id px py pb slot : Nat} {r : State × Bool} : findSlot s.windows id = some slot →
      (at? s.windows slot).app = src →
      Driven { s with ptr := ⟨px, py, pb⟩ } live s.ptr.buttons r →
      Served s live (.tick src id px py pb) ⟨r.1, some (r.1.route slot), r.2⟩
  | closed {src id slot : Nat} {s' : State} {reply : Option Reply} : findSlot s.windows id = some slot →
      (at? s.windows slot).app = src →
      s' = { s.endDrag slot with windows := markAllDirty (remove s.windows slot) } →
      Served s live (.close src id) ⟨s', reply, true⟩

theorem served (h : Arranged s.windows live) {r : Request} {o : Outcome} (ho : s.serve r = some o) :
    Served s live r o := by
  cases r with
  | create src w h canvas pages title =>
    rw [serve, serveCreate] at ho
    dsimp only at ho
    split at ho
    · cases ho
      exact .nothing
    · next slot hslot =>
      obtain ⟨hvalid, hslot⟩ := Option.ite_none_right_eq_some.mp hslot
      obtain ⟨-, ⟨⟩⟩ := Option.ite_none_right_eq_some.mp ho
      exact .created hvalid hslot rfl
  | flush src id =>
    cases ho
    rw [serveFlush]
    split
    · next slot hslot =>
      split
      · exact .flushed hslot rfl
      · exact .nothing
    · exact .nothing
  | tick src id px py pb =>
    cases ho
    rw [serveTick]
    split
    · next slot hslot =>
      split
      · next happ => exact .ticked hslot happ (driven (s := { s with ptr := ⟨px, py, pb⟩ }) h s.ptr.buttons)
      · exact .nothing
    · exact .nothing
  | close src id =>
    cases ho
    rw [serveClose]
    split
    · next slot hslot =>
      split
      · next happ => exact .closed hslot happ rfl
      · exact .nothing
    · exact .nothing

/-! ## Slots without a window -/

/-- The slots without a window belong to the task 0. -/
def Vacant (ws : List Window) : Prop :=
  ∀ w ∈ ws, w.id = 0 → w.app = 0

section Vacant

variable {ws : List Window}

theorem findSlot_id {id slot : Nat} (h : findSlot ws id = some slot) : (at? ws slot).id = id := by
  obtain ⟨hlt, hw, -⟩ := findIdx?_eq_some_iff_getElem.mp h
  rw [at?, getD_eq_getElem?_getD, getElem?_eq_getElem hlt]
  exact of_decide_eq_true hw

variable (h : Vacant ws)

include h

theorem Vacant.at? (slot : Nat) (h0 : (at? ws slot).id = 0) : (at? ws slot).app = 0 := by
  rw [Wm.at?, getD_eq_getElem?_getD] at h0 ⊢
  cases hw : ws[slot]? with
  | none => rfl
  | some w =>
    rw [hw] at h0
    exact h w (mem_of_getElem? hw) h0

theorem Vacant.set {w : Window} (hw : w.id = 0 → w.app = 0) (slot : Nat) : Vacant (ws.set slot w) := by
  intro v hv
  rcases mem_or_eq_of_mem_set hv with hv | rfl
  · exact h v hv
  · exact hw

theorem Vacant.shiftDown (a b : Nat) : Vacant (shiftDown ws a b) := by
  rw [Wm.shiftDown]
  induction List.range' a (b - a) generalizing ws with
  | nil => exact h
  | cons i l ih => exact ih (h.set (h.at? _) i)

theorem Vacant.raise (slot : Nat) : Vacant (raise ws slot) := by
  rw [Wm.raise]
  split
  · exact h
  · exact (h.shiftDown _ _).set (h.at? slot) _

theorem Vacant.remove (slot : Nat) : Vacant (remove ws slot) :=
  ((h.set (fun _ => rfl) slot).shiftDown _ _).set (fun _ => rfl) _

theorem Vacant.map {f : Window → Window} (hf : State.Flags f) : Vacant (ws.map f) := by
  intro w hw h0
  obtain ⟨v, hv, rfl⟩ := mem_map.mp hw
  obtain ⟨b, hb⟩ := hf v
  rw [hb] at h0 ⊢
  exact h v hv h0

end Vacant

theorem endDrag_nextId (s : State) (slot : Nat) : (s.endDrag slot).nextId = s.nextId := by
  rw [endDrag]
  split
  · split
    · rfl
    · rfl
  · rfl

/-- What a request does to the ids of the windows, bottom to top. -/
inductive Reorders (s : State) : Request → List Nat → List Nat → Prop
  | keeps {r : Request} {ids : List Nat} : Reorders s r ids ids
  | adds {src w h canvas pages id : Nat} {title : List UInt8} {ids : List Nat} :
      Reorders s (.create src w h canvas pages title) ids (ids ++ [id])
  | raises {src id px py pb top : Nat} {front back : List Nat} :
      hitWindow s.windows px py = some front.length →
      Reorders s (.tick src id px py pb) (front ++ top :: back) (front ++ back ++ [top])
  | removes {src id : Nat} {front back : List Nat} :
      Reorders s (.close src id) (front ++ id :: back) (front ++ back)

/-- What a request leaves: the windows `live'` where there were `live`. -/
structure Leaves (s : State) (live : List Window) (r : Request) (s' : State) (live' : List Window) : Prop where
  tidy : Tidy s' live'
  vacant : Vacant s.windows → Vacant s'.windows
  order : Vacant s.windows → r.src ≠ 0 → s.Reorders r (live.map Window.id) (live'.map Window.id)
  given : s'.nextId ≤ s.nextId + [r].countP Request.isCreate

variable {s'' : State} {live' : List Window} {r : Request}

theorem ids_map {f : Window → Window} (hf : Flags f) (live : List Window) :
    (live.map f).map Window.id = live.map Window.id := by
  rw [map_map]
  exact map_congr_left fun w _ => hf.id_eq w

theorem Leaves.map {f : Window → Window} (h : Leaves s live r s' live') (hf : Flags f)
    (hws : s''.windows = s'.windows.map f) (hnext : s''.nextId = s'.nextId) :
    Leaves s live r s'' (live'.map f) where
  tidy := h.tidy.map hf hws hnext
  vacant hv := hws ▸ (h.vacant hv).map hf
  order hv hsrc := by
    rw [ids_map hf]
    exact h.order hv hsrc
  given := hnext ▸ h.given

theorem Leaves.same (h : Tidy s live) (hws : s'.windows = s.windows) (hnext : s'.nextId = s.nextId) :
    ∃ live', Leaves s live r s' live' :=
  ⟨live, h.same hws hnext, fun hv => hws ▸ hv, fun _ _ => .keeps, hnext ▸ Nat.le_add_right _ _⟩

/-- One slot changes, but neither its id nor its size nor its owner. -/
theorem Leaves.set (h : Tidy s live) {slot : Nat} {w : Window} (hid : w.id = (at? s.windows slot).id)
    (hw : w.w = (at? s.windows slot).w) (hh : w.h = (at? s.windows slot).h)
    (happ : w.app = (at? s.windows slot).app) (r : Request) :
    Leaves s live r { s with windows := s.windows.set slot w } (live.set slot w) where
  tidy := h.set hid hw hh rfl rfl
  vacant hv := hv.set (by rw [hid, happ]; exact hv.at? slot) slot
  order _ _ := by
    rw [(h.arranged.arranged_set hid).2]
    exact .keeps
  given := Nat.le_add_right _ _

theorem Leaves.raised {front back : List Window} {w : Window} (h : Tidy s (front ++ w :: back))
    {src id px py pb : Nat} (hhit : hitWindow s.windows px py = some front.length)
    (hws : s'.windows = (s.raised front.length).windows) (hnext : s'.nextId = s.nextId) :
    ∃ live', Leaves s (front ++ w :: back) (.tick src id px py pb) s' live' := by
  refine ⟨_, h.raised.same hws hnext, ?_, fun _ _ => ?_, hnext ▸ Nat.le_add_right _ _⟩
  · intro hv
    rw [hws]
    exact (hv.raise _).map flags_dirtied
  · rw [ids_map flags_dirtied, map_append, map_append, map_append, map_cons]
    refine .raises ?_
    rw [length_map]
    exact hhit

theorem Leaves.driven (h : Tidy s live) {src id px py pb : Nat} {o : State × Bool}
    (ho : Driven { s with ptr := ⟨px, py, pb⟩ } live s.ptr.buttons o) :
    ∃ live', Leaves s live (.tick src id px py pb) o.1 live' := by
  cases ho with
  | @held d _ _ =>
    have hset := Leaves.set h (w := target { s with ptr := ⟨px, py, pb⟩ } d) rfl rfl rfl rfl
      (.tick src id px py pb)
    exact ⟨_, hset.map flags_dirtied rfl rfl⟩
  | released _ _ => exact Leaves.same h rfl rfl
  | quiet _ => exact Leaves.same h rfl rfl
  | grabBelow _ _ hlive _ hhit _ =>
    subst hlive
    exact Leaves.raised h hhit rfl rfl
  | grabTop _ _ => exact Leaves.same h rfl rfl
  | clickBelow _ _ hlive _ hhit =>
    subst hlive
    exact Leaves.raised h hhit rfl rfl

theorem Leaves.added (h : Tidy s live) {slot src w ht canvas pages : Nat} {title : List UInt8} {v : Window}
    (hslot : findSlot s.windows 0 = some slot) (hvalid : ValidWindow w ht canvas pages)
    (hid : v.id = s.nextId) (hw : v.w = w) (hh : v.h = ht)
    (hws : s'.windows = markAllDirty (s.windows.set slot v)) (hnext : s'.nextId = s.nextId + 1) :
    ∃ live', Leaves s live (.create src w ht canvas pages title) s' live' := by
  refine ⟨_, h.added hslot hid (hw ▸ hvalid.1) (hh ▸ hvalid.2.2.1) hws hnext, fun hv => ?_, fun _ _ => ?_,
    Nat.le_of_eq hnext⟩
  · rw [hws]
    refine (hv.set (fun h0 => ?_) slot).map flags_dirtied
    exact absurd (hid.symm.trans h0) (Nat.ne_of_gt h.positive)
  · rw [ids_map flags_dirtied, map_append]
    exact .adds

theorem Leaves.closed (h : Tidy s live) {src id slot : Nat} (hslot : findSlot s.windows id = some slot)
    (happ : (at? s.windows slot).app = src) :
    ∃ live', Leaves s live (.close src id) { s with windows := remove s.windows slot } live' := by
  rcases eq_or_ne id 0 with rfl | hid
  · refine ⟨live.dropLast, ⟨h.arranged.arranged_remove_zero hslot, ?_, h.positive⟩, fun hv => hv.remove slot,
      fun hv hsrc => ?_, Nat.le_add_right _ _⟩
    · exact fun w hw => h.given w ((dropLast_sublist live).subset hw)
    · -- a slot without a window has no owner
      exact absurd (happ.symm.trans (hv.at? slot (findSlot_id hslot))) hsrc
  · obtain ⟨front, w, back, rfl, rfl, rfl⟩ := h.arranged.findSlot_split hid hslot
    refine ⟨front ++ back, ⟨h.arranged.arranged_remove, ?_, h.positive⟩, fun hv => hv.remove _, fun _ _ => ?_,
      Nat.le_add_right _ _⟩
    · exact fun v hv => h.given v ((sublist_without front back w).subset hv)
    · rw [map_append, map_append, map_cons]
      exact .removes

theorem Leaves.served (h : Tidy s live) {o : Outcome} (ho : Served s live r o) :
    ∃ live', Leaves s live r o.state live' := by
  cases ho with
  | nothing => exact Leaves.same h rfl rfl
  | created hvalid hslot hs' =>
    subst hs'
    exact Leaves.added h hslot hvalid rfl rfl rfl rfl rfl
  | @flushed _ _ slot _ _ _ hs' =>
    subst hs'
    exact ⟨_, Leaves.set h (w := { at? s.windows slot with dirty := true }) rfl rfl rfl rfl _⟩
  | ticked _ _ hdriven => exact Leaves.driven h hdriven
  | closed hslot happ hs' =>
    obtain ⟨live', hleaves⟩ := Leaves.closed h hslot happ
    subst hs'
    exact ⟨_, hleaves.map flags_dirtied rfl (endDrag_nextId _ _)⟩

theorem Leaves.after {o : Outcome} (h : ∃ live', Leaves s live r o.state live') :
    ∃ live', Leaves s live r o.after live' := by
  obtain ⟨live', hleaves⟩ := h
  obtain ⟨f, hf, hafter⟩ := after_eq o
  rw [hafter]
  exact ⟨_, hleaves.map hf rfl rfl⟩

/-- The windows of the table fill its first slots, whatever is asked for. -/
theorem Tidy.step (h : Tidy s live) (hstep : s.Step r s') : ∃ live', Tidy s' live' := by
  obtain ⟨o, ho, rfl⟩ := Option.map_eq_some_iff.mp hstep
  obtain ⟨live', hleaves⟩ := Leaves.after (Leaves.served h (State.served h.arranged ho))
  exact ⟨live', hleaves.tidy⟩

theorem tidy_start (screenW screenH : Nat) : Tidy (start screenW screenH) [] where
  arranged := by
    refine ⟨⟨List.replicate maxWindows .empty, rfl, ?_⟩, ?_, nodup_nil⟩
    · intro w hw
      rw [eq_of_mem_replicate hw]
      rfl
    · intro w hw
      cases hw
  given _ hw := nomatch hw
  positive := Nat.one_pos

theorem tidy_of_run {screenW screenH : Nat} {rs : List Request} (h : LTS.Run Step (start screenW screenH) rs s) :
    ∃ live, Tidy s live := by
  have hkeep : ∀ s r s', (∃ live, Tidy s live) → Step s r s' → ∃ live, Tidy s' live := by
    rintro s r s' ⟨live, htidy⟩ hstep
    exact htidy.step hstep
  exact h.invariant hkeep ⟨[], tidy_start screenW screenH⟩

end State

end Tanix.Wm
