/-
# `Tanix.Wm.Composite` — what is on the screen

`composite` of `wm/src/main.rs` as the requests that it sends to the display server: it clears
the damaged rectangle, redraws every window whose frame meets it, bottom to top, and draws the
cursor.  `repaint` is what it should come to: the whole screen cleared, every window redrawn.

A `Desk` is the window manager with the framebuffer and with what the applications have drawn
on their canvases, which they do whenever they like.  Handlers and `composite` are steps of
their own.  `shown` and `shownContents` are not in the source: windows, pointer and canvases as
they were in the last `composite`.
-/
import Tanix.Wm.Server
import Tanix.Display.Draw

namespace Tanix.Wm

open Display Layers

/-! ## The palette -/

def bg : Pixel := rgb 0x1e 0x20 0x28
def borderC : Pixel := rgb 0x0c 0x0e 0x12
def titleActive : Pixel := rgb 0x3a 0x6a 0xc8
def titleInactive : Pixel := rgb 0x2c 0x30 0x3a
def titleText : Pixel := rgb 0xd8 0xdc 0xe8
def cursorA : Pixel := rgb 0xff 0xff 0xff
def cursorB : Pixel := rgb 0x00 0x00 0x00

/-! ## Windows -/

/-- The pixels of each canvas, by column and row. -/
abbrev Contents := Nat → Nat → Nat → Pixel

def upper (b : UInt8) : UInt8 :=
  if 97 ≤ b.toNat ∧ b.toNat ≤ 122 then b - 32 else b

variable (w : Window)

/-- The title as it is drawn: nothing, where it is no UTF-8. -/
def Window.text : List UInt8 :=
  let s := w.title.map upper
  if (ByteArray.mk s.toArray).validateUTF8 then s else []

variable (W H : Nat)

def Window.borderLayer (w : Window) : Layer :=
  fillRect W H (w.x - border) (w.y - (titleH + border)) (w.w + 2 * border) (w.h + titleH + 2 * border) borderC

variable (c : Contents)

def Window.canvasLayer (w : Window) : Layer :=
  blit W H (c w.canvas) w.w w.h w.x w.y

def Window.titleLayer (active : Bool) (w : Window) : Layer :=
  fillRect W H w.x (w.y - titleH) w.w titleH (if active then titleActive else titleInactive)

def Window.textLayer (w : Window) : Layer :=
  drawText W H (w.x + 4) (w.y - titleH + (titleH - 8) / 2) titleText w.text

/-- The requests for one window. -/
def drawWindow (fb : Point → Pixel) (item : Window × Bool) : Point → Pixel :=
  let fb := overlay fb (item.1.borderLayer W H)
  let fb := overlay fb (item.1.canvasLayer W H c)
  let fb := overlay fb (item.1.titleLayer W H item.2)
  overlay fb (item.1.textLayer W H)

/-- A window as one layer. -/
def layer (item : Window × Bool) : Layer :=
  fun p => (item.1.textLayer W H p).or ((item.1.titleLayer W H item.2 p).or
    ((item.1.canvasLayer W H c p).or (item.1.borderLayer W H p)))

/-- White ring on black hole. -/
def cursorLayer (ptr : Pointer) : Layer :=
  fun p =>
    if ptr.x ≠ noPointer then
      (fillRect W H (ptr.x - 3) (ptr.y - 3) 7 7 cursorB p).or (fillRect W H (ptr.x - 4) (ptr.y - 4) 9 9 cursorA p)
    else none

/-- The windows of a table, bottom to top; the topmost one is active. -/
def items (ws : List Window) : List (Window × Bool) :=
  (ws.zipIdx.filter (·.1.id ≠ 0)).map fun x => (x.1, x.2 = liveCount ws - 1)

namespace State

variable (s : State)

/-- The framebuffer after `composite`. -/
def composite (c : Contents) (fb : Point → Pixel) : Point → Pixel :=
  let W := s.screenW
  let H := s.screenH
  let d := s.damage
  if d.IsEmpty then fb
  else
    let fb := overlay fb (fillRect W H d.x0 d.y0 (d.x1 - d.x0) (d.y1 - d.y0) bg)
    let fb := ((items s.windows).filter (s.Redrawn ·.1)).foldl (drawWindow W H c) fb
    overlay fb (cursorLayer W H s.ptr)

/-- A repaint from scratch. -/
def repaint (c : Contents) : Point → Pixel :=
  let fb := (items s.windows).foldl (drawWindow s.screenW s.screenH c) fun _ => bg
  overlay fb (cursorLayer s.screenW s.screenH s.ptr)

def OnScreen (p : Point) : Prop :=
  p.1 < s.screenW ∧ p.2 < s.screenH

instance (p : Point) : Decidable (s.OnScreen p) :=
  inferInstanceAs (Decidable (_ ∧ _))

/-- What the damaged rectangle is put around. -/
def marks : List Rect :=
  (s.windows.filter fun w => w.id ≠ 0 ∧ w.dirty).map (Window.area s.screenW s.screenH) ++
    if s.ptr.x ≠ noPointer then [s.cursorArea] else []

/-- The point is inside of the smallest rectangle around dirty windows and cursor. -/
structure InHull (s : State) (p : Point) : Prop where
  left : ∃ r ∈ s.marks, r.x0 ≤ p.1
  right : ∃ r ∈ s.marks, p.1 < r.x1
  upper : ∃ r ∈ s.marks, r.y0 ≤ p.2
  lower : ∃ r ∈ s.marks, p.2 < r.y1

/-- A part of the window is there. -/
def Touches (w : Window) : Prop :=
  ∃ p, s.OnScreen p ∧ w.Frame p.1 p.2 ∧ s.InHull p

end State

/-- The window is inside of its frame: no border at the edge of the screen, no title that is too
long. -/
structure Window.Fits (W : Nat) (w : Window) : Prop where
  placed : w.Placed
  right : w.x + w.w ≤ W
  title : 4 + glyphAdv * w.title.length ≤ w.w

instance (w : Window) : Decidable (w.Fits W) :=
  decidable_of_iff (w.Placed ∧ w.x + w.w ≤ W ∧ 4 + glyphAdv * w.title.length ≤ w.w)
    ⟨fun h => ⟨h.1, h.2.1, h.2.2⟩, fun h => ⟨h.placed, h.right, h.title⟩⟩

/-- A window without its flag. -/
def Window.clean : Window :=
  { w with dirty := false }

/-! ## The desk -/

structure Desk where
  wm : State
  contents : Contents
  fb : Point → Pixel
  pending : Bool
  shown : State
  shownContents : Contents

namespace Desk

inductive Event
  | request (r : Request)
  | draw (canvas : Nat) (picture : Nat → Nat → Pixel)
  | composite

def next (d : Desk) : Event → Option Desk
  | .request r =>
    if d.pending then none
    else (d.wm.serve r).map fun o => { d with wm := o.state, pending := o.composites }
  | .draw canvas picture => some { d with contents := Function.update d.contents canvas picture }
  | .composite =>
    if d.pending then
      some { d with
        wm := d.wm.composited, fb := d.wm.composite d.contents d.fb, pending := false
        shown := d.wm, shownContents := d.contents }
    else none

def Step (d : Desk) (e : Event) (d' : Desk) : Prop :=
  d.next e = some d'

/-- The desktop after the first fill. -/
def start (screenW screenH : Nat) (contents : Contents) : Desk :=
  { wm := .start screenW screenH, contents, fb := fun _ => bg, pending := false
    shown := .start screenW screenH, shownContents := contents }

/-- The framebuffer shows the state as it is. -/
def UpToDate (d : Desk) : Prop :=
  ∀ p, d.wm.OnScreen p → d.fb p = d.wm.repaint d.contents p

/-- Before `composite`: every window fits its frame, those that are not dirty are as they were
shown, and what is to be seen no more — the old cursor, a window that was closed or moved — lies
inside of the rectangle around what is dirty; a window above another that reaches into that
rectangle reaches into it too, where the two meet. -/
structure Repaintable (d : Desk) : Prop where
  fits : ∀ w ∈ d.wm.windows, w.id ≠ 0 → w.Fits d.wm.screenW
  drawn : ∀ w ∈ d.wm.windows, w.id ≠ 0 → w.dirty = false → d.contents w.canvas = d.shownContents w.canvas
  cursor : d.shown.ptr.x = d.wm.ptr.x ∧ d.shown.ptr.y = d.wm.ptr.y ∨
    ∀ p, d.wm.OnScreen p → cursorLayer d.wm.screenW d.wm.screenH d.shown.ptr p ≠ none → d.wm.InHull p
  gone : ∀ w ∈ d.shown.windows, w.id ≠ 0 → w.clean ∈ d.wm.windows.map Window.clean ∨
    ∀ p, d.wm.OnScreen p → w.Frame p.1 p.2 → d.wm.InHull p
  above : d.wm.windows.Pairwise fun w w' => w.id ≠ 0 → w'.id ≠ 0 → d.wm.Touches w →
    (∃ p, d.wm.OnScreen p ∧ w.Frame p.1 p.2 ∧ w'.Frame p.1 p.2) → d.wm.Touches w'

def Ready (d : Desk) : Event → Prop
  | .composite => d.Repaintable
  | _ => True

end Desk

end Tanix.Wm
