/-
# `Tanix.Display.Draw` — what the display server paints

`fill_rect`, `blit` and `draw_text` of `display/src/gpu.rs`, with `draw_str` of
`libtanix-ui/src/font.rs`, as layers: which pixels they write and with what.  The framebuffer is
`W` pixels wide and `H` high.  Text is written by offset and not clipped at the right border: a
pixel beyond it is one of the next row.
-/
import Tanix.Lib.Layers

namespace Tanix.Display

/-- A pixel, as the four bytes of BGRA8888. -/
abbrev Pixel := UInt32

/-- Column and row. -/
abbrev Point := Nat × Nat

abbrev Layer := Point → Option Pixel

/-- The pixel of a colour: alpha is full. -/
def rgb (r g b : UInt8) : Pixel :=
  (0xFF000000 : UInt32) ||| (r.toUInt32 <<< 16) ||| (g.toUInt32 <<< 8) ||| b.toUInt32

def fillRect (W H x y w h : Nat) (c : Pixel) : Layer :=
  fun p => if x ≤ p.1 ∧ p.1 < min (x + w) W ∧ y ≤ p.2 ∧ p.2 < min (y + h) H then some c else none

/-- `canvas` gives the pixels of the source by column and row. -/
def blit (W H : Nat) (canvas : Nat → Nat → Pixel) (w h dx dy : Nat) : Layer :=
  fun p =>
    if dx ≤ p.1 ∧ p.1 < dx + min w (W - dx) ∧ dy ≤ p.2 ∧ p.2 < dy + min h (H - dy) then
      some (canvas (p.1 - dx) (p.2 - dy))
    else none

/-! ## Text -/

abbrev glyphW : Nat := 5
abbrev glyphH : Nat := 7
abbrev glyphAdv : Nat := 6

/-- 26 letters, 10 digits and `. - + : !`. -/
def font : List (List Nat) :=
  [[0x0e, 0x11, 0x11, 0x1f, 0x11, 0x11, 0x11],
   [0x1e, 0x11, 0x11, 0x1e, 0x11, 0x11, 0x1e],
   [0x0e, 0x11, 0x10, 0x10, 0x10, 0x11, 0x0e],
   [0x1e, 0x11, 0x11, 0x11, 0x11, 0x11, 0x1e],
   [0x1f, 0x10, 0x10, 0x1e, 0x10, 0x10, 0x1f],
   [0x1f, 0x10, 0x10, 0x1e, 0x10, 0x10, 0x10],
   [0x0e, 0x11, 0x10, 0x17, 0x11, 0x11, 0x0f],
   [0x11, 0x11, 0x11, 0x1f, 0x11, 0x11, 0x11],
   [0x0e, 0x04, 0x04, 0x04, 0x04, 0x04, 0x0e],
   [0x07, 0x02, 0x02, 0x02, 0x02, 0x12, 0x0c],
   [0x11, 0x12, 0x14, 0x18, 0x14, 0x12, 0x11],
   [0x10, 0x10, 0x10, 0x10, 0x10, 0x10, 0x1f],
   [0x11, 0x1b, 0x15, 0x15, 0x11, 0x11, 0x11],
   [0x11, 0x19, 0x15, 0x13, 0x11, 0x11, 0x11],
   [0x0e, 0x11, 0x11, 0x11, 0x11, 0x11, 0x0e],
   [0x1e, 0x11, 0x11, 0x1e, 0x10, 0x10, 0x10],
   [0x0e, 0x11, 0x11, 0x11, 0x15, 0x12, 0x0d],
   [0x1e, 0x11, 0x11, 0x1e, 0x14, 0x12, 0x11],
   [0x0f, 0x10, 0x10, 0x0e, 0x01, 0x01, 0x1e],
   [0x1f, 0x04, 0x04, 0x04, 0x04, 0x04, 0x04],
   [0x11, 0x11, 0x11, 0x11, 0x11, 0x11, 0x0e],
   [0x11, 0x11, 0x11, 0x11, 0x11, 0x0a, 0x04],
   [0x11, 0x11, 0x11, 0x15, 0x15, 0x15, 0x0a],
   [0x11, 0x11, 0x0a, 0x04, 0x0a, 0x11, 0x11],
   [0x11, 0x11, 0x0a, 0x04, 0x04, 0x04, 0x04],
   [0x1f, 0x01, 0x02, 0x04, 0x08, 0x10, 0x1f],
   [0x0e, 0x11, 0x13, 0x15, 0x19, 0x11, 0x0e],
   [0x04, 0x0c, 0x04, 0x04, 0x04, 0x04, 0x0e],
   [0x0e, 0x11, 0x01, 0x02, 0x04, 0x08, 0x1f],
   [0x1f, 0x02, 0x04, 0x02, 0x01, 0x11, 0x0e],
   [0x02, 0x06, 0x0a, 0x12, 0x1f, 0x02, 0x02],
   [0x1f, 0x10, 0x1e, 0x01, 0x01, 0x11, 0x0e],
   [0x06, 0x08, 0x10, 0x1e, 0x11, 0x11, 0x0e],
   [0x1f, 0x01, 0x02, 0x04, 0x08, 0x08, 0x08],
   [0x0e, 0x11, 0x11, 0x0e, 0x11, 0x11, 0x0e],
   [0x0e, 0x11, 0x11, 0x0f, 0x01, 0x02, 0x0c],
   [0x00, 0x00, 0x00, 0x00, 0x00, 0x04, 0x04],
   [0x00, 0x00, 0x00, 0x0e, 0x00, 0x00, 0x00],
   [0x00, 0x04, 0x04, 0x1f, 0x04, 0x04, 0x00],
   [0x00, 0x00, 0x0c, 0x0c, 0x00, 0x0c, 0x0c],
   [0x04, 0x04, 0x04, 0x04, 0x04, 0x00, 0x04]]

/-- The bitmap of a character, if the font covers it. -/
def glyph (c : UInt8) : Option (List Nat) :=
  let n := c.toNat
  if 65 ≤ n ∧ n ≤ 90 then font[n - 65]?
  else if 48 ≤ n ∧ n ≤ 57 then font[26 + (n - 48)]?
  else if n = 46 then font[36]?
  else if n = 45 then font[37]?
  else if n = 43 then font[38]?
  else if n = 58 then font[39]?
  else if n = 33 then font[40]?
  else none

/-- Is a bit of a glyph set? -/
def glyphBit (c : UInt8) (col row : Nat) : Bool :=
  match glyph c with
  | some g => (g.getD row 0).testBit (4 - col)
  | none => false

/-- A pixel of the text at `x`, `y` has the offset of the point. -/
def TextAt (W x y : Nat) (s : List UInt8) (p : Point) : Prop :=
  ∃ i < s.length, ∃ row < glyphH, ∃ col < glyphW,
    glyphBit (s.getD i 0) col row = true ∧ (y + row) * W + (x + glyphAdv * i + col) = p.2 * W + p.1

instance (W x y : Nat) (s : List UInt8) (p : Point) : Decidable (TextAt W x y s p) :=
  inferInstanceAs (Decidable (∃ i < _, ∃ row < _, ∃ col < _, _))

def drawText (W H x y : Nat) (c : Pixel) (s : List UInt8) : Layer :=
  fun p => if p.2 * W + p.1 < W * H ∧ TextAt W x y s p then some c else none

/-- Text that ends before the right border stays in its own rows and columns. -/
theorem textAt_inside {W x y : Nat} {s : List UInt8} {p : Point} (h : TextAt W x y s p)
    (hp : p.1 < W) (hfit : x + glyphAdv * s.length ≤ W) :
    x ≤ p.1 ∧ p.1 < x + glyphAdv * s.length ∧ y ≤ p.2 ∧ p.2 < y + glyphH := by
  obtain ⟨i, hi, row, hrow, col, hcol, -, heq⟩ := h
  have hadv : glyphAdv * i + glyphAdv ≤ glyphAdv * s.length := by
    rw [← Nat.mul_succ]
    exact Nat.mul_le_mul_left _ hi
  simp only [glyphAdv, glyphW] at hadv hcol hfit heq ⊢
  have hx : x + 6 * i + col < W := by omega
  -- the offset tells row and column apart
  have hdiv : (y + row) = p.2 := by
    have h1 : ((y + row) * W + (x + 6 * i + col)) / W = y + row := by
      rw [Nat.mul_comm, Nat.mul_add_div (by omega), Nat.div_eq_of_lt hx, Nat.add_zero]
    have h2 : (p.2 * W + p.1) / W = p.2 := by
      rw [Nat.mul_comm, Nat.mul_add_div (by omega), Nat.div_eq_of_lt hp, Nat.add_zero]
    rw [← h1, heq, h2]
  rw [hdiv] at heq
  have hcol' : x + 6 * i + col = p.1 := Nat.add_left_cancel heq
  simp only [glyphH] at hrow ⊢
  omega

end Tanix.Display
