/-
Rectangles with axis-parallel sides, upright or below each other: the
vertical axis points down, as on a page.

A rectangle is its left upper corner and its size, over any ordered field.
`Within` and `Before` are what a layout is asked for: that a rectangle stays
inside another one, and that of two rectangles one is right of the other or
below it, with a gap between them, so that they have no point in common, the
sides included (`Before.disjoint`). Both go from boxes to what is drawn in
them (`Before.within`), so a layout is checked box by box. `centred` puts a
rectangle in the middle of a box, as an image is put that keeps its
proportions.
-/
import Mathlib.Algebra.Order.Field.Basic
import Mathlib.Data.Set.Prod
import Mathlib.Order.CompletePartialOrder
import Mathlib.Order.Interval.Set.Basic
import Mathlib.Tactic.Linarith

namespace FastRep

structure Rect (K : Type) where
  x : K
  y : K
  width : K
  height : K
  deriving DecidableEq, Repr

namespace Rect

variable {K : Type} [Field K] [LinearOrder K] {r s t u : Rect K}

def right (r : Rect K) : K := r.x + r.width

def bottom (r : Rect K) : K := r.y + r.height

/-- The points of a rectangle, with its sides. -/
def area (r : Rect K) : Set (K × K) := Set.Icc r.x r.right ×ˢ Set.Icc r.y r.bottom

/-- All four sides are inside another rectangle. -/
structure Within (r s : Rect K) : Prop where
  left : s.x ≤ r.x
  right : r.right ≤ s.right
  top : s.y ≤ r.y
  bottom : r.bottom ≤ s.bottom

/-- One is right of the other, or below it. -/
def Before (r s : Rect K) : Prop := r.right < s.x ∨ r.bottom < s.y

/-- A rectangle of a size in the middle of a box. -/
def centred (box : Rect K) (width height : K) : Rect K where
  x := box.x + (box.width - width) / 2
  y := box.y + (box.height - height) / 2
  width := width
  height := height

/-- What is drawn in boxes one before the other is so too. -/
theorem Before.within (h : s.Before t) (hr : r.Within s) (hu : u.Within t) : r.Before u :=
  h.imp (fun h => (hr.right.trans_lt h).trans_le hu.left)
    fun h => (hr.bottom.trans_lt h).trans_le hu.top

/-- Rectangles one above the other have no point in common. -/
theorem Before.disjoint (h : r.Before s) : Disjoint r.area s.area := by
  refine Set.disjoint_left.mpr fun p hp hq => ?_
  obtain ⟨⟨-, hx⟩, -, hy⟩ := hp
  obtain ⟨⟨hx', -⟩, hy', -⟩ := hq
  rcases h with h | h
  · exact absurd (hx'.trans hx) (not_le.mpr h)
  · exact absurd (hy'.trans hy) (not_le.mpr h)

/-- What is centred in a box that it fits into stays in it. -/
theorem centred_within [IsStrictOrderedRing K] {box : Rect K} {width height : K}
    (hwidth : width ≤ box.width) (hheight : height ≤ box.height) :
    (box.centred width height).Within box where
  left := by
    rw [centred]
    linarith
  right := by
    simp only [centred, Rect.right]
    linarith
  top := by
    rw [centred]
    linarith
  bottom := by
    simp only [centred, Rect.bottom]
    linarith

end Rect

end FastRep
