/-!
# Tiles and boxes

Positions on a map and inclusive rectangles of tiles.
-/

set_option autoImplicit false

namespace Overworld

structure Coordinate where
  x : Int16
  y : Int16
  deriving DecidableEq, Repr, Inhabited

/-- An inclusive rectangle of tiles. -/
structure Box where
  min : Coordinate
  max : Coordinate
  deriving DecidableEq, Repr, Inhabited

namespace Box

def tile (c : Coordinate) : Box := ⟨c, c⟩

def contains (b : Box) (c : Coordinate) : Bool :=
  b.min.x ≤ c.x && c.x ≤ b.max.x && b.min.y ≤ c.y && c.y ≤ b.max.y

theorem contains_tile (c d : Coordinate) : (tile c).contains d = true ↔ d = c := by
  simp only [tile, contains, Bool.and_eq_true]
  constructor
  · rintro ⟨⟨⟨hx, hx'⟩, hy⟩, hy'⟩
    cases c
    cases d
    simp only [Coordinate.mk.injEq]
    exact ⟨Int16.le_antisymm (of_decide_eq_true hx') (of_decide_eq_true hx),
      Int16.le_antisymm (of_decide_eq_true hy') (of_decide_eq_true hy)⟩
  · rintro rfl
    exact ⟨⟨⟨decide_eq_true (Int16.le_refl _), decide_eq_true (Int16.le_refl _)⟩,
      decide_eq_true (Int16.le_refl _)⟩, decide_eq_true (Int16.le_refl _)⟩

end Box

end Overworld
