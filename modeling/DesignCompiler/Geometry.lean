/-!
# Geometry

Sizes, offsets, insets and corner radii in logical pixels. Every facet of a size or a placement is
optional, because only what the stylesheet declares is known.
-/

namespace DesignCompiler

/-- A declared size. Either dimension may be unknown. -/
structure Size where
  width : Option Float
  height : Option Float

namespace Size

/-- The size of which nothing is known. -/
def unknown : Size := ⟨none, none⟩

/-- A dimension has to be finite and not negative. -/
def isDimension (x : Float) : Bool := x.isFinite && x ≥ 0.0

/-- The size with the given dimensions, each forgotten unless it is finite and not negative. -/
def ofDeclared (width height : Option Float) : Size :=
  ⟨width.filter isDimension, height.filter isDimension⟩

/-- Whether neither dimension is known. -/
def isUnknown (s : Size) : Bool := s.width.isNone && s.height.isNone

/-- Whether a known dimension differs from zero. Only such a size needs a sizing wrapper. -/
def hasExtent (s : Size) : Bool := s.width.any (· != 0.0) || s.height.any (· != 0.0)

/-- Whether a dimension is known and all known ones are at most `bound`. -/
def fitsWithin (s : Size) (bound : Float) : Bool :=
  !s.isUnknown && s.width.all (· ≤ bound) && s.height.all (· ≤ bound)

/-- The size with its height forgotten. -/
def withoutHeight (s : Size) : Size := { s with height := none }

end Size

/-- The offsets of an absolutely placed box. -/
structure Edges where
  top : Option Float
  right : Option Float
  bottom : Option Float
  left : Option Float
  deriving DecidableEq

namespace Edges

/-- Whether no offset is declared. -/
def isEmpty (e : Edges) : Bool :=
  e.top.isNone && e.right.isNone && e.bottom.isNone && e.left.isNone

/-- Whether the box starts at the top left corner and is tied to neither other side. -/
def isTopLeftAnchored (e : Edges) : Bool :=
  e.top.all (· == 0.0) && e.left.all (· == 0.0) && e.right.isNone && e.bottom.isNone

/-- The horizontal offset that an extent is estimated with: left, else right, else zero. -/
def horizontalStart (e : Edges) : Float := (e.left <|> e.right).getD 0.0

/-- The vertical offset that an extent is estimated with: top, else bottom, else zero. -/
def verticalStart (e : Edges) : Float := (e.top <|> e.bottom).getD 0.0

end Edges

/-- Padding or margin on four sides. -/
structure Insets where
  top : Float
  right : Float
  bottom : Float
  left : Float

namespace Insets

/-- The same inset on all sides. -/
def all (x : Float) : Insets := ⟨x, x, x, x⟩

/-- The insets that one to four shorthand values stand for, in the order top, right, bottom, left;
    further values do not count. -/
def ofShorthand? : List Float → Option Insets
  | [] => none
  | [x] => some (all x)
  | [vertical, horizontal] => some ⟨vertical, horizontal, vertical, horizontal⟩
  | [top, horizontal, bottom] => some ⟨top, horizontal, bottom, horizontal⟩
  | top :: right :: bottom :: left :: _ => some ⟨top, right, bottom, left⟩

/-- Whether every side is zero. -/
def isZero (i : Insets) : Bool :=
  i.top == 0.0 && i.right == 0.0 && i.bottom == 0.0 && i.left == 0.0

end Insets

/-- Corner radii. -/
structure Corners where
  topLeft : Float
  topRight : Float
  bottomRight : Float
  bottomLeft : Float

namespace Corners

/-- Four shorthand values read as corners, clockwise from the top left. -/
def ofInsets (i : Insets) : Corners := ⟨i.top, i.right, i.bottom, i.left⟩

/-- The radius that all four corners share, if they do. -/
def uniform? (c : Corners) : Option Float :=
  if c.topLeft == c.topRight && c.topLeft == c.bottomRight && c.topLeft == c.bottomLeft then
    some c.topLeft
  else none

end Corners

/-- A horizontal extent in generated code: a number of pixels, or the width of the host's viewport,
    which stands in for every width equal to the width of the design frame. -/
inductive Extent where
  | fixed (width : Float)
  | available

end DesignCompiler
