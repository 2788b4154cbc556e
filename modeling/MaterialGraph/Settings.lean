/-!
# Presentation settings

Settings decide how dumps look.  They never change how expressions are built,
compared or stored.
-/

namespace MaterialGraph

/-- How dumps look. -/
structure Settings where
  /-- Spaces for each level of nesting. -/
  indentWidth : UInt64 := 4
  /-- The depth of a dump for which none is given; zero is no limit. -/
  defaultDepth : UInt64 := 0
  /-- Whether the types of expressions are shown. -/
  showTypes : Bool := true
  deriving DecidableEq, Repr

end MaterialGraph
