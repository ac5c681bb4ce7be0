import ObjcLens.Text.Basic

/-!
# Palettes

The colours of what is shown on a terminal. Every part of the output has its own, and with colours
off all text stays as it is.
-/

namespace ObjcLens

/-- Text in colour, or plain. -/
structure Palette where
  /-- Colours are on. -/
  enabled : Bool := false
deriving DecidableEq, Repr

namespace Palette

/-- The text between two escape sequences of a terminal. -/
def paint (p : Palette) (first last s : Text) : Text :=
  if p.enabled then 0x1B :: first ++ s ++ 0x1B :: last else s

/-- A keyword. -/
def keyword (p : Palette) (s : Text) : Text := p.paint "[95m" "[0m" s

/-- The name of an entity. -/
def name (p : Palette) (s : Text) : Text := p.paint "[1;94m" "[22;0m" s

/-- A comment. -/
def comment (p : Palette) (s : Text) : Text := p.paint "[2;90m" "[22;0m" s

/-- The label of a field. -/
def label (p : Palette) (s : Text) : Text := p.paint "[1m" "[22m" s

/-- The name of an architecture. -/
def arch (p : Palette) (s : Text) : Text := p.paint "[92m" "[0m" s

/-- Where the colour of a log entry starts. -/
def level (p : Palette) (code s : Text) : Text := p.paint ("[" ++ code ++ "m") "[0m" s

end Palette

end ObjcLens
