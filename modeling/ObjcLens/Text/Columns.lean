import ObjcLens.Text.Rune

/-!
# Columns

Text whose lines are divided into cells by tabs. A cell that is not the last of its line is
padded so that it is as wide as the widest cell above and below it, and one blank more. Widths
are counted in characters. A column ends where a line has no cell for it.

A form feed ends a line and all columns. Bytes between two marks of value 255 are taken as they
are, and the marks do not count for the width.
-/

namespace ObjcLens

namespace Columns

/-- A piece of text between tabs. -/
structure Cell where
  /-- The bytes. -/
  text : Text := []
  /-- The number of characters that count for the width. -/
  width : Int := 0

/-- The byte that starts and ends text which is taken as it is. -/
def escape : UInt8 := 0xFF

/-- The cells of a line. -/
abbrev Line := List Cell

/-- What was read of a text: finished sections, and the unfinished section, line and cell, with
the last ones first. -/
structure Reading where
  /-- The finished sections. -/
  sections : List (List Line) := []
  /-- The finished lines of the section. -/
  lines : List Line := []
  /-- The finished cells of the line. -/
  cells : Line := []
  /-- The finished pieces of the cell. -/
  cell : Cell := {}
  /-- The unfinished piece, its last byte first. -/
  piece : Text := []
  /-- The piece is taken as it is. -/
  escaped : Bool := false

namespace Reading

/-- The piece becomes part of the cell. -/
def endPiece (r : Reading) (marks : Int) : Reading :=
  let piece := r.piece.reverse
  { r with
    cell := ⟨r.cell.text ++ piece, r.cell.width + Rune.count piece - marks⟩
    piece := [] }

/-- The cell becomes part of the line. -/
def endCell (r : Reading) : Reading :=
  let r := r.endPiece 0
  { r with cells := r.cell :: r.cells, cell := {} }

/-- The line becomes part of the section. -/
def endLine (r : Reading) : Reading :=
  let r := r.endCell
  { r with lines := r.cells.reverse :: r.lines, cells := [] }

/-- The section becomes part of the text. -/
def endSection (r : Reading) : Reading :=
  { r with sections := r.lines.reverse :: r.sections, lines := [] }

/-- One more byte is read. -/
def step (r : Reading) (b : UInt8) : Reading :=
  if r.escaped then
    let r := { r with piece := b :: r.piece }
    if b = escape then { r.endPiece 2 with escaped := false } else r
  else if b = 0x09 || b = 0x0B then r.endCell
  else if b = 0x0A then r.endLine
  else if b = 0x0C then r.endLine.endSection
  else if b = escape then
    let r := r.endPiece 0
    { r with piece := [b], escaped := true }
  else { r with piece := b :: r.piece }

/-- The sections of a text that was read to its end, and its unfinished last line. -/
def close (r : Reading) : List (List Line) × Line :=
  let r := r.endPiece (if r.escaped then 2 else 0)
  let last := if r.cell.text.isEmpty then r.cells else r.cell :: r.cells
  ((r.lines.reverse :: r.sections).reverse, last.reverse)

end Reading

/-- A line with its first cells padded to given widths. -/
def renderLine : List Int → Line → Text
  | _, [] => []
  | [], cell :: rest => cell.text ++ renderLine [] rest
  | width :: widths, cell :: rest =>
    cell.text ++ Text.blanks (width - cell.width).toNat ++ renderLine widths rest

/-- The line has a cell in the column, which is not its last cell. -/
def hasColumn (column : Nat) (line : Line) : Bool := column + 1 < line.length

/-- The width of a column: that of its widest cell and one more. -/
def columnWidth (column : Nat) (lines : List Line) : Int :=
  lines.foldl (fun width line => max width ((line.getD column {}).width + 1)) 0

/-- The lines cut where it changes whether they have a cell in the column. -/
def runs (column : Nat) : List Line → List (List Line)
  | [] => []
  | line :: rest =>
    match runs column rest with
    | (next :: others) :: more =>
      if hasColumn column line = hasColumn column next then (line :: next :: others) :: more
      else [line] :: (next :: others) :: more
    | other => [line] :: other

/-- The lines with columns aligned from a column on, given the widths of those before it. The
fuel bounds the number of columns. -/
def align : Nat → List Int → List Line → List Text
  | 0, widths, lines => lines.map (renderLine widths)
  | fuel + 1, widths, lines =>
    let column := widths.length
    (runs column lines).flatMap fun run =>
      match run with
      | [] => []
      | line :: _ =>
        if hasColumn column line then align fuel (widths ++ [columnWidth column run]) run
        else run.map (renderLine widths)

/-- The lines of a section with aligned columns. -/
def alignSection (lines : List Line) : List Text :=
  align ((lines.map List.length).foldl max 0) [] lines

end Columns

/-- The text with its columns aligned. -/
def Text.alignColumns (s : Text) : Text :=
  let (sections, last) := (s.foldl Columns.Reading.step {}).close
  let finished := sections.dropLast.flatMap Columns.alignSection
  let closing := Columns.alignSection (sections.getLast?.getD [] ++ [last])
  Text.joinWith [0x0A] (finished ++ closing)

end ObjcLens
