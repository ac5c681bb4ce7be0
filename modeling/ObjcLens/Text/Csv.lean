import ObjcLens.Text.Numeral

/-!
# Comma-separated values

A record is a line of fields with commas between them. A field that starts with a quotation mark
ends at the next one, may hold commas and line ends, and writes a quotation mark twice.
-/

namespace ObjcLens

/-- Why a record cannot be read. -/
inductive CsvFault where
  /-- There is no record. -/
  | noRecord
  /-- A quotation mark stands inside a field that does not start with one. -/
  | bareQuote (first line column : Nat)
  /-- A quoted field is not closed, or something stands behind its end. -/
  | strayQuote (first line column : Nat)
deriving DecidableEq, Repr

namespace CsvFault

/-- A place in a record: the line where the record starts, the line and the column. -/
def place (first line column : Nat) : Text :=
  let lead : Text :=
    if first = line then [] else "record on line " ++ Text.dec first ++ "; "
  lead ++ "parse error on line " ++ Text.dec line ++ ", column " ++ Text.dec column

/-- The text of a fault. -/
def message : CsvFault → Text
  | .noRecord => "EOF"
  | .bareQuote first line column => place first line column ++ ": bare \" in non-quoted-field"
  | .strayQuote first line column =>
    place first line column ++ ": extraneous or missing \" in quoted-field"

end CsvFault

namespace Text

/-- The text with every line ended by one byte, also where two bytes end a line. A return at the
very end is dropped. -/
def unifyLines : Text → Text
  | [] => []
  | [b] => if b = 0x0D then [] else [b]
  | b :: c :: rest =>
    if b = 0x0D && c = 0x0A then unifyLines (c :: rest) else b :: unifyLines (c :: rest)

mutual

/-- The fields of a record from a place on. The fuel bounds the number of bytes. -/
def csvFields (first : Nat) : Nat → Nat → Nat → Text → Except CsvFault (List Text)
  | 0, _, _, _ => .ok []
  | fuel + 1, line, column, s =>
    if s.head? = some (byte '"') then csvQuoted first fuel line (column + 1) [] (s.drop 1)
    else
      let field := s.takeWhile fun b => b != byte ',' && b != 0x0A
      let plain := field.takeWhile (· != byte '"')
      if plain.length < field.length then .error (.bareQuote first line (column + plain.length))
      else if s[field.length]? = some (byte ',') then do
        let column := column + field.length + 1
        return field :: (← csvFields first fuel line column (s.drop (field.length + 1)))
      else .ok [field]

/-- The fields of a record from a place inside a quoted field on, of which some bytes were read,
the last one first. -/
def csvQuoted (first : Nat) : Nat → Nat → Nat → Text → Text → Except CsvFault (List Text)
  | 0, _, _, _, _ => .ok []
  | fuel + 1, line, column, field, s =>
    match s with
    | [] => .error (.strayQuote first line column)
    | b :: rest =>
      if b = byte '"' then
        match rest.head? with
        | none => .ok [field.reverse]
        | some c =>
          if c = b then csvQuoted first fuel line (column + 2) (b :: field) (rest.drop 1)
          else if c = byte ',' then do
            return field.reverse :: (← csvFields first fuel line (column + 2) (rest.drop 1))
          else if c = 0x0A then .ok [field.reverse]
          else .error (.strayQuote first line column)
      else if b = 0x0A && !rest.isEmpty then csvQuoted first fuel (line + 1) 1 (b :: field) rest
      else csvQuoted first fuel line (column + 1) (b :: field) rest

end

/-- The fields of the first record of a text. Empty lines in front of it are skipped. -/
def csvRecord (s : Text) : Except CsvFault (List Text) :=
  let all := unifyLines s
  let record := all.dropWhile (· = 0x0A)
  let first := all.length - record.length + 1
  if record.isEmpty then .error .noRecord
  else csvFields first (record.length + 1) first 1 record

end Text

end ObjcLens
