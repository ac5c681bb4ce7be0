import ObjcLens.Text.Numeral

/-!
# Named codes

File formats are full of numbers with names. A `CodeTable` lists codes and their names; a code
that is not listed is shown as a hexadecimal number. A set of flags is shown by the names of the
listed bits that are set.
-/

namespace ObjcLens

/-- Codes and their names, in the order in which they are tried. -/
abbrev CodeTable := List (UInt32 × String)

namespace CodeTable

/-- The name of a code. -/
def name? (table : CodeTable) (code : UInt32) : Option Text :=
  (table.find? fun entry => entry.1 = code).map fun entry => Text.ofString entry.2

/-- The name of a code, or its hexadecimal number. -/
def nameOf (table : CodeTable) (code : UInt32) : Text :=
  (table.name? code).getD (Text.hex0x code.toNat)

/-- The name of a code behind a qualifier, or its hexadecimal number alone. -/
def qualifiedNameOf (table : CodeTable) (qualifier : Text) (code : UInt32) : Text :=
  ((table.name? code).map (qualifier ++ ·)).getD (Text.hex0x code.toNat)

/-- The names of the flags that are set. -/
def flagNames (table : CodeTable) (flags : UInt32) : List Text :=
  (table.filter fun entry => flags &&& entry.1 ≠ 0).map fun entry => Text.ofString entry.2

/-- The qualifier of the names of constants. -/
def packageQualifier : Text := "macho."

end CodeTable

end ObjcLens
