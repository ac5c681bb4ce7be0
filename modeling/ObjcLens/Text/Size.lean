import ObjcLens.Text.Numeral

/-!
# Sizes

The number of bytes of a file for human readers: with a unit, and with one decimal place below ten.
-/

namespace ObjcLens.Text

/-- The units, each a thousand times the one before. -/
def sizeUnits : List String := ["B", "kB", "MB", "GB", "TB", "PB", "EB"]

/-- Tenths as a number: one place below ten; above, a whole number, a half going to the even
neighbour. -/
def tenths (n : Nat) : Text :=
  if n < 100 then dec (n / 10) ++ "." ++ dec (n % 10)
  else
    let up := 5 < n % 10 || (n % 10 = 5 && n / 10 % 2 = 1)
    dec (n / 10 + if up then 1 else 0)

/-- A size in the first of some units that keeps it below a thousand. The unit is so many bytes. -/
def sizeIn (bytes : Nat) : Nat → List String → Text
  | _, [] => []
  | unit, name :: rest =>
    if unit * 1000 ≤ bytes && !rest.isEmpty then sizeIn bytes (unit * 1000) rest
    else tenths ((bytes * 20 + unit) / (2 * unit)) ++ " " ++ ofString name

/-- A size for human readers. -/
def size (bytes : Nat) : Text :=
  if bytes < 10 then dec bytes ++ " B" else sizeIn bytes 1 sizeUnits

end ObjcLens.Text
