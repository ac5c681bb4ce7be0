import ObjcLens.Renaming.Assign
import ObjcLens.Renaming.Hash
import ObjcLens.Text.Json

/-!
# Renaming a model

The settings of a user, the rules that follow from them, and the two files that come out: a
header that defines the old names as the new ones, and a map for reading crash reports.
-/

namespace ObjcLens

namespace Renaming

/-- What a user asks for. -/
structure Settings where
  /-- Patterns of the entities that are renamed; all of them if there are none. -/
  classFilter : List Text := []
  /-- Patterns of names that stay as they are. -/
  ignore : List Text := []
  /-- The least number of definitions. -/
  padding : Int := 0
  /-- The length of new names; not positive for the default. -/
  nameLength : Int := 0
  /-- The seed of the hash. -/
  seed : UInt64 := 0
  /-- How many names are tried for a symbol; not positive for the default. -/
  maxAttempts : Int := 0
  /-- Properties and selectors are renamed too. -/
  renameMembers : Bool := false
deriving Inhabited

/-- The length of names unless the user asks for another. -/
def defaultNameLength : Nat := 10

/-- The number of attempts unless the user asks for another. -/
def defaultMaxAttempts : Nat := 64

/-- The rules that follow from settings. -/
def Settings.rules (s : Settings) : Except Error Rules := do
  let filter ← Scope.compileAll "class filter" s.classFilter
  let ignore ← Scope.compileAll "ignore pattern" s.ignore
  return {
    isIgnored := fun name => (Glob.testAny ignore name).getD false
    isDoubtful := fun name => (Glob.testAny ignore name).isNone
    inScope := fun names => filter.isEmpty || (Glob.testNames filter names).getD false
    isScopeDoubtful := fun names => (Glob.testNames filter names).isNone
    ignoredNames := s.ignore
    renameMembers := s.renameMembers
    hash := Murmur.hash
    seed := s.seed
    nameLength :=
      if s.nameLength ≤ 0 then defaultNameLength else min s.nameLength.toNat maxNameLength
    maxAttempts := if s.maxAttempts ≤ 0 then defaultMaxAttempts else s.maxAttempts.toNat
    padding := s.padding }

namespace Assignment

/-- A line that defines one name as another. -/
def define (old new : Text) : Text := "#define " ++ old ++ " " ++ new ++ "\n"

/-- The definitions: one for every replacement, then those of the padding. -/
def defines (a : Assignment) : Text :=
  a.renames.flatMap (fun r => define r.old r.new) ++ a.padding.flatMap fun name => define name name

/-- The name that keeps the header from being included twice. -/
def headerGuard : Text := "CLASSGUARD_SYMBOLS_H"

/-- The header with the definitions. -/
def header (a : Assignment) : Text :=
  "// Generated by classguard. Do not edit.\n\n#ifndef " ++ headerGuard ++ "\n#define " ++
    headerGuard ++ "\n\n" ++ a.defines ++ "\n#endif // " ++ headerGuard ++ "\n"

/-- The old names with their replacements, in order; of several replacements the last counts. -/
def map (a : Assignment) : List (Text × Text) :=
  a.renames.foldl (fun pairs r =>
    (pairs.filter fun pair => pair.1 ≠ r.old) ++ [(r.old, r.new)]) []

/-- The map as a file. -/
def mapFile (a : Assignment) : Text := Text.jsonObject a.map ++ "\n"

end Assignment

end Renaming

end ObjcLens
