import ObjcLens.ObjcType.Basic

/-!
# Names inside types

A type can name classes, protocols, structures and their members. `ObjcType.references` lists
these names in the order in which they are written.
-/

namespace ObjcLens

/-- A name inside a type. -/
inductive Reference where
  /-- The name of a class. -/
  | ofClass (name : Text)
  /-- The name of a protocol. -/
  | ofProtocol (name : Text)
  /-- The tag of a structure or union. -/
  | ofTag (name : Text)
  /-- The name of a member of a structure or union. -/
  | ofMember (name : Text)
deriving DecidableEq, Repr

namespace ObjcType

mutual

/-- The names inside a type. -/
def references : ObjcType → List Reference
  | .pointer _ t | .array _ _ t => references t
  | .tag _ _ name => [.ofTag name]
  | .aggregate _ _ name members => .ofTag name :: memberReferences members
  | .signature _ result params => references result ++ allReferences params
  | .object _ name protocols => .ofClass name :: protocols.map .ofProtocol
  | _ => []

/-- The names inside members. -/
def memberReferences : List (Member ObjcType) → List Reference
  | [] => []
  | ⟨name, type, _⟩ :: rest => .ofMember name :: (references type ++ memberReferences rest)

/-- The names inside types. -/
def allReferences : List ObjcType → List Reference
  | [] => []
  | t :: rest => references t ++ allReferences rest

end

/-- The names inside a type, if it is known. -/
def references? : Option ObjcType → List Reference
  | none => []
  | some t => references t

end ObjcType

/-- The names inside a signature. -/
def MethodType.references (m : MethodType) : List Reference :=
  m.result.references ++ m.params.flatMap fun p => p.type.references

end ObjcLens
