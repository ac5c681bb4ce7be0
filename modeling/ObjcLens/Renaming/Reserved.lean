import ObjcLens.Text.Basic

/-!
# Reserved words

Words of the source language, which no generated name may be, and selectors of the runtime, which
keep their names because classes override them.
-/

namespace ObjcLens

namespace Renaming

/-- The words of the source language. -/
def keywords : List Text :=
  [ "auto", "break", "case", "char", "const", "continue", "default", "do", "double", "else",
    "enum", "extern", "float", "for", "goto", "if", "inline", "int", "long", "register",
    "restrict", "return", "short", "signed", "sizeof", "static", "struct", "switch", "typedef",
    "union", "unsigned", "void", "volatile", "while", "_Bool", "_Complex", "_Imaginary", "id",
    "self", "super", "nil", "Nil", "YES", "NO", "SEL", "IMP", "Class", "BOOL", "Protocol",
    "NULL", "in", "out", "inout", "bycopy", "byref", "oneway", "instancetype", "nonnull",
    "nullable", "atomic", "nonatomic", "readonly", "readwrite", "strong", "weak", "copy",
    "assign", "retain", "getter", "setter" ].map Text.ofString

/-- The selectors of the runtime. -/
def runtimeSelectors : List Text :=
  [ "alloc", "allocWithZone", "init", "new", "dealloc", "finalize", "copy", "copyWithZone",
    "mutableCopy", "mutableCopyWithZone", "retain", "release", "autorelease", "retainCount",
    "zone", "load", "initialize", "class", "superclass", "self", "description",
    "debugDescription", "hash", "isEqual", "isProxy", "isKindOfClass", "isMemberOfClass",
    "conformsToProtocol", "respondsToSelector", "instancesRespondToSelector",
    "performSelector", "withObject", "methodForSelector", "instanceMethodForSelector",
    "methodSignatureForSelector", "instanceMethodSignatureForSelector", "forwardInvocation",
    "forwardingTargetForSelector", "doesNotRecognizeSelector", "resolveClassMethod",
    "resolveInstanceMethod", "awakeAfterUsingCoder", "replacementObjectForCoder",
    "initWithCoder", "encodeWithCoder", "awakeFromNib", "valueForKey", "setValue",
    "forKey" ].map Text.ofString

/-- A byte that an identifier can start with. -/
def startsIdentifier (b : UInt8) : Bool := Text.isLetter b || b = byte '_'

/-- The text is an identifier of the source language. -/
def isIdentifier : Text → Bool
  | [] => false
  | b :: rest => startsIdentifier b && rest.all fun b => startsIdentifier b || Text.isDigit b

end Renaming

end ObjcLens
