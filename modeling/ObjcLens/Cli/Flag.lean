import ObjcLens.Text.Csv
import ObjcLens.Text.Literal
import ObjcLens.Text.Quoted

/-!
# Flags

The options of a command line. A flag is written `--name value` or `--name=value`; one with a
letter also `-n value`, `-nvalue` or `-n=value`. A flag that is on or off needs no value, and the
letters of several such flags can be written together. Everything else is an argument, and so is
all that follows `--`. `Flag.parse` tells flags and arguments apart.
-/

namespace ObjcLens

/-- The kind of the value of a flag. -/
inductive FlagKind where
  /-- On or off. -/
  | switch
  /-- A signed number. -/
  | number
  /-- A number of 64 bits. -/
  | word
  /-- A text. -/
  | text
  /-- A list of texts, separated by commas. -/
  | texts
deriving DecidableEq, Repr

/-- The value of a flag. -/
inductive FlagValue where
  /-- On or off. -/
  | switch (on : Bool)
  /-- A signed number. -/
  | number (value : Int)
  /-- A number of 64 bits. -/
  | word (value : UInt64)
  /-- A text. -/
  | text (value : Text)
  /-- A list of texts. -/
  | texts (values : List Text)
deriving DecidableEq, Repr

/-- A flag of a command. -/
structure Flag where
  /-- The name. -/
  name : Text
  /-- The letter. -/
  letter : Option UInt8 := none
  /-- The value unless the user gives another. -/
  standard : FlagValue
  /-- What it is for. -/
  purpose : Text

/-- Why a command line is refused. -/
inductive UsageError where
  /-- An argument starts like a flag and has no name. -/
  | malformed (argument : Text)
  /-- There is no flag with the name. -/
  | unknownFlag (name : Text)
  /-- There is no flag with the letter. -/
  | unknownLetter (letter : UInt8) (letters : Text)
  /-- The value of a flag is missing. -/
  | noValue (name : Text)
  /-- The value of a flag that is given by its letter is missing. -/
  | noValueFor (letter : UInt8) (letters : Text)
  /-- The value of a flag is not of its kind. -/
  | badValue (value shown reason : Text)
  /-- The number of arguments is not the one that the command takes. -/
  | notExactly (count given : Nat)
  /-- There are fewer arguments than the command takes. -/
  | tooFew (least given : Nat)
  /-- There is no command with the name. -/
  | unknownCommand (name : Text) (similar : List Text)
deriving Repr

namespace UsageError

/-- A letter as a quoted character. A byte that is no letter is shown by the first byte of its
encoding. -/
def quoteLetter (b : UInt8) : Text :=
  let code := ((Rune.encode b.toNat).headD 0).toNat
  let inner : Text :=
    if code = 0x27 then "\\\x27" else if code = 0x22 then "\"" else Text.quoteCode code
  0x27 :: inner ++ [0x27]

/-- The names that look like one that is not known. -/
def suggestions (similar : List Text) : Text :=
  let lines := similar.flatMap fun name => Text.ofString "\t" ++ name ++ Text.ofString "\n"
  if similar.isEmpty then [] else "\n\nDid you mean this?\n" ++ lines

/-- The text of an error. -/
def message : UsageError → Text
  | .malformed argument => "bad flag syntax: " ++ argument
  | .unknownFlag name => "unknown flag: --" ++ name
  | .unknownLetter letter letters =>
    "unknown shorthand flag: " ++ quoteLetter letter ++ " in -" ++ letters
  | .noValue name => "flag needs an argument: --" ++ name
  | .noValueFor letter letters =>
    "flag needs an argument: " ++ quoteLetter letter ++ " in -" ++ letters
  | .badValue value shown reason =>
    "invalid argument " ++ Text.quote value ++ " for " ++ Text.quote shown ++ " flag: " ++ reason
  | .notExactly count given =>
    "accepts " ++ Text.dec count ++ " arg(s), received " ++ Text.dec given
  | .tooFew least given =>
    "requires at least " ++ Text.dec least ++ " arg(s), only received " ++ Text.dec given
  | .unknownCommand name similar =>
    "unknown command " ++ Text.quote name ++ " for \"classguard\"" ++ suggestions similar

end UsageError

namespace FlagValue

/-- The kind of a value. -/
def kind : FlagValue → FlagKind
  | .switch _ => .switch
  | .number _ => .number
  | .word _ => .word
  | .text _ => .text
  | .texts _ => .texts

/-- Why a number cannot be read. -/
def numberFault (reader : Text) (s : Text) (fault : LiteralFault) : Text :=
  "strconv." ++ reader ++ ": parsing " ++ Text.quote s ++ ": " ++ fault.message

/-- The texts of a list that is written with commas. -/
def readTexts (s : Text) : Except Text (List Text) :=
  if s.isEmpty then .ok [] else (Text.csvRecord s).mapError (·.message)

/-- The value of a kind that a text stands for, or why there is none. -/
def ofText (kind : FlagKind) (s : Text) : Except Text FlagValue :=
  match kind with
  | .switch => match Text.readTruth? s with
    | some on => .ok (.switch on)
    | none => .error (numberFault "ParseBool" s .malformed)
  | .number => ((Text.readInteger s).map .number).mapError (numberFault "ParseInt" s)
  | .word => ((Text.readWord s).map .word).mapError (numberFault "ParseUint" s)
  | .text => .ok (.text s)
  | .texts => (readTexts s).map .texts

/-- The value after a flag was given once more: lists grow, anything else is replaced. -/
def join (old : Option FlagValue) (new : FlagValue) : FlagValue :=
  match old, new with
  | some (.texts before), .texts values => .texts (before ++ values)
  | _, _ => new

end FlagValue

namespace Flag

/-- The flag as errors show it. -/
def shown (f : Flag) : Text :=
  match f.letter with
  | some letter => "-" ++ letter :: ", --" ++ f.name
  | none => "--" ++ f.name

/-- The flag needs no value. -/
def isSwitch (f : Flag) : Bool := f.standard.kind = .switch

/-- The flag with a name. -/
def named? (flags : List Flag) (name : Text) : Option Flag := flags.find? (·.name = name)

/-- The flag with a letter. -/
def lettered? (flags : List Flag) (letter : UInt8) : Option Flag :=
  flags.find? (·.letter = some letter)

end Flag

/-- A command line that was told apart. -/
structure Invocation where
  /-- The flags that were given, by name. -/
  given : List (Text × FlagValue) := []
  /-- The arguments in order. -/
  arguments : List Text := []

namespace Invocation

/-- The value of a flag that was given. -/
def value? (i : Invocation) (name : Text) : Option FlagValue :=
  (i.given.find? fun entry => entry.1 = name).map (·.2)

/-- The invocation with a flag set. -/
def set (i : Invocation) (f : Flag) (s : Text) : Except UsageError Invocation :=
  match FlagValue.ofText f.standard.kind s with
  | .error reason => .error (.badValue s f.shown reason)
  | .ok value =>
    let joined := FlagValue.join (i.value? f.name) value
    .ok { i with given := (f.name, joined) :: i.given.filter fun entry => entry.1 != f.name }

/-- The invocation with a flag that is given by its name, and the arguments behind it. -/
def longFlag (flags : List Flag) (i : Invocation) (argument : Text) (rest : List Text) :
    Except UsageError (Invocation × List Text) := do
  let body := argument.drop 2
  if body.head?.any fun b => b = byte '-' || b = byte '=' then throw (.malformed argument)
  let (name, inline) := match Text.cut? (byte '=') body with
    | some (name, value) => (name, some value)
    | none => (body, none)
  let some f := Flag.named? flags name | throw (.unknownFlag name)
  match inline, rest with
  | some value, _ => return (← i.set f value, rest)
  | none, _ =>
    if f.isSwitch then return (← i.set f "true", rest)
    else match rest with
      | value :: rest => return (← i.set f value, rest)
      | [] => throw (.noValue name)

/-- The invocation with flags that are given by their letters, and the arguments behind them. -/
def letterFlags (flags : List Flag) (i : Invocation) :
    Text → List Text → Except UsageError (Invocation × List Text)
  | [], rest => .ok (i, rest)
  | letter :: more, rest =>
    match Flag.lettered? flags letter with
    | none => .error (.unknownLetter letter (letter :: more))
    | some f =>
      if more.head? = some (byte '=') && 1 < more.length then do
        return (← i.set f (more.drop 1), rest)
      else if f.isSwitch then
        match i.set f "true" with
        | .ok i => letterFlags flags i more rest
        | .error error => .error error
      else if !more.isEmpty then do return (← i.set f more, rest)
      else match rest with
        | value :: rest => do return (← i.set f value, rest)
        | [] => .error (.noValueFor letter [letter])

/-- The invocation with the flags and arguments of a command line. The fuel bounds the number of
arguments. -/
def parseFrom (flags : List Flag) : Nat → Invocation → List Text → Except UsageError Invocation
  | 0, i, _ => .ok i
  | _, i, [] => .ok i
  | fuel + 1, i, argument :: rest =>
    match argument with
    | [0x2D, 0x2D] => .ok { i with arguments := i.arguments ++ rest }
    | 0x2D :: 0x2D :: _ => do
      let (i, rest) ← longFlag flags i argument rest
      parseFrom flags fuel i rest
    | 0x2D :: letter :: letters => do
      let (i, rest) ← letterFlags flags i (letter :: letters) rest
      parseFrom flags fuel i rest
    | _ => parseFrom flags fuel { i with arguments := i.arguments ++ [argument] } rest

/-- The flags and arguments of a command line. -/
def parse (flags : List Flag) (line : List Text) : Except UsageError Invocation :=
  parseFrom flags (line.length + 1) {} line

end Invocation

end ObjcLens
