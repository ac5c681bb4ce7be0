import ObjcLens.Cli.Help
import ObjcLens.Cli.Inspect
import ObjcLens.Header
import ObjcLens.Renaming.Output
import ObjcLens.Session

/-!
# Running the program

`Program.run` is the whole program as a function: from the arguments, the environment and the files
to the two outputs, the files and the exit code.
-/

namespace ObjcLens

namespace Program

/-- The error of a load. It has a hint if the file is a static library. -/
def withHint (dir : Directory) (error : Error) : Error :=
  match error.notMachOPath? with
  | none => error
  | some path =>
    match dir.kindOf path with
    | .ok .staticLibrary =>
      .other ((Error.notMachO path).message ++ " " ++ FileKind.libraryHint)
    | _ => error

/-- The warnings about what a session contains. -/
def warnings (s : Session) : List LogEntry :=
  let warn (message : Text) : LogEntry := ⟨.warn, message, []⟩
  let encrypted := if s.flags.hasEncryptedFiles then
      [warn "Some inputs are encrypted; their encrypted metadata was skipped"]
    else []
  let missing := if !s.flags.containsMetadata then
      [warn "This file does not contain any Objective-C runtime information."]
    else if !s.flags.hasRuntimeInfo then
      [warn "This file contains Objective-C sections but no readable classes or protocols."]
    else []
  let skipped := if s.skipped.isEmpty then []
    else [warn ("Skipped " ++ Text.dec s.skipped.length ++ " unreadable records")]
  encrypted ++ missing ++ skipped

/-- Loads files into a session, and writes the diagnostics. -/
def load (host : CpuType) (settings : Settings) (config : SessionConfig) (paths : List Text) :
    Action Session := do
  let config := { config with
    archs := (settings.shared "arch").toTexts
    diagnosticsLead := (settings.shared "diag").toText }
  let dir := (← get).dir
  let session ← Action.ofExcept (Session.new host config)
  let (session, fault) ← Action.ofAttempt (session.loadFiles dir paths false)
  Action.logAll session.log
  match fault with
  | some error => Action.fail (withHint dir error)
  | none => pure ()
  Action.logAll (session.failures.map fun error => ⟨.error, error.message, []⟩)
  Action.logAll (warnings session)
  session.diagnostics.forM fun file => do
    Action.log .info ("Creating " ++ file.1) []
    let dir ← Action.ofExcept (Session.writeDiagnostic (← get).dir file)
    modify fun c => { c with dir }
  return session

/-- Shows the declarations of files. -/
def classDump (host : CpuType) (settings : Settings) (paths : List Text) : Action Unit := do
  let own (name : Text) : SettingValue := settings.own .classDump name
  let session ← load host settings
    { filters := (own "class").toTexts, force := (own "force").toTexts } paths
  let style : HeaderStyle := {
    addresses := (own "re").toTruth
    noForwardDeclarations := (own "no-forward-decls").toTruth }
  let events ← Action.ofExcept (session.walkIn {})
  let palette := (← get).palette
  let header := ({ style } : Header).seeAll palette session.model events
  Action.save (own "output").toText (header.text palette)

/-- Replaces the names of files. The session has no filter, so that every name in them is known
and not used again. -/
def obfuscate (host : CpuType) (settings : Settings) (paths : List Text) : Action Unit := do
  let own (name : Text) : SettingValue := settings.own .obfuscate name
  let ignore := (own "ignore").toTexts
  let session ← load host settings { exclusions := ignore } paths
  let wishes : Renaming.Settings := {
    ignore
    classFilter := (own "class-filter").toTexts
    padding := (own "padding").toWhole
    nameLength := (own "length").toWhole
    seed := (own "seed").toWord
    renameMembers := (own "members").toTruth }
  let rules ← Action.ofExcept wishes.rules
  let events ← Action.ofExcept (session.walkIn {})
  let result ← Action.ofExcept
    (({} : Renaming.Renamer).seeAll rules session.model events).outcome
  Action.logAll result.log
  Action.logAll (result.errors.map fun error => ⟨.warn, error.message, []⟩)
  Action.log .info "Generated symbols" [("count", Text.dec result.renames.length)]
  Action.save (own "output").toText result.header
  let mapPath := (own "map").toText
  if !mapPath.isEmpty then Action.save mapPath result.mapFile

/-- Runs a command. -/
def perform (host : CpuType) (settings : Settings) (command : Command) (arguments : List Text) :
    Action Unit :=
  match command with
  | .classDump => classDump host settings arguments
  | .info => Inspect.run host settings (arguments.headD [])
  | .obfuscate => obfuscate host settings arguments

/-- A usage error as an error of the program. -/
def refuse {α : Type} (result : Except UsageError α) : Action α :=
  Action.ofExcept (result.mapError fun error => .other error.message)

/-- The settings document that is used, if there is one: the file that the user names, or one below
the home of the user, who must have one then. -/
def findDocument (settings : Settings) (invocation : Invocation) :
    Action (Option (Text × SettingValue)) := do
  let dir := (← get).dir
  match invocation.value? "config" with
  | some (.text (first :: path)) =>
    let document := Settings.documentAt? dir settings.environment (first :: path)
    return document.map fun document => (first :: path, document)
  | _ =>
    match settings.environment? "HOME" with
    | some home => return Settings.homeDocument? dir home
    | none =>
      modify (·.warn "Error: $HOME is not defined\n")
      throw .told

/-- The settings with the document that is used. -/
def readDocument (settings : Settings) (invocation : Invocation) : Action Settings := do
  match ← findDocument settings invocation with
  | some (path, document) =>
    modify (·.warn ("Using config file: " ++ path ++ "\n"))
    return { settings with document }
  | none => return settings

/-- Runs a command with its command line. -/
def runCommand (host : CpuType) (command : Command) (line : List Text)
    (environment : List (Text × Text)) : Action Unit := do
  let invocation ← refuse (Invocation.parse command.flags line)
  if invocation.value? "help" = some (.switch true) then
    Action.print (Command.help (some command))
  else
    let settings ← readDocument { given := invocation.given, environment } invocation
    refuse (command.arity.check invocation.arguments.length)
    let enabled :=
      (settings.shared "color").toTruth && (settings.environment? "NO_COLOR").isNone
    let least : LogLevel := if (settings.shared "verbose").toTruth then .debug else .info
    modify fun c => { c with palette := ⟨enabled⟩, least }
    perform host settings command invocation.arguments

/-- Answers a command line without a command: with help, or with what is wrong with its flags. -/
def runNothing (line : List Text) : Action Unit := do
  match Invocation.parse (Command.helpFlag Command.program :: Command.globalFlags) line with
  | .ok _ => Action.print (Command.help none)
  | .error error =>
    modify (·.warn ("Error: " ++ error.message ++ "\n" ++ Command.usage ++ "\n"))
    Action.fail (.other error.message)

/-- Runs the program on a host. -/
def execute (host : CpuType) (arguments : List Text) (environment : List (Text × Text)) :
    Action Unit := do
  match Command.find arguments with
  | .error error =>
    modify (·.warn ("Error: " ++ error.message ++ "\nRun '" ++ Command.program ++
      " --help' for usage.\n"))
    Action.fail (.other error.message)
  | .ok (.nothing line) => runNothing line
  | .ok (.help command) => Action.print (Command.help command)
  | .ok (.run command line) => runCommand host command line environment

/-- What is left after the program has run. -/
structure Outcome where
  /-- The exit code. -/
  code : Nat
  /-- The text on the first output. -/
  out : Text
  /-- The text on the second output. -/
  err : Text
  /-- The files. -/
  dir : Directory

/-- The program as a function. An error ends up in the log, and the exit code tells it. A crash has
an exit code of its own. -/
def run (host : CpuType) (arguments : List Text) (environment : List (Text × Text))
    (dir : Directory) : Outcome :=
  let (result, console) := (execute host arguments environment).run.run { dir }
  let console := match result with
    | .error (.fault error) => console.log ⟨.error, error.message, []⟩
    | _ => console
  let code := match result with
    | .ok _ => 0
    | .error .crashed => 2
    | .error _ => 1
  ⟨code, console.out, console.err, console.dir⟩

end Program

end ObjcLens
