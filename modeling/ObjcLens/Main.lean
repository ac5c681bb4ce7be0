import ObjcLens.Cli.Run

/-!
# The command line

The program as a process. It looks at the files that its arguments name, calls `Program.run`, and
then writes the outputs and the files that have changed. Everything else is decided there.
-/

namespace ObjcLens

namespace Main

/-- The bytes of a text. -/
def bytesOf (t : Text) : ByteArray := ⟨t.toArray⟩

/-- A text as a string of the operating system. -/
def stringOf (t : Text) : String := (String.fromUTF8? (bytesOf t)).getD ""

/-- The paths that an argument can name: all of it, or the value of a flag in it. -/
def pathsIn (argument : Text) : List Text :=
  [argument, argument.drop 2] ++ ((Text.cut? (byte '=') argument).map (·.2)).toList

/-- The directories on the way to a path. -/
def foldersOf (path : Text) : List Text :=
  (Directory.ancestors (Directory.components path)).map Directory.ofComponents

/-- The variables of the environment that are settings. -/
def variableNames : List Text :=
  let groups := Command.all.map fun c => (c.name, c.ownFlags)
  ["HOME", "CLICOLOR", "NO_COLOR"].map Text.ofString ++
    Command.globalFlags.map (fun f => Settings.variableName [f.name]) ++
    groups.flatMap fun (group, flags) =>
      Settings.variableName [group] :: flags.map fun f => Settings.variableName [group, f.name]

/-- The environment as far as it matters. -/
def readEnvironment : IO (List (Text × Text)) := do
  let mut found := []
  for name in variableNames do
    if let some value ← IO.getEnv (stringOf name) then
      found := (name, Text.ofString value) :: found
  return found

/-- The directory with what is at a path: a file with its contents, or a directory. A path that
can be opened and not read is a directory. -/
def look (dir : Directory) (path : Text) : IO Directory := do
  let name := stringOf path
  if name.isEmpty || dir.hasFile (Directory.components path) then return dir
  let contents ← (some <$> IO.FS.readBinFile name) <|> pure none
  match contents with
  | some bytes => return dir.write path bytes.data
  | none =>
    let isThere ← (do let _ ← IO.FS.Handle.mk name .read; pure true) <|> pure false
    return if isThere then { dir with folders := dir.folders ++ [path] } else dir

/-- The files and directories that a run can reach. -/
def readDirectory (arguments : List Text) (home : Option Text) : IO Directory := do
  let named := arguments.flatMap pathsIn
  let paths := named ++ named.flatMap foldersOf ++ (home.map Settings.homePlaces).getD []
  paths.foldlM look {}

/-- Writes the directories and files that a run has added or changed. -/
def writeDirectory (before after : Directory) : IO Unit := do
  for folder in after.folders.drop before.folders.length do
    IO.FS.createDirAll (stringOf folder)
  for (path, contents) in after.files do
    if before.get? path != some contents then
      IO.FS.writeBinFile (stringOf path) ⟨contents⟩

/-- The machine that the program is built for. -/
def machine : Text := "amd64"

/-- Runs the program on the files of the working directory. -/
def run (arguments : List String) : IO UInt32 := do
  let arguments := arguments.map Text.ofString
  let environment ← readEnvironment
  let home := (environment.find? fun entry => entry.1 = Text.ofString "HOME").map (·.2)
  let before ← readDirectory arguments home
  let outcome := Program.run (CpuType.ofMachine machine) arguments environment before
  writeDirectory before outcome.dir
  (← IO.getStdout).write (bytesOf outcome.out)
  (← IO.getStderr).write (bytesOf outcome.err)
  return outcome.code.toUInt32

end Main

end ObjcLens

/-- The program. -/
def main (arguments : List String) : IO UInt32 := ObjcLens.Main.run arguments
