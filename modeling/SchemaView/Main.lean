import SchemaView.CommandLine.Run

/-!
# The program

Reads the schema file and the environment, runs the command and puts its results in place.
-/

namespace SchemaView.CommandLine

/-- The values of variables, as far as they are set. No variable has NUL or an equals sign in its
name, and the system would look for another one. -/
def readVariables (names : List String) : IO (List (String × String)) := do
  let possible := names.filter fun name => !name.contains '\x00' && !name.contains '='
  possible.filterMapM fun name => do
    pure ((← IO.getEnv name).map fun value => (name, value))

/-- The text of the first file that there is in some places. -/
def readFirst : List String → IO (Option String)
  | [] => pure none
  | place :: rest => do
    try
      pure (some (← IO.FS.readFile place))
    catch
      | .noFileOrDirectory .. | .inappropriateType .. => readFirst rest
      | error => throw error

/-- The text of the settings file, where a command goes by one. -/
def readSettings (action : Action) : IO (Option String) := do
  match action with
  | .compile _ => readFirst (settingsPlaces (← IO.appPath).toString)
  | .ownership _ | .reachable _ | .tags => pure none

/-- Ends the program with a failure. -/
def fail (error : Error) : IO UInt32 := do
  IO.eprintln error.message
  pure 1

end SchemaView.CommandLine

open SchemaView SchemaView.CommandLine in
/-- Runs the command that the arguments give. -/
def main (args : List String) : IO UInt32 := do
  match Command.ofArgs args with
  | .error exit =>
    IO.eprintln
      "usage: schemaview [-h] [--verbose] ownership|reachable|compile|tags SCHEMA [options]"
    pure exit.code.toUInt32
  | .ok command =>
    match checkPath command.schema with
    | .error error => fail error
    | .ok schema =>
      let text ← IO.FS.readFile schema
      let file ← readSettings command.action
      let environment := Variables.ofList (← readVariables (Config.variablesFor file))
      match environment >>= fun v => executeIn text v file command.action with
      | .error error => fail error
      | .ok output =>
        if let some (path, fileText) := output.file then
          IO.FS.writeFile path fileText
        IO.print output.stdout
        IO.eprint output.stderr
        pure output.exitCode.toUInt32
