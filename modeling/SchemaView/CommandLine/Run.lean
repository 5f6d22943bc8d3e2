import SchemaView.Audit
import SchemaView.CommandLine.Command
import SchemaView.Config.Environment
import SchemaView.Sdl.Excerpt
import SchemaView.Table
import SchemaView.TypeGraph.Path

/-!
# Running commands

A command turns the text of its schema file and the variables of the environment into lines for
the two outputs, possibly a file, and an exit code. A failure ends the command; what was written
before stays written. Only a limit on passes that is too small is not reported by the command.
-/

namespace SchemaView.CommandLine

/-- What a command leaves behind. -/
structure Output where
  stdout : String
  stderr : String
  /-- A file to write, with its text. -/
  file : Option (String × String)
  exitCode : Nat

namespace Output

/-- Nothing yet. -/
def nothing : Output := ⟨"", "", none, 0⟩

end Output

/-- A path that the system can look up, which holds no NUL. -/
def checkPath (path : String) : Except Error String :=
  if path.contains '\x00' then .error .embeddedNul else .ok path

/-- A command while it runs. -/
abbrev Run := ExceptT Error (StateM Output)

namespace Run

/-- Prints a line. -/
def print (line : String) : Run Unit := modify fun o => { o with stdout := o.stdout ++ line ++ "\n" }

/-- Prints a line on the second output. -/
def printError (line : String) : Run Unit :=
  modify fun o => { o with stderr := o.stderr ++ line ++ "\n" }

/-- Sets the exit code. -/
def exit (code : Nat) : Run Unit := modify fun o => { o with exitCode := code }

/-- Logs a notice. -/
def warn (part : String) (notice : Notice) : Run Unit :=
  printError ("WARNING schemacontracts." ++ part ++ ": " ++ notice.message)

/-- Goes on with a result, or ends with its failure. -/
def lift {α : Type} (x : Except Error α) : Run α := ExceptT.mk (pure x)

/-- Writes a file. -/
def write (path text : String) : Run Unit := do
  let path ← lift (checkPath path)
  modify fun o => { o with file := some (path, text) }

/-- Extracts the ownership of a document. Graph symbols without a subgraph give notices. -/
def ownership (d : Document) : Run Ownership := do
  d.unnamedGraphs.forM fun symbol => warn "federation.ownership" (.unnamedGraph symbol)
  lift d.ownership

/-- Lists the owners of the elements of a document. -/
def listOwnership (d : Document) (csv : Option String) : Run Unit := do
  let o ← ownership d
  let table ← lift o.table
  print ("Coordinates: " ++ toString o.size)
  print ("Subgraphs: " ++ ", ".intercalate o.subgraphs.names)
  match csv with
  | some path =>
    write path table.csv
    print ("Ownership table saved to " ++ path)
  | none =>
    (NameSet.ofList o.keys).names.forM fun element =>
      print ("  " ++ element ++ ": " ++ ", ".intercalate ((o.get? element).getD .empty).names)

/-- Lists the types that the roots reach and those that they do not. -/
def listReachable (d : Document) (explain : Option String) : Run Unit := do
  let reached ← lift (d.reachable none)
  let unreached ← lift (d.unreachable none)
  print ("Reachable types: " ++ toString reached.names.length)
  reached.names.forM fun name => print ("  " ++ name)
  if !unreached.isEmpty then
    print ("Unreachable types: " ++ toString unreached.length)
    unreached.forM fun name => print ("  " ++ name)
  match explain with
  | some type =>
    let paths ← lift (d.pathsTo type)
    if paths.keys.isEmpty then print (type ++ " is not reachable from any root")
    (NameSet.ofList paths.keys).names.forM fun root =>
      print (root ++ ": " ++ " -> ".intercalate ((paths.get? root).getD []))
  | none => pure ()

/-- Lists the tags of a document. -/
def listTags (d : Document) : Run Unit := (d.tags none).all.names.forM print

/-- A list of tags in a summary. -/
def tagSummary (tags : Option NameSet) : String :=
  match tagList? tags with
  | some names => Text.quotedList names
  | none => "None"

/-- The lines of the summary of a compiled contract. -/
def summaryLines (c : Compilation) : List (String × String) :=
  [("report_version", reportLayout),
   ("contract_name", c.contractName.getD "None"),
   ("include_tags", tagSummary c.rule.includeTags),
   ("exclude_tags", tagSummary c.rule.excludeTags),
   ("excluded_coordinates", Text.quotedList c.excludedTexts),
   ("cascaded_types", Text.quotedList c.cascaded),
   ("cascade_iterations", toString c.passes),
   ("excluded_by_subgraph", Text.quotedCounts c.hiddenBySubgraph),
   ("sdl_hash", c.fingerprint)]

/-- Prints or writes a compiled contract and its summary, and runs the audits if asked for. -/
def reportCompilation (d : Document) (config : Config) (r : CompileRequest) (c : Compilation) :
    Run Unit := do
  match r.output with
  | some path =>
    write path c.sdl
    print ("Contract schema saved to " ++ path)
  | none => print c.sdl
  printError "\n--- Contract Summary ---"
  (summaryLines c).forM fun line => printError ("  " ++ line.1 ++ ": " ++ line.2)
  if r.validate then
    let audits ← lift (c.audits d config)
    audits.forM fun a =>
      printError ("  [" ++ (if a.passed then "PASS" else "FAIL") ++ "] " ++ a.gate.label ++ ": "
        ++ a.details)
    if audits.any fun a => !a.passed then exit 1

/-- Compiles a contract. -/
def compile (d : Document) (settings : Variables) (r : CompileRequest) : Run Unit := do
  (Config.notices settings).forM (warn "config")
  let config ← lift (Config.ofVariables settings)
  let owners ← if r.withOwnership then some <$> ownership d else pure none
  let options : CompileOptions := {
    rule := .ofChoices r.includeTags r.excludeTags (!r.keepUnreachable)
    config := config
    ownership := owners
    tags := none
    contractName := r.name }
  match ← lift (d.compile options) with
  | .rejected verdict =>
    verdict.forM fun v => printError (v.code ++ " (" ++ v.field.label ++ "): " ++ v.message)
    exit 2
  | .compiled c => reportCompilation d config r c

/-- Runs an action on the text of a schema file. -/
def action (text : String) (settings : Variables) (a : Action) : Run Unit := do
  let d ← lift ((Document.parse text).mapError Error.unreadable)
  match a with
  | .ownership csv => listOwnership d csv
  | .reachable explain => listReachable d explain
  | .compile request => compile d settings request
  | .tags => listTags d

end Run

/-- How a failure is shown, with an excerpt of the text if that cannot be read. -/
def failureText (text : String) : Error → String
  | .unreadable fault => fault.report text
  | other => other.message

/-- Whether a failure is reported by the command itself. -/
def isReported : Error → Bool
  | .passLimitTooSmall _ | .malformedCoordinate _ | .noSuchType _ | .noSuchDefinition _
  | .embeddedNul | .equalsSignInName => false
  | .unreadable _ | .noSubgraphEnum | .undeclaredGraph _ _ | .unknownType _ _
  | .cascadeUnfinished _ _ => true

/-- Runs an action on the text of a schema file as it was read. -/
def execute (fileText : String) (settings : Variables) (a : Action) : Except Error Output :=
  let text := String.ofList (Text.normalizeBreaks fileText.toList)
  match (Run.action text settings a).run.run .nothing with
  | (.ok (), output) => .ok output
  | (.error error, output) =>
    if isReported error then
      let shown := failureText text error
      .ok { output with
        stderr := output.stderr ++ "ERROR schemacontracts.run_contracts: " ++ shown
          ++ "\nerror: " ++ shown ++ "\n"
        exitCode := 1 }
    else .error error

/-- Runs an action under the variables of an environment and a settings file. They matter only where
a contract is compiled, and then a schema that cannot be read is the first failure. -/
def executeIn (fileText : String) (environment : Variables) (file : Option String) (a : Action) :
    Except Error Output :=
  match environment.withFile file with
  | .ok settings => execute fileText settings a
  | .error error =>
    match a, Document.parse (String.ofList (Text.normalizeBreaks fileText.toList)) with
    | .compile _, .ok _ => .error error
    | _, _ => execute fileText environment a

end SchemaView.CommandLine
