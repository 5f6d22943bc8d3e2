import SchemaView.CommandLine.Arguments

/-!
# Commands

The four commands of the program and how they are given: options of the program, the name of the
command, and its own arguments, of which the schema file is the only operand.
-/

namespace SchemaView.CommandLine

/-- How a contract is to be compiled. -/
structure CompileRequest where
  includeTags : Option (List String)
  excludeTags : Option (List String)
  name : Option String
  keepUnreachable : Bool
  withOwnership : Bool
  /-- The file for the contract schema, if it is not to be printed. -/
  output : Option String
  /-- Whether the audits are to be run. -/
  validate : Bool
deriving DecidableEq, Repr

/-- What a command does with its schema. -/
inductive Action where
  /-- Lists owners, or writes them to a file. -/
  | ownership (csv : Option String)
  /-- Lists what the roots reach, and may explain why a type is reached. -/
  | reachable (explain : Option String)
  | compile (request : CompileRequest)
  | tags
deriving DecidableEq, Repr

/-- A command and its schema file. -/
structure Command where
  schema : String
  action : Action
deriving DecidableEq, Repr

/-- A text that is not empty. -/
def nonEmpty? (text : Option String) : Option String := text.filter fun t => !t.isEmpty

/-- The name that the values of an option give: its value, or the sign for an empty list. -/
def nameOf (values : List String) : String := values.headD "[]"

/-- Reads the arguments of a command with a given name. -/
def readNamed (name : String) (args : List String) : Except Exit Command :=
  match name with
  | "ownership" => do
    let (schema, g) ← readCommand [helpOption, longOption "csv" .one] args
    pure ⟨schema, .ownership (nonEmpty? (g.valueOf? "csv"))⟩
  | "reachable" => do
    let (schema, g) ← readCommand [helpOption, longOption "explain" .one] args
    pure ⟨schema, .reachable (nonEmpty? (g.valueOf? "explain"))⟩
  | "compile" => do
    let specs :=
      [helpOption, longOption "include" .many, longOption "exclude" .many, longOption "name" .one,
       longOption "keep-unreachable" .none, longOption "ownership" .none,
       longOption "output" .one, longOption "validate" .none]
    let (schema, g) ← readCommand specs args
    pure ⟨schema, .compile {
      includeTags := g.valuesOf? "include"
      excludeTags := g.valuesOf? "exclude"
      name := (g.valuesOf? "name").map nameOf
      keepUnreachable := g.has "keep-unreachable"
      withOwnership := g.has "ownership"
      output := nonEmpty? (g.valueOf? "output")
      validate := g.has "validate" }⟩
  | "tags" => do
    let (schema, _) ← readCommand [helpOption] args
    pure ⟨schema, .tags⟩
  | _ => .error .usage

/-- The options in front of the name of a command. -/
def programOptions : List OptionSpec := [helpOption, longOption "verbose" .none]

/-- Reads the arguments of the program, given whether one of those before was unknown. -/
def readProgram (sawUnknown : Bool) : List String → Except Exit Command
  | [] => .error .usage
  | text :: rest =>
    if text = "--" then .error .usage
    else do
      match ← classify programOptions text with
      | .operand name =>
        let command ← readNamed name rest
        if sawUnknown then throw .usage else pure command
      | .option spec none =>
        if spec.arity = .help then throw .help else readProgram sawUnknown rest
      | .option _ (some _) | .separator => throw .usage
      | .unknown => readProgram true rest

/-- The command that the arguments of the program give. Not even the arguments of a command may be
ambiguous as options of the program. -/
def Command.ofArgs (args : List String) : Except Exit Command := do
  discard (classifyAll programOptions args)
  readProgram false args

end SchemaView.CommandLine
