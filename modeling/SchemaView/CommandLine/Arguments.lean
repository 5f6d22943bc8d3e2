import SchemaView.Text.Integer

/-!
# The arguments of a command line

A command takes options and operands in any order. An option is given by its name or by an
unambiguous beginning of it; its value is the next argument or stands behind an equals sign. Behind
two hyphens all arguments are operands.
-/

namespace SchemaView.CommandLine

/-- What an option takes. -/
inductive Arity where
  /-- Nothing: the command line ends and help is shown. -/
  | help
  /-- Nothing. -/
  | none
  /-- One value. -/
  | one
  /-- All values up to the next option. -/
  | many
deriving DecidableEq, Repr

/-- An option that a command knows. -/
structure OptionSpec where
  /-- The name under which it is looked up. -/
  key : String
  /-- The names that it can be given by. -/
  names : List String
  arity : Arity
deriving DecidableEq, Repr

/-- The ways to leave without running a command. -/
inductive Exit where
  /-- Help was asked for. -/
  | help
  /-- The arguments make no sense. -/
  | usage
deriving DecidableEq, Repr

/-- The exit code. -/
def Exit.code : Exit → Nat
  | help => 0
  | usage => 2

/-- What an argument is. -/
inductive Arg where
  | operand (text : String)
  | option (spec : OptionSpec) (attached : Option String)
  /-- A text that looks like an option and is none. -/
  | unknown
  /-- The two hyphens in front of operands. -/
  | separator
deriving DecidableEq, Repr

/-- Help can be asked for everywhere. -/
def helpOption : OptionSpec := ⟨"help", ["-h", "--help"], .help⟩

/-- An option with its name given in full. -/
def longOption (key : String) (arity : Arity) : OptionSpec := ⟨key, ["--" ++ key], arity⟩

/-- Splits a text at its first equals sign. -/
def splitValue (text : String) : String × Option String :=
  let chars := text.toList
  let name := chars.takeWhile (· != '=')
  if name.length = chars.length then (text, none)
  else (String.ofList name, some (String.ofList (chars.drop (name.length + 1))))

/-- The options with a name that begins with a text. -/
def abbreviated (specs : List OptionSpec) (front : String) : List OptionSpec :=
  specs.filter fun s => s.names.any fun name => front.toList.isPrefixOf name.toList

/-- A decimal digit of any script. -/
def isDigit (c : Char) : Bool := (Text.digitValue? c).isSome

/-- Leaves out a line feed at the end. -/
def dropFinalBreak (text : List Char) : List Char :=
  if text.getLast? = some '\n' then text.dropLast else text

/-- Whether a text writes a negative number: digits behind a hyphen, with at most one point in
front of a digit. A line feed behind it does not count. -/
def isNegativeNumber (text : String) : Bool :=
  match dropFinalBreak text.toList with
  | '-' :: digits =>
    match digits.dropWhile isDigit with
    | [] => !digits.isEmpty
    | '.' :: fraction => !fraction.isEmpty && fraction.all isDigit
    | _ => false
  | _ => false

/-- What a text with a hyphen in front is if it is no option: negative numbers and texts with
spaces are operands. -/
def nonOption (text : String) : Arg :=
  if isNegativeNumber text || text.toList.contains ' ' then .operand text else .unknown

/-- Whether each character of a text is the name of an option behind a single hyphen. -/
def isRun (specs : List OptionSpec) (text : String) : Bool :=
  !text.isEmpty && text.toList.all fun c =>
    specs.any fun s => s.names.contains (String.ofList ['-', c])

/-- An option with a text behind its name. Names with a single hyphen may be run together; the
first of them decides, since the only such option ends the command line. -/
def withAttached (specs : List OptionSpec) (spec : OptionSpec) (isShort : Bool) (text : String) :
    Arg :=
  if isShort && isRun specs text then .option spec none else .option spec (some text)

/-- What an argument is, given the options. -/
def classify (specs : List OptionSpec) (text : String) : Except Exit Arg :=
  match text.toList with
  | '-' :: second :: _ =>
    match specs.find? fun s => s.names.contains text with
    | some spec => .ok (.option spec none)
    | none =>
      let (name, value) := splitValue text
      match specs.find? fun s => s.names.contains name, value with
      | some spec, some value => .ok (withAttached specs spec (second != '-') value)
      | _, _ =>
        if second = '-' then
          match abbreviated specs name with
          | [] => .ok (nonOption text)
          | [spec] => .ok (.option spec value)
          | _ => .error .usage
        else
          match specs.find? fun s => s.names.contains (String.ofList (text.toList.take 2)) with
          | some spec =>
            .ok (withAttached specs spec true (String.ofList (text.toList.drop 2)))
          | none => .ok (nonOption text)
  | _ => .ok (.operand text)

/-- What arguments are, up to the separator and behind it. -/
def classifyAll (specs : List OptionSpec) : List String → Except Exit (List Arg)
  | [] => .ok []
  | text :: rest => do
    if text = "--" then pure (.separator :: rest.map .operand)
    else
      let arg ← classify specs text
      pure (arg :: (← classifyAll specs rest))

/-- What was read of the arguments of a command that takes one operand. -/
structure Given where
  operand : Option String
  /-- The options with their values, the latest first. -/
  options : List (String × List String)
  /-- The option whose values are being collected. -/
  collecting : Option String
  /-- Whether there was an argument that the command has no use for. -/
  hasExtra : Bool

namespace Given

/-- Nothing was read yet. -/
def nothing : Given := ⟨none, [], none, false⟩

/-- The values of an option, if it was given. -/
def valuesOf? (g : Given) (key : String) : Option (List String) :=
  (g.options.find? fun o => o.1 == key).map Prod.snd

/-- The value of an option that takes one. -/
def valueOf? (g : Given) (key : String) : Option String :=
  (g.valuesOf? key).bind List.head?

/-- Whether an option was given. -/
def has (g : Given) (key : String) : Bool := (g.valuesOf? key).isSome

/-- Records an option. -/
def record (g : Given) (key : String) (values : List String) : Given :=
  { g with options := (key, values) :: g.options, collecting := none }

/-- Records an operand: as a value of the option that collects, as the operand of the command, or
as one too many. -/
def recordOperand (g : Given) (text : String) : Given :=
  match g.collecting with
  | some key => { g with options := (key, (g.valuesOf? key).getD [] ++ [text]) :: g.options }
  | none =>
    match g.operand with
    | none => { g with operand := some text }
    | some _ => { g with hasExtra := true }

end Given

/-- The values that a text behind an equals sign gives. Two hyphens separate and are none. -/
def attachedValues (text : String) : List String := if text = "--" then [] else [text]

/-- Reads classified arguments. The separator may stand directly behind the operand of the command
or anywhere in front of it. -/
def readArgs (g : Given) : List Arg → Except Exit Given
  | [] => .ok g
  | .option spec attached :: rest =>
    match spec.arity, attached with
    | .help, none => .error .help
    | .none, none => readArgs (g.record spec.key []) rest
    | .help, some _ | .none, some _ => .error .usage
    | .one, some value | .many, some value =>
      readArgs (g.record spec.key (attachedValues value)) rest
    | .one, none =>
      match rest with
      | .operand value :: rest => readArgs (g.record spec.key [value]) rest
      | _ => .error .usage
    | .many, none => readArgs { g.record spec.key [] with collecting := some spec.key } rest
  | .operand text :: .separator :: rest =>
    -- The operand of the command takes the separator along; an option does not.
    let isExtra := g.collecting.isSome && g.operand.isSome
    let g := g.recordOperand text
    readArgs { g with collecting := none, hasExtra := g.hasExtra || isExtra } rest
  | .operand text :: rest => readArgs (g.recordOperand text) rest
  | .separator :: rest =>
    readArgs { g with collecting := none, hasExtra := g.hasExtra || g.operand.isSome } rest
  | .unknown :: rest => readArgs { g with collecting := none, hasExtra := true } rest

/-- Reads the arguments of a command that takes one operand. -/
def readCommand (specs : List OptionSpec) (args : List String) : Except Exit (String × Given) := do
  let given ← readArgs .nothing (← classifyAll specs args)
  match given.operand with
  | some operand => if given.hasExtra then throw .usage else pure (operand, given)
  | none => throw .usage

end SchemaView.CommandLine
