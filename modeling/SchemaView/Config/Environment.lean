import SchemaView.Config
import SchemaView.Config.SettingsFile
import SchemaView.OrderedMap
import SchemaView.Text.Integer
import SchemaView.Text.Quoted

/-!
# Configuration from the environment

Environment variables set the names and limits; a settings file may give variables that the
environment does not set. A limit that is no number is ignored with a notice. The file is the first
one among `settingsPlaces`, and `Config.variablesFor` lists what has to be known of the environment.
-/

namespace SchemaView

/-- Variables with their values. -/
abbrev Variables := OrderedMap String String

namespace Variables

/-- Sets a variable. Neither NUL nor an equals sign in the name can be stored. -/
def set (v : Variables) (name value : String) : Except Error Variables :=
  if name.contains '\x00' || value.contains '\x00' then .error .embeddedNul
  else if name.contains '=' then .error .equalsSignInName
  else .ok (v.insert name value)

/-- The variables with given values. -/
def ofList (values : List (String × String)) : Except Error Variables :=
  values.foldlM (fun v e => v.set e.1 e.2) .empty

/-- What the settings of a file leave in the names that it holds. A reference in a value is to the
environment first, and then to the settings before it. -/
def resolve (environment : Variables) (settings : List Setting) :
    OrderedMap String (Option String) :=
  settings.foldl (fun resolved s =>
    let value? (name : String) : Option String :=
      match environment.get? name with
      | some value => some value
      | none => (resolved.get? name).map (·.getD "")
    resolved.insert s.name
      (s.value?.map fun value => String.ofList (Setting.expand value? value.toList))) .empty

/-- Sets the variables of a settings file that are not set yet, not even to an empty text. -/
def withFile (environment : Variables) (file : Option String) : Except Error Variables :=
  match file with
  | none => .ok environment
  | some text =>
    (environment.resolve (Setting.ofFile text)).entries.foldlM (fun v e =>
      match e.2 with
      | some value => if v.contains e.1 then .ok v else v.set e.1 value
      | none => .ok v) environment

end Variables

/-- Where a settings file is looked for, in this order: in the directory of the program, and in every
directory above it. -/
def settingsPlaces (program : String) : List String :=
  let directories := (Text.split '/' program).dropLast
  (List.range directories.length).reverse.map fun n =>
    "/".intercalate (directories.take (n + 1) ++ [".env"])

/-- Something that a user should know about. -/
inductive Notice where
  /-- A limit that is no number is not used. -/
  | ignoredPassLimit (text : String)
  /-- A graph symbol has no subgraph. -/
  | unnamedGraph (symbol : String)
deriving DecidableEq, Repr

/-- The wording of a notice. -/
def Notice.message : Notice → String
  | ignoredPassLimit text =>
    "Ignoring non-integer SCHEMA_CONTRACTS_MAX_CASCADE_ITERATIONS=" ++ Text.quoted text
  | unnamedGraph symbol => "join__Graph." ++ symbol ++ " has no @join__graph(name:)"

namespace Config

/-- The variable with the name of the marker. -/
def markerVariable : String := "SCHEMA_CONTRACTS_MARKER_DIRECTIVE"

/-- The variable with the name of the tag directive. -/
def tagVariable : String := "SCHEMA_CONTRACTS_TAG_DIRECTIVE"

/-- The variable with the names of further protected types. -/
def protectedVariable : String := "SCHEMA_CONTRACTS_PROTECTED_TYPES"

/-- The variable with the bound on passes. -/
def passesVariable : String := "SCHEMA_CONTRACTS_MAX_CASCADE_ITERATIONS"

/-- The variables that the configuration is made of. -/
def ownVariables : List String := [markerVariable, tagVariable, protectedVariable, passesVariable]

/-- The variables whose values in the environment decide about the configuration: its own ones, and
with a settings file those that the file sets or refers to. -/
def variablesFor (file : Option String) : List String :=
  ownVariables ++ (file.map fun text => (Setting.ofFile text).flatMap Setting.names).getD []

/-- The names in a list with commas; white space around them and empty names do not count. -/
def namesInList (text : String) : List String :=
  ((Text.split ',' text).map Text.trim).filter fun name => !name.isEmpty

/-- The bound on passes that a variable sets, if it is set to a number. -/
def passLimitOf (setting : Option String) : Int × List Notice :=
  match setting with
  | none => (defaultMaxPasses, [])
  | some text =>
    if text.isEmpty then (defaultMaxPasses, [])
    else
      match Text.readInt? text with
      | some limit => (limit, [])
      | none => (defaultMaxPasses, [.ignoredPassLimit text])

/-- The notices that reading the configuration gives rise to. -/
def notices (settings : Variables) : List Notice :=
  (passLimitOf (settings.get? passesVariable)).2

/-- The configuration that variables set. Protected types are added to the usual ones. -/
def ofVariables (settings : Variables) : Except Error Config :=
  create ((settings.get? markerVariable).getD defaultMarker)
    ((settings.get? tagVariable).getD defaultTagDirective)
    (composedTypes.union (.ofList (namesInList ((settings.get? protectedVariable).getD ""))))
    (passLimitOf (settings.get? passesVariable)).1 true

end Config

end SchemaView
