import ByteTape.Number.Numeral

/-!
# Options of the command line

The program takes at most one source, given as it stands or as the path of a file, and settings
for how to run and show it. An option is set at most once. Values are checked when they are set:
no value is empty, and numbers have to be numerals.
-/

namespace ByteTape.CommandLine

open Number

/-- An option that stands for itself. -/
inductive Flag where
  /-- Wait for an acknowledgment after every effectful instruction. -/
  | step
  /-- Tell the version. -/
  | version
  /-- Tell how the program is used. -/
  | help
  deriving DecidableEq

/-- An option that takes a value. -/
inductive Setting where
  /-- The path of a file that holds the source. -/
  | file
  /-- The seconds to wait after every effectful instruction. -/
  | delay
  /-- The number of columns of a drawing. -/
  | columns
  /-- The budget of a slice. -/
  | cycles
  deriving DecidableEq

/-- What an option name stands for. -/
inductive Named where
  /-- The name of a flag. -/
  | flag (flag : Flag)
  /-- The name of a setting. -/
  | setting (setting : Setting)
  deriving DecidableEq

namespace Flag

/-- The long name of a flag. -/
def name : Flag → String
  | step => "step"
  | version => "version"
  | help => "help"

end Flag

namespace Setting

/-- The long name of a setting. -/
def name : Setting → String
  | file => "file"
  | delay => "delay"
  | columns => "columns"
  | cycles => "cycles"

end Setting

/-- What a long name stands for. -/
def named? : String → Option Named
  | "file" => some (.setting .file)
  | "step" => some (.flag .step)
  | "delay" => some (.setting .delay)
  | "columns" => some (.setting .columns)
  | "cycles" => some (.setting .cycles)
  | "version" => some (.flag .version)
  | "help" => some (.flag .help)
  | _ => none

/-- What a one-character name stands for. -/
def shortNamed? : Char → Option Named
  | 'f' => some (.setting .file)
  | 's' => some (.flag .step)
  | 'd' => some (.setting .delay)
  | 'V' => some (.flag .version)
  | 'h' => some (.flag .help)
  | _ => none

/-- What can be wrong with a command line. -/
inductive UsageError where
  /-- There is no option of this name. -/
  | unknownOption (name : String)
  /-- An option is given a second time. -/
  | repeatedOption (name : String)
  /-- A setting lacks its value. -/
  | missingValue (setting : Setting)
  /-- A flag is given a value. -/
  | needlessValue (flag : Flag)
  /-- A value is empty or no numeral of the kind wanted. -/
  | unusableValue (setting : Setting) (value : String)
  /-- There is more than one source. -/
  | secondSource (argument : String)
  /-- A source is given beside a file. -/
  | sourceBesideFile
  deriving DecidableEq

namespace UsageError

/-- The wording of a usage error. -/
def message : UsageError → String
  | unknownOption name => "unexpected argument '" ++ name ++ "' found"
  | repeatedOption name => "the option '--" ++ name ++ "' cannot be used multiple times"
  | missingValue setting => "a value is required for '--" ++ setting.name ++ "'"
  | needlessValue flag => "no value is expected for '--" ++ flag.name ++ "'"
  | unusableValue setting value =>
    "invalid value '" ++ value ++ "' for '--" ++ setting.name ++ "'"
  | secondSource argument => "unexpected argument '" ++ argument ++ "' found"
  | sourceBesideFile => "a source cannot be used with '--file'"

end UsageError

/-- The options of a run. -/
structure Options where
  /-- The source, if it is given as it stands. -/
  source : Option String
  /-- The path of the file that holds the source. -/
  file : Option String
  /-- Whether every effectful instruction waits for an acknowledgment. -/
  step : Bool
  /-- The seconds to wait after every effectful instruction. -/
  delay : Option Binary64
  /-- The number of columns of a drawing. -/
  columns : Option Nat
  /-- The budget of a slice. -/
  cycles : Option Nat
  deriving DecidableEq

namespace Options

/-- No option given. -/
def none : Options :=
  ⟨.none, .none, false, .none, .none, .none⟩

/-- Store a value that was read, unless there is one already or it could not be read. -/
def store {α : Type} (setting : Setting) (text : String) (present read : Option α) :
    Except UsageError (Option α) :=
  match present, read with
  | some _, _ => .error (.repeatedOption setting.name)
  | .none, .none => .error (.unusableValue setting text)
  | .none, some value => .ok (some value)

/-- The path a text stands for: any text but the empty one. -/
def path? (text : String) : Option String :=
  if text.isEmpty then .none else some text

/-- Set an option to the value written in a text. -/
def set (options : Options) (setting : Setting) (text : String) : Except UsageError Options :=
  match setting with
  | .file => (store setting text options.file (path? text)).map fun file =>
      { options with file }
  | .delay => (store setting text options.delay (binary64? text)).map fun delay =>
      { options with delay }
  | .columns => (store setting text options.columns (word? text)).map fun columns =>
      { options with columns }
  | .cycles => (store setting text options.cycles (word? text)).map fun cycles =>
      { options with cycles }

/-- Give the source. -/
def setSource (options : Options) (text : String) : Except UsageError Options :=
  match options.source with
  | some _ => .error (.secondSource text)
  | .none => .ok { options with source := some text }

/-- Whether the source has to be asked for. -/
def lacksSource (options : Options) : Bool :=
  options.source.isNone && options.file.isNone

/-- The budget of a slice, five thousand instructions unless set. -/
def budget (options : Options) : Nat :=
  options.cycles.getD 5000

/-- The seconds to wait, none unless set. -/
def seconds (options : Options) : Binary64 :=
  options.delay.getD .zero

end Options

end ByteTape.CommandLine
