import ByteTape.CommandLine.Options

/-!
# Reading the arguments

Arguments are read from left to right. An argument of two hyphens and a name is a long option, its
value behind an equals sign or in the next argument. An argument of one hyphen and more is a
cluster of one-character options, of which a setting takes the rest of the cluster as its value or
else the next argument. Two hyphens alone make every later argument a source, and so is every
argument not said to be an option or a value. Asking for the version or for help is answered at
once, whatever follows.
-/

namespace ByteTape.CommandLine

/-- What a command line asks for. -/
inductive Request where
  /-- To run a program. -/
  | run (options : Options)
  /-- To tell the version. -/
  | version
  /-- To tell how the program is used. -/
  | help
  deriving DecidableEq

/-- The arguments read so far. -/
structure Reading where
  /-- The options set. -/
  options : Options
  /-- The setting whose value is the next argument, if there is one. -/
  pending : Option Setting
  /-- Whether options have come to their end. -/
  literal : Bool
  deriving DecidableEq

/-- What reading an argument leads to. -/
inductive Progress where
  /-- Reading goes on. -/
  | more (reading : Reading)
  /-- The request is known already. -/
  | answered (request : Request)
  deriving DecidableEq

namespace Reading

/-- Nothing read yet. -/
def start : Reading :=
  ⟨Options.none, none, false⟩

/-- Set an option that waits for nothing more. -/
def set (reading : Reading) (setting : Setting) (text : String) : Except UsageError Progress :=
  (reading.options.set setting text).map fun options =>
    .more { reading with options, pending := none }

/-- Read a flag. -/
def flag (reading : Reading) : Flag → Except UsageError Progress
  | .step =>
    if reading.options.step then .error (.repeatedOption Flag.step.name)
    else .ok (.more { reading with options := { reading.options with step := true } })
  | .version => .ok (.answered .version)
  | .help => .ok (.answered .help)

/-- Read a source. -/
def source (reading : Reading) (text : String) : Except UsageError Progress :=
  (reading.options.setSource text).map fun options => .more { reading with options }

/-- The text behind an option name: an equals sign may stand before it. -/
def attached : List Char → String
  | '=' :: value => String.ofList value
  | value => String.ofList value

/-- Read a cluster of one-character options. -/
def cluster (reading : Reading) : List Char → Except UsageError Progress
  | [] => .ok (.more reading)
  | character :: rest =>
    match shortNamed? character with
    | none => .error (.unknownOption (String.ofList ['-', character]))
    | some (.flag flag) =>
      match reading.flag flag with
      | .ok (.more after) => after.cluster rest
      | finished => finished
    | some (.setting setting) =>
      if rest.isEmpty then .ok (.more { reading with pending := some setting })
      else reading.set setting (attached rest)

/-- Read a long option: a name, and perhaps an equals sign with a value. -/
def long (reading : Reading) (characters : List Char) : Except UsageError Progress :=
  let (name, tail) := characters.span (· != '=')
  match named? (String.ofList name), tail with
  | none, _ => .error (.unknownOption ("--" ++ String.ofList name))
  | some (.flag flag), [] => reading.flag flag
  | some (.flag flag), _ :: _ => .error (.needlessValue flag)
  | some (.setting setting), [] => .ok (.more { reading with pending := some setting })
  | some (.setting setting), _ :: value => reading.set setting (String.ofList value)

/-- Read an argument that begins an option, which no waiting setting takes as its value. -/
def unlessPending (reading : Reading) (progress : Except UsageError Progress) :
    Except UsageError Progress :=
  match reading.pending with
  | some setting => .error (.missingValue setting)
  | none => progress

/-- Read an argument that is a value or a source. -/
def plain (reading : Reading) (argument : String) : Except UsageError Progress :=
  match reading.pending with
  | some setting => reading.set setting argument
  | none => reading.source argument

/-- Read an argument. A single hyphen is an ordinary text. -/
def argument (reading : Reading) (text : String) : Except UsageError Progress :=
  if reading.literal then
    reading.source text
  else
    match text.toList with
    | ['-'] => reading.plain text
    | ['-', '-'] => reading.unlessPending (.ok (.more { reading with literal := true }))
    | '-' :: '-' :: characters => reading.unlessPending (reading.long characters)
    | '-' :: characters => reading.unlessPending (reading.cluster characters)
    | _ => reading.plain text

/-- Conclude when there are no more arguments. -/
def finish (reading : Reading) : Except UsageError Request :=
  match reading.pending with
  | some setting => .error (.missingValue setting)
  | none =>
    if reading.options.source.isSome && reading.options.file.isSome then
      .error .sourceBesideFile
    else
      .ok (.run reading.options)

/-- Read the arguments that are left. -/
def arguments (reading : Reading) : List String → Except UsageError Request
  | [] => reading.finish
  | text :: rest =>
    match reading.argument text with
    | .error error => .error error
    | .ok (.answered request) => .ok request
    | .ok (.more after) => after.arguments rest

end Reading

/-- What the arguments of a command line ask for. -/
def read (arguments : List String) : Except UsageError Request :=
  Reading.start.arguments arguments

end ByteTape.CommandLine
