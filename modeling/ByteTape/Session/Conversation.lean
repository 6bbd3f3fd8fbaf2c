import ByteTape.CommandLine.Options
import ByteTape.Inspection.Drawing
import ByteTape.Machine.Call

/-!
# What is said at a terminal

The prompts, the way an inspection is shown, what a reply does to the machine, and how a session
ends: these hold for any terminal, whether its replies are known in advance or typed by a person.
-/

namespace ByteTape.Session

open CommandLine

/-- How a session ends: its exit code and what it prints. -/
structure Exit where
  /-- The exit code. -/
  code : Nat
  /-- What is printed as the result. -/
  output : String
  /-- What is printed as a complaint. -/
  complaint : String
  deriving DecidableEq

/-- The prompt for a source that was not given. -/
def sourcePrompt : String :=
  "Brainfuck Code:"

/-- The prompt for the line an instruction waits for. -/
def inputPrompt : String :=
  "Input one character:"

/-- The prompt for the acknowledgment of a pause. -/
def acknowledgmentPrompt (inspection : Inspection) : String :=
  if inspection.instruction = some .breakpoint then "Press Enter to Continue!" else ""

/-- The prompt of the line that an event asks for, if it asks for one. A pause that cannot be drawn
asks for nothing. -/
def promptFor (columns : Nat) : Event → Option String
  | .inputRequested => some inputPrompt
  | .paused inspection =>
    if Inspection.Drawable columns ∧ inspection.pause.acknowledge then
      some (acknowledgmentPrompt inspection)
    else
      none
  | _ => none

/-- A text in green. -/
def green (text : String) : String :=
  "\x1b[32m" ++ text ++ "\x1b[0m"

/-- A text in bold. -/
def bold (text : String) : String :=
  "\x1b[1m" ++ text ++ "\x1b[0m"

/-- An inspection as a session shows it, if it can be drawn: the current cell in green. -/
def shown? (inspection : Inspection) (columns : Nat) : Option String :=
  inspection.draw? columns green

/-- The width of a drawn cell and the blank after it. -/
def cellWidth : Nat :=
  5

/-- The most columns chosen without being asked for. -/
def mostColumns : Nat :=
  16

/-- The columns that fit into a terminal, at least one; the most if its width is not known. -/
def fittingColumns : Option Nat → Nat
  | none => mostColumns
  | some width => min (max (width / cellWidth) 1) mostColumns

/-- The columns of a session: those asked for, or else those that fit. -/
def columnsFor (options : Options) (width : Option Nat) : Nat :=
  options.columns.getD (fittingColumns width)

/-- The exit after a program that came to its end. -/
def Exit.halted (output : String) : Exit :=
  ⟨0, output ++ "\n", ""⟩

/-- The exit after a fault. -/
def Exit.faulted (fault : Fault) : Exit :=
  ⟨1, "", bold fault.text ++ "\n"⟩

/-- The exit when an inspection is to be shown that cannot be drawn: five times its columns is no
word. -/
def Exit.overflow : Exit :=
  ⟨101, "", "attempt to multiply with overflow\n"⟩

/-- The exit when no source is entered. -/
def Exit.silent : Exit :=
  ⟨0, "", ""⟩

/-- The exit after telling the version. -/
def Exit.version : Exit :=
  ⟨0, "bfsim 0.3.0\n", ""⟩

/-- The exit after a wrong command line. -/
def Exit.usage (error : UsageError) : Exit :=
  ⟨2, "", "error: " ++ error.message ++ "\n"⟩

/-- How the program is used. -/
def usageText : String :=
  "Run and debug byte tape programs\n\n" ++
    "Usage: bfsim [OPTIONS] [SOURCE]\n\n" ++
    "Options:\n" ++
    "  -f, --file <FILE>        Read the program from a file\n" ++
    "  -s, --step               Pause after every instruction\n" ++
    "  -d, --delay <DELAY>      Wait this many seconds after every instruction\n" ++
    "      --columns <COLUMNS>  Cells in a row of a drawing\n" ++
    "      --cycles <CYCLES>    Instructions between two looks for an interrupt\n" ++
    "  -h, --help               Print help\n" ++
    "  -V, --version            Print version\n"

/-- The exit after telling how the program is used. -/
def Exit.help : Exit :=
  ⟨0, usageText, ""⟩

/-- Why a file could not be read as a source. -/
inductive FileFailure where
  /-- There is no file of that path. -/
  | missing
  /-- The path is that of a directory. -/
  | directory
  /-- The file does not hold text. -/
  | notText
  /-- Any other reason, in the words of the system. -/
  | other (reason : String)
  deriving DecidableEq

namespace FileFailure

/-- The wording of a file failure. -/
def message : FileFailure → String
  | missing => "No such file or directory (os error 2)"
  | directory => "Is a directory (os error 21)"
  | notText => "stream did not contain valid UTF-8"
  | other reason => reason

end FileFailure

/-- The exit after a file could not be read. -/
def Exit.unreadable (path : String) (failure : FileFailure) : Exit :=
  ⟨1, "", path ++ ": " ++ failure.message ++ "\n"⟩

/-- The source held by the bytes of a file. -/
def sourceOfBytes (bytes : ByteArray) : Except FileFailure String :=
  match String.fromUTF8? bytes with
  | some source => .ok source
  | none => .error .notText

/-- The machine that a session begins with. -/
def machineFor (options : Options) (source : String) : Machine :=
  Machine.ofSource source (Pacing.ofSeconds options.step options.seconds)

end ByteTape.Session
