import ByteTape.Inspection
import ByteTape.Journal
import ByteTape.Program

/-!
# The machine and what it reports

A machine is a program on its way: the tape, the loops entered, the output so far, the position of
the next instruction, and a status. The status says whether the machine can go on by itself, waits
for a line of input, is paused with an inspection, or has ended. An event is what a caller learns
of that status.
-/

namespace ByteTape

/-- Whether and why a machine stands still. -/
inductive Status where
  /-- The machine can go on. -/
  | running
  /-- The instruction at the position waits for a line. -/
  | awaitingInput
  /-- The machine is paused and shows itself. -/
  | paused (inspection : Inspection)
  /-- The program came to its end. -/
  | halted
  /-- The run was ended by a fault. -/
  | faulted (fault : Fault)
  deriving DecidableEq

/-- What a caller is told about a run. -/
inductive Event where
  /-- The budget is used up; the run can go on. -/
  | running
  /-- A line of input is asked for. -/
  | inputRequested
  /-- The run is paused. -/
  | paused (inspection : Inspection)
  /-- The program came to its end with this output. -/
  | halted (output : String)
  /-- The run was ended by a fault. -/
  | faulted (fault : Fault)
  deriving DecidableEq

/-- A program on its way. -/
structure Machine where
  /-- The program being run. -/
  program : Program
  /-- When to pause. -/
  pacing : Pacing
  /-- The tape. -/
  tape : Tape
  /-- The loops entered. -/
  stack : LoopStack
  /-- Everything written so far. -/
  output : String
  /-- The position of the next instruction. -/
  position : Nat
  /-- The instruction completed last, comments included. -/
  last : Option Instruction
  /-- The number of instructions begun, comments included. -/
  executed : Nat
  /-- Whether the machine can go on. -/
  status : Status
  /-- The moments worth telling, oldest first. -/
  journal : Array Journal.Entry
  deriving DecidableEq

namespace Machine

/-- A machine about to run a program from its first instruction. -/
def load (program : Program) (pacing : Pacing) : Machine where
  program := program
  pacing := pacing
  tape := Tape.blank
  stack := LoopStack.empty
  output := ""
  position := 0
  last := none
  executed := 0
  status := .running
  journal := #[]

/-- A machine about to run the program written in a text. -/
def ofSource (source : String) (pacing : Pacing) : Machine :=
  load (Program.ofString source) pacing

/-- Write an entry into the journal. -/
def note (machine : Machine) (entry : Journal.Entry) : Machine :=
  { machine with journal := machine.journal.push entry }

/-- The machine with an empty journal, for telling later entries from earlier ones. -/
def forgetJournal (machine : Machine) : Machine :=
  { machine with journal := #[] }

/-- The look at a machine that goes with a pause, output included. -/
def snapshot (machine : Machine) (pause : Pause) : Inspection where
  instruction := machine.last
  stack := machine.stack
  tape := machine.tape
  output := some machine.output
  pause := pause

/-- A look at a machine at any time, asking for nothing. -/
def inspect (machine : Machine) : Inspection :=
  machine.snapshot Pause.brief

/-- What the status of a machine tells its caller. -/
def event (machine : Machine) : Event :=
  match machine.status with
  | .running => .running
  | .awaitingInput => .inputRequested
  | .paused inspection => .paused inspection
  | .halted => .halted machine.output
  | .faulted fault => .faulted fault

/-- End the run by a fault. -/
def fail (machine : Machine) (fault : Fault) : Machine :=
  { machine.note (.faulted fault machine.executed) with status := .faulted fault }

/-- End the run at the end of its program. -/
def halt (machine : Machine) : Machine :=
  { machine.note (.halted machine.executed machine.output.utf8ByteSize) with status := .halted }

end Machine

end ByteTape
