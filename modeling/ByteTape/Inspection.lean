import ByteTape.LoopStack
import ByteTape.Pacing
import ByteTape.Tape

/-!
# Inspections

An inspection is a look at a machine between two instructions: the instruction done last, the
loops entered, the tape, perhaps the output so far, and how the pause it belongs to is to end.
-/

namespace ByteTape

/-- A look at a machine. -/
structure Inspection where
  /-- The instruction done last, if any was. -/
  instruction : Option Instruction
  /-- The loops entered. -/
  stack : LoopStack
  /-- The tape with its current cell. -/
  tape : Tape
  /-- The output so far, where it is to be shown. -/
  output : Option String
  /-- How the pause ends. -/
  pause : Pause
  deriving DecidableEq

end ByteTape
