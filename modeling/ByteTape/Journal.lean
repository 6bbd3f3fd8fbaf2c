import ByteTape.Fault
import ByteTape.Instruction

/-!
# The journal of a run

A machine keeps a journal of the moments worth telling: the end of a run, input nobody asked for,
loops passed over and pauses. An entry is written as a level, a message and named fields, all of
whose values are text.
-/

namespace ByteTape

namespace Journal

/-- How important an entry is. -/
inductive Level where
  /-- For following what a run does. -/
  | debug
  /-- For following every detail. -/
  | trace
  deriving DecidableEq

/-- A moment worth telling. -/
inductive Entry where
  /-- The run came to the end of its program. -/
  | halted (executed outputBytes : Nat)
  /-- The run ended by a fault. -/
  | faulted (fault : Fault) (executed : Nat)
  /-- A line was entered while the machine did not wait for one. -/
  | strayInput (input : String)
  /-- A loop was passed over. -/
  | loopSkipped (opening closing : Nat)
  /-- The run paused after an instruction. -/
  | paused (instruction : Instruction) (position : Nat)
  deriving DecidableEq

namespace Entry

/-- The level of an entry. -/
def level : Entry → Level
  | halted _ _ => .debug
  | faulted _ _ => .debug
  | strayInput _ => .debug
  | loopSkipped _ _ => .trace
  | paused _ _ => .trace

/-- The message of an entry. -/
def message : Entry → String
  | halted _ _ => "halted"
  | faulted _ _ => "faulted"
  | strayInput _ => "input entered while not waiting for it"
  | loopSkipped _ _ => "loop skipped"
  | paused _ _ => "paused"

/-- The fields of an entry with their values. -/
def fields : Entry → List (String × String)
  | halted executed outputBytes =>
    [("executed", executed.repr), ("output_len", outputBytes.repr)]
  | faulted fault executed => [("error", fault.text), ("executed", executed.repr)]
  | strayInput input => [("input", input)]
  | loopSkipped opening closing => [("open", opening.repr), ("close", closing.repr)]
  | paused instruction position =>
    [("instruction", instruction.text), ("pc", position.repr)]

end Entry

end Journal

end ByteTape
