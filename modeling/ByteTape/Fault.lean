/-!
# Faults

A fault has a cause, the position of the instruction it happened at once that is known, and a
note that is usually empty. Position and note are each given at most once: `locate?` and
`annotate?` refuse to overwrite what is already there.
-/

namespace ByteTape

/-- What can end a run before the end of its program. -/
inductive Cause where
  /-- A move to the left of the first cell. -/
  | addressUnderflow
  /-- A loop end with no loop entered. -/
  | stackUnderflow
  /-- A loop to be skipped has no end. -/
  | unbalancedLoop
  /-- The run was cancelled from outside. -/
  | interrupted
  deriving DecidableEq

namespace Cause

/-- The number of a cause, counted from one. -/
def number : Cause → Nat
  | addressUnderflow => 1
  | stackUnderflow => 2
  | unbalancedLoop => 3
  | interrupted => 4

/-- The words a report of this cause begins with. -/
def title : Cause → String
  | addressUnderflow => "ADDRESS UNDERFLOW"
  | stackUnderflow => "STACK UNDERFLOW"
  | unbalancedLoop => "UNBALANCED LOOP"
  | interrupted => "INTERRUPTED"

end Cause

/-- A cause with the circumstances known so far. -/
structure Fault where
  /-- What went wrong. -/
  cause : Cause
  /-- The position of the instruction concerned, counted in characters, if known. -/
  position : Option Nat
  /-- A remark; empty when there is none. -/
  note : String
  deriving DecidableEq

namespace Fault

/-- A fault of which only the cause is known. -/
def ofCause (cause : Cause) : Fault :=
  ⟨cause, none, ""⟩

/-- The fault with its position set. -/
def placed (fault : Fault) (position : Option Nat) : Fault :=
  { fault with position }

/-- Give the position, refused when one is already there. -/
def locate? (fault : Fault) (position : Option Nat) : Option Fault :=
  if fault.position.isNone then some (fault.placed position) else none

/-- Give the note, refused when the present one is not empty. -/
def annotate? (fault : Fault) (note : String) : Option Fault :=
  if fault.note.isEmpty then some { fault with note } else none

/-- A fault without a position can be located. -/
theorem locate?_eq_some (fault : Fault) (position : Option Nat) (h : fault.position = none) :
    fault.locate? position = some (fault.placed position) := by
  simp [locate?, h]

/-- The part of a fault's text that tells the position. -/
def positionText : Option Nat → String
  | none => ""
  | some position => " AT " ++ position.repr

/-- The part of a fault's text that tells the note. -/
def noteText (note : String) : String :=
  if note.isEmpty then "" else "; " ++ note

/-- The text of a fault: cause, then position and note as far as they are there. -/
def text (fault : Fault) : String :=
  fault.cause.title ++ positionText fault.position ++ noteText fault.note

/-- The text of a fault between braces, as it stands in a listing of values. -/
def report (fault : Fault) : String :=
  "Error \x7b " ++ fault.text ++ " \x7d"

end Fault

end ByteTape
