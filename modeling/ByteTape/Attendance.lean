import ByteTape.Machine.Call

/-!
# An attended run

An attendant looks after a run from slice to slice: every request for input is answered by the
next of a sequence of lines, every pause is ended at once, and the slices that used up their
budget, the requests and the pauses are counted. Some of the pauses are kept for showing.
-/

namespace ByteTape

/-- A pause kept for showing. -/
structure Sighting where
  /-- The position of the next instruction at the pause. -/
  position : Nat
  /-- The inspection of the pause. -/
  inspection : Inspection
  deriving DecidableEq

/-- A run with what its attendant has counted. -/
structure Attendance where
  /-- The machine looked after. -/
  machine : Machine
  /-- The event of the last slice. -/
  event : Event
  /-- The slices that used up their budget. -/
  slices : Nat
  /-- The requests answered. -/
  requests : Nat
  /-- The pauses ended. -/
  pauses : Nat
  /-- The pauses kept for showing, oldest first. -/
  sightings : Array Sighting
  deriving DecidableEq

/-- How a run is attended. -/
structure Attendant where
  /-- The line that answers each request, counted from zero. -/
  answer : Nat → String
  /-- The budget of a slice. -/
  cycles : Nat
  /-- Every how many pauses one is kept, the first included; zero counts as one. -/
  every : Nat

namespace Attendance

/-- The attendance of a run that has not begun. -/
def begin (machine : Machine) : Attendance where
  machine := machine
  event := .running
  slices := 0
  requests := 0
  pauses := 0
  sightings := #[]

/-- Whether the pause after the given number of pauses is kept. -/
def keeps (attendant : Attendant) (pauses : Nat) : Bool :=
  pauses % max attendant.every 1 = 0

/-- Do what the event of a slice asks for. -/
def respond (attendance : Attendance) (attendant : Attendant) (event : Event)
    (machine : Machine) : Attendance :=
  match event with
  | .running => { attendance with event, machine, slices := attendance.slices + 1 }
  | .inputRequested =>
    { attendance with
      event
      machine := machine.enter (attendant.answer attendance.requests)
      requests := attendance.requests + 1 }
  | .paused inspection =>
    { attendance with
      event
      machine := machine.resume
      pauses := attendance.pauses + 1
      sightings :=
        if keeps attendant attendance.pauses then
          attendance.sightings.push ⟨machine.position, inspection⟩
        else
          attendance.sightings }
  | .halted _ => { attendance with event, machine }
  | .faulted _ => { attendance with event, machine }

/-- Whether an event ends a run. -/
def isFinal : Event → Bool
  | .halted _ => true
  | .faulted _ => true
  | _ => false

/-- Attend a run for at most the given number of slices. -/
def attend (attendant : Attendant) (attendance : Attendance) : (slices : Nat) → Attendance
  | 0 => attendance
  | slices + 1 =>
    let (event, machine) := attendance.machine.execute attendant.cycles
    let after := attendance.respond attendant event machine
    if isFinal event then after else attend attendant after slices

end Attendance

end ByteTape
