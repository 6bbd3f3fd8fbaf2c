import ByteTape.Machine.Step

/-!
# Calls on a machine

Four calls drive a machine: `execute` runs it for a number of instructions, `enter` answers a
request for input, `resume` ends a pause and `interrupt` cancels the run. Each may be made at any
time. A call that does not fit the status changes nothing, except that stray input is noted in the
journal, and a run that has ended stays as it is.
-/

namespace ByteTape

namespace Machine

/-- Recognise the end of the program. -/
def settle (machine : Machine) : Machine :=
  match machine.status with
  | .running => if machine.program.size ≤ machine.position then machine.halt else machine
  | _ => machine

/-- A machine that does not run has nothing to settle. -/
theorem settle_of_status_ne_running (machine : Machine) (h : machine.status ≠ .running) :
    machine.settle = machine := by
  unfold settle
  split
  · contradiction
  · rfl

/-- Before the end of the program there is nothing to settle. -/
theorem settle_of_lt (machine : Machine) (h : machine.position < machine.program.size) :
    machine.settle = machine := by
  unfold settle
  split
  · rw [if_neg (Nat.not_le.2 h)]
  · rfl

/-- A machine that runs past the end of its program is halted. -/
theorem settle_of_le (machine : Machine) (hRunning : machine.status = .running)
    (hEnd : machine.program.size ≤ machine.position) : machine.settle = machine.halt := by
  unfold settle
  rw [hRunning]
  exact if_pos hEnd

/-- Settling twice is settling once. -/
@[simp]
theorem settle_settle (machine : Machine) : machine.settle.settle = machine.settle := by
  by_cases hRunning : machine.status = .running
  · by_cases hEnd : machine.program.size ≤ machine.position
    · rw [settle_of_le machine hRunning hEnd]
      exact settle_of_status_ne_running _ (by simp [halt])
    · have hInside := Nat.not_le.1 hEnd
      rw [settle_of_lt machine hInside, settle_of_lt machine hInside]
  · rw [settle_of_status_ne_running machine hRunning,
      settle_of_status_ne_running machine hRunning]

/-- Run at most the given number of instructions, stopping early when the machine stands still.
The end of the program is recognised even when no instruction may be run. -/
def execute (machine : Machine) : (cycles : Nat) → Event × Machine
  | 0 => (machine.settle.event, machine.settle)
  | cycles + 1 =>
    let settled := machine.settle
    match settled.status with
    | .running => settled.step.execute cycles
    | _ => (settled.event, settled)

/-- The byte stored for a line: the code of its first character modulo 256, zero if it is
empty. -/
def byteOfLine (input : String) : UInt8 :=
  match input.toList with
  | [] => 0
  | character :: _ => UInt8.ofNat character.toNat

/-- Answer a request for input by a line. -/
def enter (machine : Machine) (input : String) : Machine :=
  match machine.status with
  | .awaitingInput =>
    { machine with
      tape := machine.tape.write (byteOfLine input)
      status := .running }.retire .input (machine.position + 1)
  | _ => machine.note (.strayInput input)

/-- Go on after a pause. -/
def resume (machine : Machine) : Machine :=
  match machine.status with
  | .paused _ => { machine with status := .running }
  | _ => machine

/-- The fault of a run cancelled at a position. -/
def interruption (position : Nat) : Fault :=
  (Fault.ofCause .interrupted).placed (some position)

/-- Cancel a run that has not ended. -/
def interrupt (machine : Machine) : Machine :=
  match machine.status with
  | .halted => machine
  | .faulted _ => machine
  | _ => machine.fail (interruption machine.position)

/-- A call that may be made on a machine. -/
inductive Call where
  /-- Run for at most this many instructions. -/
  | execute (cycles : Nat)
  /-- Enter a line. -/
  | enter (input : String)
  /-- End a pause. -/
  | resume
  /-- Cancel the run. -/
  | interrupt
  deriving DecidableEq

/-- Make a call. Only running tells an event. -/
def call (machine : Machine) : Call → Option Event × Machine
  | .execute cycles =>
    let (event, after) := machine.execute cycles
    (some event, after)
  | .enter input => (none, machine.enter input)
  | .resume => (none, machine.resume)
  | .interrupt => (none, machine.interrupt)

/-- The machine after a sequence of calls. -/
def afterCalls (machine : Machine) (calls : List Call) : Machine :=
  calls.foldl (fun current next => (current.call next).2) machine

/-- Running tells the event of the status it ends in. -/
theorem execute_fst (machine : Machine) (cycles : Nat) :
    (machine.execute cycles).1 = (machine.execute cycles).2.event := by
  induction cycles generalizing machine with
  | zero => rfl
  | succ cycles ih =>
    rw [execute]
    split
    · exact ih _
    · rfl

/-- Resuming changes nothing but a pause. -/
theorem resume_of_not_paused (machine : Machine)
    (h : ∀ inspection, machine.status ≠ .paused inspection) : machine.resume = machine := by
  unfold resume
  split
  · rename_i inspection hStatus
    exact absurd hStatus (h inspection)
  · rfl

end Machine

end ByteTape
