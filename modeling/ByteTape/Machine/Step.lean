import ByteTape.Machine.Basic

/-!
# One instruction

An instruction is performed, and then either completes, which moves the position and may pause
the run, or leaves everything as it was because it waits for input or fails. A loop end takes the
innermost loop off the stack before it looks at the cell; if the loop repeats, the run goes back
to the opening bracket, which looks at the cell again and enters the loop once more.
-/

namespace ByteTape

namespace Machine

/-- What becomes of an instruction that is performed. -/
inductive Outcome where
  /-- It is done, and the instruction at the given position is next. -/
  | done (machine : Machine) (next : Nat)
  /-- It waits for a line of input. -/
  | waits (machine : Machine)
  /-- It cannot be done. -/
  | fails (machine : Machine) (fault : Fault)
  deriving DecidableEq

/-- The character a byte is written as. -/
def charOfByte (value : UInt8) : Char :=
  Char.ofNat value.toNat

/-- Enter the loop at the position, or pass over it when the current cell is zero. -/
def openLoop (machine : Machine) : Outcome :=
  if machine.tape.read = 0 then
    match machine.program.matchingClose machine.position with
    | .ok closing =>
      .done (machine.note (.loopSkipped machine.position closing)) (closing + 1)
    | .error fault => .fails machine fault
  else
    .done { machine with stack := machine.stack.push machine.position } (machine.position + 1)

/-- Leave the innermost loop, going back to its opening bracket unless the current cell is
zero. -/
def closeLoop (machine : Machine) : Outcome :=
  match machine.stack.pop with
  | .ok opening stack =>
    .done { machine with stack }
      (if machine.tape.read = 0 then machine.position + 1 else opening)
  | .error fault stack => .fails { machine with stack } fault

/-- Perform an instruction at the position of the machine. -/
def perform (machine : Machine) : Instruction → Outcome
  | .increment => .done { machine with tape := machine.tape.increment } (machine.position + 1)
  | .decrement => .done { machine with tape := machine.tape.decrement } (machine.position + 1)
  | .right => .done { machine with tape := machine.tape.moveRight } (machine.position + 1)
  | .left =>
    match machine.tape.moveLeft with
    | .ok () tape => .done { machine with tape } (machine.position + 1)
    | .error fault tape => .fails { machine with tape } fault
  | .output =>
    .done { machine with output := machine.output.push (charOfByte machine.tape.read) }
      (machine.position + 1)
  | .input => .waits machine
  | .loopOpen => machine.openLoop
  | .loopClose => machine.closeLoop
  | .breakpoint => .done machine (machine.position + 1)
  | .comment _ => .done machine (machine.position + 1)

/-- Only a request for input waits, and it leaves the machine as it was. -/
theorem perform_eq_waits {machine after : Machine} {instruction : Instruction}
    (h : machine.perform instruction = .waits after) :
    instruction = .input ∧ after = machine := by
  cases instruction with
  | input =>
    injection h with hAfter
    exact ⟨rfl, hAfter.symm⟩
  | left =>
    simp only [perform] at h
    split at h <;> contradiction
  | loopOpen =>
    simp only [perform, openLoop] at h
    split at h
    · split at h <;> contradiction
    · contradiction
  | loopClose =>
    simp only [perform, closeLoop] at h
    split at h <;> contradiction
  | _ => contradiction

/-- An instruction that fails leaves the machine as it was. -/
theorem perform_eq_fails {machine after : Machine} {instruction : Instruction} {fault : Fault}
    (h : machine.perform instruction = .fails after fault) : after = machine := by
  cases instruction with
  | left =>
    simp only [perform] at h
    split at h
    · contradiction
    · rename_i cause tape hMove
      obtain ⟨-, -, rfl⟩ := (Tape.moveLeft_eq_error_iff machine.tape cause tape).1 hMove
      injection h with hAfter
      exact hAfter.symm
  | loopOpen =>
    simp only [perform, openLoop] at h
    split at h
    · split at h
      · contradiction
      · injection h with hAfter
        exact hAfter.symm
    · contradiction
  | loopClose =>
    simp only [perform, closeLoop] at h
    split at h
    · contradiction
    · rename_i cause stack hPop
      obtain ⟨-, -, rfl⟩ := (LoopStack.pop_eq_error_iff machine.stack cause stack).1 hPop
      injection h with hAfter
      exact hAfter.symm
  | _ => contradiction

/-- Pause after an instruction. The output is shown at a breakpoint only. -/
def suspend (machine : Machine) (instruction : Instruction) (pause : Pause) : Machine :=
  let snapshot := machine.snapshot pause
  let inspection :=
    if instruction = .breakpoint then snapshot else { snapshot with output := none }
  { machine.note (.paused instruction machine.position) with status := .paused inspection }

/-- Complete an instruction: move on, and pause if the pacing wants it. -/
def retire (machine : Machine) (instruction : Instruction) (next : Nat) : Machine :=
  let moved := { machine with last := some instruction, position := next }
  match moved.pacing.pauseAfter instruction with
  | none => moved
  | some pause => moved.suspend instruction pause

/-- Begin the instruction at the position; at the end of the program there is none. -/
def step (machine : Machine) : Machine :=
  match machine.program.instruction? machine.position with
  | none => machine
  | some instruction =>
    let begun := { machine with executed := machine.executed + 1 }
    match begun.perform instruction with
    | .done performed next => performed.retire instruction next
    | .waits begun => { begun with status := .awaitingInput }
    | .fails begun fault => begun.fail (fault.placed (some begun.position))

end Machine

end ByteTape
