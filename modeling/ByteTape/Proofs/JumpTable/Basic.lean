import ByteTape.Machine.Call
import ByteTape.Proofs.Bracket.OpenLoops

/-!
# A machine with a jump table instead of a stack

The pairs of brackets of a program are listed once, before the run. A machine that looks them up
needs no stack: an opening bracket knows where its loop ends and a closing bracket where it begins.
Its calls are those of a machine with a stack, and so are its pauses, with no stack to show.
-/

namespace ByteTape

/-- The pairs of opening and closing brackets that the forward scan finds in a program. -/
def Program.jumpTable (program : Program) : List (Nat × Nat) :=
  (List.range program.size).filterMap fun opening =>
    if program.instruction? opening = some .loopOpen then
      match program.matchingClose opening with
      | .ok closing => some (opening, closing)
      | .error _ => none
    else
      none

/-- The jump table lists exactly the brackets that pair. -/
theorem Program.mem_jumpTable_iff (program : Program) (opening closing : Nat) :
    (opening, closing) ∈ program.jumpTable ↔ program.Pairs opening closing := by
  simp only [jumpTable, List.mem_filterMap, List.mem_range]
  constructor
  · intro h
    obtain ⟨address, -, hFound⟩ := h
    split at hFound
    · rename_i hOpen
      split at hFound
      · rename_i found hScan
        rw [Option.some.injEq, Prod.mk.injEq] at hFound
        obtain ⟨rfl, rfl⟩ := hFound
        exact (matchingClose_eq_ok_iff found hOpen).1 hScan
      · contradiction
    · contradiction
  · intro h
    have hScan := (matchingClose_eq_ok_iff closing h.opens).2 h
    refine ⟨opening, lt_size_of_instruction? h.opens, ?_⟩
    rw [if_pos h.opens, hScan]

/-- A program on its way on a machine without a stack. -/
structure JumpMachine where
  /-- The program being run. -/
  program : Program
  /-- The pairs of its brackets. -/
  table : List (Nat × Nat)
  /-- When to pause. -/
  pacing : Pacing
  /-- The tape. -/
  tape : Tape
  /-- Everything written so far. -/
  output : String
  /-- The position of the next instruction. -/
  position : Nat
  /-- The instruction completed last, comments included. -/
  last : Option Instruction
  /-- Whether the machine can go on. -/
  status : Status
  deriving DecidableEq

namespace JumpMachine

/-- A machine about to run a program from its first instruction. -/
def load (program : Program) (pacing : Pacing) : JumpMachine where
  program := program
  table := program.jumpTable
  pacing := pacing
  tape := Tape.blank
  output := ""
  position := 0
  last := none
  status := .running

/-- A machine about to run the program written in a text. -/
def ofSource (source : String) (pacing : Pacing) : JumpMachine :=
  load (Program.ofString source) pacing

/-- Where the loop that opens at an address ends, by the table. -/
def closingOf? (jumper : JumpMachine) (opening : Nat) : Option Nat :=
  (jumper.table.find? fun pair => pair.1 = opening).map Prod.snd

/-- Where the loop that ends at an address opens, by the table. -/
def openingOf? (jumper : JumpMachine) (closing : Nat) : Option Nat :=
  (jumper.table.find? fun pair => pair.2 = closing).map Prod.fst

/-- What becomes of an instruction that is performed. -/
inductive Outcome where
  /-- It is done, and the instruction at the given position is next. -/
  | done (jumper : JumpMachine) (next : Nat)
  /-- It waits for a line of input. -/
  | waits
  /-- It cannot be done. -/
  | fails (fault : Fault)
  deriving DecidableEq

/-- Perform an instruction at the position of the machine. -/
def perform (jumper : JumpMachine) : Instruction → Outcome
  | .increment => .done { jumper with tape := jumper.tape.increment } (jumper.position + 1)
  | .decrement => .done { jumper with tape := jumper.tape.decrement } (jumper.position + 1)
  | .right => .done { jumper with tape := jumper.tape.moveRight } (jumper.position + 1)
  | .left =>
    match jumper.tape.moveLeft with
    | .ok () tape => .done { jumper with tape } (jumper.position + 1)
    | .error fault _ => .fails fault
  | .output =>
    .done { jumper with output := jumper.output.push (Machine.charOfByte jumper.tape.read) }
      (jumper.position + 1)
  | .input => .waits
  | .loopOpen =>
    if jumper.tape.read = 0 then
      match jumper.closingOf? jumper.position with
      | some closing => .done jumper (closing + 1)
      | none => .fails (Fault.ofCause .unbalancedLoop)
    else
      .done jumper (jumper.position + 1)
  | .loopClose =>
    match jumper.openingOf? jumper.position with
    | some opening =>
      .done jumper (if jumper.tape.read = 0 then jumper.position + 1 else opening)
    | none => .fails (Fault.ofCause .stackUnderflow)
  | .breakpoint => .done jumper (jumper.position + 1)
  | .comment _ => .done jumper (jumper.position + 1)

/-- The look at a machine after an instruction. The output is shown at a breakpoint only. -/
def inspection (jumper : JumpMachine) (instruction : Instruction) (pause : Pause) :
    Inspection where
  instruction := jumper.last
  stack := LoopStack.empty
  tape := jumper.tape
  output := if instruction = .breakpoint then some jumper.output else none
  pause := pause

/-- Complete an instruction: move on, and pause if the pacing wants it. -/
def retire (jumper : JumpMachine) (instruction : Instruction) (next : Nat) : JumpMachine :=
  let moved := { jumper with last := some instruction, position := next }
  match jumper.pacing.pauseAfter instruction with
  | none => moved
  | some pause => { moved with status := .paused (moved.inspection instruction pause) }

/-- Begin the instruction at the position; at the end of the program there is none. -/
def step (jumper : JumpMachine) : JumpMachine :=
  match jumper.program.instruction? jumper.position with
  | none => jumper
  | some instruction =>
    match jumper.perform instruction with
    | .done performed next => performed.retire instruction next
    | .waits => { jumper with status := .awaitingInput }
    | .fails fault => { jumper with status := .faulted (fault.placed (some jumper.position)) }

/-- What the status of a machine tells its caller. -/
def event (jumper : JumpMachine) : Event :=
  match jumper.status with
  | .running => .running
  | .awaitingInput => .inputRequested
  | .paused inspection => .paused inspection
  | .halted => .halted jumper.output
  | .faulted fault => .faulted fault

/-- Recognise the end of the program. -/
def settle (jumper : JumpMachine) : JumpMachine :=
  if jumper.status = .running ∧ jumper.program.size ≤ jumper.position then
    { jumper with status := .halted }
  else
    jumper

/-- Run at most the given number of instructions, stopping early when the machine stands still. -/
def execute (jumper : JumpMachine) : (cycles : Nat) → Event × JumpMachine
  | 0 => (jumper.settle.event, jumper.settle)
  | cycles + 1 =>
    if jumper.settle.status = .running then
      jumper.settle.step.execute cycles
    else
      (jumper.settle.event, jumper.settle)

/-- Answer a request for input by a line. -/
def enter (jumper : JumpMachine) (input : String) : JumpMachine :=
  if jumper.status = .awaitingInput then
    { jumper with
      tape := jumper.tape.write (Machine.byteOfLine input)
      status := .running }.retire .input (jumper.position + 1)
  else
    jumper

/-- Go on after a pause. -/
def resume (jumper : JumpMachine) : JumpMachine :=
  match jumper.status with
  | .paused _ => { jumper with status := .running }
  | _ => jumper

/-- Cancel a run that has not ended. -/
def interrupt (jumper : JumpMachine) : JumpMachine :=
  match jumper.status with
  | .halted => jumper
  | .faulted _ => jumper
  | _ => { jumper with status := .faulted (Machine.interruption jumper.position) }

/-- Make a call. Only running tells an event. -/
def call (jumper : JumpMachine) : Machine.Call → Option Event × JumpMachine
  | .execute cycles => (some (jumper.execute cycles).1, (jumper.execute cycles).2)
  | .enter input => (none, jumper.enter input)
  | .resume => (none, jumper.resume)
  | .interrupt => (none, jumper.interrupt)

/-- The machine after a sequence of calls. -/
def afterCalls (jumper : JumpMachine) (calls : List Machine.Call) : JumpMachine :=
  calls.foldl (fun current next => (current.call next).2) jumper

end JumpMachine

end ByteTape
