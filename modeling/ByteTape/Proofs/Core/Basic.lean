import ByteTape.Machine.Call
import Mathlib.Tactic.ByContra

/-!
# The computing core of a machine

A machine computes with its program, tape, stack, output and position; pacing, status and journal
only decide when it stands still and what it tells. Leaving them out gives the core. A core takes
its turns one instruction at a time: an instruction moves the core on, asks for a line, or fails,
and there is nothing else in between. Every call on a machine is followed through its core here,
once, so that later results speak of turns only.
-/

namespace ByteTape

/-- What a machine computes with. -/
structure Core where
  /-- The program being run. -/
  program : Program
  /-- The tape. -/
  tape : Tape
  /-- The loops entered. -/
  stack : LoopStack
  /-- Everything written so far. -/
  output : String
  /-- The position of the next instruction. -/
  position : Nat
  /-- The instruction completed last, comments included. -/
  last : Option Instruction
  /-- The number of instructions begun, comments included. -/
  executed : Nat
  deriving DecidableEq

/-- What the instruction at the position of a core comes to. -/
inductive Turn where
  /-- There is no instruction: the program is at its end. -/
  | ends
  /-- The instruction is completed and leaves this core. -/
  | moves (core : Core)
  /-- The instruction asks for a line. -/
  | asks
  /-- The instruction cannot be done. -/
  | fails (fault : Fault)
  deriving DecidableEq

namespace Core

/-- The core of a machine about to run a program. -/
def start (program : Program) : Core where
  program := program
  tape := Tape.blank
  stack := LoopStack.empty
  output := ""
  position := 0
  last := none
  executed := 0

/-- Count one more instruction as begun. -/
def begun (core : Core) : Core :=
  { core with executed := core.executed + 1 }

/-- Go past an instruction to the one at the given position. -/
def pass (core : Core) (instruction : Instruction) (next : Nat) : Core :=
  { core with last := some instruction, position := next }

/-- What an instruction at the position of a core that has begun it comes to. -/
def effect (core : Core) (instruction : Instruction) : Turn :=
  match instruction with
  | .increment =>
    .moves ({ core with tape := core.tape.increment }.pass instruction (core.position + 1))
  | .decrement =>
    .moves ({ core with tape := core.tape.decrement }.pass instruction (core.position + 1))
  | .right =>
    .moves ({ core with tape := core.tape.moveRight }.pass instruction (core.position + 1))
  | .left =>
    match core.tape.moveLeft with
    | .ok () tape => .moves ({ core with tape }.pass instruction (core.position + 1))
    | .error fault _ => .fails (fault.placed (some core.position))
  | .output =>
    .moves ({ core with output := core.output.push (Machine.charOfByte core.tape.read) }.pass
      instruction (core.position + 1))
  | .input => .asks
  | .loopOpen =>
    if core.tape.read = 0 then
      match core.program.matchingClose core.position with
      | .ok closing => .moves (core.pass instruction (closing + 1))
      | .error fault => .fails (fault.placed (some core.position))
    else
      .moves ({ core with stack := core.stack.push core.position }.pass instruction
        (core.position + 1))
  | .loopClose =>
    match core.stack.pop with
    | .ok opening stack =>
      .moves ({ core with stack }.pass instruction
        (if core.tape.read = 0 then core.position + 1 else opening))
    | .error fault _ => .fails (fault.placed (some core.position))
  | .breakpoint => .moves (core.pass instruction (core.position + 1))
  | .comment _ => .moves (core.pass instruction (core.position + 1))

/-- What the next instruction of a core comes to. -/
def turn (core : Core) : Turn :=
  match core.program.instruction? core.position with
  | none => .ends
  | some instruction => core.begun.effect instruction

/-- The core past a request for input that was answered by a line. -/
def answer (core : Core) (line : String) : Core :=
  { core.begun with tape := core.tape.write (Machine.byteOfLine line) }.pass .input
    (core.position + 1)

/-- A turn is the effect of the instruction at the position. -/
theorem turn_eq_effect {core : Core} {instruction : Instruction}
    (h : core.program.instruction? core.position = some instruction) :
    core.turn = core.begun.effect instruction := by
  rw [turn, h]

/-- The turns are over exactly at the end of the program. -/
theorem turn_eq_ends_iff (core : Core) : core.turn = .ends ↔ core.program.size ≤ core.position := by
  rw [← Program.instruction?_eq_none_iff]
  cases hHere : core.program.instruction? core.position with
  | none => simp [turn, hHere]
  | some instruction =>
    rw [turn_eq_effect hHere]
    cases instruction <;> simp only [effect] <;> (repeat' split) <;> simp

/-- A line is asked for exactly by the instruction for input. -/
theorem turn_eq_asks_iff (core : Core) :
    core.turn = .asks ↔ core.program.instruction? core.position = some .input := by
  cases hHere : core.program.instruction? core.position with
  | none => simp [turn, hHere]
  | some instruction =>
    rw [turn_eq_effect hHere]
    cases instruction <;> simp only [effect] <;> (repeat' split) <;> simp

/-- A completed instruction leaves the program alone and is counted once. -/
theorem frame_of_moves {core next : Core} (h : core.turn = .moves next) :
    next.program = core.program ∧ next.executed = core.executed + 1 := by
  cases hHere : core.program.instruction? core.position with
  | none =>
    rw [turn, hHere] at h
    contradiction
  | some instruction =>
    rw [turn_eq_effect hHere] at h
    cases instruction <;> simp only [effect] at h <;> (repeat' split at h) <;>
      first
      | contradiction
      | (rw [Turn.moves.injEq] at h
         subst h
         exact ⟨rfl, rfl⟩)

end Core

namespace Machine

/-- The core of a machine. -/
def core (machine : Machine) : Core where
  program := machine.program
  tape := machine.tape
  stack := machine.stack
  output := machine.output
  position := machine.position
  last := machine.last
  executed := machine.executed

/-- A machine that can go on or is only paused. -/
def Live (machine : Machine) : Prop :=
  machine.status = .running ∨ ∃ inspection, machine.status = .paused inspection

/-- A machine tells that it halted with an output exactly if it has. -/
theorem event_eq_halted_iff (machine : Machine) (output : String) :
    machine.event = .halted output ↔ machine.status = .halted ∧ machine.output = output := by
  cases hStatus : machine.status <;> simp [event, hStatus]

/-- A machine tells of a fault exactly if it ended by it. -/
theorem event_eq_faulted_iff (machine : Machine) (fault : Fault) :
    machine.event = .faulted fault ↔ machine.status = .faulted fault := by
  cases hStatus : machine.status <;> simp [event, hStatus]

/-- Settling does not touch the core. -/
@[simp]
theorem core_settle (machine : Machine) : machine.settle.core = machine.core := by
  unfold settle
  split
  · split <;> rfl
  · rfl

/-- Completing an instruction takes the core past it, paused or not. -/
@[simp]
theorem core_retire (machine : Machine) (instruction : Instruction) (next : Nat) :
    (machine.retire instruction next).core = machine.core.pass instruction next := by
  unfold retire
  dsimp only
  split <;> rfl

/-- Completing an instruction leaves a running machine running or paused. -/
theorem live_retire {machine : Machine} (hRunning : machine.status = .running)
    (instruction : Instruction) (next : Nat) : (machine.retire instruction next).Live := by
  unfold retire
  dsimp only
  split
  · exact .inl hRunning
  · exact .inr ⟨_, rfl⟩

/-- An outcome shows on a machine what a turn is on its core. -/
def Outcome.Shows (machine : Machine) (instruction : Instruction) : Outcome → Turn → Prop
  | .done performed next, turn =>
    turn = .moves (performed.core.pass instruction next) ∧ performed.status = machine.status
  | .waits begun, turn => turn = .asks ∧ begun = machine
  | .fails begun fault, turn =>
    turn = .fails (fault.placed (some machine.position)) ∧ begun = machine

/-- Performing an instruction shows its effect on the core. -/
theorem perform_shows (machine : Machine) (instruction : Instruction) :
    Outcome.Shows machine instruction (machine.perform instruction)
      (machine.core.effect instruction) := by
  cases instruction with
  | left =>
    cases hMove : machine.tape.moveLeft with
    | ok _ tape => simp [perform, Core.effect, core, hMove, Outcome.Shows]
    | error fault tape =>
      obtain ⟨-, -, rfl⟩ := (Tape.moveLeft_eq_error_iff machine.tape fault tape).1 hMove
      simp [perform, Core.effect, core, hMove, Outcome.Shows]
  | loopOpen =>
    by_cases hZero : machine.tape.read = 0
    · cases hClose : machine.program.matchingClose machine.position with
      | ok closing =>
        simp [perform, openLoop, Core.effect, core, hZero, hClose, Outcome.Shows, note]
      | error fault =>
        simp [perform, openLoop, Core.effect, core, hZero, hClose, Outcome.Shows]
    · simp [perform, openLoop, Core.effect, core, hZero, Outcome.Shows]
  | loopClose =>
    cases hPop : machine.stack.pop with
    | ok opening stack =>
      simp only [perform, closeLoop, Core.effect, core, hPop, Outcome.Shows, and_true]
      rfl
    | error fault stack =>
      obtain ⟨-, -, rfl⟩ := (LoopStack.pop_eq_error_iff machine.stack fault stack).1 hPop
      simp [perform, closeLoop, Core.effect, core, hPop, Outcome.Shows]
  | _ => simp [perform, Core.effect, core, Outcome.Shows]

/-- What beginning the next instruction does to a machine, told by the turn of its core. -/
def Stepped (machine after : Machine) : Turn → Prop
  | .ends => after = machine
  | .moves next => after.core = next ∧ after.Live
  | .asks => after.core = machine.core.begun ∧ after.status = .awaitingInput
  | .fails fault => after.core = machine.core.begun ∧ after.status = .faulted fault

/-- A running machine steps as its core takes its turn. -/
theorem step_stepped {machine : Machine} (hRunning : machine.status = .running) :
    machine.Stepped machine.step machine.core.turn := by
  cases hHere : machine.program.instruction? machine.position with
  | none =>
    have hTurn : machine.core.turn = .ends := by simp [Core.turn, core, hHere]
    have hStep : machine.step = machine := by simp [step, hHere]
    rw [hTurn, hStep]
    rfl
  | some instruction =>
    have hTurn : machine.core.turn = machine.core.begun.effect instruction :=
      Core.turn_eq_effect hHere
    have hShows := perform_shows { machine with executed := machine.executed + 1 } instruction
    rw [step, hHere, hTurn]
    dsimp only
    cases hPerform : { machine with executed := machine.executed + 1 }.perform instruction with
    | done performed next =>
      rw [hPerform] at hShows
      obtain ⟨hEffect, hStatus⟩ := hShows
      rw [show machine.core.begun.effect instruction = _ from hEffect]
      exact ⟨core_retire performed instruction next, live_retire (hStatus.trans hRunning) _ _⟩
    | waits begun =>
      rw [hPerform] at hShows
      obtain ⟨hEffect, rfl⟩ := hShows
      rw [show machine.core.begun.effect instruction = _ from hEffect]
      exact ⟨rfl, rfl⟩
    | fails begun fault =>
      rw [hPerform] at hShows
      obtain ⟨hEffect, rfl⟩ := hShows
      rw [show machine.core.begun.effect instruction = _ from hEffect]
      exact ⟨rfl, rfl⟩

/-- A step before the end of the program begins one instruction. -/
theorem executed_step {machine : Machine} (hRunning : machine.status = .running)
    (hInside : machine.position < machine.program.size) :
    machine.step.executed = machine.executed + 1 := by
  have hStepped := step_stepped hRunning
  cases hTurn : machine.core.turn with
  | ends => exact absurd ((Core.turn_eq_ends_iff _).1 hTurn) (Nat.not_le_of_lt hInside)
  | moves next =>
    rw [hTurn] at hStepped
    obtain ⟨rfl, -⟩ := hStepped
    exact (Core.frame_of_moves hTurn).2
  | asks =>
    rw [hTurn] at hStepped
    exact congrArg Core.executed hStepped.1
  | fails fault =>
    rw [hTurn] at hStepped
    exact congrArg Core.executed hStepped.1

/-- A line that is asked for takes the core past the request. -/
theorem enter_of_awaiting {machine : Machine} {core : Core} (line : String)
    (hStatus : machine.status = .awaitingInput) (hCore : machine.core = core.begun) :
    (machine.enter line).core = core.answer line ∧ (machine.enter line).Live := by
  have hEnter : machine.enter line =
      { machine with
        tape := machine.tape.write (byteOfLine line)
        status := .running }.retire .input (machine.position + 1) := by
    simp [enter, hStatus]
  rw [hEnter, core_retire]
  refine ⟨?_, live_retire rfl _ _⟩
  have hTape : machine.tape = core.tape := congrArg Core.tape hCore
  have hPosition : machine.position = core.position := congrArg Core.position hCore
  have hWritten :
      { machine with tape := machine.tape.write (byteOfLine line), status := .running }.core =
        { machine.core with tape := machine.tape.write (byteOfLine line) } := rfl
  rw [hWritten, hCore, hTape, hPosition]
  rfl

/-- A line that is not asked for leaves core and status alone. -/
theorem enter_of_not_awaiting {machine : Machine} (line : String)
    (hStatus : machine.status ≠ .awaitingInput) :
    (machine.enter line).core = machine.core ∧ (machine.enter line).status = machine.status := by
  have hEnter : machine.enter line = machine.note (.strayInput line) := by
    unfold enter
    split
    · contradiction
    · rfl
  rw [hEnter]
  exact ⟨rfl, rfl⟩

/-- A machine that still runs after settling is not at the end of its program. -/
theorem position_lt_of_settle {machine : Machine} (h : machine.settle.status = .running) :
    machine.settle.position < machine.settle.program.size := by
  by_contra hEnd
  have hHalted := settle_of_le machine.settle h (Nat.le_of_not_lt hEnd)
  rw [settle_settle] at hHalted
  rw [hHalted] at h
  contradiction

/-- What halting and stepping keep is kept by running for any number of instructions. -/
theorem execute_invariant {P : Machine → Prop}
    (hHalt : ∀ machine, P machine → machine.status = .running →
      machine.program.size ≤ machine.position → P machine.halt)
    (hStep : ∀ machine, P machine → machine.status = .running →
      machine.position < machine.program.size → P machine.step)
    {machine : Machine} (h : P machine) (cycles : Nat) : P (machine.execute cycles).2 := by
  have hSettle : ∀ machine, P machine → P machine.settle := by
    intro machine hMachine
    by_cases hRunning : machine.status = .running
    · by_cases hEnd : machine.program.size ≤ machine.position
      · rw [settle_of_le machine hRunning hEnd]
        exact hHalt machine hMachine hRunning hEnd
      · rw [settle_of_lt machine (Nat.lt_of_not_le hEnd)]
        exact hMachine
    · rw [settle_of_status_ne_running machine hRunning]
      exact hMachine
  induction cycles generalizing machine with
  | zero => exact hSettle machine h
  | succ cycles ih =>
    have hSettled := hSettle machine h
    rw [execute]
    split
    · rename_i hRunning
      exact ih (hStep _ hSettled hRunning (position_lt_of_settle hRunning))
    · exact hSettled

/-- Running does nothing to a machine that stands still. -/
theorem execute_of_status_ne_running {machine : Machine} (h : machine.status ≠ .running)
    (cycles : Nat) : machine.execute cycles = (machine.event, machine) := by
  have hSettle := settle_of_status_ne_running machine h
  cases cycles with
  | zero => rw [execute, hSettle]
  | succ cycles =>
    rw [execute, hSettle]
    split
    · contradiction
    · rfl

end Machine

end ByteTape
