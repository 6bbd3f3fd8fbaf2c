import ByteTape.Proofs.Guarded.Safety

/-!
# Instructions are applied as a whole

An instruction that waits for input or fails has changed nothing by then but the count of
instructions begun. An instruction that is completed has changed what it is for and nothing else: of
the tape the current cell or the address, of the stack the innermost loop, of the output its last
character. Cancelling a run changes nothing that is computed with, and a line that was waited for
changes of the tape the current cell only.
-/

namespace ByteTape

namespace Tape

/-- A byte is stored in the current cell, and no other cell is touched. -/
structure Stores (before : Tape) (value : UInt8) (after : Tape) : Prop where
  /-- The current cell stays the current one. -/
  address_eq : after.address = before.address
  /-- No cell is made. -/
  size_eq : after.cells.size = before.cells.size
  /-- The current cell holds the byte. -/
  current : after.cells[before.address]? = some value
  /-- Every other cell is as it was. -/
  elsewhere : ∀ address, address ≠ before.address → after.cells[address]? = before.cells[address]?

/-- Writing stores a byte in a cell that has been made. -/
theorem WithinCells.stores {tape : Tape} (h : tape.WithinCells) (value : UInt8) :
    tape.Stores value (tape.write value) := by
  have hAddress : tape.address < tape.cells.size := h
  refine ⟨rfl, size_cells_write tape value, ?_, ?_⟩
  · simp only [Tape.write, Array.getElem?_setIfInBounds, hAddress, reduceIte]
  · intro address hOther
    rw [Tape.write, Array.getElem?_setIfInBounds, if_neg (Ne.symm hOther)]

/-- A move to the right makes at most one cell, which is zero. -/
theorem WithinCells.cells_moveRight {tape : Tape} (h : tape.WithinCells) :
    tape.moveRight.cells = tape.cells ∨ tape.moveRight.cells = tape.cells.push 0 := by
  have hAddress : tape.address < tape.cells.size := h
  by_cases hThere : tape.address + 1 < tape.cells.size
  · left
    have hNone : tape.address + 1 + 1 - tape.cells.size = 0 := by omega
    simp only [moveRight, growTo, hNone, Array.replicate_zero, Array.append_empty]
  · right
    have hOne : tape.address + 1 + 1 - tape.cells.size = 1 := by omega
    simp only [moveRight, growTo, hOne]
    rfl

end Tape

namespace Instruction

/-- What a completed instruction does to the tape. -/
def ActsOnTape (before after : Tape) : Instruction → Prop
  | increment => before.Stores (before.read + 1) after
  | decrement => before.Stores (before.read - 1) after
  | right =>
    after.address = before.address + 1 ∧
      (after.cells = before.cells ∨ after.cells = before.cells.push 0)
  | left => after.address + 1 = before.address ∧ after.cells = before.cells
  | _ => after = before

/-- What a completed instruction at a position does to the stack. -/
def ActsOnStack (position : Nat) (before after : LoopStack) : Instruction → Prop
  | loopOpen => after = before ∨ after.toList = before.toList ++ [position]
  | loopClose => ∃ opening, before.toList = after.toList ++ [opening]
  | _ => after = before

/-- What a completed instruction does to the output when the current cell holds a byte. -/
def ActsOnOutput (current : UInt8) (before after : String) : Instruction → Prop
  | output => after = before.push (Machine.charOfByte current)
  | _ => after = before

end Instruction

namespace Core

variable {core next : Core} {instruction : Instruction}

/-- A completed instruction acts on tape, stack and output as it should, and is the last one
completed. -/
structure Acts (core next : Core) (instruction : Instruction) : Prop where
  /-- What happens to the tape. -/
  tape : instruction.ActsOnTape core.tape next.tape
  /-- What happens to the stack. -/
  stack : instruction.ActsOnStack core.position core.stack next.stack
  /-- What happens to the output. -/
  output : instruction.ActsOnOutput core.tape.read core.output next.output
  /-- The instruction is completed. -/
  last_eq : next.last = some instruction

/-- Every completed instruction does what it is for and nothing else. -/
theorem acts_of_moves (hWithin : core.tape.WithinCells)
    (hHere : core.program.instruction? core.position = some instruction)
    (hTurn : core.turn = .moves next) : core.Acts next instruction := by
  rw [turn_eq_effect hHere] at hTurn
  cases instruction with
  | increment =>
    simp only [effect, Turn.moves.injEq] at hTurn
    subst hTurn
    exact ⟨hWithin.stores _, rfl, rfl, rfl⟩
  | decrement =>
    simp only [effect, Turn.moves.injEq] at hTurn
    subst hTurn
    exact ⟨hWithin.stores _, rfl, rfl, rfl⟩
  | right =>
    simp only [effect, Turn.moves.injEq] at hTurn
    subst hTurn
    exact ⟨⟨rfl, hWithin.cells_moveRight⟩, rfl, rfl, rfl⟩
  | left =>
    simp only [effect, begun, Tape.moveLeft] at hTurn
    cases hAddress : core.tape.address with
    | zero => simp [hAddress] at hTurn
    | succ previous =>
      simp only [hAddress, Turn.moves.injEq] at hTurn
      subst hTurn
      exact ⟨⟨hAddress.symm, rfl⟩, rfl, rfl, rfl⟩
  | output =>
    simp only [effect, Turn.moves.injEq] at hTurn
    subst hTurn
    exact ⟨rfl, rfl, rfl, rfl⟩
  | input => simp [effect] at hTurn
  | loopOpen =>
    simp only [effect] at hTurn
    split at hTurn
    · cases hScan : core.begun.program.matchingClose core.begun.position with
      | ok closing =>
        rw [hScan, Turn.moves.injEq] at hTurn
        subst hTurn
        exact ⟨rfl, .inl rfl, rfl, rfl⟩
      | error fault =>
        rw [hScan] at hTurn
        contradiction
    · rw [Turn.moves.injEq] at hTurn
      subst hTurn
      exact ⟨rfl, .inr (LoopStack.toList_push _ _), rfl, rfl⟩
  | loopClose =>
    rcases hStack : core.stack with ⟨entries⟩
    cases entries with
    | nil => simp [effect, begun, hStack, LoopStack.pop] at hTurn
    | cons opening outer =>
      simp only [effect, begun, hStack, LoopStack.pop, Turn.moves.injEq] at hTurn
      subst hTurn
      refine ⟨rfl, ⟨opening, ?_⟩, rfl, rfl⟩
      rw [hStack]
      exact List.reverse_cons
  | breakpoint =>
    simp only [effect, Turn.moves.injEq] at hTurn
    subst hTurn
    exact ⟨rfl, rfl, rfl, rfl⟩
  | comment character =>
    simp only [effect, Turn.moves.injEq] at hTurn
    subst hTurn
    exact ⟨rfl, rfl, rfl, rfl⟩

end Core

namespace Machine

variable {machine : Machine}

/-- Whatever is called on a fresh machine, it stays secure. -/
theorem Secure.afterCalls (h : machine.Secure) (calls : List Call) :
    (machine.afterCalls calls).Secure := by
  induction calls generalizing machine with
  | nil => exact h
  | cons call calls ih => exact ih (h.call call)

/-- A step of a running machine suspends or ends the run, or leaves it going. -/
theorem step_suspends_or_live (hRunning : machine.status = .running)
    (hInside : machine.position < machine.program.size) :
    (machine.step.core = machine.core.begun ∧ (machine.step.status = .awaitingInput ∨
        ∃ fault, machine.step.status = .faulted fault)) ∨
      (machine.core.turn = .moves machine.step.core ∧ machine.step.Live) := by
  have hStepped := step_stepped hRunning
  cases hTurn : machine.core.turn with
  | ends => exact absurd ((Core.turn_eq_ends_iff _).1 hTurn) (Nat.not_le_of_lt hInside)
  | moves next =>
    rw [hTurn] at hStepped
    obtain ⟨rfl, hLive⟩ := hStepped
    exact .inr ⟨rfl, hLive⟩
  | asks =>
    rw [hTurn] at hStepped
    exact .inl ⟨hStepped.1, .inl hStepped.2⟩
  | fails fault =>
    rw [hTurn] at hStepped
    exact .inl ⟨hStepped.1, .inr ⟨fault, hStepped.2⟩⟩

/-- A machine is known by its core, its pacing, its status and its journal. -/
theorem eq_of_core_eq {first second : Machine} (hCore : first.core = second.core)
    (hPacing : first.pacing = second.pacing) (hStatus : first.status = second.status)
    (hJournal : first.journal = second.journal) : first = second := by
  obtain ⟨⟩ := first
  obtain ⟨⟩ := second
  simp only [core, Core.mk.injEq] at hCore hPacing hStatus hJournal
  obtain ⟨rfl, rfl, rfl, rfl, rfl, rfl, rfl⟩ := hCore
  rw [hPacing, hStatus, hJournal]

/-- Cancelling a run leaves core and pacing alone. -/
theorem core_interrupt (machine : Machine) :
    machine.interrupt.core = machine.core ∧ machine.interrupt.pacing = machine.pacing := by
  unfold interrupt
  split <;> exact ⟨rfl, rfl⟩

/-- The byte of a line is the code of its first character modulo 256, zero if there is none. -/
theorem byteOfLine_cases (line : String) :
    (line = "" → byteOfLine line = 0) ∧
      ∀ character rest, line.toList = character :: rest →
        (byteOfLine line).toNat = character.toNat % 256 := by
  constructor
  · rintro rfl
    rfl
  · intro character rest hLine
    simp [byteOfLine, hLine]

/-- No instruction is half applied. A step of a running machine inside its program that ends waiting
for input or by a fault leaves everything as it was but the count of instructions begun, the status
and the journal. One that completes its instruction changes position, count, status and journal, and
besides only what the instruction is for. Cancelling leaves everything as it was but status and
journal. A line that was waited for is stored in the current cell, goes past the request, and changes
nothing else. -/
theorem never_half_applied (source : String) (pacing : Pacing) (calls : List Call) :
    let machine := (ofSource source pacing).afterCalls calls
    (∀ instruction, machine.status = .running →
      machine.program.instruction? machine.position = some instruction →
      let after := machine.step
      (after.status = .awaitingInput ∨ (∃ fault, after.status = .faulted fault) →
        after = { machine with
          executed := machine.executed + 1, status := after.status, journal := after.journal }) ∧
      (¬ (after.status = .awaitingInput ∨ ∃ fault, after.status = .faulted fault) →
        instruction.ActsOnTape machine.tape after.tape ∧
          instruction.ActsOnStack machine.position machine.stack after.stack ∧
          instruction.ActsOnOutput machine.tape.read machine.output after.output ∧
          after = { machine with
            tape := after.tape, stack := after.stack, output := after.output,
            position := after.position, last := some instruction,
            executed := machine.executed + 1, status := after.status,
            journal := after.journal })) ∧
      machine.interrupt = { machine with
        status := machine.interrupt.status, journal := machine.interrupt.journal } ∧
      ∀ line, machine.status = .awaitingInput →
        let after := machine.enter line
        machine.tape.Stores (byteOfLine line) after.tape ∧
          (line = "" → byteOfLine line = 0) ∧
          (∀ character rest, line.toList = character :: rest →
            (byteOfLine line).toNat = character.toNat % 256) ∧
          after = { machine with
            tape := after.tape, position := machine.position + 1, last := some .input,
            status := after.status, journal := after.journal } := by
  intro machine
  have hFresh : (ofSource source pacing).Secure :=
    ⟨Core.inRange_start (Program.ofString source), truthful_of_running rfl⟩
  have hSecure : machine.Secure :=
    hFresh.afterCalls calls
  have hWithin : machine.tape.WithinCells := hSecure.inRange.within
  refine ⟨?_, ?_, ?_⟩
  · intro instruction hRunning hHere after
    have hInside := Program.lt_size_of_instruction? hHere
    rcases step_suspends_or_live hRunning hInside with ⟨hBegun, hStatus⟩ | ⟨hTurn, hLive⟩
    · refine ⟨fun _ => eq_of_core_eq hBegun (pacing_step machine) rfl rfl, ?_⟩
      intro hCompleted
      exact absurd hStatus hCompleted
    · have hActs := Core.acts_of_moves hWithin hHere hTurn
      have hFrame := Core.frame_of_moves hTurn
      refine ⟨?_, fun _ => ⟨hActs.tape, hActs.stack, hActs.output, ?_⟩⟩
      · intro hSuspended
        rcases hLive with hGoesOn | ⟨inspection, hPaused⟩
        · simp [after, hGoesOn] at hSuspended
        · simp [after, hPaused] at hSuspended
      · refine eq_of_core_eq ?_ (pacing_step machine) rfl rfl
        have hProgram : after.program = machine.program := hFrame.1
        have hExecuted : after.executed = machine.executed + 1 := hFrame.2
        have hLast : after.last = some instruction := hActs.last_eq
        rw [core, core, hProgram, hExecuted, hLast]
  · exact eq_of_core_eq (core_interrupt machine).1 (core_interrupt machine).2 rfl rfl
  · intro line hAwaiting after
    have hEnter := enter_eq_retire line hAwaiting
    have hCore : after.core = _ := (congrArg core hEnter).trans (core_retire _ _ _)
    have hTape : after.tape = machine.tape.write (byteOfLine line) := congrArg Core.tape hCore
    obtain ⟨hEmpty, hFirst⟩ := byteOfLine_cases line
    refine ⟨hTape ▸ hWithin.stores _, hEmpty, hFirst, ?_⟩
    refine eq_of_core_eq ?_ (pacing_enter machine line) rfl rfl
    rw [hCore, hTape]
    rfl

/-- A move that fails to the left of the first cell, and a request, leave the machine with its tape,
its stack and its position; the line that is then entered changes the one cell. -/
theorem never_half_applied_underflow :
    let failed := (ofSource "+<" .plain).afterCalls [.execute 1]
    let asked := (ofSource "+," .plain).afterCalls [.execute 2]
    failed.step.status = .faulted ⟨.addressUnderflow, some 1, ""⟩ ∧
      failed.step = { failed with
        executed := 2, status := failed.step.status, journal := failed.step.journal } ∧
      asked.status = .awaitingInput ∧
      asked.tape.Stores (byteOfLine "ł") (asked.enter "ł").tape := by
  intro failed asked
  have hFailed : failed.status = .running := by decide +kernel
  have hLeft : failed.program.instruction? failed.position = some .left := by decide +kernel
  have hFault : failed.step.status = .faulted ⟨.addressUnderflow, some 1, ""⟩ := by decide +kernel
  have hAsked : asked.status = .awaitingInput := by decide +kernel
  have hStep := (never_half_applied "+<" .plain [.execute 1]).1 .left hFailed hLeft
  have hEnter := (never_half_applied "+," .plain [.execute 2]).2.2 "ł" hAsked
  exact ⟨hFault, hStep.1 (.inr ⟨_, hFault⟩), hAsked, hEnter.1⟩

end Machine

end ByteTape
