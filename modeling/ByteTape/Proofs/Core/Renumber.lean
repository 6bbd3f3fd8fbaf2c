import ByteTape.Proofs.Bracket.Balance
import ByteTape.Proofs.Core.Progress

/-!
# Runs at other addresses

A position is seen in three places only: in the position of the next instruction, in the entries of
the stack, and in the position of a fault. Two cores correspond through a function on addresses when
they agree in everything else they compute with and the function takes the positions of the one to
those of the other. Where an instruction is copied to its new address, and the bracket scan with it,
corresponding cores take corresponding turns; so what two runs tell corresponds as well, and so do
the events they end with.
-/

namespace ByteTape

/-- The stack with its entries at other addresses. -/
def LoopStack.renumber (stack : LoopStack) (place : Nat → Nat) : LoopStack :=
  ⟨stack.entries.map place⟩

/-- The listing of a stack at other addresses is that of the stack, entry by entry. -/
@[simp]
theorem LoopStack.toList_renumber (stack : LoopStack) (place : Nat → Nat) :
    (stack.renumber place).toList = stack.toList.map place := by
  simp [renumber, toList]

/-- Leaving a loop at another address tells the address it is taken to. -/
theorem LoopStack.pop_renumber (stack : LoopStack) (place : Nat → Nat) :
    (stack.renumber place).pop =
      match stack.pop with
      | .ok opening rest => .ok (place opening) (rest.renumber place)
      | .error fault rest => .error fault (rest.renumber place) := by
  obtain ⟨entries⟩ := stack
  cases entries <;> rfl

/-- The fault with its position at another address. -/
def Fault.renumber (fault : Fault) (place : Nat → Nat) : Fault :=
  { fault with position := fault.position.map place }

/-- A fault is located at the address its position is taken to. -/
@[simp]
theorem Fault.renumber_placed (fault : Fault) (place : Nat → Nat) (position : Nat) :
    (fault.placed (some position)).renumber place = fault.placed (some (place position)) :=
  rfl

/-- The inspection with its stack at other addresses. -/
def Inspection.renumber (inspection : Inspection) (place : Nat → Nat) : Inspection :=
  { inspection with stack := inspection.stack.renumber place }

/-- The event with all positions at other addresses. -/
def Event.renumber (place : Nat → Nat) : Event → Event
  | .paused inspection => .paused (inspection.renumber place)
  | .faulted fault => .faulted (fault.renumber place)
  | event => event

/-- The instruction at an address of a program has a copy at the address it is taken to: the same
instruction, followed by the copy of what follows it, and with the copy of its loop end. -/
structure Program.CopiedAt (program : Program) (place : Nat → Nat) (other : Program)
    (address : Nat) : Prop where
  /-- The instruction is the same, or there is none in either program. -/
  instruction?_eq : other.instruction? (place address) = program.instruction? address
  /-- The next address is taken to the next address. -/
  place_succ : address < program.size → place (address + 1) = place address + 1
  /-- The bracket scan ends with the copy of the closing bracket. -/
  matchingClose_eq : program.instruction? address = some .loopOpen →
    other.matchingClose (place address) = (program.matchingClose address).map place
  /-- The address after the closing bracket is taken to the address after its copy. -/
  place_close : ∀ closing, program.instruction? address = some .loopOpen →
    program.matchingClose address = .ok closing → place (closing + 1) = place closing + 1

namespace Core

variable {place : Nat → Nat} {core other : Core}

/-- Two cores agree up to the addresses of their programs. The instruction completed last and the
number of instructions begun are left open. -/
structure Corresponds (core : Core) (place : Nat → Nat) (other : Core) : Prop where
  /-- The tapes are the same. -/
  tape_eq : other.tape = core.tape
  /-- The same loops are entered. -/
  stack_eq : other.stack = core.stack.renumber place
  /-- The outputs are the same. -/
  output_eq : other.output = core.output
  /-- The next instruction is at the address its position is taken to. -/
  position_eq : other.position = place core.position

/-- Beginning an instruction is not seen. -/
theorem Corresponds.begun (h : core.Corresponds place other) :
    core.begun.Corresponds place other.begun :=
  ⟨h.tape_eq, h.stack_eq, h.output_eq, h.position_eq⟩

end Core

/-- Two turns agree up to the addresses of their programs. -/
def Turn.Corresponds (place : Nat → Nat) : Turn → Turn → Prop
  | .ends, .ends => True
  | .moves next, .moves other => next.Corresponds place other ∧ other.last = next.last
  | .asks, .asks => True
  | .fails fault, .fails other => other = fault.renumber place
  | _, _ => False

namespace Core

variable {place : Nat → Nat} {core other : Core}

/-- Corresponding cores correspond on any other tape. -/
theorem Corresponds.withTape (h : core.Corresponds place other) {tape after : Tape}
    (hTape : after = tape) :
    { core with tape }.Corresponds place { other with tape := after } :=
  ⟨hTape, h.stack_eq, h.output_eq, h.position_eq⟩

/-- Corresponding cores go past an instruction to corresponding cores. -/
theorem Corresponds.pass (h : core.Corresponds place other) (instruction : Instruction)
    {next after : Nat} (hNext : after = place next) :
    Turn.Corresponds place (.moves (core.pass instruction next))
      (.moves (other.pass instruction after)) :=
  ⟨⟨h.tape_eq, h.stack_eq, h.output_eq, hNext⟩, rfl⟩

/-- A copied loop is entered or passed over like the loop itself. -/
theorem Corresponds.effect_loopOpen (h : core.Corresponds place other)
    (hCopied : core.program.CopiedAt place other.program core.position)
    (hHere : core.program.instruction? core.position = some .loopOpen)
    (hNext : other.position + 1 = place (core.position + 1)) :
    (core.effect .loopOpen).Corresponds place (other.effect .loopOpen) := by
  have hScan := hCopied.matchingClose_eq hHere
  rw [← h.position_eq] at hScan
  have hRead : other.tape.read = core.tape.read := congrArg Tape.read h.tape_eq
  simp only [effect, hRead, hScan]
  by_cases hZero : core.tape.read = 0
  · rw [if_pos hZero, if_pos hZero]
    cases hClose : core.program.matchingClose core.position with
    | ok closing => exact h.pass .loopOpen (hCopied.place_close closing hHere hClose).symm
    | error fault =>
      rw [Except.map, h.position_eq]
      exact (Fault.renumber_placed fault place core.position).symm
  · rw [if_neg hZero, if_neg hZero]
    have hEntered : { core with stack := core.stack.push core.position }.Corresponds place
        { other with stack := other.stack.push other.position } := by
      refine ⟨h.tape_eq, ?_, h.output_eq, h.position_eq⟩
      rw [h.stack_eq, h.position_eq]
      rfl
    exact hEntered.pass .loopOpen hNext

/-- A copied loop end goes back to the copy of the opening bracket. -/
theorem Corresponds.effect_loopClose (h : core.Corresponds place other)
    (hNext : other.position + 1 = place (core.position + 1)) :
    (core.effect .loopClose).Corresponds place (other.effect .loopClose) := by
  have hPop := LoopStack.pop_renumber core.stack place
  rw [← h.stack_eq] at hPop
  have hRead : other.tape.read = core.tape.read := congrArg Tape.read h.tape_eq
  simp only [effect, hRead, hPop]
  cases core.stack.pop with
  | ok opening stack =>
    have hLeft : { core with stack }.Corresponds place
        { other with stack := stack.renumber place } :=
      ⟨h.tape_eq, rfl, h.output_eq, h.position_eq⟩
    refine hLeft.pass .loopClose ?_
    by_cases hZero : core.tape.read = 0
    · rw [if_pos hZero, if_pos hZero]
      exact hNext
    · rw [if_neg hZero, if_neg hZero]
  | error fault stack =>
    dsimp only
    rw [h.position_eq]
    exact (Fault.renumber_placed fault place core.position).symm

/-- A copied move to the left fails at the copy. -/
theorem Corresponds.effect_left (h : core.Corresponds place other)
    (hNext : other.position + 1 = place (core.position + 1)) :
    (core.effect .left).Corresponds place (other.effect .left) := by
  have hMove : other.tape.moveLeft = core.tape.moveLeft := congrArg Tape.moveLeft h.tape_eq
  simp only [effect, hMove]
  cases core.tape.moveLeft with
  | ok _ tape => exact (h.withTape rfl).pass .left hNext
  | error fault tape =>
    dsimp only
    rw [h.position_eq]
    exact (Fault.renumber_placed fault place core.position).symm

/-- A copied instruction has a corresponding effect. -/
theorem Corresponds.effect (h : core.Corresponds place other)
    (hCopied : core.program.CopiedAt place other.program core.position)
    {instruction : Instruction}
    (hHere : core.program.instruction? core.position = some instruction) :
    (core.effect instruction).Corresponds place (other.effect instruction) := by
  have hNext : other.position + 1 = place (core.position + 1) := by
    rw [h.position_eq, hCopied.place_succ (Program.lt_size_of_instruction? hHere)]
  cases instruction with
  | increment => exact (h.withTape (congrArg Tape.increment h.tape_eq)).pass .increment hNext
  | decrement => exact (h.withTape (congrArg Tape.decrement h.tape_eq)).pass .decrement hNext
  | right => exact (h.withTape (congrArg Tape.moveRight h.tape_eq)).pass .right hNext
  | left => exact h.effect_left hNext
  | output =>
    have hWritten : other.output.push (Machine.charOfByte other.tape.read) =
        core.output.push (Machine.charOfByte core.tape.read) := by
      rw [h.output_eq, h.tape_eq]
    exact ⟨⟨h.tape_eq, h.stack_eq, hWritten, hNext⟩, rfl⟩
  | input => trivial
  | loopOpen => exact h.effect_loopOpen hCopied hHere hNext
  | loopClose => exact h.effect_loopClose hNext
  | breakpoint => exact h.pass .breakpoint hNext
  | comment character => exact h.pass (.comment character) hNext

/-- Corresponding cores at a copied instruction take corresponding turns. -/
theorem Corresponds.turn (h : core.Corresponds place other)
    (hCopied : core.program.CopiedAt place other.program core.position) :
    core.turn.Corresponds place other.turn := by
  have hThere := hCopied.instruction?_eq
  rw [← h.position_eq] at hThere
  cases hHere : core.program.instruction? core.position with
  | none =>
    rw [Core.turn, Core.turn, hThere, hHere]
    trivial
  | some instruction =>
    rw [turn_eq_effect hHere, turn_eq_effect (hThere.trans hHere)]
    exact h.begun.effect hCopied hHere

/-- An answer to a copied request leads to corresponding cores. -/
theorem Corresponds.answer (h : core.Corresponds place other)
    (hCopied : core.program.CopiedAt place other.program core.position)
    (hAsks : core.turn = .asks) (line : String) :
    (core.answer line).Corresponds place (other.answer line) := by
  have hHere := (turn_eq_asks_iff core).1 hAsks
  have hNext := hCopied.place_succ (Program.lt_size_of_instruction? hHere)
  refine ⟨?_, h.stack_eq, h.output_eq, ?_⟩
  · exact congrArg (fun tape => tape.write (Machine.byteOfLine line)) h.tape_eq
  · exact (congrArg Nat.succ h.position_eq).trans hNext.symm

/-- Corresponding cores past the same instruction tell corresponding pauses. -/
theorem Corresponds.tidings (h : core.Corresponds place other) (hLast : other.last = core.last)
    (pacing : Pacing) :
    other.tidings pacing = (core.tidings pacing).map (Event.renumber place) := by
  have hShown : ∀ pause, other.shown pause = (core.shown pause).renumber place := by
    intro pause
    simp only [shown, Inspection.renumber, hLast, h.stack_eq, h.tape_eq, h.output_eq]
  simp only [Core.tidings, statusAfter, pauseShown?, hLast]
  cases core.last.bind pacing.pauseAfter with
  | none => rfl
  | some pause =>
    simp only [Option.map_some, hShown]
    rfl

/-- Turns that correspond are of one kind. -/
theorem Corresponds.turn_cases {turn found : Turn} (h : turn.Corresponds place found) :
    (turn = .ends ∧ found = .ends) ∨
      (∃ next after, turn = .moves next ∧ found = .moves after ∧ next.Corresponds place after ∧
        after.last = next.last) ∨
      (turn = .asks ∧ found = .asks) ∨
      ∃ fault, turn = .fails fault ∧ found = .fails (fault.renumber place) := by
  cases turn <;> cases found <;> simp_all [Turn.Corresponds]

/-- Turns that correspond come to an end together. -/
theorem Corresponds.stuck_iff (h : core.turn.Corresponds place other.turn) :
    other.Stuck ↔ core.Stuck := by
  cases hTurn : core.turn <;> cases hOther : other.turn <;> simp_all [Turn.Corresponds, Stuck]

end Core

namespace Progress

variable {place : Nat → Nat} {progress other : Progress}

/-- Two runs have got equally far, up to the addresses of their programs. -/
structure Corresponds (progress : Progress) (place : Nat → Nat) (other : Progress) : Prop where
  /-- The cores correspond. -/
  core : progress.core.Corresponds place other.core
  /-- The same number of answers is taken. -/
  taken_eq : other.taken = progress.taken
  /-- The same is told. -/
  told_eq : other.told = progress.told.map (Event.renumber place)

/-- Runs that correspond at a copied instruction correspond after it. -/
theorem Corresponds.next (h : progress.Corresponds place other)
    (hCopied : progress.core.program.CopiedAt place other.core.program progress.core.position)
    (pacing : Pacing) (answer : Nat → String) :
    (progress.next pacing answer).Corresponds place (other.next pacing answer) := by
  have hTurns := h.core.turn hCopied
  cases hTurn : progress.core.turn with
  | ends =>
    have hStuck : progress.core.Stuck := .inl hTurn
    rw [next_of_stuck hStuck, next_of_stuck ((Core.Corresponds.stuck_iff hTurns).2 hStuck)]
    exact h
  | fails fault =>
    have hStuck : progress.core.Stuck := .inr ⟨fault, hTurn⟩
    rw [next_of_stuck hStuck, next_of_stuck ((Core.Corresponds.stuck_iff hTurns).2 hStuck)]
    exact h
  | moves next =>
    cases hOther : other.core.turn with
    | moves after =>
      rw [hTurn, hOther] at hTurns
      obtain ⟨hNext, hLast⟩ := hTurns
      rw [next_of_moves hTurn, next_of_moves hOther]
      refine ⟨hNext, h.taken_eq, ?_⟩
      rw [h.told_eq, hNext.tidings hLast, List.map_append]
    | _ =>
      rw [hTurn, hOther] at hTurns
      exact hTurns.elim
  | asks =>
    cases hOther : other.core.turn with
    | asks =>
      have hAnswer := h.core.answer hCopied hTurn (answer progress.taken)
      rw [next_of_asks hTurn, next_of_asks hOther, h.taken_eq]
      refine ⟨hAnswer, rfl, ?_⟩
      rw [h.told_eq, hAnswer.tidings rfl, List.map_append, List.map_cons]
      rfl
    | _ =>
      rw [hTurn, hOther] at hTurns
      exact hTurns.elim

end Progress

namespace Machine

variable {place : Nat → Nat} {machine other : Machine} {core after : Core}

/-- Machines that present corresponding cores have corresponding cores, whether or not an instruction
is begun. -/
theorem Presents.corresponds (hMachine : machine.Presents core) (hOther : other.Presents after)
    (h : core.Corresponds place after) : machine.core.Corresponds place other.core := by
  have hSame : ∀ {first second : Core}, first = core ∨ first = core.begun →
      second = after ∨ second = after.begun → first.Corresponds place second := by
    rintro first second (rfl | rfl) (rfl | rfl) <;>
      exact ⟨h.tape_eq, h.stack_eq, h.output_eq, h.position_eq⟩
  exact hSame hMachine.core_or_begun hOther.core_or_begun

/-- Machines that ended where corresponding turns cannot be taken tell corresponding events. -/
theorem Presents.event_corresponds (hMachine : machine.Presents core)
    (hOther : other.Presents after) (h : core.Corresponds place after)
    (hTurns : core.turn.Corresponds place after.turn) (hEnded : machine.Ended)
    (hOtherEnded : other.Ended) : other.event = machine.event.renumber place := by
  have hOutput : other.output = machine.output := (hMachine.corresponds hOther h).output_eq
  rcases hMachine.of_ended hEnded with ⟨hEnds, hStatus, -⟩ | ⟨fault, hFails, hStatus, -⟩
  · rcases hOther.of_ended hOtherEnded with ⟨-, hHalted, -⟩ | ⟨found, hFound, -, -⟩
    · simp [event, hStatus, hHalted, Event.renumber, hOutput]
    · rw [hEnds, hFound] at hTurns
      exact hTurns.elim
  · rcases hOther.of_ended hOtherEnded with ⟨hEnds, -, -⟩ | ⟨found, hFound, hFaulted, -⟩
    · rw [hFails, hEnds] at hTurns
      exact hTurns.elim
    · rw [hFails, hFound] at hTurns
      have hSame : found = fault.renumber place := hTurns
      simp [event, hStatus, hFaulted, Event.renumber, hSame]

end Machine

end ByteTape
