import ByteTape.Proofs.Core.Attended
import ByteTape.Proofs.Core.StackDiscipline
import ByteTape.Proofs.Structured.Semantics

/-!
# Blocks and turns

Where a program holds the text of a code, the turns of a core do what the blocks mean. In one
direction every structured run is followed turn by turn, through the jumps over and back to the
brackets of its loops. In the other direction a run of turns that cannot go on leaves room for only
finitely many blocks, so there is a structured run, found by induction on the number of turns left.
-/

namespace ByteTape

open ByteTape.Bracket Program

namespace Core

variable {answer : Nat → String} {core : Core} {program : Program} {position : Nat}
  {stack : LoopStack} {state : BlockState}

/-- A core stands at a position of a program, within the loops of a stack, in the state of a
structured run. -/
structure Matches (core : Core) (program : Program) (position : Nat) (stack : LoopStack)
    (state : BlockState) : Prop where
  /-- The core runs the program. -/
  program_eq : core.program = program
  /-- The core is at the position. -/
  position_eq : core.position = position
  /-- The core is within the loops. -/
  stack_eq : core.stack = stack
  /-- The tape holds the bytes. -/
  tape : core.tape.Represents state.bytes state.address
  /-- The same was written. -/
  output_eq : core.output = state.output

/-- A core at the beginning of a code, or past its first loop when that is not entered. -/
inductive Before (core : Core) (program : Program) (stack : LoopStack) (state : BlockState) :
    Nat → Code → Prop
  /-- The code has not begun. -/
  | here {position : Nat} {code : Code} (h : core.Matches program position stack state) :
    Before core program stack state position code
  /-- The loop has been left. -/
  | past {position : Nat} {body rest : Code} (hZero : state.current = 0)
    (h : core.Matches program (position + body.size + 2) stack state) :
    Before core program stack state position (.loop body rest)

/-- The first core of a program stands at its beginning. -/
theorem matches_start (program : Program) :
    (Core.start program).Matches program 0 LoopStack.empty .start :=
  ⟨rfl, rfl, rfl, Tape.represents_blank, rfl⟩

/-- The current byte is read from the tape. -/
theorem Matches.read_eq (h : core.Matches program position stack state) :
    core.tape.read = state.current :=
  h.tape.read_eq

/-- The turn of a core is the effect of the instruction that the program has at its position. -/
theorem Matches.turn_eq (h : core.Matches program position stack state)
    {instruction : Instruction} (hHere : program.instruction? position = some instruction) :
    core.turn = core.begun.effect instruction :=
  turn_eq_effect (by rw [h.program_eq, h.position_eq, hHere])

/-- A turn is taken to a later core that stands where another position and state say. -/
def Advances (answer : Nat → String) (core : Core) (program : Program) (state : BlockState)
    (position : Nat) (stack : LoopStack) (next : BlockState) : Prop :=
  ∃ after, core.RunsOn answer state.consumed after next.consumed ∧
    core.executed < after.executed ∧ after.Matches program position stack next

/-- A completed instruction advances the core. -/
theorem advances_of_moves {after : Core} {next : BlockState} (hTurn : core.turn = .moves after)
    (hConsumed : next.consumed = state.consumed)
    (hMatches : after.Matches program position stack next) :
    core.Advances answer program state position stack next := by
  refine ⟨after, ?_, ?_, hMatches⟩
  · rw [hConsumed]
    exact .of_moves hTurn _
  · rw [(frame_of_moves hTurn).2]
    exact Nat.lt_succ_self _

/-- An instruction other than a bracket does to the core what it does to the state. -/
theorem Matches.advances_plain (h : core.Matches program position stack state)
    {instruction : Instruction} (hHere : program.instruction? position = some instruction)
    (hOpen : instruction ≠ .loopOpen) (hClose : instruction ≠ .loopClose) {next : BlockState}
    (hApply : state.applied? answer instruction = some next) :
    core.Advances answer program state (position + 1) stack next := by
  have hTurn := h.turn_eq hHere
  have hNext : core.begun.position + 1 = position + 1 := congrArg (· + 1) h.position_eq
  cases instruction with
  | increment =>
    cases hApply
    exact advances_of_moves hTurn rfl
      ⟨h.program_eq, hNext, h.stack_eq, h.tape.increment, h.output_eq⟩
  | decrement =>
    cases hApply
    exact advances_of_moves hTurn rfl
      ⟨h.program_eq, hNext, h.stack_eq, h.tape.decrement, h.output_eq⟩
  | right =>
    cases hApply
    exact advances_of_moves hTurn rfl
      ⟨h.program_eq, hNext, h.stack_eq, h.tape.moveRight, h.output_eq⟩
  | left =>
    cases hAddress : state.address with
    | zero => simp [BlockState.applied?, hAddress] at hApply
    | succ previous =>
      have hTape := h.tape
      rw [hAddress] at hTape
      obtain ⟨moved, hMove, hMoved⟩ := hTape.moveLeft
      have hMoves : core.turn =
          .moves ({ core.begun with tape := moved }.pass .left (core.begun.position + 1)) := by
        rw [hTurn, effect]
        simp only [begun, hMove]
      simp only [BlockState.applied?, hAddress, Option.some.injEq] at hApply
      subst hApply
      exact advances_of_moves hMoves rfl ⟨h.program_eq, hNext, h.stack_eq, hMoved, h.output_eq⟩
  | output =>
    cases hApply
    refine advances_of_moves hTurn rfl ⟨h.program_eq, hNext, h.stack_eq, h.tape, ?_⟩
    show core.output.push _ = state.output.push _
    rw [h.output_eq, ← h.read_eq]
    rfl
  | input =>
    have hBrought := BlockState.byteOfLine_eq_brought (answer state.consumed)
    rw [BlockState.applied?, ← hBrought] at hApply
    cases hApply
    exact ⟨core.answer (answer state.consumed), .of_asks hTurn _, Nat.lt_succ_self _,
      h.program_eq, hNext, h.stack_eq, h.tape.write _, h.output_eq⟩
  | loopOpen => contradiction
  | loopClose => contradiction
  | breakpoint =>
    cases hApply
    exact advances_of_moves hTurn rfl ⟨h.program_eq, hNext, h.stack_eq, h.tape, h.output_eq⟩
  | comment character =>
    cases hApply
    exact advances_of_moves hTurn rfl ⟨h.program_eq, hNext, h.stack_eq, h.tape, h.output_eq⟩

/-- The fault of a move to the left of the first address. -/
def underflowAt (position : Nat) : Fault :=
  ⟨.addressUnderflow, some position, ""⟩

/-- A move that cannot be done to the state fails at its position. -/
theorem Matches.turn_underflow (h : core.Matches program position stack state)
    {instruction : Instruction} (hHere : program.instruction? position = some instruction)
    (hApply : state.applied? answer instruction = none) :
    core.turn = .fails (underflowAt position) ∧ program.instruction? position = some .left := by
  obtain ⟨rfl, hAddress⟩ := (state.applied?_eq_none_iff answer instruction).1 hApply
  have hTape := h.tape
  rw [hAddress] at hTape
  refine ⟨?_, hHere⟩
  rw [h.turn_eq hHere, effect]
  simp only [begun, hTape.moveLeft_zero, h.position_eq]
  rfl

/-- An opening bracket passes over its loop at a zero byte. -/
theorem Matches.advances_over (h : core.Matches program position stack state) {closing : Nat}
    (hPairs : program.Pairs position closing) (hZero : state.current = 0) :
    core.Advances answer program state (closing + 1) stack state := by
  obtain ⟨rfl, rfl, rfl, hTape, hOutput⟩ := h
  have hTurn := turn_of_skipped hPairs (hTape.read_eq.trans hZero)
  exact advances_of_moves hTurn rfl ⟨rfl, rfl, rfl, hTape, hOutput⟩

/-- An opening bracket enters its loop at a nonzero byte. -/
theorem Matches.advances_into (h : core.Matches program position stack state) {closing : Nat}
    (hPairs : program.Pairs position closing) (hNonzero : state.current ≠ 0) :
    core.Advances answer program state (position + 1) (stack.push position) state := by
  obtain ⟨rfl, rfl, rfl, hTape, hOutput⟩ := h
  have hTurn := turn_of_entered hPairs.opens (fun hZero => hNonzero (hTape.read_eq.symm.trans hZero))
  exact advances_of_moves hTurn rfl ⟨rfl, rfl, rfl, hTape, hOutput⟩

/-- A closing bracket leaves its loop at a zero byte and goes back to the opening bracket
otherwise. -/
theorem Matches.advances_close {opening : Nat}
    (h : core.Matches program position (stack.push opening) state)
    (hPairs : program.Pairs opening position) :
    core.Advances answer program state (if state.current = 0 then position + 1 else opening) stack
      state := by
  obtain ⟨rfl, rfl, hStack, hTape, hOutput⟩ := h
  have hTurn := turn_of_closed hPairs.closes hStack
  rw [show core.tape.read = state.current from hTape.read_eq] at hTurn
  exact advances_of_moves hTurn rfl ⟨rfl, rfl, rfl, hTape, hOutput⟩

/-- After the body of a loop the core is before that loop again. -/
theorem Matches.before_loop {body rest : Code}
    (h : core.Matches program (position + 1 + body.size) (stack.push position) state)
    (hHolds : program.HoldsAt position (.loop body rest)) :
    ∃ after, core.RunsOn answer state.consumed after state.consumed ∧
      core.executed < after.executed ∧
      after.Before program stack state position (.loop body rest) := by
  have hPairs := hHolds.of_loop.2.2
  have hClosing : position + 1 + body.size = position + body.size + 1 := by omega
  rw [hClosing] at h
  obtain ⟨after, hRun, hLater, hMatches⟩ := h.advances_close hPairs
  refine ⟨after, hRun, hLater, ?_⟩
  by_cases hZero : state.current = 0
  · rw [if_pos hZero] at hMatches
    exact .past hZero hMatches
  · rw [if_neg hZero] at hMatches
    exact .here hMatches

/-- A core gets where an ending says: behind the code, within the same loops as before it, or to a
move that fails. -/
def Arrives (answer : Nat → String) (core : Core) (program : Program) (stack : LoopStack)
    (taken position : Nat) : Ending → Prop
  | .finished state =>
    ∃ last, core.RunsOn answer taken last state.consumed ∧
      last.Matches program position stack state
  | .underflow place state =>
    ∃ last, core.RunsOn answer taken last state.consumed ∧
      last.turn = .fails (underflowAt place) ∧ program.instruction? place = some .left

/-- What a core gets to is got to from every core that runs to it. -/
theorem Arrives.prepend {first : Core} {taken between : Nat} {ending : Ending}
    (hRun : first.RunsOn answer taken core between)
    (h : core.Arrives answer program stack between position ending) :
    first.Arrives answer program stack taken position ending := by
  cases ending with
  | finished state =>
    obtain ⟨last, hLast, hMatches⟩ := h
    exact ⟨last, hRun.trans hLast, hMatches⟩
  | underflow place state =>
    obtain ⟨last, hLast, hFails⟩ := h
    exact ⟨last, hRun.trans hLast, hFails⟩

/-- The turns of a core follow every structured run of the code it stands before. -/
theorem Before.arrives {code : Code} {ending : Ending}
    (hBefore : core.Before program stack state position code)
    (hHolds : program.HoldsAt position code) (h : Executes answer position code state ending) :
    core.Arrives answer program stack state.consumed (position + code.size) ending := by
  induction h generalizing core stack with
  | done position state =>
    cases hBefore with
    | here hMatches => exact ⟨core, .refl core _, hMatches⟩
  | @plain position symbol rest state next ending hApply hRest ih =>
    cases hBefore with
    | here hMatches =>
      obtain ⟨hHere, hBehind⟩ := hHolds.of_plain
      obtain ⟨after, hRun, -, hAfter⟩ :=
        hMatches.advances_plain hHere symbol.notOpen symbol.notClose hApply
      have hSize : position + (Code.plain symbol rest).size = position + 1 + rest.size := by
        rw [Code.size]
        omega
      rw [hSize]
      exact .prepend hRun (ih (.here hAfter) hBehind)
  | @underflow position symbol rest state hApply =>
    cases hBefore with
    | here hMatches =>
      exact ⟨core, .refl core _, hMatches.turn_underflow hHolds.of_plain.1 hApply⟩
  | @leave position body rest state ending hZero hRest ih =>
    obtain ⟨-, hBehind, hPairs⟩ := hHolds.of_loop
    have hSize : position + (Code.loop body rest).size = position + body.size + 2 + rest.size := by
      rw [Code.size]
      omega
    rw [hSize]
    cases hBefore with
    | here hMatches =>
      obtain ⟨after, hRun, -, hAfter⟩ := hMatches.advances_over hPairs hZero
      exact .prepend hRun (ih (.here hAfter) hBehind)
    | past _ hMatches => exact ih (.here hMatches) hBehind
  | @again position body rest state next ending hNonzero hBody hLoop ihBody ihLoop =>
    obtain ⟨hInside, -, hPairs⟩ := hHolds.of_loop
    cases hBefore with
    | here hMatches =>
      obtain ⟨entered, hEnter, -, hEntered⟩ := hMatches.advances_into hPairs hNonzero
      obtain ⟨last, hThrough, hLast⟩ := ihBody (.here hEntered) hInside
      obtain ⟨after, hBack, -, hAfter⟩ := hLast.before_loop hHolds
      exact .prepend (hEnter.trans (hThrough.trans hBack)) (ihLoop hAfter hHolds)
    | past hZero _ => exact absurd hZero hNonzero
  | @abort position place body rest state last hNonzero hBody ih =>
    obtain ⟨hInside, -, hPairs⟩ := hHolds.of_loop
    cases hBefore with
    | here hMatches =>
      obtain ⟨entered, hEnter, -, hEntered⟩ := hMatches.advances_into hPairs hNonzero
      exact .prepend hEnter (ih (.here hEntered) hInside)
    | past hZero _ => exact absurd hZero hNonzero

/-- Where the turns of a core come to an end there is a structured run of the code it stands at. -/
theorem Matches.exists_executes {code : Code} {last : Core} {total : Nat}
    (hMatches : core.Matches program position stack state)
    (hHolds : program.HoldsAt position code)
    (hRun : core.RunsOn answer state.consumed last total) (hStuck : last.Stuck) :
    ∃ ending, Executes answer position code state ending := by
  -- Every block but the empty one takes a turn, so the turns left bound the blocks left.
  induction hLeft : last.executed - core.executed using Nat.strongRecOn
    generalizing core position stack state code with
  | ind left ih =>
    have hShorter : ∀ {after : Core} {next : BlockState},
        core.RunsOn answer state.consumed after next.consumed → core.executed < after.executed →
        after.RunsOn answer next.consumed last total ∧
          last.executed - after.executed < left := by
      intro after next hAfter hLater
      have hRest := hAfter.rest_of_stuck hRun hStuck
      have hCount := hRest.executed_le
      exact ⟨hRest, by omega⟩
    cases code with
    | done => exact ⟨_, .done position state⟩
    | plain symbol rest =>
      obtain ⟨hHere, hBehind⟩ := hHolds.of_plain
      cases hApply : state.applied? answer (Instruction.ofChar symbol.symbol) with
      | none => exact ⟨_, .underflow hApply⟩
      | some next =>
        obtain ⟨after, hAfter, hLater, hNext⟩ :=
          hMatches.advances_plain hHere symbol.notOpen symbol.notClose hApply
        obtain ⟨hRest, hLess⟩ := hShorter hAfter hLater
        obtain ⟨ending, hEnding⟩ := ih _ hLess hNext hBehind hRest rfl
        exact ⟨ending, .plain hApply hEnding⟩
    | loop body rest =>
      obtain ⟨hInside, hBehind, hPairs⟩ := hHolds.of_loop
      by_cases hZero : state.current = 0
      · obtain ⟨after, hAfter, hLater, hNext⟩ := hMatches.advances_over hPairs hZero
        obtain ⟨hRest, hLess⟩ := hShorter hAfter hLater
        obtain ⟨ending, hEnding⟩ := ih _ hLess hNext hBehind hRest rfl
        exact ⟨ending, .leave hZero hEnding⟩
      · obtain ⟨entered, hEnter, hLater, hEntered⟩ := hMatches.advances_into hPairs hZero
        obtain ⟨hRest, hLess⟩ := hShorter hEnter hLater
        obtain ⟨ending, hBody⟩ := ih _ hLess hEntered hInside hRest rfl
        have hArrives := (Before.here hEntered).arrives hInside hBody
        cases ending with
        | underflow place final => exact ⟨_, .abort hZero hBody⟩
        | finished next =>
          obtain ⟨closing, hThrough, hClosing⟩ := hArrives
          obtain ⟨after, hBack, hLast, hAfter⟩ := hClosing.before_loop hHolds
          have hThroughLater := hThrough.executed_le
          have hLaterStill : core.executed < after.executed := by omega
          obtain ⟨hRest, hLess⟩ := hShorter (hEnter.trans (hThrough.trans hBack)) hLaterStill
          cases hAfter with
          | here hAgain =>
            obtain ⟨ending, hLoop⟩ := ih _ hLess hAgain hHolds hRest rfl
            exact ⟨ending, .again hZero hBody hLoop⟩
          | past hLeave hPast =>
            obtain ⟨ending, hEnding⟩ := ih _ hLess hPast hBehind hRest rfl
            exact ⟨ending, .again hZero hBody (.leave hLeave hEnding)⟩

end Core

end ByteTape
