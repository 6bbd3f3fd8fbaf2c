import ByteTape.Proofs.Bracket.OpenLoops
import ByteTape.Proofs.Core.Run

/-!
# The stack follows the text

Whatever path a run has taken, its stack holds exactly the brackets that are open in the text
before its position: entering a loop reads the opening bracket, leaving it reads the closing one,
passing over it reads a balanced text, and going back to the opening bracket returns to a place
where the stack was what it is after the entry was taken off. So a stack never leaks or loses an
entry, however often a loop is repeated, and what is left on it at the end was never closed.
-/

namespace ByteTape

namespace Core

open Program

/-- A loop is skipped as a whole where the cell is zero. -/
theorem turn_of_skipped {core : Core} {closing : Nat}
    (h : core.program.Pairs core.position closing) (hZero : core.tape.read = 0) :
    core.turn = .moves (core.begun.pass .loopOpen (closing + 1)) := by
  have hScan := (matchingClose_eq_ok_iff closing h.opens).2 h
  rw [turn_eq_effect h.opens]
  simp [effect, begun, hZero, hScan]

/-- A loop is entered where the cell is not zero, and its opening bracket is remembered. -/
theorem turn_of_entered {core : Core}
    (h : core.program.instruction? core.position = some .loopOpen) (hNonzero : core.tape.read ≠ 0) :
    core.turn = .moves ({ core.begun with stack := core.stack.push core.position }.pass .loopOpen
      (core.position + 1)) := by
  rw [turn_eq_effect h]
  simp [effect, begun, hNonzero]

/-- The end of a loop takes the innermost loop off the stack and goes on behind it where the cell is
zero, and else back to its opening bracket. -/
theorem turn_of_closed {core : Core} {opening : Nat} {stack : LoopStack}
    (h : core.program.instruction? core.position = some .loopClose)
    (hStack : core.stack = stack.push opening) :
    core.turn = .moves ({ core.begun with stack }.pass .loopClose
      (if core.tape.read = 0 then core.position + 1 else opening)) := by
  rw [turn_eq_effect h]
  simp [effect, begun, hStack]

/-- The stack of a core holds the brackets open before its position. -/
structure WellNested (core : Core) : Prop where
  /-- The position is in the program or at its end. -/
  position_le : core.position ≤ core.program.size
  /-- The stack is what reading the text up to the position leaves open. -/
  openLoops_eq : core.program.openLoops core.position = some core.stack.entries

/-- At the start nothing is open. -/
theorem wellNested_start (program : Program) : (start program).WellNested :=
  ⟨Nat.zero_le _, rfl⟩

/-- Beginning an instruction changes neither stack nor position. -/
theorem WellNested.of_begun {core : Core} (h : core.WellNested) : core.begun.WellNested :=
  ⟨h.position_le, h.openLoops_eq⟩

/-- An instruction that is no bracket goes to the next position with the same stack. -/
theorem WellNested.of_plain {core next : Core} {instruction : Instruction} (h : core.WellNested)
    (hHere : core.program.instruction? core.position = some instruction)
    (hOpen : instruction ≠ .loopOpen) (hClose : instruction ≠ .loopClose)
    (hProgram : next.program = core.program) (hStack : next.stack = core.stack)
    (hPosition : next.position = core.position + 1) : next.WellNested := by
  have hInside := lt_size_of_instruction? hHere
  constructor
  · rw [hProgram, hPosition]
    exact hInside
  · rw [hProgram, hPosition, hStack]
    refine openLoops_succ_of_plain h.openLoops_eq ?_ ?_
    · rw [hHere, Ne, Option.some.injEq]
      exact hOpen
    · rw [hHere, Ne, Option.some.injEq]
      exact hClose

/-- Passing over a loop and entering it both keep the stack in line with the text. -/
theorem WellNested.of_loopOpen {core next : Core} (h : core.WellNested)
    (hHere : core.program.instruction? core.position = some .loopOpen)
    (hTurn : core.turn = .moves next) : next.WellNested := by
  rw [turn_eq_effect hHere] at hTurn
  simp only [effect] at hTurn
  split at hTurn
  · cases hScan : core.begun.program.matchingClose core.begun.position with
    | ok closing =>
      rw [hScan, Turn.moves.injEq] at hTurn
      subst hTurn
      have hPairs := (matchingClose_eq_ok_iff closing hHere).1 hScan
      have hAfter := (openLoops_after_pair hPairs h.openLoops_eq).2
      exact ⟨lt_size_of_instruction? hPairs.closes, hAfter⟩
    | error fault =>
      rw [hScan] at hTurn
      contradiction
  · rw [Turn.moves.injEq] at hTurn
    subst hTurn
    have hEntered := openLoops_succ_of_loopOpen h.openLoops_eq hHere
    exact ⟨lt_size_of_instruction? hHere, hEntered⟩

/-- Leaving a loop and going back to its opening bracket both keep the stack in line with the
text. -/
theorem WellNested.of_loopClose {core next : Core} (h : core.WellNested)
    (hHere : core.program.instruction? core.position = some .loopClose)
    (hTurn : core.turn = .moves next) : next.WellNested := by
  rw [turn_eq_effect hHere] at hTurn
  have hOpened := h.openLoops_eq
  rcases hStack : core.stack with ⟨entries⟩
  cases entries with
  | nil =>
    simp [effect, begun, hStack, LoopStack.pop] at hTurn
  | cons opening outer =>
    rw [hStack] at hOpened
    have hInner := innermost_of_openLoops hOpened h.position_le
    simp only [effect, begun, hStack, LoopStack.pop, Turn.moves.injEq] at hTurn
    subst hTurn
    by_cases hZero : core.tape.read = 0
    · simp only [hZero, reduceIte]
      exact ⟨lt_size_of_instruction? hHere, openLoops_succ_of_loopClose hOpened hHere⟩
    · simp only [hZero, reduceIte]
      exact ⟨Nat.le_of_lt (lt_size_of_instruction? hInner.opens), hInner.outside⟩

/-- Every completed instruction keeps the stack in line with the text. -/
theorem WellNested.of_moves {core next : Core} (h : core.WellNested)
    (hTurn : core.turn = .moves next) : next.WellNested := by
  cases hHere : core.program.instruction? core.position with
  | none =>
    rw [turn, hHere] at hTurn
    contradiction
  | some instruction =>
    cases instruction with
    | loopOpen => exact h.of_loopOpen hHere hTurn
    | loopClose => exact h.of_loopClose hHere hTurn
    | left =>
      rw [turn_eq_effect hHere] at hTurn
      simp only [effect] at hTurn
      split at hTurn
      · rw [Turn.moves.injEq] at hTurn
        subst hTurn
        exact h.of_plain hHere (by simp) (by simp) rfl rfl rfl
      · contradiction
    | input =>
      rw [(turn_eq_asks_iff core).2 hHere] at hTurn
      contradiction
    | _ =>
      rw [turn_eq_effect hHere, effect, Turn.moves.injEq] at hTurn
      subst hTurn
      exact h.of_plain hHere (by simp) (by simp) rfl rfl rfl

/-- An answered request keeps the stack in line with the text. -/
theorem WellNested.of_answer {core : Core} (h : core.WellNested) (line : String)
    (hTurn : core.turn = .asks) : (core.answer line).WellNested :=
  h.of_plain ((turn_eq_asks_iff core).1 hTurn) (by simp) (by simp) rfl rfl rfl

/-- Along every run the stack stays in line with the text. -/
theorem Run.wellNested {core last : Core} {lines : List String} (hRun : Run core lines last)
    (h : core.WellNested) : last.WellNested :=
  hRun.invariant (P := WellNested) (fun _ _ hCore hTurn => hCore.of_moves hTurn)
    (fun _ line hCore hTurn => hCore.of_answer line hTurn) h

end Core

namespace Machine

open ByteTape.Core Program ByteTape.Bracket

/-- A running machine keeps its stack in line with the text when it steps. -/
theorem wellNested_step {machine : Machine} (h : machine.core.WellNested)
    (hRunning : machine.status = .running) : machine.step.core.WellNested := by
  have hStepped := step_stepped hRunning
  cases hTurn : machine.core.turn with
  | ends =>
    rw [hTurn] at hStepped
    rw [show machine.step = machine from hStepped]
    exact h
  | moves next =>
    rw [hTurn] at hStepped
    rw [hStepped.1]
    exact h.of_moves hTurn
  | asks =>
    rw [hTurn] at hStepped
    rw [hStepped.1]
    exact h.of_begun
  | fails fault =>
    rw [hTurn] at hStepped
    rw [hStepped.1]
    exact h.of_begun

/-- Whatever is called, the stack of a machine stays in line with the text. -/
theorem wellNested_afterCalls (program : Program) (pacing : Pacing) (calls : List Call) :
    ((load program pacing).afterCalls calls).core.WellNested := by
  obtain ⟨core, hRun, hCore, -⟩ := exists_run_afterCalls program pacing calls
  have hNested := hRun.wellNested (wellNested_start program)
  rcases hCore with hCore | hCore
  · rw [hCore]
    exact hNested
  · rw [hCore]
    exact hNested.of_begun

/-- No call changes the program of a machine. -/
theorem program_afterCalls (program : Program) (pacing : Pacing) (calls : List Call) :
    ((load program pacing).afterCalls calls).program = program := by
  obtain ⟨core, hRun, hCore, -⟩ := exists_run_afterCalls program pacing calls
  have hProgram : core.program = program := hRun.program_eq
  rcases hCore with hCore | hCore
  · exact (congrArg Core.program hCore).trans hProgram
  · exact (congrArg Core.program hCore).trans hProgram

/-- A halted machine has left its program. -/
theorem size_le_position_of_halted (program : Program) (pacing : Pacing) (calls : List Call)
    (h : ((load program pacing).afterCalls calls).status = .halted) :
    program.size ≤ ((load program pacing).afterCalls calls).position := by
  obtain ⟨core, hRun, hCore, hEnd⟩ := exists_run_afterCalls program pacing calls
  have hPosition : ((load program pacing).afterCalls calls).position = core.position := by
    rcases hCore with hCore | hCore
    · exact congrArg Core.position hCore
    · exact congrArg Core.position hCore
  have hSize := (turn_eq_ends_iff core).1 (hEnd h)
  rwa [hRun.program_eq, ← hPosition] at hSize

/-- Whatever is called on a machine, its stack is what reading the text up to its position leaves
open: as deep as the text is nested there, with the positions of opening brackets in increasing
order, and, once the machine has halted, exactly the brackets that are never closed. -/
theorem stack_afterCalls (source : String) (pacing : Pacing) (calls : List Call) :
    let program := Program.ofString source
    let machine := (ofSource source pacing).afterCalls calls
    (program.openLoops machine.position).map List.reverse = some machine.stack.toList ∧
      nesting (program.between 0 machine.position) 0 = some machine.stack.depth ∧
      machine.stack.toList.Pairwise (· < ·) ∧
      (∀ opening ∈ machine.stack.toList,
        opening < machine.position ∧ program.instruction? opening = some .loopOpen) ∧
      (machine.status = .halted → machine.stack.toList = program.neverClosed) := by
  intro program machine
  have hProgram : machine.program = program := program_afterCalls program pacing calls
  have hNested : machine.core.WellNested := wellNested_afterCalls program pacing calls
  have hInside : machine.position ≤ program.size := by
    rw [← hProgram]
    exact hNested.position_le
  have hOpen : program.openLoops machine.position = some machine.stack.entries := by
    rw [← hProgram]
    exact hNested.openLoops_eq
  refine ⟨?_, nesting_between_zero hOpen hInside, ?_, ?_, ?_⟩
  · rw [hOpen]
    rfl
  · exact List.pairwise_reverse.2 (pairwise_openLoops hOpen)
  · intro opening hMem
    have hHere := (mem_openLoops_iff hOpen opening).1 (List.mem_reverse.1 hMem)
    exact ⟨hHere.1, hHere.2.1⟩
  · intro hHalted
    have hEnd : machine.position = program.size :=
      Nat.le_antisymm hInside (size_le_position_of_halted program pacing calls hHalted)
    rw [hEnd] at hOpen
    exact reverse_openLoops_size hOpen

/-- A loop entered last and never closed is still on the stack when its program is over. -/
theorem stack_afterCalls_unclosed :
    ((ofSource "+[-]+[" .plain).afterCalls [.execute 9]).status = .halted ∧
      ((ofSource "+[-]+[" .plain).afterCalls [.execute 9]).stack.toList =
        (Program.ofString "+[-]+[").neverClosed ∧
      (Program.ofString "+[-]+[").neverClosed = [5] := by
  have hHalted : ((ofSource "+[-]+[" .plain).afterCalls [.execute 9]).status = .halted := by
    decide +kernel
  exact ⟨hHalted, (stack_afterCalls "+[-]+[" .plain [.execute 9]).2.2.2.2 hHalted,
    by decide +kernel⟩

end Machine

end ByteTape
