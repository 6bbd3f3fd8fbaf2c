import ByteTape.Proofs.Structured.Simulation

/-!
# Machines run nested loops

A machine has no blocks: it has a position, a stack and a scan for the end of a loop. For a balanced
text these together do what nested loops mean. An attended machine halts exactly if the structured
run of the text is finished, with the same output, bytes, address and number of lines taken, and it
fails exactly if the structured run leaves the tape to the left, at the move that does so.
-/

namespace ByteTape

open ByteTape.Bracket Program

namespace Core

variable {answer : Nat → String} {program : Program} {code : Code}

/-- A finished structured run is a run to the end of the program, outside all loops. -/
theorem run_of_finished (hText : code.symbols = program.symbols.toList) {final : BlockState}
    (h : Executes answer 0 code .start (.finished final)) :
    ∃ last, (Core.start program).RunsOn answer 0 last final.consumed ∧ last.turn = .ends ∧
      last.Matches program program.size LoopStack.empty final := by
  obtain ⟨last, hRun, hLast⟩ :=
    (Before.here (matches_start program)).arrives (holdsAt_zero hText) h
  have hSize : 0 + code.size = program.size := by
    rw [Nat.zero_add, ← Code.length_symbols, hText, Array.length_toList]
    rfl
  rw [hSize] at hLast
  have hEnd : last.program.size = last.position := by rw [hLast.program_eq, hLast.position_eq]
  exact ⟨last, hRun, (turn_eq_ends_iff last).2 (Nat.le_of_eq hEnd), hLast⟩

/-- A structured run that leaves the tape is a run to the move that does so. -/
theorem run_of_underflow (hText : code.symbols = program.symbols.toList) {place : Nat}
    {final : BlockState} (h : Executes answer 0 code .start (.underflow place final)) :
    ∃ last, (Core.start program).RunsOn answer 0 last final.consumed ∧
      last.turn = .fails (underflowAt place) ∧ program.instruction? place = some .left :=
  (Before.here (matches_start program)).arrives (holdsAt_zero hText) h

/-- A run to the end of the program is a finished structured run. -/
theorem finished_of_run (hText : code.symbols = program.symbols.toList) {last : Core} {total : Nat}
    (hRun : (Core.start program).RunsOn answer 0 last total) (hEnds : last.turn = .ends) :
    ∃ final, Executes answer 0 code .start (.finished final) ∧ last.output = final.output := by
  obtain ⟨ending, hExecutes⟩ :=
    (matches_start program).exists_executes (holdsAt_zero hText) hRun (.inl hEnds)
  cases ending with
  | finished final =>
    obtain ⟨other, hOther, hStop, hMatches⟩ := run_of_finished hText hExecutes
    obtain ⟨rfl, -⟩ := hRun.unique (.inl hEnds) hOther (.inl hStop)
    exact ⟨final, hExecutes, hMatches.output_eq⟩
  | underflow place final =>
    obtain ⟨other, hOther, hFails, -⟩ := run_of_underflow hText hExecutes
    obtain ⟨rfl, -⟩ := hRun.unique (.inl hEnds) hOther (.inr ⟨_, hFails⟩)
    rw [hEnds] at hFails
    contradiction

/-- A run to a turn that fails is a structured run that leaves the tape there. -/
theorem underflow_of_run (hText : code.symbols = program.symbols.toList) {last : Core}
    {total : Nat} {fault : Fault} (hRun : (Core.start program).RunsOn answer 0 last total)
    (hFails : last.turn = .fails fault) :
    ∃ place final, Executes answer 0 code .start (.underflow place final) ∧
      fault = underflowAt place := by
  obtain ⟨ending, hExecutes⟩ :=
    (matches_start program).exists_executes (holdsAt_zero hText) hRun (.inr ⟨fault, hFails⟩)
  cases ending with
  | finished final =>
    obtain ⟨other, hOther, hStop, -⟩ := run_of_finished hText hExecutes
    obtain ⟨rfl, -⟩ := hRun.unique (.inr ⟨fault, hFails⟩) hOther (.inl hStop)
    rw [hFails] at hStop
    contradiction
  | underflow place final =>
    obtain ⟨other, hOther, hStop, -⟩ := run_of_underflow hText hExecutes
    obtain ⟨rfl, -⟩ := hRun.unique (.inr ⟨fault, hFails⟩) hOther (.inr ⟨_, hStop⟩)
    rw [hFails, Turn.fails.injEq] at hStop
    exact ⟨place, final, hExecutes, hStop⟩

end Core

namespace Attendance

open ByteTape.Core Machine

/-- An attended machine of a balanced text does what the nested loops of the text mean. It halts
with an output exactly if they finish with it, and then it has taken as many lines, has the same
bytes at all addresses and the same address, and is within no loop. It fails exactly if they move
to the left of the first address, by that fault at that move, and so never for a bracket. -/
theorem refines_nested_loops (source : String) (pacing : Pacing) (answer : Nat → String)
    (budget : Nat → Nat) (hBalanced : Balanced source.toList)
    (hBudget : ∀ slice, 0 < budget slice) :
    let attended := afterSlices answer budget (ofSource source pacing)
    ∃ code, Code.parse? source.toList = some code ∧ code.symbols = source.toList ∧
      (∀ output, (∃ slices, (attended slices).event = .halted output) ↔
        ∃ final, Executes answer 0 code .start (.finished final) ∧ final.output = output) ∧
      (∀ slices output final, (attended slices).event = .halted output →
        Executes answer 0 code .start (.finished final) →
        (attended slices).requests = final.consumed ∧
          (∀ address, (attended slices).machine.tape.byteAt address = final.bytes address) ∧
          (attended slices).machine.tape.address = final.address ∧
          (attended slices).machine.stack = LoopStack.empty) ∧
      ((∃ slices fault, (attended slices).event = .faulted fault) ↔
        ∃ position final, Executes answer 0 code .start (.underflow position final)) ∧
      (∀ slices fault position final, (attended slices).event = .faulted fault →
        Executes answer 0 code .start (.underflow position final) →
        fault = ⟨.addressUnderflow, some position, ""⟩ ∧
          (Program.ofString source).instruction? position = some .left) ∧
      ∀ slices fault, (attended slices).event = .faulted fault →
        fault.cause ≠ .stackUnderflow ∧ fault.cause ≠ .unbalancedLoop := by
  intro attended
  obtain ⟨code, hParse⟩ := Code.exists_parse?_of_balanced hBalanced
  have hSymbols : code.symbols = source.toList := (Code.parse?_eq_some_iff _ _).1 hParse
  have hText : code.symbols = (Program.ofString source).symbols.toList := by
    rw [hSymbols, Program.ofString]
  refine ⟨code, hParse, hSymbols, ?_, ?_, ?_, ?_, ?_⟩
  · intro output
    refine (exists_event_halted_iff hBudget output).trans ⟨?_, ?_⟩
    · intro h
      obtain ⟨last, total, hRun, hEnds, hOutput⟩ := h
      obtain ⟨final, hFinal, hSame⟩ := finished_of_run hText hRun hEnds
      exact ⟨final, hFinal, hSame.symm.trans hOutput⟩
    · intro h
      obtain ⟨final, hFinal, hOutput⟩ := h
      obtain ⟨last, hRun, hEnds, hMatches⟩ := run_of_finished hText hFinal
      exact ⟨last, _, hRun, hEnds, hMatches.output_eq.trans hOutput⟩
  · intro slices output final hEvent hFinal
    obtain ⟨hRun, hEnds, -⟩ := run_of_event_halted hBudget hEvent
    obtain ⟨last, hLast, hStop, hMatches⟩ := run_of_finished hText hFinal
    obtain ⟨rfl, hTotal⟩ := hRun.unique (.inl hEnds) hLast (.inl hStop)
    exact ⟨hTotal, hMatches.tape.bytes_eq, hMatches.tape.address_eq, hMatches.stack_eq⟩
  · constructor
    · intro h
      obtain ⟨slices, fault, hEvent⟩ := h
      obtain ⟨last, hRun, hFails⟩ := run_of_event_faulted hBudget hEvent
      obtain ⟨place, final, hFinal, -⟩ := underflow_of_run hText hRun hFails
      exact ⟨place, final, hFinal⟩
    · intro h
      obtain ⟨place, final, hFinal⟩ := h
      obtain ⟨last, hRun, hFails, -⟩ := run_of_underflow hText hFinal
      obtain ⟨slices, hEvent⟩ := (exists_event_faulted_iff hBudget _).2 ⟨last, _, hRun, hFails⟩
      exact ⟨slices, _, hEvent⟩
  · intro slices fault position final hEvent hFinal
    obtain ⟨last, hRun, hFails⟩ := run_of_event_faulted hBudget hEvent
    obtain ⟨other, hOther, hStop, hLeft⟩ := run_of_underflow hText hFinal
    obtain ⟨rfl, -⟩ := hRun.unique (.inr ⟨fault, hFails⟩) hOther (.inr ⟨_, hStop⟩)
    rw [hFails, Turn.fails.injEq] at hStop
    exact ⟨hStop, hLeft⟩
  · intro slices fault hEvent
    obtain ⟨last, hRun, hFails⟩ := run_of_event_faulted hBudget hEvent
    obtain ⟨place, final, -, rfl⟩ := underflow_of_run hText hRun hFails
    simp [underflowAt]

/-- A stepped machine that writes two lines and stops at an empty one shows that the loop of its
text does the same. -/
theorem refines_nested_loops_echo :
    Balanced ",[.,]".toList ∧
      ∃ code, Code.parse? ",[.,]".toList = some code ∧
        ∃ final, Executes (fun request => if request < 2 then "A" else "") 0 code .start
            (.finished final) ∧
          final.output = "AA" := by
  refine ⟨by decide, ?_⟩
  obtain ⟨code, hParse, -, hHalted, -⟩ :=
    refines_nested_loops ",[.,]" ⟨true, Delay.none⟩ (fun request => if request < 2 then "A" else "")
      (fun slice => slice + 1) (by decide) (fun slice => Nat.succ_pos slice)
  exact ⟨code, hParse, (hHalted "AA").1 ⟨40, by decide +kernel⟩⟩

end Attendance

end ByteTape
