import ByteTape.Proofs.Bracket.StrayBrackets
import ByteTape.Proofs.Core.StatusTruth

/-!
# Bracket faults are decided by the text

A run follows the brackets of its text, whatever its lines, its pacing and its calls. So it comes at
most to the first stray bracket, which is the only place where it can find nothing to leave; it can
miss the end of a loop only at a bracket that the text never closes; and past such a bracket it is
within that loop for good.
-/

namespace ByteTape

namespace Core

open Program

variable {core : Core}

/-- A core that follows the text is not past a stray bracket. -/
theorem WellNested.position_le_stray (h : core.WellNested) {stray : Nat}
    (hStray : core.program.Stray stray) : core.position ≤ stray :=
  le_of_stray h.openLoops_eq hStray

/-- A core that follows the text and has nothing to leave is at the first stray bracket. -/
theorem WellNested.firstStray (h : core.WellNested) (hExplains : core.Explains .stackUnderflow) :
    core.program.FirstStray core.position := by
  obtain ⟨hClose, hEmpty⟩ := hExplains
  have hNothing : core.program.leftOpen core.position = [] := by
    rw [leftOpen_of_openLoops h.openLoops_eq, hEmpty]
    rfl
  refine ⟨⟨hClose, hNothing⟩, ?_⟩
  intro earlier hLt hStray
  exact Nat.not_le_of_lt hLt (h.position_le_stray hStray)

/-- A loop whose end is missed is never closed. -/
theorem mem_leftOpen_of_unbalanced (hExplains : core.Explains .unbalancedLoop) :
    core.program.instruction? core.position = some .loopOpen ∧
      core.position ∈ core.program.leftOpen core.program.size := by
  obtain ⟨hOpen, -, hScan⟩ := hExplains
  have hFree := ((matchingClose_eq_error_iff _ hOpen).1 hScan).2
  exact ⟨hOpen, mem_leftOpen_size_of_unpaired hOpen hFree⟩

/-- A core that follows the text and is past a bracket that is never closed is within its loop. -/
theorem WellNested.mem_stack (h : core.WellNested) {opening : Nat}
    (hMem : opening ∈ core.program.leftOpen core.program.size) (hLt : opening < core.position) :
    opening ∈ core.stack.toList := by
  have hOpen := mem_leftOpen_of_le hMem hLt h.position_le
  rw [leftOpen_of_openLoops h.openLoops_eq] at hOpen
  exact List.mem_reverse.2 hOpen

end Core

namespace Machine

open Program

/-- Whatever is called on a machine, the text decides about bracket faults. A machine never gets
past the first stray bracket of its text, never halts if there is one, and finds nothing to leave
only there; it misses the end of a loop only at an opening bracket that is never closed; and past
such a bracket it has it on the stack. -/
theorem bracketFaults_afterCalls (source : String) (pacing : Pacing) (calls : List Call) :
    let program := Program.ofString source
    let machine := (ofSource source pacing).afterCalls calls
    (∀ stray, program.FirstStray stray →
      machine.position ≤ stray ∧ machine.status ≠ .halted ∧
        ∀ fault, machine.status = .faulted fault → fault.cause = .stackUnderflow →
          fault.position = some stray) ∧
      (∀ fault, machine.status = .faulted fault → fault.cause = .stackUnderflow →
        ∃ stray, program.FirstStray stray) ∧
      (∀ fault, machine.status = .faulted fault → fault.cause = .unbalancedLoop →
        ∃ opening, fault.position = some opening ∧
          program.instruction? opening = some .loopOpen ∧
          opening ∈ program.leftOpen program.size) ∧
      ∀ opening ∈ program.leftOpen program.size, opening < machine.position →
        opening ∈ machine.stack.toList := by
  intro program machine
  have hProgram : machine.core.program = program := program_afterCalls program pacing calls
  have hTruthful : machine.Truthful := truthful_afterCalls program pacing calls
  have hNested : machine.core.WellNested := wellNested_afterCalls program pacing calls
  have hFirst : ∀ fault, machine.status = .faulted fault → fault.cause = .stackUnderflow →
      fault.position = some machine.position ∧ program.FirstStray machine.position := by
    intro fault hStatus hCause
    have hAccounts := hTruthful.faulted fault hStatus
    have hStray := hNested.firstStray (hCause ▸ hAccounts.explains)
    rw [hProgram] at hStray
    exact ⟨hAccounts.position_eq, hStray⟩
  refine ⟨?_, ?_, ?_, ?_⟩
  · intro stray hStray
    have hBefore : machine.position ≤ stray :=
      hNested.position_le_stray (hProgram.symm ▸ hStray.stray)
    refine ⟨hBefore, ?_, ?_⟩
    · intro hHalted
      have hEnd : program.size ≤ machine.position := hProgram ▸ hTruthful.halted hHalted
      have hInside := lt_size_of_instruction? hStray.stray.1
      omega
    · intro fault hStatus hCause
      obtain ⟨hPosition, hHere⟩ := hFirst fault hStatus hCause
      have hAfter : ¬ machine.position < stray := fun hLt =>
        hStray.none_before machine.position hLt hHere.stray
      have hSame : machine.position = stray := by omega
      rw [hPosition, hSame]
  · intro fault hStatus hCause
    exact ⟨machine.position, (hFirst fault hStatus hCause).2⟩
  · intro fault hStatus hCause
    have hAccounts := hTruthful.faulted fault hStatus
    have hOpen := Core.mem_leftOpen_of_unbalanced (hCause ▸ hAccounts.explains)
    rw [hProgram] at hOpen
    exact ⟨machine.position, hAccounts.position_eq, hOpen⟩
  · intro opening hMem hLt
    exact hNested.mem_stack (hProgram.symm ▸ hMem) hLt

/-- A text with one loop that is closed, one stray bracket and one loop that is never closed: the run
ends at the stray bracket. A run of another text is within the loop that is never closed. -/
theorem bracketFaults_afterCalls_stray :
    (Program.ofString "[]+][").FirstStray 3 ∧
      ((ofSource "[]+][" .plain).afterCalls [.execute 9]).status =
        .faulted ⟨.stackUnderflow, some 3, ""⟩ ∧
      ((ofSource "[]+][" .plain).afterCalls [.execute 9]).position ≤ 3 ∧
      1 ∈ (Program.ofString "+[+").leftOpen 3 ∧
      1 ∈ ((ofSource "+[+" .plain).afterCalls [.execute 2]).stack.toList := by
  have hStray : (Program.ofString "[]+][").FirstStray 3 := ⟨by decide +kernel, by decide +kernel⟩
  have hStatus : ((ofSource "[]+][" .plain).afterCalls [.execute 9]).status =
      .faulted ⟨.stackUnderflow, some 3, ""⟩ := by decide +kernel
  have hFirst := (bracketFaults_afterCalls "[]+][" .plain [.execute 9]).1 3 hStray
  have hOpen : 1 ∈ (Program.ofString "+[+").leftOpen 3 := by decide +kernel
  have hStack := (bracketFaults_afterCalls "+[+" .plain [.execute 2]).2.2.2 1 hOpen
    (by decide +kernel)
  exact ⟨hStray, hStatus, hFirst.1, hOpen, hStack⟩

end Machine

end ByteTape
