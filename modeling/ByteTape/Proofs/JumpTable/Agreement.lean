import ByteTape.Proofs.Core.StackDiscipline
import ByteTape.Proofs.JumpTable.Basic
import Mathlib.Data.List.Induction

/-!
# The stack and the jump table agree

A closing bracket is paired by the stack, which the run keeps up to date; an opening bracket is
paired by a forward scan of the text. Forgetting the stack turns a machine into one that looks both
up in the jump table, and every call then commutes with forgetting: the two ways of pairing
brackets cannot be told apart, whatever the program.
-/

namespace ByteTape

/-- An inspection with the stack left out. -/
def Inspection.withoutStack (inspection : Inspection) : Inspection :=
  { inspection with stack := LoopStack.empty }

/-- A status with the stack left out of what a pause shows. -/
def Status.withoutStack : Status → Status
  | .paused inspection => .paused inspection.withoutStack
  | status => status

/-- An event with the stack left out of what a pause shows. -/
def Event.withoutStack : Event → Event
  | .paused inspection => .paused inspection.withoutStack
  | event => event

/-- Leaving out the stack does not hide whether a machine runs. -/
@[simp]
theorem Status.withoutStack_eq_running_iff (status : Status) :
    status.withoutStack = .running ↔ status = .running := by
  cases status <;> simp [withoutStack]

/-- Leaving out the stack does not hide whether a machine waits. -/
@[simp]
theorem Status.withoutStack_eq_awaitingInput_iff (status : Status) :
    status.withoutStack = .awaitingInput ↔ status = .awaitingInput := by
  cases status <;> simp [withoutStack]

namespace JumpMachine

variable {jumper : JumpMachine} {opening closing : Nat}

/-- The end of a loop is looked up in the table. -/
theorem mem_of_closingOf? (h : jumper.closingOf? opening = some closing) :
    (opening, closing) ∈ jumper.table := by
  obtain ⟨⟨found, last⟩, hFind, rfl⟩ := Option.map_eq_some_iff.1 h
  have hFound : found = opening := by simpa using List.find?_some hFind
  rw [← hFound]
  exact List.mem_of_find?_eq_some hFind

/-- A loop whose end is not found is not in the table. -/
theorem not_mem_of_closingOf? (h : jumper.closingOf? opening = none) (closing : Nat) :
    (opening, closing) ∉ jumper.table := by
  intro hMem
  have hNone := List.find?_eq_none.1 (Option.map_eq_none_iff.1 h) _ hMem
  simp at hNone

/-- The beginning of a loop is looked up in the table. -/
theorem mem_of_openingOf? (h : jumper.openingOf? closing = some opening) :
    (opening, closing) ∈ jumper.table := by
  obtain ⟨⟨first, found⟩, hFind, rfl⟩ := Option.map_eq_some_iff.1 h
  have hFound : found = closing := by simpa using List.find?_some hFind
  rw [← hFound]
  exact List.mem_of_find?_eq_some hFind

/-- A loop whose beginning is not found is not in the table. -/
theorem not_mem_of_openingOf? (h : jumper.openingOf? closing = none) (opening : Nat) :
    (opening, closing) ∉ jumper.table := by
  intro hMem
  have hNone := List.find?_eq_none.1 (Option.map_eq_none_iff.1 h) _ hMem
  simp at hNone

end JumpMachine

namespace Machine

open ByteTape.Core Program

/-- The machine that looks up its brackets in the jump table of the program. -/
def forgetStack (machine : Machine) : JumpMachine where
  program := machine.program
  table := machine.program.jumpTable
  pacing := machine.pacing
  tape := machine.tape
  output := machine.output
  position := machine.position
  last := machine.last
  status := machine.status.withoutStack

/-- What becomes of an instruction, with the stack forgotten. -/
def Outcome.forgetStack : Outcome → JumpMachine.Outcome
  | .done machine next => .done machine.forgetStack next
  | .waits _ => .waits
  | .fails _ fault => .fails fault

/-- The event of a machine is that of its status, with or without the stack. -/
theorem forgetStack_event (machine : Machine) :
    machine.forgetStack.event = machine.event.withoutStack := by
  cases hStatus : machine.status <;>
    simp [JumpMachine.event, event, forgetStack, hStatus, Status.withoutStack, Event.withoutStack]

/-- Completing an instruction needs no stack. -/
theorem forgetStack_retire (machine : Machine) (instruction : Instruction) (next : Nat) :
    (machine.retire instruction next).forgetStack =
      machine.forgetStack.retire instruction next := by
  simp only [retire, JumpMachine.retire]
  cases hPause : machine.pacing.pauseAfter instruction with
  | none => simp [forgetStack, hPause]
  | some pause =>
    by_cases hBreak : instruction = .breakpoint
    · subst hBreak
      simp [forgetStack, hPause, suspend, note, snapshot, Status.withoutStack,
        Inspection.withoutStack, JumpMachine.inspection]
    · simp [forgetStack, hPause, suspend, note, snapshot, hBreak, Status.withoutStack,
        Inspection.withoutStack, JumpMachine.inspection]

/-- The table tells the end of a loop as the forward scan does. -/
theorem closingOf?_forgetStack {machine : Machine}
    (hHere : machine.program.instruction? machine.position = some .loopOpen) :
    (∃ closing, machine.program.matchingClose machine.position = .ok closing ∧
      machine.forgetStack.closingOf? machine.position = some closing) ∨
    (machine.program.matchingClose machine.position = .error (Fault.ofCause .unbalancedLoop) ∧
      machine.forgetStack.closingOf? machine.position = none) := by
  cases hFound : machine.forgetStack.closingOf? machine.position with
  | some closing =>
    have hPairs := (mem_jumpTable_iff _ _ _).1 (JumpMachine.mem_of_closingOf? hFound)
    exact .inl ⟨closing, (matchingClose_eq_ok_iff closing hHere).2 hPairs, rfl⟩
  | none =>
    have hFree := JumpMachine.not_mem_of_closingOf? hFound
    refine .inr ⟨(matchingClose_eq_error_iff _ hHere).2 ⟨rfl, fun closing hPairs => ?_⟩, rfl⟩
    exact hFree closing ((mem_jumpTable_iff _ _ _).2 hPairs)

/-- The table tells the beginning of a loop as the stack does. -/
theorem openingOf?_forgetStack {machine : Machine} (h : machine.core.WellNested)
    (hHere : machine.program.instruction? machine.position = some .loopClose) :
    machine.forgetStack.openingOf? machine.position = machine.stack.entries.head? := by
  have hHead := fun opening => pairs_iff_head? h.openLoops_eq hHere opening
  cases hFound : machine.forgetStack.openingOf? machine.position with
  | some opening =>
    have hPairs := (mem_jumpTable_iff _ _ _).1 (JumpMachine.mem_of_openingOf? hFound)
    exact ((hHead opening).1 hPairs).symm
  | none =>
    have hFree := JumpMachine.not_mem_of_openingOf? hFound
    cases hStack : machine.stack.entries.head? with
    | none => rfl
    | some opening =>
      have hPairs := (hHead opening).2 hStack
      exact absurd ((mem_jumpTable_iff _ _ _).2 hPairs) (hFree opening)

/-- Performing an instruction commutes with forgetting the stack. -/
theorem forgetStack_perform {machine : Machine} {instruction : Instruction}
    (h : machine.core.WellNested)
    (hHere : machine.program.instruction? machine.position = some instruction) :
    (machine.perform instruction).forgetStack = machine.forgetStack.perform instruction := by
  cases instruction with
  | left =>
    cases hMove : machine.tape.moveLeft with
    | ok tape =>
      simp [perform, JumpMachine.perform, forgetStack, Outcome.forgetStack, hMove]
    | error fault =>
      simp [perform, JumpMachine.perform, forgetStack, Outcome.forgetStack, hMove]
  | loopOpen =>
    have hTape : machine.forgetStack.tape = machine.tape := rfl
    have hPosition : machine.forgetStack.position = machine.position := rfl
    simp only [perform, openLoop, JumpMachine.perform, hTape, hPosition]
    by_cases hZero : machine.tape.read = 0
    · rw [if_pos hZero, if_pos hZero]
      rcases closingOf?_forgetStack hHere with ⟨closing, hScan, hTable⟩ | ⟨hScan, hTable⟩
      · rw [hScan, hTable]
        rfl
      · rw [hScan, hTable]
        rfl
    · rw [if_neg hZero, if_neg hZero]
      rfl
  | loopClose =>
    have hTable := openingOf?_forgetStack h hHere
    have hTape : machine.forgetStack.tape = machine.tape := rfl
    have hPosition : machine.forgetStack.position = machine.position := rfl
    simp only [perform, closeLoop, JumpMachine.perform, hTape, hPosition, hTable, LoopStack.pop]
    cases machine.stack.entries with
    | nil => rfl
    | cons opening outer => rfl
  | _ => rfl

/-- Beginning an instruction commutes with forgetting the stack. -/
theorem forgetStack_step {machine : Machine} (h : machine.core.WellNested) :
    machine.step.forgetStack = machine.forgetStack.step := by
  have hProgram : machine.forgetStack.program.instruction? machine.forgetStack.position =
      machine.program.instruction? machine.position := rfl
  rw [step, JumpMachine.step, hProgram]
  cases hHere : machine.program.instruction? machine.position with
  | none => rfl
  | some instruction =>
    dsimp only
    have hBegun : { machine with executed := machine.executed + 1 }.core.WellNested := h.of_begun
    have hPerform := forgetStack_perform hBegun hHere
    have hSame : { machine with executed := machine.executed + 1 }.forgetStack =
        machine.forgetStack := rfl
    rw [hSame] at hPerform
    rw [← hPerform]
    cases hOutcome : { machine with executed := machine.executed + 1 }.perform instruction with
    | done performed next => exact forgetStack_retire performed instruction next
    | waits begun =>
      obtain ⟨-, rfl⟩ := perform_eq_waits hOutcome
      rfl
    | fails begun fault =>
      have hUnchanged := perform_eq_fails hOutcome
      subst hUnchanged
      rfl

/-- Recognising the end of the program commutes with forgetting the stack. -/
theorem forgetStack_settle (machine : Machine) :
    machine.settle.forgetStack = machine.forgetStack.settle := by
  have hStatus : machine.forgetStack.status = machine.status.withoutStack := rfl
  rw [JumpMachine.settle, hStatus]
  simp only [Status.withoutStack_eq_running_iff]
  by_cases hRunning : machine.status = .running
  · by_cases hEnd : machine.program.size ≤ machine.position
    · rw [settle_of_le machine hRunning hEnd, if_pos ⟨hRunning, hEnd⟩]
      rfl
    · rw [settle_of_lt machine (Nat.lt_of_not_le hEnd), if_neg fun h => hEnd h.2]
  · rw [settle_of_status_ne_running machine hRunning, if_neg fun h => hRunning h.1]

/-- Running commutes with forgetting the stack. -/
theorem forgetStack_execute {machine : Machine} (h : machine.core.WellNested) (cycles : Nat) :
    machine.forgetStack.execute cycles =
      ((machine.execute cycles).1.withoutStack, (machine.execute cycles).2.forgetStack) := by
  induction cycles generalizing machine with
  | zero =>
    rw [JumpMachine.execute, execute, ← forgetStack_settle, forgetStack_event]
  | succ cycles ih =>
    have hStatus : machine.settle.forgetStack.status = machine.settle.status.withoutStack := rfl
    have hSettled : machine.settle.core.WellNested := by
      rw [core_settle]
      exact h
    rw [JumpMachine.execute, execute, ← forgetStack_settle, hStatus]
    simp only [Status.withoutStack_eq_running_iff]
    by_cases hRunning : machine.settle.status = .running
    · rw [if_pos hRunning, ← forgetStack_step hSettled, ih (wellNested_step hSettled hRunning)]
      simp only [hRunning]
    · rw [if_neg hRunning, forgetStack_event]
      split
      · contradiction
      · rfl

/-- A line commutes with forgetting the stack. -/
theorem forgetStack_enter (machine : Machine) (line : String) :
    (machine.enter line).forgetStack = machine.forgetStack.enter line := by
  have hStatus : machine.forgetStack.status = machine.status.withoutStack := rfl
  rw [JumpMachine.enter, hStatus]
  simp only [Status.withoutStack_eq_awaitingInput_iff]
  by_cases hAwaiting : machine.status = .awaitingInput
  · rw [if_pos hAwaiting, enter, hAwaiting]
    exact forgetStack_retire _ _ _
  · rw [if_neg hAwaiting, enter]
    split
    · contradiction
    · rfl

/-- Ending a pause commutes with forgetting the stack. -/
theorem forgetStack_resume (machine : Machine) :
    machine.resume.forgetStack = machine.forgetStack.resume := by
  cases hStatus : machine.status <;>
    simp [resume, JumpMachine.resume, forgetStack, hStatus, Status.withoutStack]

/-- Cancelling commutes with forgetting the stack. -/
theorem forgetStack_interrupt (machine : Machine) :
    machine.interrupt.forgetStack = machine.forgetStack.interrupt := by
  cases hStatus : machine.status <;>
    simp [interrupt, JumpMachine.interrupt, forgetStack, hStatus, Status.withoutStack, fail, note]

/-- Every call commutes with forgetting the stack. -/
theorem forgetStack_call {machine : Machine} (h : machine.core.WellNested) (call : Call) :
    machine.forgetStack.call call =
      ((machine.call call).1.map Event.withoutStack, (machine.call call).2.forgetStack) := by
  cases call with
  | execute cycles =>
    rw [JumpMachine.call, forgetStack_execute h]
    rfl
  | enter line =>
    rw [JumpMachine.call, ← forgetStack_enter]
    rfl
  | resume =>
    rw [JumpMachine.call, ← forgetStack_resume]
    rfl
  | interrupt =>
    rw [JumpMachine.call, ← forgetStack_interrupt]
    rfl

/-- Every sequence of calls on a fresh machine commutes with forgetting the stack. -/
theorem forgetStack_afterCalls (program : Program) (pacing : Pacing) (calls : List Call) :
    ((load program pacing).afterCalls calls).forgetStack =
      (JumpMachine.load program pacing).afterCalls calls := by
  induction calls using List.reverseRecOn with
  | nil => rfl
  | append_singleton calls call ih =>
    have hNested := wellNested_afterCalls program pacing calls
    have hCall := forgetStack_call hNested call
    rw [afterCalls, JumpMachine.afterCalls, List.foldl_append, List.foldl_append]
    rw [afterCalls, JumpMachine.afterCalls] at ih
    rw [afterCalls] at hCall
    simp only [List.foldl_cons, List.foldl_nil]
    rw [← ih, hCall]

/-- The machine with a stack and the machine with a jump table answer every call alike, after any
calls before it: same event but for the stack a pause shows, same position, tape, output, last
instruction and status. And a closing bracket about to be executed is the one that the forward scan
finds from the top of the stack. -/
theorem agrees_with_jumpTable (source : String) (pacing : Pacing) (calls : List Call) :
    let machine := (ofSource source pacing).afterCalls calls
    let jumper := (JumpMachine.ofSource source pacing).afterCalls calls
    (∀ call, (machine.call call).1.map Event.withoutStack = (jumper.call call).1) ∧
      machine.position = jumper.position ∧ machine.tape = jumper.tape ∧
      machine.output = jumper.output ∧ machine.last = jumper.last ∧
      machine.status.withoutStack = jumper.status ∧
      ∀ opening, machine.program.instruction? machine.position = some .loopClose →
        machine.stack.toList.getLast? = some opening →
        machine.program.matchingClose opening = .ok machine.position := by
  intro machine jumper
  have hNested : machine.core.WellNested := wellNested_afterCalls _ pacing calls
  have hForget : machine.forgetStack = jumper := forgetStack_afterCalls _ pacing calls
  refine ⟨?_, congrArg JumpMachine.position hForget, congrArg JumpMachine.tape hForget,
    congrArg JumpMachine.output hForget, congrArg JumpMachine.last hForget,
    congrArg JumpMachine.status hForget, ?_⟩
  · intro call
    rw [← hForget, forgetStack_call hNested]
  · intro opening hHere hTop
    have hHead : machine.stack.entries.head? = some opening := by
      rwa [LoopStack.toList, List.getLast?_reverse] at hTop
    have hPairs := (pairs_iff_head? hNested.openLoops_eq hHere opening).2 hHead
    exact (matchingClose_eq_ok_iff _ hPairs.opens).2 hPairs

/-- At the end of the inner of two loops, the scan from the innermost opening bracket finds that
end. -/
theorem agrees_with_jumpTable_inner :
    ((ofSource "+[>+[-]<-]" .plain).afterCalls [.execute 6]).position = 6 ∧
      ((ofSource "+[>+[-]<-]" .plain).afterCalls [.execute 6]).stack.toList = [1, 4] ∧
      (Program.ofString "+[>+[-]<-]").matchingClose 4 = .ok 6 := by
  have hPosition : ((ofSource "+[>+[-]<-]" .plain).afterCalls [.execute 6]).position = 6 := by
    decide +kernel
  have hStack :
      ((ofSource "+[>+[-]<-]" .plain).afterCalls [.execute 6]).stack.toList = [1, 4] := by
    decide +kernel
  have hScan := (agrees_with_jumpTable "+[>+[-]<-]" .plain [.execute 6]).2.2.2.2.2.2 4
    (by decide +kernel) (by rw [hStack]; rfl)
  have hProgram : ((ofSource "+[>+[-]<-]" .plain).afterCalls [.execute 6]).program =
      Program.ofString "+[>+[-]<-]" := program_afterCalls _ _ _
  rw [hPosition, hProgram] at hScan
  exact ⟨hPosition, hStack, hScan⟩

end Machine

end ByteTape
