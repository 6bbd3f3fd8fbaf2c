import ByteTape.Proofs.Core.Pauses
import ByteTape.Proofs.Core.StackDiscipline

/-!
# What a machine reports is true

A status says something about the machine that has it: that the next instruction asks for a line,
that the pause shows the machine as it is, that the program is at its end, or that the instruction
at the position cannot be done for the reason the fault gives. Every step and every call keeps all
of this, whatever the program and whatever was called before.
-/

namespace ByteTape

namespace Core

/-- What a cause says about the instruction at the position of a core. A run may be cancelled
anywhere. -/
def Explains (core : Core) : Cause → Prop
  | .addressUnderflow =>
    core.program.instruction? core.position = some .left ∧ core.tape.address = 0
  | .stackUnderflow =>
    core.program.instruction? core.position = some .loopClose ∧ core.stack = LoopStack.empty
  | .unbalancedLoop =>
    core.program.instruction? core.position = some .loopOpen ∧ core.tape.read = 0 ∧
      core.program.matchingClose core.position = .error (Fault.ofCause .unbalancedLoop)
  | .interrupted => True

/-- A fault is placed at the position of a core, has no note, and its cause is true of the core. -/
structure Accounts (core : Core) (fault : Fault) : Prop where
  /-- Nothing is remarked. -/
  note_eq : fault.note = ""
  /-- The position is that of the core. -/
  position_eq : fault.position = some core.position
  /-- The cause is what is the matter there. -/
  explains : core.Explains fault.cause

/-- A cause without circumstances is accounted for once it is placed. -/
theorem accounts_placed {core : Core} {cause : Cause} (h : core.Explains cause) :
    core.Accounts ((Fault.ofCause cause).placed (some core.position)) :=
  ⟨rfl, rfl, h⟩

/-- A turn that fails tells the truth about the core. -/
theorem accounts_of_fails {core : Core} {fault : Fault} (h : core.turn = .fails fault) :
    core.Accounts fault := by
  cases hHere : core.program.instruction? core.position with
  | none =>
    rw [turn, hHere] at h
    contradiction
  | some instruction =>
    rw [turn_eq_effect hHere] at h
    cases instruction with
    | left =>
      cases hMove : core.tape.moveLeft with
      | ok _ tape => simp [effect, begun, hMove] at h
      | error cause tape =>
        obtain ⟨hAddress, rfl, -⟩ := (Tape.moveLeft_eq_error_iff core.tape cause tape).1 hMove
        simp only [effect, begun, hMove, Turn.fails.injEq] at h
        subst h
        exact accounts_placed ⟨hHere, hAddress⟩
    | loopOpen =>
      by_cases hZero : core.tape.read = 0
      · cases hScan : core.program.matchingClose core.position with
        | ok closing => simp [effect, begun, hZero, hScan] at h
        | error cause =>
          have hCause := ((Program.matchingClose_eq_error_iff cause hHere).1 hScan).1
          subst hCause
          simp only [effect, begun, hZero, hScan, reduceIte, Turn.fails.injEq] at h
          subst h
          exact accounts_placed ⟨hHere, hZero, hScan⟩
      · simp [effect, begun, hZero] at h
    | loopClose =>
      cases hPop : core.stack.pop with
      | ok opening stack => simp [effect, begun, hPop] at h
      | error cause stack =>
        obtain ⟨hList, rfl, -⟩ := (LoopStack.pop_eq_error_iff core.stack cause stack).1 hPop
        have hEmpty := (LoopStack.toList_eq_nil_iff core.stack).1 hList
        simp only [effect, begun, hPop, Turn.fails.injEq] at h
        subst h
        exact accounts_placed ⟨hHere, hEmpty⟩
    | _ => simp [effect] at h

end Core

namespace Machine

/-- What the status of a machine says is true of the machine. -/
structure Truthful (machine : Machine) : Prop where
  /-- A line is waited for at an instruction for input. -/
  awaiting : machine.status = .awaitingInput →
    machine.program.instruction? machine.position = some .input
  /-- A pause is due after the instruction completed last and shows the machine as it is. -/
  paused : ∀ inspection, machine.status = .paused inspection →
    machine.core.pauseShown? machine.pacing = some inspection
  /-- A halted machine has no further instruction. -/
  halted : machine.status = .halted → machine.program.size ≤ machine.position
  /-- A fault accounts for the core it ended. -/
  faulted : ∀ fault, machine.status = .faulted fault → machine.core.Accounts fault

/-- A machine that runs says nothing that could be false. -/
theorem truthful_of_running {machine : Machine} (h : machine.status = .running) :
    machine.Truthful := by
  constructor <;> simp [h]

/-- A machine left in the status its core tells says the truth. -/
theorem truthful_of_statusAfter {machine : Machine}
    (h : machine.status = machine.core.statusAfter machine.pacing) : machine.Truthful := by
  rcases Core.statusAfter_cases machine.core machine.pacing with
    ⟨-, hRunning⟩ | ⟨inspection, hShown, hPaused⟩
  · exact truthful_of_running (h.trans hRunning)
  · rw [hPaused] at h
    constructor <;> simp [h, hShown]

/-- Ending at the end of the program is told truly. -/
theorem truthful_halt {machine : Machine} (h : machine.program.size ≤ machine.position) :
    machine.halt.Truthful := by
  constructor <;> simp [halt, note, h]

/-- A fault that accounts for the core is told truly. -/
theorem truthful_of_faulted {machine : Machine} {fault : Fault}
    (hStatus : machine.status = .faulted fault) (hAccounts : machine.core.Accounts fault) :
    machine.Truthful := by
  constructor <;> simp [hStatus, hAccounts]

/-- What is true of a machine stays true when only the journal changes. -/
theorem Truthful.congr {machine other : Machine} (h : machine.Truthful)
    (hCore : other.core = machine.core) (hStatus : other.status = machine.status)
    (hPacing : other.pacing = machine.pacing) : other.Truthful := by
  have hProgram : other.program = machine.program := congrArg Core.program hCore
  have hPosition : other.position = machine.position := congrArg Core.position hCore
  constructor
  · rw [hStatus, hProgram, hPosition]
    exact h.awaiting
  · rw [hStatus, hCore, hPacing]
    exact h.paused
  · rw [hStatus, hProgram, hPosition]
    exact h.halted
  · rw [hStatus, hCore]
    exact h.faulted

/-- A step of a running machine ends in a true status. -/
theorem truthful_step {machine : Machine} (hRunning : machine.status = .running) :
    machine.step.Truthful := by
  have hStepped := step_stepped hRunning
  cases hTurn : machine.core.turn with
  | ends =>
    rw [hTurn] at hStepped
    rw [show machine.step = machine from hStepped]
    exact truthful_of_running hRunning
  | moves next =>
    obtain ⟨rfl, hStatus⟩ := status_step hRunning hTurn
    exact truthful_of_statusAfter (by rw [hStatus, pacing_step])
  | asks =>
    rw [hTurn] at hStepped
    obtain ⟨hCore, hStatus⟩ := hStepped
    have hHere : machine.step.program.instruction? machine.step.position = some .input := by
      have hProgram : machine.step.program = machine.program := congrArg Core.program hCore
      have hPosition : machine.step.position = machine.position := congrArg Core.position hCore
      rw [hProgram, hPosition]
      exact (Core.turn_eq_asks_iff machine.core).1 hTurn
    constructor <;> simp [hStatus, hHere]
  | fails fault =>
    rw [hTurn] at hStepped
    obtain ⟨hCore, hStatus⟩ := hStepped
    have hAccounts := Core.accounts_of_fails hTurn
    refine truthful_of_faulted hStatus ?_
    rw [hCore]
    exact ⟨hAccounts.note_eq, hAccounts.position_eq, hAccounts.explains⟩

/-- Running keeps the status true. -/
theorem Truthful.execute {machine : Machine} (h : machine.Truthful) (cycles : Nat) :
    (machine.execute cycles).2.Truthful := by
  refine execute_invariant (P := Truthful) ?_ ?_ h cycles
  · intro machine hMachine hRunning hEnd
    exact truthful_halt hEnd
  · intro machine hMachine hRunning hInside
    exact truthful_step hRunning

/-- A line keeps the status true, asked for or not. -/
theorem Truthful.enter {machine : Machine} (h : machine.Truthful) (line : String) :
    (machine.enter line).Truthful := by
  by_cases hStatus : machine.status = .awaitingInput
  · have hAfter := status_enter line hStatus
    exact truthful_of_statusAfter (by rw [hAfter, pacing_enter])
  · obtain ⟨hCore, hSame⟩ := enter_of_not_awaiting line hStatus
    exact h.congr hCore hSame (pacing_enter machine line)

/-- Ending a pause keeps the status true. -/
theorem Truthful.resume {machine : Machine} (h : machine.Truthful) : machine.resume.Truthful := by
  cases hStatus : machine.status with
  | paused inspection => exact truthful_of_running (by simp [Machine.resume, hStatus])
  | _ =>
    rw [resume_of_not_paused machine (by simp [hStatus])]
    exact h

/-- Cancelling keeps the status true. -/
theorem Truthful.interrupt {machine : Machine} (h : machine.Truthful) :
    machine.interrupt.Truthful := by
  have hAccounts : machine.core.Accounts (interruption machine.position) :=
    ⟨rfl, rfl, trivial⟩
  unfold Machine.interrupt
  split
  · exact h
  · exact h
  · exact truthful_of_faulted rfl hAccounts

/-- Every call keeps the status true. -/
theorem Truthful.call {machine : Machine} (h : machine.Truthful) (call : Call) :
    (machine.call call).2.Truthful := by
  cases call with
  | execute cycles => exact h.execute cycles
  | enter line => exact h.enter line
  | resume => exact h.resume
  | interrupt => exact h.interrupt

/-- Every sequence of calls keeps the status true. -/
theorem Truthful.afterCalls {machine : Machine} (h : machine.Truthful) (calls : List Call) :
    (machine.afterCalls calls).Truthful := by
  induction calls generalizing machine with
  | nil => exact h
  | cons call calls ih => exact ih (h.call call)

/-- Whatever is called on a fresh machine, its status is true. -/
theorem truthful_afterCalls (program : Program) (pacing : Pacing) (calls : List Call) :
    ((load program pacing).afterCalls calls).Truthful :=
  (truthful_of_running rfl).afterCalls calls

/-- Running leaves nothing to settle. -/
theorem settle_execute (machine : Machine) (cycles : Nat) :
    (machine.execute cycles).2.settle = (machine.execute cycles).2 := by
  induction cycles generalizing machine with
  | zero => exact settle_settle machine
  | succ cycles ih =>
    rw [execute]
    split
    · exact ih _
    · exact settle_settle machine

/-- Only a machine that can go on inside its program tells that its budget is used up. -/
theorem execute_eq_running {machine : Machine} {cycles : Nat}
    (h : (machine.execute cycles).1 = .running) :
    (machine.execute cycles).2.status = .running ∧
      (machine.execute cycles).2.position < (machine.execute cycles).2.program.size := by
  rw [execute_fst] at h
  have hRunning : (machine.execute cycles).2.status = .running := by
    cases hStatus : (machine.execute cycles).2.status <;> simp [event, hStatus] at h
    rfl
  have hSettled := settle_execute machine cycles
  have hInside := position_lt_of_settle (hSettled.symm ▸ hRunning)
  rw [hSettled] at hInside
  exact ⟨hRunning, hInside⟩

/-- Whatever is called on a machine, what it reports is true: it never leaves its program; it waits
for a line at an instruction for input, pauses after an effectful instruction and halts at the end
of the program; a fault stands at the position of the machine, where the instruction cannot be done
for the reason it gives; and a budget that is used up leaves the machine running inside its
program. -/
theorem status_afterCalls (source : String) (pacing : Pacing) (calls : List Call) :
    let program := Program.ofString source
    let machine := (ofSource source pacing).afterCalls calls
    machine.position ≤ program.size ∧
      (machine.status = .awaitingInput →
        program.instruction? machine.position = some .input) ∧
      (∀ inspection, machine.status = .paused inspection →
        ∃ instruction, machine.last = some instruction ∧ instruction.isEffectful = true) ∧
      (machine.status = .halted → machine.position = program.size) ∧
      (∀ fault, machine.status = .faulted fault →
        fault.note = "" ∧ fault.position = some machine.position ∧
          (fault.cause = .addressUnderflow →
            program.instruction? machine.position = some .left ∧ machine.tape.address = 0) ∧
          (fault.cause = .stackUnderflow →
            program.instruction? machine.position = some .loopClose ∧
              machine.stack = LoopStack.empty) ∧
          (fault.cause = .unbalancedLoop →
            program.instruction? machine.position = some .loopOpen ∧ machine.tape.read = 0 ∧
              program.matchingClose machine.position =
                .error (Fault.ofCause .unbalancedLoop))) ∧
      ∀ cycles, (machine.execute cycles).1 = .running →
        (machine.execute cycles).2.status = .running ∧
          (machine.execute cycles).2.position < program.size := by
  intro program machine
  have hProgram : machine.program = program := program_afterCalls program pacing calls
  have hTruthful : machine.Truthful := truthful_afterCalls program pacing calls
  have hInside : machine.position ≤ program.size := by
    rw [← hProgram]
    exact (wellNested_afterCalls program pacing calls).position_le
  refine ⟨hInside, ?_, ?_, ?_, ?_, ?_⟩
  · intro hStatus
    rw [← hProgram]
    exact hTruthful.awaiting hStatus
  · intro inspection hStatus
    exact Core.isEffectful_of_pauseShown? (hTruthful.paused inspection hStatus)
  · intro hStatus
    have hEnd := hTruthful.halted hStatus
    rw [hProgram] at hEnd
    exact Nat.le_antisymm hInside hEnd
  · intro fault hStatus
    have hAccounts := hTruthful.faulted fault hStatus
    have hExplains := hAccounts.explains
    rw [← hProgram]
    refine ⟨hAccounts.note_eq, hAccounts.position_eq, ?_, ?_, ?_⟩
    · intro hCause
      rwa [hCause] at hExplains
    · intro hCause
      rwa [hCause] at hExplains
    · intro hCause
      rwa [hCause] at hExplains
  · intro cycles hEvent
    have hLonger : (machine.execute cycles).2 =
        (ofSource source pacing).afterCalls (calls ++ [.execute cycles]) := by
      simp only [machine, afterCalls, List.foldl_append, List.foldl_cons, List.foldl_nil]
      rfl
    have hSame : (machine.execute cycles).2.program = program := by
      rw [hLonger]
      exact program_afterCalls program pacing _
    have hRunning := execute_eq_running hEvent
    rwa [hSame] at hRunning

/-- A stepped machine is paused after its first instruction; resumed and run on, it fails at a loop
whose cell is zero and which the text never closes. -/
theorem status_afterCalls_unclosed :
    (∃ instruction, ((ofSource ">[" ⟨true, Delay.none⟩).afterCalls [.execute 9]).last =
        some instruction ∧ instruction.isEffectful = true) ∧
      ((ofSource ">[" ⟨true, Delay.none⟩).afterCalls
        [.execute 9, .resume, .execute 9]).status = .faulted ⟨.unbalancedLoop, some 1, ""⟩ ∧
      (Program.ofString ">[").matchingClose
          ((ofSource ">[" ⟨true, Delay.none⟩).afterCalls
            [.execute 9, .resume, .execute 9]).position =
        .error (Fault.ofCause .unbalancedLoop) := by
  have hPaused : ((ofSource ">[" ⟨true, Delay.none⟩).afterCalls [.execute 9]).status =
      .paused ⟨some .right, LoopStack.empty, ⟨#[0, 0], 1⟩, none, ⟨true, Delay.none⟩⟩ := by
    decide +kernel
  have hFaulted : ((ofSource ">[" ⟨true, Delay.none⟩).afterCalls
      [.execute 9, .resume, .execute 9]).status = .faulted ⟨.unbalancedLoop, some 1, ""⟩ := by
    decide +kernel
  have hFirst := status_afterCalls ">[" ⟨true, Delay.none⟩ [.execute 9]
  have hSecond := status_afterCalls ">[" ⟨true, Delay.none⟩ [.execute 9, .resume, .execute 9]
  exact ⟨hFirst.2.2.1 _ hPaused, hFaulted, ((hSecond.2.2.2.2.1 _ hFaulted).2.2.2.2 rfl).2.2⟩

end Machine

end ByteTape
