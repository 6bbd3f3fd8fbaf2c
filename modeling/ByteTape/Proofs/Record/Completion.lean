import ByteTape.Proofs.Core.Pauses

/-!
# Instructions completed

An instruction is completed when the machine goes past it: by the step that begins it, or by the
line it has waited for. The instructions completed during a sequence of calls are told here in
order, without a look at what the machine counts, pauses for or writes into its journal, so that
these can be compared with them. What a step can come to is said once, in `Performed`; whatever
halting and stepping keep of a machine and the instructions completed is kept by running.
-/

namespace ByteTape

namespace Machine

/-- The instruction completed by a step, if there is one that can be done. -/
def completedByStep (machine : Machine) : List Instruction :=
  match machine.program.instruction? machine.position with
  | none => []
  | some instruction =>
    match { machine with executed := machine.executed + 1 }.perform instruction with
    | .done _ _ => [instruction]
    | .waits _ => []
    | .fails _ _ => []

/-- The instructions completed by running for a number of instructions, oldest first. -/
def completedInCycles (machine : Machine) : (cycles : Nat) → List Instruction
  | 0 => []
  | cycles + 1 =>
    if machine.settle.status = .running then
      machine.settle.completedByStep ++ machine.settle.step.completedInCycles cycles
    else
      []

/-- The instructions completed by a call, oldest first. A line completes the request that waits for
it. -/
def completedBy (machine : Machine) : Call → List Instruction
  | .execute cycles => machine.completedInCycles cycles
  | .enter _ => if machine.status = .awaitingInput then [.input] else []
  | .resume => []
  | .interrupt => []

/-- The instructions completed during a sequence of calls, oldest first. -/
def completed (machine : Machine) : List Call → List Instruction
  | [] => []
  | call :: calls => machine.completedBy call ++ (machine.call call).2.completed calls

/-- What is completed in two sequences of calls is completed in the one sequence they make. -/
theorem completed_append (machine : Machine) (calls later : List Call) :
    machine.completed (calls ++ later) =
      machine.completed calls ++ (machine.afterCalls calls).completed later := by
  induction calls generalizing machine with
  | nil => rfl
  | cons call calls ih =>
    have hRest := ih (machine.call call).2
    rw [List.cons_append, completed, hRest, completed, List.append_assoc]
    rfl

/-- One more call is made on the machine that the calls before it have left. -/
theorem afterCalls_append_singleton (machine : Machine) (calls : List Call) (call : Call) :
    machine.afterCalls (calls ++ [call]) = ((machine.afterCalls calls).call call).2 := by
  rw [afterCalls, List.foldl_append]
  rfl

/-- Completing an instruction is noted exactly if the machine pauses after it. -/
theorem journal_retire (machine : Machine) (instruction : Instruction) (next : Nat) :
    (machine.retire instruction next).journal =
      if (machine.pacing.pauseAfter instruction).isSome then
        machine.journal.push (.paused instruction next)
      else
        machine.journal := by
  unfold retire
  dsimp only
  cases hPause : machine.pacing.pauseAfter instruction with
  | none => rfl
  | some pause => rfl

/-- What a step of a machine comes to: the machine after it, and the instructions it completes. -/
inductive Performed (machine : Machine) : Machine → List Instruction → Prop
  /-- The program is at its end. -/
  | ended (hEnd : machine.program.size ≤ machine.position) : Performed machine machine []
  /-- An instruction is performed and completed; a loop that is passed over is noted. -/
  | completed {performed : Machine} (instruction : Instruction) (next : Nat)
    (hStatus : performed.status = machine.status) (hPacing : performed.pacing = machine.pacing)
    (hExecuted : performed.executed = machine.executed + 1)
    (hJournal : performed.journal = machine.journal ∨ ∃ opening closing,
      performed.journal = machine.journal.push (.loopSkipped opening closing)) :
    Performed machine (performed.retire instruction next) [instruction]
  /-- A line is asked for. -/
  | waits :
    Performed machine
      { machine with executed := machine.executed + 1, status := .awaitingInput } []
  /-- The instruction cannot be done, which is no cancellation. -/
  | fails (fault : Fault) (hCause : fault.cause ≠ .interrupted) :
    Performed machine ({ machine with executed := machine.executed + 1 }.fail fault) []

/-- An instruction that is performed leaves status and count alone, and notes a loop that is passed
over. -/
theorem frame_of_done {machine performed : Machine} {instruction : Instruction} {next : Nat}
    (h : machine.perform instruction = .done performed next) :
    performed.status = machine.status ∧ performed.executed = machine.executed ∧
      (performed.journal = machine.journal ∨ ∃ opening closing,
        performed.journal = machine.journal.push (.loopSkipped opening closing)) := by
  cases instruction with
  | left =>
    simp only [perform] at h
    split at h
    · injection h with hPerformed
      subst hPerformed
      exact ⟨rfl, rfl, .inl rfl⟩
    · contradiction
  | loopOpen =>
    simp only [perform, openLoop] at h
    split at h
    · split at h
      · rename_i closing hClose
        injection h with hPerformed
        subst hPerformed
        exact ⟨rfl, rfl, .inr ⟨machine.position, closing, rfl⟩⟩
      · contradiction
    · injection h with hPerformed
      subst hPerformed
      exact ⟨rfl, rfl, .inl rfl⟩
  | loopClose =>
    simp only [perform, closeLoop] at h
    split at h
    · injection h with hPerformed
      subst hPerformed
      exact ⟨rfl, rfl, .inl rfl⟩
    · contradiction
  | input => contradiction
  | _ =>
    injection h with hPerformed
    subst hPerformed
    exact ⟨rfl, rfl, .inl rfl⟩

/-- No instruction fails by a cancellation. -/
theorem cause_of_fails {machine after : Machine} {instruction : Instruction} {fault : Fault}
    (h : machine.perform instruction = .fails after fault) : fault.cause ≠ .interrupted := by
  cases instruction with
  | left =>
    simp only [perform] at h
    split at h
    · contradiction
    · rename_i cause tape hMove
      have hCause := ((Tape.moveLeft_eq_error_iff machine.tape cause tape).1 hMove).2.1
      injection h with _ hFault
      rw [← hFault, ← hCause]
      decide
  | loopOpen =>
    simp only [perform, openLoop] at h
    split at h
    · split at h
      · contradiction
      · rename_i cause hScan
        simp only [Program.matchingClose] at hScan
        split at hScan
        · contradiction
        · injection hScan with hCause
          injection h with _ hFault
          rw [← hFault, ← hCause]
          decide
    · contradiction
  | loopClose =>
    simp only [perform, closeLoop] at h
    split at h
    · contradiction
    · rename_i cause stack hPop
      have hCause := ((LoopStack.pop_eq_error_iff machine.stack cause stack).1 hPop).2.1
      injection h with _ hFault
      rw [← hFault, ← hCause]
      decide
  | _ => contradiction

/-- A step comes to one of these things, and completes what is told. -/
theorem performed_step (machine : Machine) :
    machine.Performed machine.step machine.completedByStep := by
  unfold step completedByStep
  cases hHere : machine.program.instruction? machine.position with
  | none => exact .ended ((Program.instruction?_eq_none_iff _ _).1 hHere)
  | some instruction =>
    dsimp only
    cases hPerform : { machine with executed := machine.executed + 1 }.perform instruction with
    | done performed next =>
      have hPacing := pacing_of_done hPerform
      obtain ⟨hStatus, hExecuted, hJournal⟩ := frame_of_done hPerform
      exact .completed instruction next hStatus hPacing hExecuted hJournal
    | waits begun =>
      obtain ⟨-, rfl⟩ := perform_eq_waits hPerform
      exact .waits
    | fails begun fault =>
      have hCause := cause_of_fails hPerform
      have hBegun := perform_eq_fails hPerform
      subst hBegun
      exact .fails (fault.placed _) hCause

/-- Running settles a machine first. -/
theorem execute_settle (machine : Machine) (cycles : Nat) :
    machine.settle.execute cycles = machine.execute cycles := by
  cases cycles with
  | zero => rw [execute, execute, settle_settle]
  | succ cycles => rw [execute, execute, settle_settle]

/-- What halting and stepping keep of a machine and the instructions completed is kept by running
for any number of instructions. -/
theorem execute_record {P : Machine → List Instruction → Prop}
    (hHalt : ∀ machine done, P machine done → machine.status = .running → P machine.halt done)
    (hStep : ∀ machine done after more, P machine done → machine.status = .running →
      machine.Performed after more → P after (done ++ more))
    {machine : Machine} {done : List Instruction} (h : P machine done) (cycles : Nat) :
    P (machine.execute cycles).2 (done ++ machine.completedInCycles cycles) := by
  have hSettle : ∀ machine done, P machine done → P machine.settle done := by
    intro machine done hMachine
    by_cases hRunning : machine.status = .running
    · by_cases hEnd : machine.program.size ≤ machine.position
      · rw [settle_of_le machine hRunning hEnd]
        exact hHalt machine done hMachine hRunning
      · rw [settle_of_lt machine (Nat.lt_of_not_le hEnd)]
        exact hMachine
    · rw [settle_of_status_ne_running machine hRunning]
      exact hMachine
  induction cycles generalizing machine done with
  | zero =>
    have hSettled := hSettle machine done h
    rw [completedInCycles, List.append_nil]
    exact hSettled
  | succ cycles ih =>
    have hSettled := hSettle machine done h
    by_cases hRunning : machine.settle.status = .running
    · have hNext := hStep _ _ _ _ hSettled hRunning (performed_step machine.settle)
      rw [execute, hRunning, completedInCycles, if_pos hRunning, ← List.append_assoc]
      exact ih hNext
    · have hStill := execute_of_status_ne_running hRunning (cycles + 1)
      rw [execute_settle] at hStill
      rw [hStill, completedInCycles, if_neg hRunning, List.append_nil]
      exact hSettled

end Machine

end ByteTape
