import ByteTape.Proofs.Core.Run

/-!
# What a pause shows

Whether a machine pauses after an instruction depends on the pacing and on that instruction, and
what the pause shows is read off the core the instruction has left. So a core and a pacing tell the
status in which a completed instruction leaves a running machine, and steps and answered requests
are followed here once more, with that status.
-/

namespace ByteTape

namespace Core

/-- What a pause shows of a core. The output is shown at a breakpoint only. -/
def shown (core : Core) (pause : Pause) : Inspection where
  instruction := core.last
  stack := core.stack
  tape := core.tape
  output := if core.last = some .breakpoint then some core.output else none
  pause := pause

/-- The pause after the instruction completed last, if the pacing wants one. -/
def pauseShown? (core : Core) (pacing : Pacing) : Option Inspection :=
  (core.last.bind pacing.pauseAfter).map core.shown

/-- The status in which the instruction completed last leaves a running machine. -/
def statusAfter (core : Core) (pacing : Pacing) : Status :=
  match core.pauseShown? pacing with
  | none => .running
  | some inspection => .paused inspection

/-- After an instruction a machine runs on or is paused. -/
theorem statusAfter_cases (core : Core) (pacing : Pacing) :
    (core.pauseShown? pacing = none ∧ core.statusAfter pacing = .running) ∨
      ∃ inspection, core.pauseShown? pacing = some inspection ∧
        core.statusAfter pacing = .paused inspection := by
  cases hShown : core.pauseShown? pacing with
  | none => exact .inl ⟨rfl, by rw [statusAfter, hShown]⟩
  | some inspection => exact .inr ⟨inspection, rfl, by rw [statusAfter, hShown]⟩

/-- A comment is not paused after. -/
theorem pauseShown?_of_comment {core : Core} {character : Char}
    (h : core.last = some (.comment character)) (pacing : Pacing) :
    core.pauseShown? pacing = none := by
  simp [pauseShown?, h]

/-- A pause follows an effectful instruction. -/
theorem isEffectful_of_pauseShown? {core : Core} {pacing : Pacing} {inspection : Inspection}
    (h : core.pauseShown? pacing = some inspection) :
    ∃ instruction, core.last = some instruction ∧ instruction.isEffectful = true := by
  cases hLast : core.last with
  | none => simp [pauseShown?, hLast] at h
  | some instruction =>
    refine ⟨instruction, rfl, ?_⟩
    by_contra hEffect
    obtain ⟨character, rfl⟩ :=
      (Instruction.isEffectful_eq_false_iff instruction).1 (Bool.eq_false_iff.2 hEffect)
    rw [pauseShown?_of_comment hLast] at h
    contradiction

end Core

namespace Machine

/-- Completing an instruction leaves a running machine in the status its core tells. -/
theorem status_retire {machine : Machine} (hRunning : machine.status = .running)
    (instruction : Instruction) (next : Nat) :
    (machine.retire instruction next).status =
      (machine.core.pass instruction next).statusAfter machine.pacing := by
  have hLast : (machine.core.pass instruction next).last = some instruction := rfl
  simp only [retire, Core.statusAfter, Core.pauseShown?, hLast, Option.bind_some]
  cases hPause : machine.pacing.pauseAfter instruction with
  | none => exact hRunning
  | some pause =>
    by_cases hBreak : instruction = .breakpoint
    · simp [suspend, snapshot, hBreak, Core.shown, Core.pass, core]
    · simp [suspend, snapshot, hBreak, Core.shown, Core.pass, core]

/-- Completing an instruction leaves the pacing alone. -/
@[simp]
theorem pacing_retire (machine : Machine) (instruction : Instruction) (next : Nat) :
    (machine.retire instruction next).pacing = machine.pacing := by
  unfold retire
  dsimp only
  split <;> rfl

/-- Performing an instruction leaves the pacing alone. -/
theorem pacing_of_done {machine performed : Machine} {instruction : Instruction} {next : Nat}
    (h : machine.perform instruction = .done performed next) :
    performed.pacing = machine.pacing := by
  cases instruction <;> simp only [perform, openLoop, closeLoop] at h <;>
    (repeat' split at h) <;>
    first
    | contradiction
    | (injection h with hPerformed
       subst hPerformed
       rfl)

/-- No step changes the pacing. -/
@[simp]
theorem pacing_step (machine : Machine) : machine.step.pacing = machine.pacing := by
  unfold step
  cases hHere : machine.program.instruction? machine.position with
  | none => rfl
  | some instruction =>
    dsimp only
    cases hPerform : { machine with executed := machine.executed + 1 }.perform instruction with
    | done performed next =>
      have hPacing := pacing_of_done hPerform
      rw [pacing_retire, hPacing]
    | waits begun =>
      obtain ⟨-, rfl⟩ := perform_eq_waits hPerform
      rfl
    | fails begun fault =>
      have hBegun := perform_eq_fails hPerform
      subst hBegun
      rfl

/-- A step at which the core moves on ends with the completion of an instruction. -/
theorem step_eq_retire {machine : Machine} (hRunning : machine.status = .running) {next : Core}
    (hTurn : machine.core.turn = .moves next) :
    ∃ (performed : Machine) (instruction : Instruction) (position : Nat),
      machine.step = performed.retire instruction position ∧
      performed.status = .running ∧ performed.pacing = machine.pacing := by
  cases hHere : machine.program.instruction? machine.position with
  | none =>
    have hEnds : machine.core.turn = .ends := by simp [Core.turn, core, hHere]
    rw [hEnds] at hTurn
    contradiction
  | some instruction =>
    have hShows := perform_shows { machine with executed := machine.executed + 1 } instruction
    have hEffect : { machine with executed := machine.executed + 1 }.core.effect instruction =
        .moves next := (Core.turn_eq_effect hHere).symm.trans hTurn
    rw [hEffect] at hShows
    rw [step, hHere]
    dsimp only
    cases hPerform : { machine with executed := machine.executed + 1 }.perform instruction with
    | done performed position =>
      rw [hPerform] at hShows
      have hPacing := pacing_of_done hPerform
      exact ⟨performed, instruction, position, rfl, hShows.2.trans hRunning, hPacing⟩
    | waits begun =>
      rw [hPerform] at hShows
      exact absurd hShows.1 (by simp)
    | fails begun fault =>
      rw [hPerform] at hShows
      exact absurd hShows.1 (by simp)

/-- An instruction that is completed by a step leaves the status its core tells. -/
theorem status_step {machine : Machine} (hRunning : machine.status = .running) {next : Core}
    (hTurn : machine.core.turn = .moves next) :
    machine.step.core = next ∧ machine.step.status = next.statusAfter machine.pacing := by
  have hStepped := step_stepped hRunning
  rw [hTurn] at hStepped
  obtain ⟨rfl, -⟩ := hStepped
  obtain ⟨performed, instruction, position, hStep, hStatus, hPacing⟩ :=
    step_eq_retire hRunning hTurn
  refine ⟨rfl, ?_⟩
  rw [hStep, core_retire, ← hPacing]
  exact status_retire hStatus instruction position

/-- A line that is asked for is stored and completes the request. -/
theorem enter_eq_retire {machine : Machine} (line : String)
    (hStatus : machine.status = .awaitingInput) :
    machine.enter line =
      { machine with
        tape := machine.tape.write (byteOfLine line)
        status := .running }.retire .input (machine.position + 1) := by
  simp [enter, hStatus]

/-- A line that is asked for leaves the status its core tells. -/
theorem status_enter {machine : Machine} (line : String)
    (hStatus : machine.status = .awaitingInput) :
    (machine.enter line).status = (machine.enter line).core.statusAfter machine.pacing := by
  rw [enter_eq_retire line hStatus, core_retire]
  exact status_retire rfl _ _

/-- No line changes the pacing. -/
@[simp]
theorem pacing_enter (machine : Machine) (line : String) :
    (machine.enter line).pacing = machine.pacing := by
  unfold enter
  split
  · exact pacing_retire _ _ _
  · rfl

/-- Ending a pause leaves the pacing alone. -/
@[simp]
theorem pacing_resume (machine : Machine) : machine.resume.pacing = machine.pacing := by
  unfold resume
  split <;> rfl

end Machine

end ByteTape
