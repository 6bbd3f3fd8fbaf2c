import ByteTape.Proofs.Core.Renumber
import ByteTape.Proofs.Core.StatusTruth
import ByteTape.Proofs.Record.Completion

/-!
# Machines at other addresses

A machine is displaced when its program is copied to addresses further on, and position, stack and
status with it. A displaced machine does what the machine does: it stands still when the machine does,
tells the same events at the other addresses, and takes the same lines. So a machine and its displaced
copy are attended in lockstep, slice by slice, whatever the budgets and answers.
-/

namespace ByteTape

/-- The status with all positions at other addresses. -/
def Status.renumber (place : Nat → Nat) : Status → Status
  | .paused inspection => .paused (inspection.renumber place)
  | .faulted fault => .faulted (fault.renumber place)
  | status => status

/-- A displaced status goes on exactly if the status does. -/
theorem Status.renumber_eq_running_iff (place : Nat → Nat) (status : Status) :
    status.renumber place = .running ↔ status = .running := by
  cases status <;> simp [renumber]

/-- A displaced event suspends a run exactly if the event does. -/
theorem Event.suspension_renumber (place : Nat → Nat) (event : Event) :
    (event.renumber place).suspension = event.suspension.map (Event.renumber place) := by
  cases event <;> rfl

/-- Corresponding cores past the same instruction leave corresponding statuses. -/
theorem Core.Corresponds.statusAfter {core other : Core} {place : Nat → Nat}
    (h : core.Corresponds place other) (hLast : other.last = core.last) (pacing : Pacing) :
    other.statusAfter pacing = (core.statusAfter pacing).renumber place := by
  have hShown : ∀ pause, other.shown pause = (core.shown pause).renumber place := by
    intro pause
    simp only [shown, Inspection.renumber, hLast, h.stack_eq, h.tape_eq, h.output_eq]
  simp only [Core.statusAfter, pauseShown?, hLast]
  cases core.last.bind pacing.pauseAfter with
  | none => rfl
  | some pause =>
    simp only [Option.map_some, hShown]
    rfl

namespace Machine

variable {machine other : Machine} {distance : Nat}

/-- A machine whose program is copied to addresses further on, with position, stack and status. The
instruction completed last and the number of instructions begun are left open. -/
structure Displaced (machine : Machine) (distance : Nat) (other : Machine) : Prop where
  /-- The whole program is copied. -/
  copied : ∀ address, machine.core.program.CopiedAt (· + distance) other.core.program address
  /-- The cores correspond. -/
  core : machine.core.Corresponds (· + distance) other.core
  /-- The pacings are the same. -/
  pacing_eq : other.pacing = machine.pacing
  /-- The statuses correspond. -/
  status_eq : other.status = machine.status.renumber (· + distance)

/-- A displaced machine tells the event at the other addresses. -/
theorem Displaced.event_eq (h : machine.Displaced distance other) :
    other.event = machine.event.renumber (· + distance) := by
  have hStatus := h.status_eq
  have hOutput : other.output = machine.output := h.core.output_eq
  cases hHere : machine.status <;> rw [hHere] at hStatus <;>
    simp [event, hHere, hStatus, Status.renumber, Event.renumber, hOutput]

/-- A displaced machine is at the end of its program exactly if the machine is. -/
theorem Displaced.size_le_position_iff (h : machine.Displaced distance other) :
    other.program.size ≤ other.position ↔ machine.program.size ≤ machine.position := by
  have hTurns := h.core.turn (h.copied _)
  have hHere := Core.turn_eq_ends_iff machine.core
  have hThere := Core.turn_eq_ends_iff other.core
  refine hThere.symm.trans (Iff.trans ?_ hHere)
  rcases Core.Corresponds.turn_cases hTurns with ⟨hTurn, hFound⟩ |
    ⟨next, found, hTurn, hFound, -, -⟩ | ⟨hTurn, hFound⟩ | ⟨fault, hTurn, hFound⟩ <;>
    simp [hTurn, hFound]

/-- A displaced machine settles as the machine does. -/
theorem Displaced.settle (h : machine.Displaced distance other) :
    machine.settle.Displaced distance other.settle := by
  have hRunning := Status.renumber_eq_running_iff (· + distance) machine.status
  rw [← h.status_eq] at hRunning
  by_cases hStatus : machine.status = .running
  · by_cases hEnd : machine.program.size ≤ machine.position
    · rw [settle_of_le machine hStatus hEnd,
        settle_of_le other (hRunning.2 hStatus) (h.size_le_position_iff.2 hEnd)]
      exact ⟨h.copied, h.core, h.pacing_eq, rfl⟩
    · rw [settle_of_lt machine (Nat.lt_of_not_le hEnd),
        settle_of_lt other (Nat.lt_of_not_le (mt h.size_le_position_iff.1 hEnd))]
      exact h
  · rw [settle_of_status_ne_running machine hStatus,
      settle_of_status_ne_running other (mt hRunning.1 hStatus)]
    exact h

/-- A displaced machine steps as the machine does. -/
theorem Displaced.step (h : machine.Displaced distance other) (hRunning : machine.status = .running) :
    machine.step.Displaced distance other.step := by
  have hOther : other.status = .running := by
    rw [h.status_eq, Status.renumber_eq_running_iff]
    exact hRunning
  have hPacing : other.step.pacing = machine.step.pacing := by
    rw [pacing_step, pacing_step]
    exact h.pacing_eq
  have hHere := step_stepped hRunning
  have hThere := step_stepped hOther
  rcases Core.Corresponds.turn_cases (h.core.turn (h.copied _)) with ⟨hTurn, hFound⟩ |
    ⟨next, found, hTurn, hFound, hNext, hLast⟩ | ⟨hTurn, hFound⟩ | ⟨fault, hTurn, hFound⟩
  · rw [hTurn] at hHere
    rw [hFound] at hThere
    rw [show machine.step = machine from hHere, show other.step = other from hThere]
    exact h
  · obtain ⟨hCore, hStatus⟩ := status_step hRunning hTurn
    obtain ⟨hCore', hStatus'⟩ := status_step hOther hFound
    refine ⟨?_, ?_, hPacing, ?_⟩
    · rw [hCore, hCore', (Core.frame_of_moves hTurn).1, (Core.frame_of_moves hFound).1]
      exact h.copied
    · rw [hCore, hCore']
      exact hNext
    · rw [hStatus, hStatus', h.pacing_eq]
      exact hNext.statusAfter hLast machine.pacing
  · rw [hTurn] at hHere
    rw [hFound] at hThere
    refine ⟨?_, ?_, hPacing, ?_⟩
    · rw [hHere.1, hThere.1]
      exact h.copied
    · rw [hHere.1, hThere.1]
      exact h.core.begun
    · rw [hHere.2, hThere.2]
      rfl
  · rw [hTurn] at hHere
    rw [hFound] at hThere
    refine ⟨?_, ?_, hPacing, ?_⟩
    · rw [hHere.1, hThere.1]
      exact h.copied
    · rw [hHere.1, hThere.1]
      exact h.core.begun
    · rw [hHere.2, hThere.2]
      rfl

/-- Machines that settle into displaced ones run as displaced ones. -/
theorem Displaced.execute (h : machine.settle.Displaced distance other.settle) (cycles : Nat) :
    (machine.execute cycles).2.Displaced distance (other.execute cycles).2 := by
  induction cycles generalizing machine other with
  | zero => exact h
  | succ cycles ih =>
    have hRunning := Status.renumber_eq_running_iff (· + distance) machine.settle.status
    rw [← h.status_eq] at hRunning
    by_cases hStatus : machine.settle.status = .running
    · rw [Machine.execute, Machine.execute, hStatus, hRunning.2 hStatus]
      exact ih (h.step hStatus).settle
    · have hHere := execute_of_status_ne_running hStatus (cycles + 1)
      have hThere := execute_of_status_ne_running (mt hRunning.1 hStatus) (cycles + 1)
      rw [execute_settle] at hHere hThere
      rw [hHere, hThere]
      exact h

/-- A displaced machine is resumed as the machine is. -/
theorem Displaced.resume (h : machine.Displaced distance other) :
    machine.resume.Displaced distance other.resume := by
  have hStatus := h.status_eq
  cases hHere : machine.status with
  | paused inspection =>
    rw [hHere] at hStatus
    have hResumed : machine.resume = { machine with status := .running } := by
      simp [Machine.resume, hHere]
    have hOther : other.resume = { other with status := .running } := by
      simp [Machine.resume, hStatus, Status.renumber]
    rw [hResumed, hOther]
    exact ⟨h.copied, h.core, h.pacing_eq, rfl⟩
  | _ =>
    rw [hHere] at hStatus
    rw [resume_of_not_paused machine (by simp [hHere]),
      resume_of_not_paused other (by simp [hStatus, Status.renumber])]
    exact h

/-- A line is entered into a displaced machine as into the machine, asked for or not. -/
theorem Displaced.enter (h : machine.Displaced distance other) (line : String) :
    (machine.enter line).Displaced distance (other.enter line) := by
  have hAwaiting : other.status = .awaitingInput ↔ machine.status = .awaitingInput := by
    rw [h.status_eq]
    cases machine.status <;> simp [Status.renumber]
  by_cases hStatus : machine.status = .awaitingInput
  · have hOther := hAwaiting.2 hStatus
    have hWritten : ({ machine.core with tape := machine.tape.write (byteOfLine line) }.pass .input
        (machine.position + 1)).Corresponds (· + distance)
        ({ other.core with tape := other.tape.write (byteOfLine line) }.pass .input
          (other.position + 1)) := by
      refine ⟨?_, h.core.stack_eq, h.core.output_eq, ?_⟩
      · exact congrArg (fun tape : Tape => tape.write (byteOfLine line)) h.core.tape_eq
      · exact (congrArg Nat.succ h.core.position_eq).trans (Nat.succ_add _ _).symm
    have hHere : (machine.enter line).core = { machine.core with
        tape := machine.tape.write (byteOfLine line) }.pass .input (machine.position + 1) := by
      rw [enter_eq_retire line hStatus, core_retire]
      rfl
    have hThere : (other.enter line).core = { other.core with
        tape := other.tape.write (byteOfLine line) }.pass .input (other.position + 1) := by
      rw [enter_eq_retire line hOther, core_retire]
      rfl
    refine ⟨?_, ?_, ?_, ?_⟩
    · rw [hHere, hThere]
      exact h.copied
    · rw [hHere, hThere]
      exact hWritten
    · rw [pacing_enter, pacing_enter]
      exact h.pacing_eq
    · rw [status_enter line hStatus, status_enter line hOther, hHere, hThere, h.pacing_eq]
      exact hWritten.statusAfter rfl machine.pacing
  · obtain ⟨hHere, hSame⟩ := enter_of_not_awaiting line hStatus
    obtain ⟨hThere, hSame'⟩ := enter_of_not_awaiting line (mt hAwaiting.1 hStatus)
    refine ⟨?_, ?_, ?_, ?_⟩
    · rw [hHere, hThere]
      exact h.copied
    · rw [hHere, hThere]
      exact h.core
    · rw [pacing_enter, pacing_enter]
      exact h.pacing_eq
    · rw [hSame, hSame']
      exact h.status_eq

end Machine

namespace Attendance

open Machine

variable {attendance other : Attendance} {distance : Nat}

/-- Two attended runs of which one is a displaced copy of the other. -/
structure Displaced (attendance : Attendance) (distance : Nat) (other : Attendance) : Prop where
  /-- The machines settle into displaced ones. -/
  machine : attendance.machine.settle.Displaced distance other.machine.settle
  /-- The last events correspond. -/
  event_eq : other.event = attendance.event.renumber (· + distance)
  /-- Equally many requests are answered. -/
  requests_eq : other.requests = attendance.requests

/-- An event is responded to alike at other addresses. -/
theorem Displaced.respond (h : attendance.Displaced distance other) (attendant : Attendant)
    {machine copy : Machine} (hMachine : machine.Displaced distance copy) :
    (attendance.respond attendant machine.event machine).Displaced distance
      (other.respond attendant copy.event copy) := by
  rw [hMachine.event_eq]
  cases hEvent : machine.event with
  | inputRequested =>
    have hEntered : (machine.enter (attendant.answer attendance.requests)).Displaced distance
        (copy.enter (attendant.answer other.requests)) := by
      rw [h.requests_eq]
      exact hMachine.enter _
    exact ⟨hEntered.settle, rfl, congrArg Nat.succ h.requests_eq⟩
  | paused inspection => exact ⟨hMachine.resume.settle, rfl, h.requests_eq⟩
  | _ => exact ⟨hMachine.settle, rfl, h.requests_eq⟩

/-- A slice is attended alike at other addresses. -/
theorem Displaced.slice (h : attendance.Displaced distance other) (attendant : Attendant) :
    (attendance.slice attendant).Displaced distance (other.slice attendant) := by
  have hRan := h.machine.execute attendant.cycles
  have hResponse := h.respond attendant hRan
  rw [← execute_fst, ← execute_fst] at hResponse
  exact hResponse

/-- Machines that settle into displaced ones are attended in lockstep, and what is heard from them
corresponds. -/
theorem displaced_afterSlices {machine copy : Machine}
    (h : machine.settle.Displaced distance copy.settle) (answer : Nat → String)
    (budget : Nat → Nat) (slices : Nat) :
    (afterSlices answer budget machine slices).Displaced distance
        (afterSlices answer budget copy slices) ∧
      heard answer budget copy slices =
        (heard answer budget machine slices).map (Event.renumber (· + distance)) := by
  induction slices with
  | zero => exact ⟨⟨h, rfl, rfl⟩, rfl⟩
  | succ slices ih =>
    have hSlice := ih.1.slice ⟨answer, budget slices, 1⟩
    have hEvent : (afterSlices answer budget copy (slices + 1)).event =
        (afterSlices answer budget machine (slices + 1)).event.renumber (· + distance) :=
      hSlice.event_eq
    refine ⟨hSlice, ?_⟩
    rw [heard, heard, ih.2, hEvent, Event.suspension_renumber, List.map_append]

end Attendance

end ByteTape
