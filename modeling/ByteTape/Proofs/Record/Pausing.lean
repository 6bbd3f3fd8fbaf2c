import ByteTape.Proofs.Core.Progress
import ByteTape.Proofs.Core.StatusTruth
import ByteTape.Proofs.Record.Chronicle

/-!
# Pauses are exact

An attended run pauses once after each completed instruction that its pacing pauses after, in the
order in which they are completed, and at no other time: what an attendant hears of pauses, together
with a pause that waits to be heard, is that list of instructions. And whatever was called, a pause
shows the machine as it is; it asks for an acknowledgment at a breakpoint or when the run is stepped,
and it stays until it is ended or the run is cancelled.
-/

namespace ByteTape

/-- The inspection of an event that tells a pause. -/
def Event.inspection? : Event → Option Inspection
  | .paused inspection => some inspection
  | _ => none

/-- The instructions that the pauses among some events show, oldest first. -/
def Event.pausedAfter (events : List Event) : List (Option Instruction) :=
  (events.filterMap Event.inspection?).map Inspection.instruction

namespace Event

/-- Pauses are told one after another. -/
@[simp]
theorem pausedAfter_append (events later : List Event) :
    pausedAfter (events ++ later) = pausedAfter events ++ pausedAfter later := by
  simp [pausedAfter]

end Event

/-- Every pause asks for an acknowledgment at a breakpoint or when the run is stepped, and lasts as
long as the pacing says. -/
theorem Pacing.of_pauseAfter_eq_some {pacing : Pacing} {instruction : Instruction} {pause : Pause}
    (h : pacing.pauseAfter instruction = some pause) :
    (pause.acknowledge = true ↔ instruction = .breakpoint ∨ pacing.step = true) ∧
      pause.delay = pacing.delay := by
  unfold pauseAfter at h
  split at h
  · rename_i hBreak
    injection h with hPause
    subst hPause
    simp [hBreak]
  · rename_i hBreak
    split at h
    · injection h with hPause
      subst hPause
      simp [hBreak]
    · contradiction

namespace Core

/-- Past an instruction, what is told is its pause, if the pacing pauses after it. -/
theorem pausedAfter_tidings_pass (core : Core) (instruction : Instruction) (next : Nat)
    (pacing : Pacing) :
    Event.pausedAfter ((core.pass instruction next).tidings pacing) =
      ([instruction].filter pacing.pausesAfter).map some := by
  have hSome := Pacing.isSome_pauseAfter pacing instruction
  have hLast : (core.pass instruction next).last = some instruction := rfl
  cases hPause : pacing.pauseAfter instruction with
  | none =>
    have hShown : (core.pass instruction next).pauseShown? pacing = none := by
      simp [pauseShown?, hLast, hPause]
    rw [hPause] at hSome
    rw [tidings, statusAfter, hShown, List.filter_cons_of_neg (by simp [← hSome])]
    rfl
  | some pause =>
    have hShown : (core.pass instruction next).pauseShown? pacing =
        some ((core.pass instruction next).shown pause) := by
      simp [pauseShown?, hLast, hPause]
    rw [hPause] at hSome
    rw [tidings, statusAfter, hShown, List.filter_cons_of_pos (by simp [← hSome])]
    rfl

end Core

namespace Machine

/-- A step of a running machine leaves exactly the pause after the instruction it completes. -/
theorem Performed.pausedAfter {machine after : Machine} {more : List Instruction}
    (h : machine.Performed after more) (hRunning : machine.status = .running) :
    Event.pausedAfter after.status.pending =
      (more.filter machine.pacing.pausesAfter).map some := by
  cases h with
  | ended hEnd =>
    rw [hRunning]
    rfl
  | @completed performed instruction next hStatus hPacing hExecuted hJournal =>
    have hAfter := status_retire (hStatus.trans hRunning) instruction next
    rw [hAfter, hPacing]
    exact Core.pausedAfter_tidings_pass performed.core instruction next machine.pacing
  | waits => rfl
  | fails fault hCause => rfl

/-- A step changes no pacing. -/
theorem Performed.pacing_eq {machine after : Machine} {more : List Instruction}
    (h : machine.Performed after more) : after.pacing = machine.pacing := by
  cases h with
  | @completed performed instruction next hStatus hPacing hExecuted hJournal =>
    rw [pacing_retire, hPacing]
  | _ => rfl

/-- Running adds the pauses after the instructions it completes to what is told, and no others. -/
theorem pausedAfter_execute {machine : Machine} {done : List Instruction} {heard : List Event}
    (h : Event.pausedAfter (heard ++ machine.status.pending) =
      (done.filter machine.pacing.pausesAfter).map some) (cycles : Nat) :
    Event.pausedAfter (heard ++ (machine.execute cycles).2.status.pending) =
      ((done ++ machine.completedInCycles cycles).filter machine.pacing.pausesAfter).map some := by
  have hRecord := execute_record
    (P := fun after done => after.pacing = machine.pacing ∧
      Event.pausedAfter (heard ++ after.status.pending) =
        (done.filter machine.pacing.pausesAfter).map some) ?_ ?_ ⟨rfl, h⟩ cycles
  · exact hRecord.2
  · intro after done hAfter hRunning
    obtain ⟨hPacing, hTold⟩ := hAfter
    rw [hRunning] at hTold
    exact ⟨hPacing, hTold⟩
  · intro after done next more hAfter hRunning hPerformed
    obtain ⟨hPacing, hTold⟩ := hAfter
    have hMore := hPerformed.pausedAfter hRunning
    have hNone : after.status.pending = [] := by rw [hRunning]; rfl
    rw [hNone, List.append_nil] at hTold
    rw [hPacing] at hMore
    refine ⟨hPerformed.pacing_eq.trans hPacing, ?_⟩
    rw [Event.pausedAfter_append, hTold, hMore, List.filter_append, List.map_append]

/-- A line that is asked for leaves exactly the pause after the request. -/
theorem pausedAfter_enter {machine : Machine} (line : String)
    (hStatus : machine.status = .awaitingInput) :
    Event.pausedAfter (machine.enter line).status.pending =
      ([.input].filter machine.pacing.pausesAfter).map some := by
  have hEntered := status_enter line hStatus
  rw [hEntered, enter_eq_retire line hStatus, core_retire]
  exact Core.pausedAfter_tidings_pass _ .input _ machine.pacing

end Machine

namespace Attendance

open Machine

/-- The calls with which an attendant responds to an event. -/
def response (answer : Nat → String) (requests : Nat) : Event → List Call
  | .inputRequested => [.enter (answer requests)]
  | .paused _ => [.resume]
  | _ => []

/-- The calls made on a machine in a number of slices. -/
def callsMade (answer : Nat → String) (budget : Nat → Nat) (machine : Machine) :
    (slices : Nat) → List Call
  | 0 => []
  | slices + 1 =>
    callsMade answer budget machine slices ++
      .execute (budget slices) ::
        response answer (afterSlices answer budget machine slices).requests
          (afterSlices answer budget machine (slices + 1)).event

/-- The response to an event is made by these calls. -/
theorem machine_respond (attendance : Attendance) (attendant : Attendant) (event : Event)
    (machine : Machine) :
    (attendance.respond attendant event machine).machine =
      machine.afterCalls (response attendant.answer attendance.requests event) := by
  cases event <;> rfl

/-- An attended machine is one on which these calls are made. -/
theorem machine_afterSlices (answer : Nat → String) (budget : Nat → Nat) (machine : Machine)
    (slices : Nat) :
    (afterSlices answer budget machine slices).machine =
      machine.afterCalls (callsMade answer budget machine slices) := by
  induction slices with
  | zero => rfl
  | succ slices ih =>
    rw [callsMade, afterSlices_succ, event_respond, machine_respond, ih]
    rw [afterCalls, afterCalls, afterCalls, List.foldl_append]
    rfl

/-- The response to an event tells the pause that waited, and leaves the pause after the request it
answers. -/
theorem pausedAfter_respond (attendance : Attendance) (attendant : Attendant) (machine : Machine)
    (heard : List Event) :
    let after := (attendance.respond attendant machine.event machine).machine
    let calls := response attendant.answer attendance.requests machine.event
    Event.pausedAfter (heard ++ machine.event.suspension ++ after.status.pending) =
      Event.pausedAfter (heard ++ machine.status.pending) ++
        ((machine.completed calls).filter machine.pacing.pausesAfter).map some := by
  intro after calls
  cases hStatus : machine.status with
  | paused inspection =>
    have hEvent : machine.event = .paused inspection := by simp [Machine.event, hStatus]
    have hResumed : machine.resume.status = .running := by simp [resume, hStatus]
    have hAfter : after = machine.resume := by simp only [after, hEvent, respond]
    have hNone : machine.completed calls = [] := by simp [calls, hEvent, response, completed,
      completedBy]
    rw [hNone, hAfter, hResumed, hEvent]
    simp [Status.pending, Event.suspension]
  | awaitingInput =>
    have hEvent : machine.event = .inputRequested := by simp [Machine.event, hStatus]
    have hAfter : after = machine.enter (attendant.answer attendance.requests) := by
      simp only [after, hEvent, respond]
    have hInput : machine.completed calls = [.input] := by
      simp [calls, hEvent, response, completed, completedBy, hStatus]
    have hEntered := pausedAfter_enter (attendant.answer attendance.requests) hStatus
    have hAsked : Event.pausedAfter machine.event.suspension = [] := by
      rw [hEvent]
      rfl
    have hPending : Status.awaitingInput.pending = [] := rfl
    rw [hInput, ← hEntered, hAfter, hPending, List.append_nil, Event.pausedAfter_append,
      Event.pausedAfter_append, hAsked, List.append_nil]
  | _ =>
    have hSilent : machine.event.suspension = [] := by
      simp [Event.suspension, Machine.event, hStatus]
    have hMachine := (respond_of_silent attendance attendant machine hSilent).1
    have hNone : machine.completed calls = [] := by
      simp [calls, Machine.event, hStatus, response, completed]
    rw [show after = machine from hMachine, hSilent, hNone, hStatus]
    simp

/-- What is heard of pauses, and a pause that waits to be heard, is the list of the completed
instructions that are paused after. -/
theorem pausedAfter_heard (answer : Nat → String) (budget : Nat → Nat) (machine : Machine)
    (hFresh : machine.status = .running) (slices : Nat) :
    Event.pausedAfter (heard answer budget machine slices ++
        (afterSlices answer budget machine slices).machine.status.pending) =
      ((machine.completed (callsMade answer budget machine slices)).filter
        machine.pacing.pausesAfter).map some := by
  induction slices with
  | zero =>
    rw [heard, afterSlices, begin, hFresh]
    rfl
  | succ slices ih =>
    have hMachine := machine_afterSlices answer budget machine slices
    have hPacing := pacing_afterCalls machine (callsMade answer budget machine slices)
    rw [hMachine, ← hPacing] at ih
    have hRan := pausedAfter_execute ih (budget slices)
    rw [heard, callsMade, completed_append, afterSlices_succ, event_respond, hMachine,
      pausedAfter_respond, hRan, completed, completedBy, pacing_execute, hPacing]
    simp only [List.filter_append, List.map_append, List.append_assoc]
    rfl

end Attendance

namespace Machine

/-- A pause shows the machine as it is, and how it ends is told by the instruction and the pacing. -/
theorem Truthful.shown_of_paused {machine : Machine} (h : machine.Truthful)
    {inspection : Inspection} (hPaused : machine.status = .paused inspection) :
    inspection.stack = machine.stack ∧ inspection.tape = machine.tape ∧
      inspection.instruction = machine.last ∧
      inspection.output = (if machine.last = some .breakpoint then some machine.output else none) ∧
      (inspection.pause.acknowledge = true ↔
        machine.last = some .breakpoint ∨ machine.pacing.step = true) ∧
      inspection.pause.delay = machine.pacing.delay := by
  have hShown := h.paused inspection hPaused
  rw [Core.pauseShown?, Option.map_eq_some_iff] at hShown
  obtain ⟨pause, hPause, rfl⟩ := hShown
  rw [Option.bind_eq_some_iff] at hPause
  obtain ⟨instruction, hLast, hAfter⟩ := hPause
  obtain ⟨hAcknowledge, hDelay⟩ := Pacing.of_pauseAfter_eq_some hAfter
  have hSame : machine.last = some instruction := hLast
  refine ⟨rfl, rfl, rfl, rfl, ?_, hDelay⟩
  rw [hSame, Option.some_inj]
  exact hAcknowledge

/-- A paused machine ignores slices and lines. -/
theorem ignores_of_paused {machine : Machine} {inspection : Inspection}
    (h : machine.status = .paused inspection) {call : Call} (hResume : call ≠ .resume)
    (hInterrupt : call ≠ .interrupt) : machine.Ignores call := by
  cases call with
  | execute cycles => simp [Ignores, h]
  | enter line => simp [Ignores, h]
  | resume => contradiction
  | interrupt => contradiction

end Machine

namespace Attendance

open Machine

/-- Pauses are exact. The pauses of an attended run, the one that waits to be heard included, follow
one by one the completed instructions that are breakpoints, or that have an effect when the run is
stepped or delayed. Whatever was called, a pause shows the stack, the tape and the instruction
completed last; all of the output at a breakpoint and none of it elsewhere; it wants to be
acknowledged exactly at a breakpoint or when the run is stepped, and lasts as long as the pacing says.
Until it is ended or the run is cancelled, every slice tells it again and every line changes
nothing. -/
theorem pauses_exact (source : String) (pacing : Pacing) :
    let fresh := ofSource source pacing
    (∀ (answer : Nat → String) (budget : Nat → Nat) (slices : Nat),
      let attended := (afterSlices answer budget fresh slices).machine
      let done := fresh.completed (callsMade answer budget fresh slices)
      attended = fresh.afterCalls (callsMade answer budget fresh slices) ∧
        ((heard answer budget fresh slices ++ attended.status.pending).filterMap
            Event.inspection?).map Inspection.instruction =
          (done.filter fun instruction =>
            instruction = .breakpoint ||
              (instruction.isEffectful && (pacing.step || pacing.delay != Delay.none))).map some) ∧
      ∀ calls inspection,
        let machine := fresh.afterCalls calls
        machine.status = .paused inspection →
        inspection.stack = machine.stack ∧ inspection.tape.cells = machine.tape.cells ∧
          inspection.tape.address = machine.tape.address ∧
          inspection.instruction = (fresh.completed calls).getLast? ∧
          inspection.output =
            (if inspection.instruction = some .breakpoint then some machine.output else none) ∧
          (inspection.pause.acknowledge = true ↔
            inspection.instruction = some .breakpoint ∨ pacing.step = true) ∧
          inspection.pause.delay = pacing.delay ∧
          ∀ later, .resume ∉ later → .interrupt ∉ later →
            (machine.afterCalls later).forgetJournal = machine.forgetJournal ∧
              ∀ cycles, ((machine.afterCalls later).execute cycles).1 = .paused inspection := by
  intro fresh
  refine ⟨?_, ?_⟩
  · intro answer budget slices attended done
    exact ⟨machine_afterSlices answer budget fresh slices,
      pausedAfter_heard answer budget fresh rfl slices⟩
  · intro calls inspection machine hPaused
    have hTruthful : machine.Truthful := truthful_afterCalls (Program.ofString source) pacing calls
    have hChronicles := chronicles_afterCalls (Program.ofString source) pacing calls
    have hLast : machine.last = (fresh.completed calls).getLast? := hChronicles.last_eq
    have hPacing : machine.pacing = pacing := pacing_afterCalls fresh calls
    obtain ⟨hStack, hTape, hInstruction, hOutput, hAcknowledge, hDelay⟩ :=
      hTruthful.shown_of_paused hPaused
    rw [← hInstruction] at hOutput hAcknowledge
    rw [hPacing] at hAcknowledge hDelay
    refine ⟨hStack, congrArg Tape.cells hTape, congrArg Tape.address hTape,
      hInstruction.trans hLast, hOutput, hAcknowledge, hDelay, ?_⟩
    intro later hResume hInterrupt
    have hIgnores : ∀ call ∈ later, machine.Ignores call := by
      intro call hCall
      exact ignores_of_paused hPaused (fun hSame => hResume (hSame ▸ hCall))
        (fun hSame => hInterrupt (hSame ▸ hCall))
    have hLater := afterCalls_of_ignores hIgnores
    refine ⟨?_, ?_⟩
    · rw [hLater]
      rfl
    · intro cycles
      have hStill : (machine.afterCalls later).status = .paused inspection := by
        rw [hLater]
        exact hPaused
      rw [execute_of_status_ne_running (by simp [hStill]), Machine.event, hStill]

/-- A stepped run of a comment, a request and a breakpoint pauses twice. At the breakpoint all of the
output is shown, and neither a slice nor a line ends the pause. -/
theorem pauses_exact_stepped :
    ((heard (fun _ => "A") (fun _ => 2) (ofSource "c,^" ⟨true, Delay.none⟩) 6 ++
        (afterSlices (fun _ => "A") (fun _ => 2) (ofSource "c,^" ⟨true, Delay.none⟩)
          6).machine.status.pending).filterMap Event.inspection?).map Inspection.instruction =
        [some .input, some .breakpoint] ∧
      ((((ofSource ".^" .plain).afterCalls [.execute 9]).afterCalls
        [.execute 0, .enter "B"]).execute 7).1 =
        .paused ⟨some .breakpoint, LoopStack.empty, Tape.blank, some "\x00",
          ⟨true, Delay.none⟩⟩ := by
  have hDone : ((ofSource "c,^" ⟨true, Delay.none⟩).completed
      (callsMade (fun _ => "A") (fun _ => 2) (ofSource "c,^" ⟨true, Delay.none⟩) 6)) =
        [.comment 'c', .input, .breakpoint] := by decide +kernel
  have hPaused : ((ofSource ".^" .plain).afterCalls [.execute 9]).status =
      .paused ⟨some .breakpoint, LoopStack.empty, Tape.blank, some "\x00",
        ⟨true, Delay.none⟩⟩ := by decide +kernel
  have hRun := ((pauses_exact "c,^" ⟨true, Delay.none⟩).1 (fun _ => "A") (fun _ => 2) 6).2
  have hShown := (pauses_exact ".^" .plain).2 [.execute 9] _ hPaused
  refine ⟨?_, ?_⟩
  · rw [hRun, hDone]
    decide
  · exact (hShown.2.2.2.2.2.2.2 [.execute 0, .enter "B"] (by decide) (by decide)).2 7

end Attendance

end ByteTape
