import ByteTape.Proofs.Core.Attended
import ByteTape.Proofs.Core.Pauses
import Mathlib.Data.Nat.Init

/-!
# What an attended run tells

With an answer to every request, a run takes one turn after the other, and after every turn it is
known what has been told so far: the requests for a line and the pauses, in their order. An
attendant hears exactly that, slice by slice, at most one suspension in a slice; a pause that a line
has brought about is heard in the next slice. Whatever is told after some number of turns is heard
after some number of slices, so that budgets decide when something is heard and never what.
-/

namespace ByteTape

/-- The event, if it suspends a run that goes on afterwards. -/
def Event.suspension : Event → List Event
  | .inputRequested => [.inputRequested]
  | .paused inspection => [.paused inspection]
  | _ => []

/-- The suspension a status is going to tell without an instruction being begun. -/
def Status.pending : Status → List Event
  | .paused inspection => [.paused inspection]
  | _ => []

/-- What is told after the instruction completed last. -/
def Core.tidings (core : Core) (pacing : Pacing) : List Event :=
  (core.statusAfter pacing).pending

/-- How far a run has got. -/
structure Progress where
  /-- The core that is reached. -/
  core : Core
  /-- The number of answers taken. -/
  taken : Nat
  /-- The requests and pauses told on the way, oldest first. -/
  told : List Event

namespace Progress

/-- The progress of a run that has not begun. -/
def start (program : Program) : Progress :=
  ⟨Core.start program, 0, []⟩

/-- Take a turn, if there is one. -/
def next (progress : Progress) (pacing : Pacing) (answer : Nat → String) : Progress :=
  match progress.core.turn with
  | .moves core => ⟨core, progress.taken, progress.told ++ core.tidings pacing⟩
  | .asks =>
    let core := progress.core.answer (answer progress.taken)
    ⟨core, progress.taken + 1, progress.told ++ .inputRequested :: core.tidings pacing⟩
  | .ends => progress
  | .fails _ => progress

/-- The progress of a run of a program after a number of turns. -/
def after (pacing : Pacing) (answer : Nat → String) (program : Program) : (turns : Nat) → Progress
  | 0 => start program
  | turns + 1 => (after pacing answer program turns).next pacing answer

variable {progress : Progress} {pacing : Pacing} {answer : Nat → String} {program : Program}

/-- A completed instruction takes no answer and tells of its pause. -/
theorem next_of_moves {core : Core} (h : progress.core.turn = .moves core) :
    progress.next pacing answer =
      ⟨core, progress.taken, progress.told ++ core.tidings pacing⟩ := by
  simp [next, h]

/-- A request is told, takes the next answer, and is completed with its pause. -/
theorem next_of_asks (h : progress.core.turn = .asks) :
    progress.next pacing answer =
      ⟨progress.core.answer (answer progress.taken), progress.taken + 1,
        progress.told ++ .inputRequested ::
          (progress.core.answer (answer progress.taken)).tidings pacing⟩ := by
  simp [next, h]

/-- A run that cannot go on gets no further. -/
theorem next_of_stuck (h : progress.core.Stuck) : progress.next pacing answer = progress := by
  rcases h with hEnds | ⟨fault, hFails⟩
  · simp [next, hEnds]
  · simp [next, hFails]

/-- A turn adds to what was told. -/
theorem told_prefix_next : progress.told <+: (progress.next pacing answer).told := by
  unfold next
  split
  · exact List.prefix_append _ _
  · exact List.prefix_append _ _
  · exact List.prefix_refl _
  · exact List.prefix_refl _

/-- More turns add to what was told. -/
theorem told_prefix {turns later : Nat} (h : turns ≤ later) :
    (after pacing answer program turns).told <+: (after pacing answer program later).told := by
  induction later, h using Nat.le_induction with
  | base => exact List.prefix_refl _
  | succ later hLe ih => exact ih.trans told_prefix_next

/-- After it cannot go on, a run stays where it is. -/
theorem after_of_stuck {turns later : Nat} (h : (after pacing answer program turns).core.Stuck)
    (hLe : turns ≤ later) :
    after pacing answer program later = after pacing answer program turns := by
  induction later, hLe using Nat.le_induction with
  | base => rfl
  | succ later hLe ih =>
    rw [after, ih]
    exact next_of_stuck h

/-- A run cannot go on in one place only. -/
theorem after_unique {turns later : Nat} (h : (after pacing answer program turns).core.Stuck)
    (hLater : (after pacing answer program later).core.Stuck) :
    after pacing answer program turns = after pacing answer program later := by
  rcases Nat.le_total turns later with hLe | hLe
  · exact (after_of_stuck h hLe).symm
  · exact after_of_stuck hLater hLe

/-- A turn begins at most one instruction. -/
theorem executed_after_le (turns : Nat) :
    (after pacing answer program turns).core.executed ≤ turns := by
  induction turns with
  | zero => exact Nat.le_refl 0
  | succ turns ih =>
    rw [after]
    cases hTurn : (after pacing answer program turns).core.turn with
    | moves core =>
      have hCount := (Core.frame_of_moves hTurn).2
      rw [next_of_moves hTurn]
      dsimp only
      omega
    | asks =>
      rw [next_of_asks hTurn]
      exact Nat.succ_le_succ ih
    | ends =>
      rw [next_of_stuck (.inl hTurn)]
      exact Nat.le_succ_of_le ih
    | fails fault =>
      rw [next_of_stuck (.inr ⟨fault, hTurn⟩)]
      exact Nat.le_succ_of_le ih

/-- The turns are those of a run on the answers taken. -/
theorem runsOn_after (turns : Nat) :
    (Core.start program).RunsOn answer 0 (after pacing answer program turns).core
      (after pacing answer program turns).taken := by
  induction turns with
  | zero => exact .refl _ _
  | succ turns ih =>
    rw [after]
    cases hTurn : (after pacing answer program turns).core.turn with
    | moves core =>
      rw [next_of_moves hTurn]
      exact ih.trans (.of_moves hTurn _)
    | asks =>
      rw [next_of_asks hTurn]
      exact ih.trans (.of_asks hTurn _)
    | ends =>
      rw [next_of_stuck (.inl hTurn)]
      exact ih
    | fails fault =>
      rw [next_of_stuck (.inr ⟨fault, hTurn⟩)]
      exact ih

/-- No turn changes the program. -/
theorem program_after (turns : Nat) :
    (after pacing answer program turns).core.program = program := by
  have hRuns : (Core.start program).RunsOn answer 0 (after pacing answer program turns).core _ :=
    runsOn_after turns
  obtain ⟨count, -, hRun⟩ := hRuns
  exact hRun.program_eq

end Progress

namespace Machine

variable {machine : Machine} {pacing : Pacing} {answer : Nat → String} {program : Program}

/-- A run that is over is going to tell no suspension. -/
theorem Ended.pending_eq_nil (h : machine.Ended) : machine.status.pending = [] := by
  rcases h with hHalted | ⟨fault, hFaulted⟩
  · simp [Status.pending, hHalted]
  · simp [Status.pending, hFaulted]

/-- A machine stands where a run has got to: what was heard from it, and what its status is going to
tell, is what the run tells. -/
structure Recounts (machine : Machine) (progress : Progress) (pacing : Pacing)
    (heard : List Event) (requests : Nat) : Prop where
  /-- The pacing is that of the run. -/
  pacing_eq : machine.pacing = pacing
  /-- The machine presents the core that is reached. -/
  presents : machine.Presents progress.core
  /-- The requests answered are the answers taken. -/
  requests_eq : requests = progress.taken
  /-- What is told was heard or is going to be heard at once. -/
  told_eq : heard ++ machine.status.pending = progress.told

/-- A step goes on with the run and leaves its pause to be heard. -/
theorem Recounts.step {turns requests : Nat} {heard : List Event}
    (h : machine.Recounts (Progress.after pacing answer program turns) pacing heard requests)
    (hRunning : machine.status = .running) :
    ∃ turns, machine.step.Recounts (Progress.after pacing answer program turns) pacing heard
      requests := by
  have hCore := h.presents.of_live (.inl hRunning)
  have hHeard : heard = (Progress.after pacing answer program turns).told := by
    have hTold := h.told_eq
    rw [hRunning] at hTold
    exact (List.append_nil heard).symm.trans hTold
  have hPacing : machine.step.pacing = pacing := (pacing_step machine).trans h.pacing_eq
  have hStepped := step_stepped hRunning
  cases hTurn : machine.core.turn with
  | ends =>
    rw [hTurn] at hStepped
    rw [show machine.step = machine from hStepped]
    exact ⟨turns, h⟩
  | moves next =>
    obtain ⟨hNext, hStatus⟩ := status_step hRunning hTurn
    rw [hTurn] at hStepped
    have hProgress : Progress.after pacing answer program (turns + 1) =
        ⟨next, (Progress.after pacing answer program turns).taken,
          (Progress.after pacing answer program turns).told ++ next.tidings pacing⟩ :=
      Progress.next_of_moves (hCore ▸ hTurn)
    refine ⟨turns + 1, hPacing, ?_, ?_, ?_⟩
    · rw [hProgress, ← hNext]
      exact hStepped.2.presents
    · rw [hProgress]
      exact h.requests_eq
    · rw [hProgress, hHeard, hStatus, h.pacing_eq]
      rfl
  | asks =>
    rw [hTurn] at hStepped
    obtain ⟨hBegun, hStatus⟩ := hStepped
    refine ⟨turns, hPacing, ?_, h.requests_eq, ?_⟩
    · rw [Presents, hStatus]
      exact ⟨hCore ▸ hBegun, hCore ▸ hTurn⟩
    · rw [hHeard, hStatus]
      exact List.append_nil _
  | fails fault =>
    rw [hTurn] at hStepped
    obtain ⟨hBegun, hStatus⟩ := hStepped
    refine ⟨turns, hPacing, ?_, h.requests_eq, ?_⟩
    · rw [Presents, hStatus]
      exact ⟨hCore ▸ hBegun, hCore ▸ hTurn⟩
    · rw [hHeard, hStatus]
      exact List.append_nil _

/-- Running goes on with the run and leaves a pause to be heard. -/
theorem Recounts.execute {turns requests : Nat} {heard : List Event}
    (h : machine.Recounts (Progress.after pacing answer program turns) pacing heard requests)
    (cycles : Nat) :
    ∃ turns, (machine.execute cycles).2.Recounts (Progress.after pacing answer program turns)
      pacing heard requests := by
  refine execute_invariant (P := fun machine => ∃ turns, machine.Recounts
    (Progress.after pacing answer program turns) pacing heard requests) ?_ ?_ ⟨turns, h⟩ cycles
  · intro machine hMachine hRunning hEnd
    obtain ⟨turns, hMachine⟩ := hMachine
    have hCore := hMachine.presents.of_live (.inl hRunning)
    have hEnds := (Core.turn_eq_ends_iff machine.core).2 hEnd
    refine ⟨turns, hMachine.pacing_eq, ⟨hCore, hCore ▸ hEnds⟩, hMachine.requests_eq, ?_⟩
    have hTold := hMachine.told_eq
    rwa [hRunning] at hTold
  · intro machine hMachine hRunning hInside
    obtain ⟨turns, hMachine⟩ := hMachine
    exact hMachine.step hRunning

end Machine

namespace Attendance

open Machine

variable {pacing : Pacing} {answer : Nat → String} {budget : Nat → Nat} {program : Program}

/-- The suspensions heard in a number of slices, oldest first. -/
def heard (answer : Nat → String) (budget : Nat → Nat) (machine : Machine) :
    (slices : Nat) → List Event
  | 0 => []
  | slices + 1 =>
    heard answer budget machine slices ++
      (afterSlices answer budget machine (slices + 1)).event.suspension

/-- The event responded to is kept. -/
@[simp]
theorem event_respond (attendance : Attendance) (attendant : Attendant) (event : Event)
    (machine : Machine) : (attendance.respond attendant event machine).event = event := by
  cases event <;> rfl

/-- An event that suspends nothing is responded to by leaving the machine alone. -/
theorem respond_of_silent (attendance : Attendance) (attendant : Attendant) {event : Event}
    (machine : Machine) (h : event.suspension = []) :
    (attendance.respond attendant event machine).machine = machine ∧
      (attendance.respond attendant event machine).requests = attendance.requests := by
  cases event with
  | inputRequested => contradiction
  | paused inspection => contradiction
  | _ => exact ⟨rfl, rfl⟩

/-- A slice ends with the response to the event of its machine. -/
theorem afterSlices_succ (answer : Nat → String) (budget : Nat → Nat) (machine : Machine)
    (slices : Nat) :
    let before := afterSlices answer budget machine slices
    let ran := (before.machine.execute (budget slices)).2
    afterSlices answer budget machine (slices + 1) =
      before.respond ⟨answer, budget slices, 1⟩ ran.event ran := by
  intro before ran
  rw [← execute_fst]
  rfl

/-- The response to a machine that stands where a run has got to goes on with the run, and the event
it responds to is heard. -/
theorem respond_recounts {attendance : Attendance} (attendant : Attendant) {machine : Machine}
    {turns : Nat} {heard : List Event}
    (h : machine.Recounts (Progress.after pacing attendant.answer program turns) pacing heard
      attendance.requests) :
    ∃ turns, (attendance.respond attendant machine.event machine).machine.Recounts
      (Progress.after pacing attendant.answer program turns) pacing
      (heard ++ machine.event.suspension)
      (attendance.respond attendant machine.event machine).requests := by
  have hTold := h.told_eq
  cases hStatus : machine.status with
  | paused inspection =>
    have hEvent : machine.event = .paused inspection := by simp [Machine.event, hStatus]
    have hResumed : machine.resume.status = .running := by simp [resume, hStatus]
    rw [hStatus] at hTold
    rw [hEvent]
    refine ⟨turns, (pacing_resume machine).trans h.pacing_eq, resume_presents h.presents,
      h.requests_eq, ?_⟩
    rw [respond, hResumed, ← hTold]
    exact List.append_nil _
  | awaitingInput =>
    have hEvent : machine.event = .inputRequested := by simp [Machine.event, hStatus]
    have hAsks := h.presents.of_awaiting hStatus
    obtain ⟨hCore, hLive⟩ :=
      enter_of_awaiting (attendant.answer attendance.requests) hStatus hAsks.1
    have hAfter := status_enter (attendant.answer attendance.requests) hStatus
    have hProgress : Progress.after pacing attendant.answer program (turns + 1) = _ :=
      Progress.next_of_asks hAsks.2
    rw [← h.requests_eq, ← hCore, ← hTold, hStatus] at hProgress
    rw [hEvent]
    refine ⟨turns + 1, (pacing_enter machine _).trans h.pacing_eq, ?_, ?_, ?_⟩
    · rw [hProgress]
      exact hLive.presents
    · rw [hProgress]
      rfl
    · rw [hProgress, respond, hAfter, h.pacing_eq]
      simp [Core.tidings, Status.pending, Event.suspension]
  | _ =>
    have hSilent : machine.event.suspension = [] := by
      simp [Event.suspension, Machine.event, hStatus]
    obtain ⟨hMachine, hRequests⟩ := respond_of_silent attendance attendant machine hSilent
    rw [hMachine, hRequests, hSilent, List.append_nil]
    exact ⟨turns, h⟩

/-- After every slice the machine stands where a run has got to, and what the run tells was heard or
is going to be heard at once. -/
theorem afterSlices_recounts (answer : Nat → String) (budget : Nat → Nat) (program : Program)
    (pacing : Pacing) (slices : Nat) :
    ∃ turns, (afterSlices answer budget (load program pacing) slices).machine.Recounts
      (Progress.after pacing answer program turns) pacing
      (heard answer budget (load program pacing) slices)
      (afterSlices answer budget (load program pacing) slices).requests := by
  induction slices with
  | zero => exact ⟨0, rfl, presents_load program pacing, rfl, rfl⟩
  | succ slices ih =>
    obtain ⟨turns, hRecounts⟩ := ih
    obtain ⟨later, hLater⟩ := hRecounts.execute (budget slices)
    rw [heard, afterSlices_succ, event_respond]
    exact respond_recounts ⟨answer, budget slices, 1⟩ hLater

/-- What is heard was told by the run. -/
theorem exists_told_of_heard (answer : Nat → String) (budget : Nat → Nat) (program : Program)
    (pacing : Pacing) (slices : Nat) :
    ∃ turns, heard answer budget (load program pacing) slices <+:
      (Progress.after pacing answer program turns).told := by
  obtain ⟨turns, hRecounts⟩ := afterSlices_recounts answer budget program pacing slices
  exact ⟨turns, _, hRecounts.told_eq⟩

/-- A pause that waits to be heard is heard in the next slice. -/
theorem heard_of_paused {machine : Machine} {slices : Nat} {inspection : Inspection}
    (h : (afterSlices answer budget machine slices).machine.status = .paused inspection) :
    heard answer budget machine (slices + 1) =
      heard answer budget machine slices ++
        (afterSlices answer budget machine slices).machine.status.pending := by
  have hStill : (afterSlices answer budget machine slices).machine.status ≠ .running := by
    simp [h]
  have hEvent : (afterSlices answer budget machine slices).machine.event = .paused inspection := by
    simp [Machine.event, h]
  rw [heard, afterSlices_succ, event_respond, execute_of_status_ne_running hStill, hEvent, h]
  rfl

/-- One slice adds at most one suspension to what was heard, so that everything heard was once all
that was heard. -/
theorem exists_heard_of_prefix {machine : Machine} {events : List Event} {slices : Nat}
    (h : events <+: heard answer budget machine slices) :
    ∃ earlier, heard answer budget machine earlier = events := by
  induction slices with
  | zero =>
    refine ⟨0, ?_⟩
    exact (List.prefix_nil.1 h).symm
  | succ slices ih =>
    by_cases hShort : events.length ≤ (heard answer budget machine slices).length
    · exact ih (List.prefix_of_prefix_length_le h (List.prefix_append _ _) hShort)
    · refine ⟨slices + 1, (h.eq_of_length ?_).symm⟩
      have hMost : ∀ event : Event, event.suspension.length ≤ 1 := by
        intro event
        cases event <;> simp [Event.suspension]
      have hLength := h.length_le
      have hOne := hMost (afterSlices answer budget machine (slices + 1)).event
      rw [heard, List.length_append] at hLength ⊢
      omega

/-- What a run tells in a number of turns is heard in a number of slices. -/
theorem exists_heard_of_told (hBudget : ∀ slice, 0 < budget slice) {turns : Nat}
    {events : List Event} (h : events <+: (Progress.after pacing answer program turns).told) :
    ∃ slices, heard answer budget (load program pacing) slices = events := by
  -- In two slices per turn the attendant has got as far as the run, unless the run is over.
  obtain ⟨reached, hRecounts⟩ := afterSlices_recounts answer budget program pacing (2 * turns)
  obtain ⟨core, hFollows⟩ := afterSlices_follows answer hBudget program pacing (2 * turns)
  have hTold : (Progress.after pacing answer program turns).told <+:
      (Progress.after pacing answer program reached).told := by
    rcases hFollows.overOrGoing with hOver | hGoing
    · have hStuck := hRecounts.presents.stuck_of_ended hOver.1
      rcases Nat.le_total turns reached with hLe | hLe
      · exact Progress.told_prefix hLe
      · have hSame := congrArg Progress.told (Progress.after_of_stuck hStuck hLe)
        exact hSame ▸ List.prefix_refl _
    · have hLive : (afterSlices answer budget (load program pacing) (2 * turns)).machine.Live := by
        rcases hGoing.2 with ⟨hRunning, -⟩ | ⟨hPaused, -⟩
        · exact .inl hRunning
        · exact .inr hPaused
      obtain ⟨rfl, hCount⟩ := hFollows.core_of_going hGoing
      rw [hRecounts.presents.of_live hLive] at hCount
      have hReached : (Progress.after pacing answer program reached).core.executed ≤ reached :=
        Progress.executed_after_le reached
      exact Progress.told_prefix (by omega)
  have hAll := h.trans hTold
  rw [← hRecounts.told_eq] at hAll
  cases hStatus : (afterSlices answer budget (load program pacing) (2 * turns)).machine.status with
  | paused inspection =>
    rw [← heard_of_paused hStatus] at hAll
    exact exists_heard_of_prefix hAll
  | _ =>
    have hSilent : (afterSlices answer budget (load program pacing)
        (2 * turns)).machine.status.pending = [] := by
      simp [Status.pending, hStatus]
    rw [hSilent, List.append_nil] at hAll
    exact exists_heard_of_prefix hAll

/-- The last event of an attended run that is over is final. -/
theorem Over.isFinal_event {attendance : Attendance} (h : attendance.Over) :
    isFinal attendance.event = true := by
  obtain ⟨hEnded, hEvent⟩ := h
  rw [hEvent]
  rcases hEnded with hHalted | ⟨fault, hFaulted⟩
  · simp [Machine.event, hHalted, isFinal]
  · simp [Machine.event, hFaulted, isFinal]

/-- A run that comes to a place where it cannot go on is attended until a final event. -/
theorem final_of_stuck (hBudget : ∀ slice, 0 < budget slice) {turns : Nat}
    (h : (Progress.after pacing answer program turns).core.Stuck) :
    ∃ slices, isFinal (afterSlices answer budget (load program pacing) slices).event = true := by
  obtain ⟨slices, hOver, -⟩ := exists_over hBudget pacing (Progress.runsOn_after turns) h
  exact ⟨slices, hOver.isFinal_event⟩

/-- A machine that told a final event has come to the place where the run cannot go on. -/
theorem stuck_of_final (hBudget : ∀ slice, 0 < budget slice) {slices : Nat}
    (h : isFinal (afterSlices answer budget (load program pacing) slices).event = true) :
    let attendance := afterSlices answer budget (load program pacing) slices
    ∃ turns, (Progress.after pacing answer program turns).core.Stuck ∧ attendance.Over ∧
      attendance.machine.Presents (Progress.after pacing answer program turns).core ∧
      attendance.requests = (Progress.after pacing answer program turns).taken := by
  intro attendance
  obtain ⟨core, hFollows⟩ := afterSlices_follows answer hBudget program pacing slices
  obtain ⟨turns, hRecounts⟩ := afterSlices_recounts answer budget program pacing slices
  have hOver : attendance.Over := hFollows.over_of_final h
  exact ⟨turns, hRecounts.presents.stuck_of_ended hOver.1, hOver, hRecounts.presents,
    hRecounts.requests_eq⟩

/-- Whether a run is attended until a final event does not depend on the budgets. -/
theorem exists_final_of_final {other : Nat → Nat} (hBudget : ∀ slice, 0 < budget slice)
    (hOther : ∀ slice, 0 < other slice) {slices : Nat}
    (h : isFinal (afterSlices answer budget (load program pacing) slices).event = true) :
    ∃ others, isFinal (afterSlices answer other (load program pacing) others).event = true := by
  obtain ⟨turns, hStuck, -⟩ := stuck_of_final hBudget h
  exact final_of_stuck hOther hStuck

/-- What is heard with some budgets is at some time all that is heard with others. -/
theorem exists_heard_eq_heard (budget : Nat → Nat) {other : Nat → Nat}
    (hOther : ∀ slice, 0 < other slice) (slices : Nat) :
    ∃ others, heard answer other (load program pacing) others =
      heard answer budget (load program pacing) slices := by
  obtain ⟨turns, hTold⟩ := exists_told_of_heard answer budget program pacing slices
  exact exists_heard_of_told hOther hTold

/-- A final event is kept with its machine, and nothing is counted. -/
theorem respond_of_final (attendance : Attendance) (attendant : Attendant) {event : Event}
    (machine : Machine) (h : isFinal event = true) :
    attendance.respond attendant event machine = { attendance with event, machine } := by
  cases event with
  | halted output => rfl
  | faulted fault => rfl
  | _ => contradiction

/-- An attended run that is over is left as it is by one more slice. -/
theorem slice_of_over {attendance : Attendance} (h : attendance.Over) (attendant : Attendant) :
    attendance.slice attendant = attendance := by
  have hFinal := h.isFinal_event
  obtain ⟨hEnded, hEvent⟩ := h
  rw [slice, execute_of_status_ne_running hEnded.status_ne_running, ← hEvent]
  exact respond_of_final attendance attendant attendance.machine hFinal

/-- Two attended runs of one program on the same answers that are over, whatever their budgets, ended
with the same event, and the same was heard from both. -/
theorem same_of_final {other : Nat → Nat} (hBudget : ∀ slice, 0 < budget slice)
    (hOther : ∀ slice, 0 < other slice) {slices others : Nat}
    (h : isFinal (afterSlices answer budget (load program pacing) slices).event = true)
    (hOthers : isFinal (afterSlices answer other (load program pacing) others).event = true) :
    (afterSlices answer budget (load program pacing) slices).event =
        (afterSlices answer other (load program pacing) others).event ∧
      heard answer budget (load program pacing) slices =
        heard answer other (load program pacing) others := by
  obtain ⟨core, hFollows⟩ := afterSlices_follows answer hBudget program pacing slices
  obtain ⟨core', hFollows'⟩ := afterSlices_follows answer hOther program pacing others
  obtain ⟨turns, hRecounts⟩ := afterSlices_recounts answer budget program pacing slices
  obtain ⟨turns', hRecounts'⟩ := afterSlices_recounts answer other program pacing others
  have hOver := hFollows.over_of_final h
  have hOver' := hFollows'.over_of_final hOthers
  have hSame := Progress.after_unique (hRecounts.presents.stuck_of_ended hOver.1)
    (hRecounts'.presents.stuck_of_ended hOver'.1)
  have hPresents := hRecounts'.presents
  rw [← hSame] at hPresents
  have hTold := hRecounts.told_eq
  have hTold' := hRecounts'.told_eq
  rw [hOver.1.pending_eq_nil, List.append_nil] at hTold
  rw [hOver'.1.pending_eq_nil, List.append_nil, ← hSame] at hTold'
  refine ⟨?_, hTold.trans hTold'.symm⟩
  rw [hOver.2, hOver'.2]
  exact (hRecounts.presents.same_of_ended hPresents hOver.1 hOver'.1).2

end Attendance

end ByteTape
