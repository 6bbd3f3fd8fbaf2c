import ByteTape.Proofs.Sequence.Displacement

/-!
# Attended runs taken up again

Attended one instruction at a time, a run stands between two slices wherever it gets to. From there it
can be taken up again: it goes on as if its machine were attended from the start, answered by the lines
that were not taken. A run that goes on from there with a displaced copy of another machine therefore
lets hear what was heard before, followed by what is heard from the other machine at the new addresses,
and it ends as the other machine does.
-/

namespace ByteTape

namespace Attendance

open Machine

variable {pacing : Pacing} {answer : Nat → String} {budget : Nat → Nat} {program : Program}

/-- An attended run stands between two slices where a run has got to, with nothing left to be heard. -/
structure StandsAt (attendance : Attendance) (progress : Progress) (pacing : Pacing)
    (heard : List Event) : Prop where
  /-- The pacing is that of the run. -/
  pacing_eq : attendance.machine.pacing = pacing
  /-- The machine has the core that is reached. -/
  core_eq : attendance.machine.core = progress.core
  /-- The machine goes on, unless it has noticed the end of its program. -/
  status : attendance.machine.status = .running ∨
    (attendance.machine.status = .halted ∧ progress.core.turn = .ends)
  /-- The requests answered are the answers taken. -/
  requests_eq : attendance.requests = progress.taken
  /-- All that was told was heard. -/
  heard_eq : heard = progress.told

/-- The response to a machine that has the core that is reached and can go on, perhaps after a pause,
leaves nothing to be heard. -/
theorem standsAt_respond {attendance : Attendance} (attendant : Attendant) {machine : Machine}
    {progress : Progress} {heard : List Event} (hPacing : machine.pacing = pacing)
    (hCore : machine.core = progress.core)
    (hStatus : machine.Live ∨ (machine.status = .halted ∧ progress.core.turn = .ends))
    (hRequests : attendance.requests = progress.taken)
    (hHeard : heard ++ machine.status.pending = progress.told) :
    (attendance.respond attendant machine.event machine).StandsAt progress pacing
      (heard ++ machine.event.suspension) := by
  rcases hStatus with (hRunning | ⟨inspection, hPaused⟩) | ⟨hHalted, hEnds⟩
  · have hEvent : machine.event = .running := by simp [Machine.event, hRunning]
    rw [hRunning] at hHeard
    rw [hEvent]
    exact ⟨hPacing, hCore, .inl hRunning, hRequests, hHeard⟩
  · have hEvent : machine.event = .paused inspection := by simp [Machine.event, hPaused]
    have hResume : machine.resume = { machine with status := .running } := by
      simp [resume, hPaused]
    rw [hPaused] at hHeard
    rw [hEvent, Attendance.respond, hResume]
    exact ⟨hPacing, hCore, .inl rfl, hRequests, hHeard⟩
  · have hEvent : machine.event = .halted machine.output := by simp [Machine.event, hHalted]
    rw [hHalted] at hHeard
    rw [hEvent]
    exact ⟨hPacing, hCore, .inr ⟨hHalted, hEnds⟩, hRequests, hHeard⟩

/-- The same holds if the machine notices the end of its program first. -/
theorem standsAt_respond_settle {attendance : Attendance} (attendant : Attendant)
    {machine : Machine} {progress : Progress} {heard : List Event}
    (hPacing : machine.pacing = pacing) (hCore : machine.core = progress.core)
    (hLive : machine.Live) (hRequests : attendance.requests = progress.taken)
    (hHeard : heard ++ machine.status.pending = progress.told) :
    (attendance.respond attendant machine.settle.event machine.settle).StandsAt progress pacing
      (heard ++ machine.settle.event.suspension) := by
  by_cases hEnd : machine.status = .running ∧ machine.program.size ≤ machine.position
  · -- A machine that notices the end was running, so that nothing was to be told.
    have hEnds : progress.core.turn = .ends := by
      rw [← hCore]
      exact (Core.turn_eq_ends_iff _).2 hEnd.2
    rw [hEnd.1] at hHeard
    rw [settle_of_le _ hEnd.1 hEnd.2]
    exact standsAt_respond _ hPacing hCore (.inr ⟨rfl, hEnds⟩) hRequests hHeard
  · have hStill : machine.settle = machine := by
      by_cases hStatus : machine.status = .running
      · exact settle_of_lt _ (Nat.lt_of_not_le fun hLe => hEnd ⟨hStatus, hLe⟩)
      · exact settle_of_status_ne_running _ hStatus
    rw [hStill]
    exact standsAt_respond _ hPacing hCore (.inl hLive) hRequests hHeard

/-- A slice of one instruction is a step, after which the end of the program is noticed. -/
theorem slice_one {attendance : Attendance} (hRunning : attendance.machine.status = .running)
    (hGoesOn : attendance.machine.core.turn ≠ .ends) (answer : Nat → String) :
    attendance.slice ⟨answer, 1, 1⟩ = attendance.respond ⟨answer, 1, 1⟩
      attendance.machine.step.settle.event attendance.machine.step.settle := by
  have hInside : attendance.machine.position < attendance.machine.program.size :=
    Nat.lt_of_not_le fun hEnd => hGoesOn ((Core.turn_eq_ends_iff _).2 hEnd)
  have hRan : attendance.machine.execute 1 =
      (attendance.machine.step.settle.event, attendance.machine.step.settle) := by
    rw [execute, settle_of_lt _ hInside, hRunning]
    rfl
  rw [slice, hRan]

/-- A completed instruction is attended in one slice, its pause included. -/
theorem StandsAt.slice_of_moves {attendance : Attendance} {progress : Progress} {heard : List Event}
    {next : Core} (h : attendance.StandsAt progress pacing heard)
    (hRunning : attendance.machine.status = .running) (hTurn : progress.core.turn = .moves next) :
    (attendance.slice ⟨answer, 1, 1⟩).StandsAt (progress.next pacing answer) pacing
      (heard ++ (attendance.slice ⟨answer, 1, 1⟩).event.suspension) := by
  have hHere : attendance.machine.core.turn = .moves next := by rw [h.core_eq, hTurn]
  obtain ⟨hCore, hStatus⟩ := status_step hRunning hHere
  have hStepped := step_stepped hRunning
  rw [hHere] at hStepped
  rw [h.pacing_eq] at hStatus
  have hPacing : attendance.machine.step.pacing = pacing := by rw [pacing_step, h.pacing_eq]
  rw [slice_one hRunning (by simp [hHere]), Progress.next_of_moves hTurn, event_respond]
  refine standsAt_respond_settle _ hPacing hCore hStepped.2 h.requests_eq ?_
  rw [h.heard_eq, hStatus]
  rfl

/-- A request is attended in one slice, and the pause after it, if there is one, in another. -/
theorem StandsAt.slice_of_asks {attendance : Attendance} {progress : Progress} {heard : List Event}
    (h : attendance.StandsAt progress pacing heard)
    (hRunning : attendance.machine.status = .running) (hTurn : progress.core.turn = .asks) :
    let after := attendance.slice ⟨answer, 1, 1⟩
    let later := after.slice ⟨answer, 1, 1⟩
    after.StandsAt (progress.next pacing answer) pacing (heard ++ after.event.suspension) ∨
      later.StandsAt (progress.next pacing answer) pacing
        (heard ++ after.event.suspension ++ later.event.suspension) := by
  intro after later
  have hHere : attendance.machine.core.turn = .asks := by rw [h.core_eq, hTurn]
  have hStepped := step_stepped hRunning
  rw [hHere] at hStepped
  obtain ⟨hBegun, hWaits⟩ := hStepped
  have hStill : attendance.machine.step.settle = attendance.machine.step :=
    settle_of_status_ne_running _ (by simp [hWaits])
  have hEvent : attendance.machine.step.event = .inputRequested := by simp [Machine.event, hWaits]
  have hAfter : after = { attendance with
      event := .inputRequested
      machine := attendance.machine.step.enter (answer attendance.requests)
      requests := attendance.requests + 1 } := by
    simp only [after]
    rw [slice_one hRunning (by simp [hHere]), hStill, hEvent]
    rfl
  have hMachine : after.machine = attendance.machine.step.enter (answer attendance.requests) := by
    rw [hAfter]
  have hSuspends : after.event.suspension = [.inputRequested] := by
    rw [hAfter]
    rfl
  obtain ⟨hCore, hLive⟩ := enter_of_awaiting (answer attendance.requests) hWaits hBegun
  have hStatus := status_enter (answer attendance.requests) hWaits
  have hPacing := pacing_enter attendance.machine.step (answer attendance.requests)
  rw [pacing_step, h.pacing_eq] at hPacing hStatus
  rw [h.core_eq] at hCore
  rw [← hMachine] at hCore hLive hStatus hPacing
  have hRequests : after.requests = progress.taken + 1 := by rw [hAfter, ← h.requests_eq]
  rw [hCore, h.requests_eq] at hStatus
  rw [h.requests_eq] at hCore
  have hNext : progress.next pacing answer = _ := Progress.next_of_asks hTurn
  have hTold : heard ++ after.event.suspension ++ after.machine.status.pending =
      (progress.next pacing answer).told := by
    rw [hNext, hSuspends, hStatus, h.heard_eq, List.append_assoc]
    rfl
  have hTaken : after.requests = (progress.next pacing answer).taken := by
    rw [hNext]
    exact hRequests
  have hReached : after.machine.core = (progress.next pacing answer).core := by
    rw [hNext]
    exact hCore
  rcases hLive with hRuns | ⟨inspection, hPaused⟩
  · left
    rw [hRuns] at hTold
    exact ⟨hPacing, hReached, .inl hRuns, hTaken, (List.append_nil _).symm.trans hTold⟩
  · right
    have hLater : later = after.respond ⟨answer, 1, 1⟩ after.machine.event after.machine := by
      simp only [later, slice]
      rw [execute_of_status_ne_running (by simp [hPaused])]
    rw [hLater, event_respond]
    exact standsAt_respond _ hPacing hReached (.inl (.inr ⟨inspection, hPaused⟩)) hTaken hTold

/-- Attended one instruction at a time, a run stands between two slices wherever it gets to. -/
theorem exists_standsAt (pacing : Pacing) (answer : Nat → String) (program : Program)
    (turns : Nat) :
    ∃ slices, (afterSlices answer (fun _ => 1) (load program pacing) slices).StandsAt
      (Progress.after pacing answer program turns) pacing
      (heard answer (fun _ => 1) (load program pacing) slices) := by
  induction turns with
  | zero => exact ⟨0, rfl, rfl, .inl rfl, rfl, rfl⟩
  | succ turns ih =>
    obtain ⟨slices, hStands⟩ := ih
    by_cases hStuck : (Progress.after pacing answer program turns).core.Stuck
    · refine ⟨slices, ?_⟩
      rw [Progress.after, Progress.next_of_stuck hStuck]
      exact hStands
    · have hRunning := hStands.status.resolve_right fun hHalted => hStuck (.inl hHalted.2)
      cases hTurn : (Progress.after pacing answer program turns).core.turn with
      | ends => exact absurd (.inl hTurn) hStuck
      | fails fault => exact absurd (.inr ⟨fault, hTurn⟩) hStuck
      | moves next => exact ⟨slices + 1, hStands.slice_of_moves hRunning hTurn⟩
      | asks =>
        rcases hStands.slice_of_asks hRunning hTurn with hSoon | hLater
        · exact ⟨slices + 1, hSoon⟩
        · exact ⟨slices + 2, hLater⟩

/-- A slice depends on the machine and on the answer that comes next. -/
theorem slice_congr {attendance other : Attendance} {taken : Nat}
    (hMachine : attendance.machine = other.machine)
    (hRequests : attendance.requests = taken + other.requests) (answer : Nat → String)
    (cycles : Nat) :
    let after := attendance.slice ⟨answer, cycles, 1⟩
    let later := other.slice ⟨fun request => answer (taken + request), cycles, 1⟩
    after.machine = later.machine ∧ after.event = later.event ∧
      after.requests = taken + later.requests := by
  simp only [slice, hMachine]
  cases (other.machine.execute cycles).1 with
  | inputRequested =>
    have hEntered := congrArg
      (fun request => (other.machine.execute cycles).2.enter (answer request)) hRequests
    exact ⟨hEntered, rfl, congrArg Nat.succ hRequests⟩
  | _ => exact ⟨rfl, rfl, hRequests⟩

/-- A run that was attended for a number of slices goes on as if its machine were attended from there,
answered by the lines that were not taken. -/
theorem afterSlices_add (answer : Nat → String) (budget : Nat → Nat) (machine : Machine)
    (seam more : Nat) :
    let met := afterSlices answer budget machine seam
    let answers := fun request => answer (met.requests + request)
    let later := fun slice => budget (seam + slice)
    let whole := afterSlices answer budget machine (seam + more)
    let again := afterSlices answers later met.machine more
    whole.machine = again.machine ∧ (0 < more → whole.event = again.event) ∧
      whole.requests = met.requests + again.requests ∧
      heard answer budget machine (seam + more) =
        heard answer budget machine seam ++ heard answers later met.machine more := by
  induction more with
  | zero => exact ⟨rfl, by simp, rfl, (List.append_nil _).symm⟩
  | succ more ih =>
    intro met answers later whole again
    obtain ⟨hMachine, -, hRequests, hHeard⟩ := ih
    obtain ⟨hNext, hEvent, hCount⟩ := slice_congr hMachine hRequests answer (budget (seam + more))
    have hSuspends : whole.event = again.event := hEvent
    refine ⟨hNext, fun _ => hEvent, hCount, ?_⟩
    rw [← Nat.add_assoc, heard, heard, hHeard, List.append_assoc]
    exact congrArg (fun event : Event => _ ++ (_ ++ event.suspension)) hSuspends

/-- Only the budgets of the slices that are attended matter. -/
theorem afterSlices_congr {other : Nat → Nat} (answer : Nat → String) (machine : Machine)
    {slices : Nat} (h : ∀ slice < slices, budget slice = other slice) :
    afterSlices answer budget machine slices = afterSlices answer other machine slices ∧
      heard answer budget machine slices = heard answer other machine slices := by
  induction slices with
  | zero => exact ⟨rfl, rfl⟩
  | succ slices ih =>
    obtain ⟨hAfter, hHeard⟩ := ih fun slice hSlice => h slice (Nat.lt_succ_of_lt hSlice)
    have hNext : afterSlices answer budget machine (slices + 1) =
        afterSlices answer other machine (slices + 1) := by
      rw [afterSlices, afterSlices, hAfter, h slices (Nat.lt_succ_self slices)]
    refine ⟨hNext, ?_⟩
    rw [heard, heard, hHeard, hNext]

/-- A run that is over has got to where it cannot go on, and all that was told was heard. -/
theorem told_of_final (hBudget : ∀ slice, 0 < budget slice) {slices : Nat}
    (h : isFinal (afterSlices answer budget (load program pacing) slices).event = true) :
    let attended := afterSlices answer budget (load program pacing) slices
    ∃ turns, (Progress.after pacing answer program turns).core.Stuck ∧ attended.Over ∧
      attended.machine.Presents (Progress.after pacing answer program turns).core ∧
      attended.requests = (Progress.after pacing answer program turns).taken ∧
      heard answer budget (load program pacing) slices =
        (Progress.after pacing answer program turns).told := by
  intro attended
  obtain ⟨core, hFollows⟩ := afterSlices_follows answer hBudget program pacing slices
  obtain ⟨turns, hRecounts⟩ := afterSlices_recounts answer budget program pacing slices
  have hOver : attended.Over := hFollows.over_of_final h
  have hTold := hRecounts.told_eq
  rw [hOver.1.pending_eq_nil, List.append_nil] at hTold
  exact ⟨turns, hRecounts.presents.stuck_of_ended hOver.1, hOver, hRecounts.presents,
    hRecounts.requests_eq, hTold⟩

/-- Runs of one program that are over, whatever their budgets, ended with the same event in the same
core, after the same requests. -/
theorem core_of_final {other : Nat → Nat} (hBudget : ∀ slice, 0 < budget slice)
    (hOther : ∀ slice, 0 < other slice) {slices others : Nat}
    (h : isFinal (afterSlices answer budget (load program pacing) slices).event = true)
    (hOthers : isFinal (afterSlices answer other (load program pacing) others).event = true) :
    let first := afterSlices answer budget (load program pacing) slices
    let second := afterSlices answer other (load program pacing) others
    first.event = second.event ∧ first.requests = second.requests ∧
      first.machine.core = second.machine.core := by
  intro first second
  obtain ⟨turns, hStuck, hOver, hPresents, hRequests, -⟩ := told_of_final hBudget h
  obtain ⟨count, hStop, hOver', hPresents', hRequests', -⟩ := told_of_final hOther hOthers
  rw [Progress.after_unique hStop hStuck] at hPresents' hRequests'
  obtain ⟨hCore, hEvent⟩ := hPresents.same_of_ended hPresents' hOver.1 hOver'.1
  exact ⟨hOver.2.trans (hEvent.trans hOver'.2.symm), hRequests.trans hRequests'.symm, hCore⟩

/-- What was heard stays heard. -/
theorem heard_prefix (answer : Nat → String) (budget : Nat → Nat) (machine : Machine)
    {slices later : Nat} (h : slices ≤ later) :
    heard answer budget machine slices <+: heard answer budget machine later := by
  induction later, h using Nat.le_induction with
  | base => exact List.prefix_refl _
  | succ later _ ih => exact ih.trans (List.prefix_append _ _)

/-- A run that is over stays over. -/
theorem afterSlices_of_final (hBudget : ∀ slice, 0 < budget slice) {slices later : Nat}
    (hLater : slices ≤ later)
    (h : isFinal (afterSlices answer budget (load program pacing) slices).event = true) :
    isFinal (afterSlices answer budget (load program pacing) later).event = true := by
  induction later, hLater using Nat.le_induction with
  | base => exact h
  | succ later _ ih =>
    obtain ⟨turns, -, hOver, -⟩ := stuck_of_final hBudget ih
    rw [afterSlices, slice_of_over hOver]
    exact ih

/-- Budgets of one instruction up to a slice, and others from there on. -/
def spliced (seam : Nat) (later : Nat → Nat) (slice : Nat) : Nat :=
  if slice < seam then 1 else later (slice - seam)

section Spliced

variable {joint later : Nat → Nat} {rest : Machine} {seam distance : Nat}

/-- Spliced budgets are positive if the later ones are. -/
theorem spliced_pos (seam : Nat) (h : ∀ slice, 0 < later slice) (slice : Nat) :
    0 < spliced seam later slice := by
  unfold spliced
  split
  · exact Nat.zero_lt_one
  · exact h _

/-- Up to the seam a run with spliced budgets is attended one instruction at a time. -/
theorem afterSlices_spliced (answer : Nat → String) (machine : Machine) (seam : Nat)
    (later : Nat → Nat) :
    afterSlices answer (spliced seam later) machine seam =
        afterSlices answer (fun _ => 1) machine seam ∧
      heard answer (spliced seam later) machine seam = heard answer (fun _ => 1) machine seam :=
  afterSlices_congr answer machine fun slice hSlice => by simp [spliced, hSlice]

/-- A run whose machine settles at the seam into a displaced copy of another goes on from there as the
other machine is attended, answered by the lines that were not taken. -/
theorem afterSlices_spliced_add {machine : Machine}
    (h : rest.settle.Displaced distance
      (afterSlices answer (fun _ => 1) machine seam).machine.settle) (later : Nat → Nat)
    (more : Nat) :
    let met := afterSlices answer (fun _ => 1) machine seam
    let answers := fun request => answer (met.requests + request)
    let joined := afterSlices answer (spliced seam later) machine (seam + more)
    let alone := afterSlices answers later rest more
    (0 < more → joined.event = alone.event.renumber (· + distance)) ∧
      joined.requests = met.requests + alone.requests ∧
      alone.machine.core.Corresponds (· + distance) joined.machine.core ∧
      heard answer (spliced seam later) machine (seam + more) =
        heard answer (fun _ => 1) machine seam ++
          (heard answers later rest more).map (Event.renumber (· + distance)) := by
  intro met answers joined alone
  obtain ⟨hMachine, hEvent, hRequests, hHeard⟩ :=
    afterSlices_add answer (spliced seam later) machine seam more
  have hLater : (fun slice => spliced seam later (seam + slice)) = later := by
    funext slice
    simp [spliced]
  obtain ⟨hMet, hTold⟩ := afterSlices_spliced answer machine seam later
  rw [hMet, hLater] at hMachine hEvent hRequests hHeard
  obtain ⟨hLockstep, hSame⟩ := displaced_afterSlices h answers later more
  have hCores := hLockstep.machine.core
  rw [core_settle, core_settle, ← hMachine] at hCores
  refine ⟨fun hMore => (hEvent hMore).trans hLockstep.event_eq, ?_, hCores, ?_⟩
  · rw [← hLockstep.requests_eq]
    exact hRequests
  · rw [← hSame, ← hTold]
    exact hHeard

/-- No event has been told before the first slice. -/
theorem pos_of_final {machine : Machine} {slices : Nat}
    (h : isFinal (afterSlices answer budget machine slices).event = true) : 0 < slices := by
  cases slices with
  | zero => contradiction
  | succ slices => exact Nat.succ_pos slices

/-- An event at other addresses is final exactly if the event is. -/
theorem isFinal_renumber (place : Nat → Nat) (event : Event) :
    isFinal (event.renumber place) = isFinal event := by
  cases event <;> rfl

variable {taken : Nat} {told : List Event} (hJoint : ∀ slice, 0 < joint slice)
  (hLater : ∀ slice, 0 < later slice)
  (hDisplaced : rest.settle.Displaced distance
    (afterSlices answer (fun _ => 1) (load program pacing) seam).machine.settle)
  (hTaken : (afterSlices answer (fun _ => 1) (load program pacing) seam).requests = taken)
  (hTold : heard answer (fun _ => 1) (load program pacing) seam = told)

include hJoint hLater hDisplaced hTaken

include hTold in
/-- Whatever the budgets, what is heard from a run that goes on with a displaced machine is a part of
what was heard up to the seam, or all of it followed by what is heard from the other machine. -/
theorem exists_heard_iff_of_displaced (events : List Event) :
    (∃ slices, heard answer joint (load program pacing) slices = events) ↔
      events <+: told ∨ ∃ more, events =
        told ++ (heard (fun request => answer (taken + request)) later rest more).map
          (Event.renumber (· + distance)) := by
  subst hTaken
  have hSpliced := (afterSlices_spliced answer (load program pacing) seam later).2.trans hTold
  constructor
  · rintro ⟨slices, rfl⟩
    obtain ⟨others, hOthers⟩ :
        ∃ others, heard answer (spliced seam later) (load program pacing) others =
          heard answer joint (load program pacing) slices :=
      exists_heard_eq_heard joint (spliced_pos seam hLater) slices
    rw [← hOthers]
    rcases Nat.le_total others seam with hLe | hLe
    · left
      rw [← hSpliced]
      exact heard_prefix answer _ _ hLe
    · right
      obtain ⟨more, rfl⟩ := Nat.exists_eq_add_of_le hLe
      obtain ⟨-, -, -, hHeard⟩ := afterSlices_spliced_add hDisplaced later more
      rw [hTold] at hHeard
      exact ⟨more, hHeard⟩
  · intro hEvents
    have hOthers : ∃ others,
        heard answer (spliced seam later) (load program pacing) others = events := by
      rcases hEvents with hPrefix | ⟨more, rfl⟩
      · rw [← hSpliced] at hPrefix
        exact exists_heard_of_prefix hPrefix
      · obtain ⟨-, -, -, hHeard⟩ := afterSlices_spliced_add hDisplaced later more
        rw [hTold] at hHeard
        exact ⟨seam + more, hHeard⟩
    obtain ⟨others, rfl⟩ := hOthers
    exact exists_heard_eq_heard _ hJoint others

/-- Whatever the budgets, a run that goes on with a displaced machine ends exactly if the other machine
does. -/
theorem exists_final_iff_of_displaced :
    (∃ slices, isFinal (afterSlices answer joint (load program pacing) slices).event = true) ↔
      ∃ more, isFinal (afterSlices (fun request => answer (taken + request)) later rest
        more).event = true := by
  subst hTaken
  have hSpliced := spliced_pos seam hLater
  constructor
  · rintro ⟨slices, hFinal⟩
    obtain ⟨others, hOthers⟩ := exists_final_of_final hJoint hSpliced hFinal
    have hStays := afterSlices_of_final hSpliced
      (show others ≤ seam + (others + 1) by omega) hOthers
    obtain ⟨hEvent, -⟩ := afterSlices_spliced_add hDisplaced later (others + 1)
    rw [hEvent (Nat.succ_pos others), isFinal_renumber] at hStays
    exact ⟨others + 1, hStays⟩
  · rintro ⟨more, hFinal⟩
    obtain ⟨hEvent, -⟩ := afterSlices_spliced_add hDisplaced later more
    have hSame := hEvent (pos_of_final hFinal)
    rw [← isFinal_renumber (· + distance), ← hSame] at hFinal
    exact exists_final_of_final hSpliced hJoint hFinal

/-- Whatever the budgets, a run that goes on with a displaced machine and is over ended as the other
machine did, at the new addresses. -/
theorem corresponds_of_final_of_displaced {slices more : Nat} :
    let joined := afterSlices answer joint (load program pacing) slices
    let alone := afterSlices (fun request => answer (taken + request)) later rest more
    isFinal joined.event = true → isFinal alone.event = true →
      joined.event = alone.event.renumber (· + distance) ∧
        joined.requests = taken + alone.requests ∧
        alone.machine.core.Corresponds (· + distance) joined.machine.core := by
  subst hTaken
  intro joined alone hJoined hAlone
  obtain ⟨hEvent, hRequests, hCores, -⟩ := afterSlices_spliced_add hDisplaced later more
  have hSame := hEvent (pos_of_final hAlone)
  have hFinal : isFinal (afterSlices answer (spliced seam later) (load program pacing)
      (seam + more)).event = true := by
    rw [hSame, isFinal_renumber]
    exact hAlone
  obtain ⟨hEvents, hCounts, hCore⟩ := core_of_final hJoint (spliced_pos seam hLater) hJoined hFinal
  refine ⟨hEvents.trans hSame, hCounts.trans hRequests, ?_⟩
  rw [hCore]
  exact hCores

end Spliced

end Attendance

end ByteTape
