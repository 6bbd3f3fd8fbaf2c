import ByteTape.Attendance
import ByteTape.Proofs.Core.Schedule

/-!
# Runs on a sequence of all lines

Where there is an answer to every request, a run is known by the number of answers it takes. An
attendant who gives these answers, ends every pause and calls again and again follows that run: no
two slices in a row leave the machine where it was, so that a run which cannot go on for ever is
followed to its end.
-/

namespace ByteTape

/-- A run of answers from the sequence of all lines. -/
def answersFrom (answer : Nat → String) (first count : Nat) : List String :=
  (List.range' first count).map answer

/-- Answers in a row are answers. -/
theorem answersFrom_add (answer : Nat → String) (first count more : Nat) :
    answersFrom answer first (count + more) =
      answersFrom answer first count ++ answersFrom answer (first + count) more := by
  rw [answersFrom, answersFrom, answersFrom, ← List.map_append, List.range'_append_1]

/-- The first answer stands before the others. -/
theorem answersFrom_succ (answer : Nat → String) (first count : Nat) :
    answersFrom answer first (count + 1) = answer first :: answersFrom answer (first + 1) count := by
  rw [answersFrom, List.range'_succ, List.map_cons]
  rfl

/-- There are as many answers as are counted. -/
@[simp]
theorem length_answersFrom (answer : Nat → String) (first count : Nat) :
    (answersFrom answer first count).length = count := by
  simp [answersFrom]

/-- Answers from the same place on agree as far as both go. -/
theorem agreeAsFar_answersFrom (answer : Nat → String) (first count more : Nat) :
    AgreeAsFar (answersFrom answer first count) (answersFrom answer first more) := by
  intro place hCount hMore
  rw [length_answersFrom] at hCount hMore
  simp [answersFrom, hCount, hMore]

namespace Core

variable {answer : Nat → String}

/-- A run that takes the answers from one number up to another. -/
def RunsOn (answer : Nat → String) (core : Core) (taken : Nat) (last : Core) (after : Nat) : Prop :=
  ∃ count, after = taken + count ∧ Run core (answersFrom answer taken count) last

/-- No turn takes no answer. -/
theorem RunsOn.refl (core : Core) (taken : Nat) : core.RunsOn answer taken core taken :=
  ⟨0, rfl, .refl core⟩

/-- A run goes on with the answers it has not taken. -/
theorem RunsOn.trans {first middle last : Core} {taken between after : Nat}
    (hFirst : first.RunsOn answer taken middle between)
    (hSecond : middle.RunsOn answer between last after) : first.RunsOn answer taken last after := by
  obtain ⟨count, rfl, hRun⟩ := hFirst
  obtain ⟨more, rfl, hMore⟩ := hSecond
  refine ⟨count + more, Nat.add_assoc taken count more, ?_⟩
  rw [answersFrom_add]
  exact hRun.trans hMore

/-- A completed instruction takes no answer. -/
theorem RunsOn.of_moves {core next : Core} (hTurn : core.turn = .moves next) (taken : Nat) :
    core.RunsOn answer taken next taken :=
  ⟨0, rfl, .moves hTurn (.refl next)⟩

/-- A request takes the next answer. -/
theorem RunsOn.of_asks {core : Core} (hTurn : core.turn = .asks) (taken : Nat) :
    core.RunsOn answer taken (core.answer (answer taken)) (taken + 1) :=
  ⟨1, rfl, .asks _ hTurn (.refl _)⟩

/-- Instructions are only counted up. -/
theorem RunsOn.executed_le {core last : Core} {taken after : Nat}
    (h : core.RunsOn answer taken last after) : core.executed ≤ last.executed := by
  obtain ⟨count, -, hRun⟩ := h
  refine hRun.invariant (P := fun current => core.executed ≤ current.executed) ?_ ?_ (Nat.le_refl _)
  · intro current next hCurrent hTurn
    have hCount := (frame_of_moves hTurn).2
    omega
  · intro current line hCurrent hTurn
    exact Nat.le_succ_of_le hCurrent

/-- A run that cannot go on contains every run on the same answers. -/
theorem RunsOn.rest_of_stuck {core stop last : Core} {taken after total : Nat}
    (hRun : core.RunsOn answer taken stop after) (hFull : core.RunsOn answer taken last total)
    (hStuck : last.Stuck) : stop.RunsOn answer after last total := by
  obtain ⟨count, rfl, hRun⟩ := hRun
  obtain ⟨full, rfl, hFull⟩ := hFull
  obtain ⟨left, hLines, hLeft⟩ :=
    hRun.rest_of_stuck hFull hStuck (agreeAsFar_answersFrom answer taken count full)
  have hLength := congrArg List.length hLines
  rw [List.length_append, length_answersFrom, length_answersFrom] at hLength
  refine ⟨left.length, by omega, ?_⟩
  rw [hLength, answersFrom_add] at hLines
  rw [List.append_cancel_left hLines]
  exact hLeft

/-- A run that cannot go on is the only one on its answers. -/
theorem RunsOn.unique {core first second : Core} {taken after total : Nat}
    (hFirst : core.RunsOn answer taken first after) (hEnd : first.Stuck)
    (hSecond : core.RunsOn answer taken second total) (hStop : second.Stuck) :
    first = second ∧ after = total := by
  obtain ⟨left, hTotal, hLeft⟩ := hFirst.rest_of_stuck hSecond hStop
  obtain ⟨hNone, hSame⟩ := hLeft.eq_of_stuck hEnd
  have hLength := congrArg List.length hNone
  rw [length_answersFrom, List.length_nil] at hLength
  exact ⟨hSame.symm, by omega⟩

end Core

namespace Machine

/-- Running counts instructions up. -/
theorem executed_le_execute (machine : Machine) (cycles : Nat) :
    machine.executed ≤ (machine.execute cycles).2.executed := by
  refine execute_invariant (P := fun after => machine.executed ≤ after.executed) ?_ ?_
    (Nat.le_refl _) cycles
  · intro after hAfter hRunning hEnd
    exact hAfter
  · intro after hAfter hRunning hInside
    have hCount := executed_step hRunning hInside
    omega

/-- A running machine that is given a budget comes to its end at once or begins an
instruction. -/
theorem executed_lt_execute {machine : Machine} (hRunning : machine.status = .running)
    {cycles : Nat} (hBudget : 0 < cycles) :
    (machine.execute cycles).2.Ended ∨ machine.executed < (machine.execute cycles).2.executed := by
  obtain ⟨cycles, rfl⟩ := Nat.exists_eq_add_one.2 hBudget
  by_cases hEnd : machine.program.size ≤ machine.position
  · left
    have hHalt := settle_of_le machine hRunning hEnd
    rw [execute, hHalt]
    exact .inl rfl
  · right
    have hInside := Nat.lt_of_not_le hEnd
    have hSettle := settle_of_lt machine hInside
    have hCount := executed_step hRunning hInside
    have hMore := executed_le_execute machine.step cycles
    rw [execute, hSettle, hRunning]
    dsimp only
    omega

end Machine

namespace Attendance

open ByteTape.Core Machine

/-- Attend a run for one more slice. -/
def slice (attendance : Attendance) (attendant : Attendant) : Attendance :=
  let (event, machine) := attendance.machine.execute attendant.cycles
  attendance.respond attendant event machine

/-- A run attended for a number of slices with a budget for each of them. -/
def afterSlices (answer : Nat → String) (budget : Nat → Nat) (machine : Machine) :
    (slices : Nat) → Attendance
  | 0 => begin machine
  | slices + 1 => (afterSlices answer budget machine slices).slice ⟨answer, budget slices, 1⟩

/-- An attended run that goes on has begun one instruction in every two slices; a pause that has not
been ended counts as a slice. -/
def Going (attendance : Attendance) (slices : Nat) : Prop :=
  isFinal attendance.event = false ∧
    ((attendance.machine.status = .running ∧ slices ≤ 2 * attendance.machine.executed) ∨
      (∃ inspection, attendance.machine.status = .paused inspection) ∧
        slices + 1 ≤ 2 * attendance.machine.executed)

/-- An attended run is over, and the last event says so. -/
def Over (attendance : Attendance) : Prop :=
  attendance.machine.Ended ∧ attendance.event = attendance.machine.event

/-- After a number of slices a run of a program has come to a core on the answers given. -/
structure Follows (attendance : Attendance) (answer : Nat → String) (program : Program)
    (slices : Nat) (core : Core) : Prop where
  /-- The core is reached on the answers given. -/
  run : (Core.start program).RunsOn answer 0 core attendance.requests
  /-- The machine presents the core. -/
  presents : attendance.machine.Presents core
  /-- The run is over, or it goes on. -/
  overOrGoing : attendance.Over ∨ attendance.Going slices

/-- A slice that does not end the run has begun an instruction, or has met a pause that counted as a
slice before. -/
theorem executed_of_slice {attendance : Attendance} {slices cycles : Nat}
    (h : attendance.Over ∨ attendance.Going slices) (hBudget : 0 < cycles)
    (hGoesOn : ¬ (attendance.machine.execute cycles).2.Ended) :
    slices + 1 ≤ 2 * (attendance.machine.execute cycles).2.executed ∧
      ((∃ inspection, (attendance.machine.execute cycles).2.status = .paused inspection) ∨
        slices + 2 ≤ 2 * (attendance.machine.execute cycles).2.executed) := by
  rcases h with ⟨hEnded, -⟩ | ⟨-, ⟨hRunning, hCount⟩ | ⟨⟨inspection, hPaused⟩, hCount⟩⟩
  · rw [execute_of_status_ne_running hEnded.status_ne_running] at hGoesOn
    exact absurd hEnded hGoesOn
  · have hMore := (executed_lt_execute hRunning hBudget).resolve_left hGoesOn
    exact ⟨by omega, .inr (by omega)⟩
  · have hStill : attendance.machine.status ≠ .running := by simp [hPaused]
    rw [execute_of_status_ne_running hStill]
    exact ⟨hCount, .inl ⟨inspection, hPaused⟩⟩

/-- The response to a machine that presents a core reached on the answers so far follows the run, if
the machine has begun enough instructions. -/
theorem respond_follows {attendance : Attendance} (attendant : Attendant) {program : Program}
    {slices : Nat} {machine : Machine} {core : Core}
    (hRun : (Core.start program).RunsOn attendant.answer 0 core attendance.requests)
    (hPresents : machine.Presents core)
    (hCount : ¬ machine.Ended → slices + 1 ≤ 2 * machine.executed ∧
      ((∃ inspection, machine.status = .paused inspection) ∨ slices + 2 ≤ 2 * machine.executed)) :
    ∃ next, (attendance.respond attendant machine.event machine).Follows attendant.answer program
      (slices + 1) next := by
  cases hStatus : machine.status with
  | running =>
    have hEvent : machine.event = .running := by simp [Machine.event, hStatus]
    have hCount := hCount (by simp [Ended, hStatus])
    rw [hEvent]
    exact ⟨core, hRun, hPresents, .inr ⟨rfl, .inl ⟨hStatus, hCount.1⟩⟩⟩
  | paused inspection =>
    have hEvent : machine.event = .paused inspection := by simp [Machine.event, hStatus]
    have hCount := hCount (by simp [Ended, hStatus])
    have hRunning : machine.resume.status = .running := by simp [resume, hStatus]
    have hExecuted : machine.resume.executed = machine.executed := by simp [resume, hStatus]
    rw [hEvent]
    refine ⟨core, hRun, resume_presents hPresents, .inr ⟨rfl, .inl ⟨hRunning, ?_⟩⟩⟩
    exact hExecuted ▸ hCount.1
  | awaitingInput =>
    have hEvent : machine.event = .inputRequested := by simp [Machine.event, hStatus]
    have hCount := (hCount (by simp [Ended, hStatus])).2.resolve_left (by simp [hStatus])
    have hAsks := hPresents.of_awaiting hStatus
    obtain ⟨hCore, hLive⟩ :=
      enter_of_awaiting (attendant.answer attendance.requests) hStatus hAsks.1
    have hExecuted :
        (machine.enter (attendant.answer attendance.requests)).executed = machine.executed :=
      (congrArg Core.executed hCore).trans (congrArg Core.executed hAsks.1).symm
    rw [hEvent]
    refine ⟨core.answer (attendant.answer attendance.requests), hRun.trans (.of_asks hAsks.2 _),
      hCore ▸ hLive.presents, .inr ⟨rfl, ?_⟩⟩
    -- The line may leave the machine paused, which costs a slice of its own.
    rcases hLive with hRunning | hPaused
    · exact .inl ⟨hRunning, by rw [respond, hExecuted]; omega⟩
    · exact .inr ⟨hPaused, by rw [respond, hExecuted]; omega⟩
  | halted =>
    have hEvent : machine.event = .halted machine.output := by simp [Machine.event, hStatus]
    rw [hEvent]
    exact ⟨core, hRun, hPresents, .inl ⟨.inl hStatus, hEvent.symm⟩⟩
  | faulted fault =>
    have hEvent : machine.event = .faulted fault := by simp [Machine.event, hStatus]
    rw [hEvent]
    exact ⟨core, hRun, hPresents, .inl ⟨.inr ⟨fault, hStatus⟩, hEvent.symm⟩⟩

/-- One more slice follows the run further. -/
theorem Follows.slice {attendance : Attendance} (attendant : Attendant) {program : Program}
    {slices : Nat} {core : Core} (h : attendance.Follows attendant.answer program slices core)
    (hBudget : 0 < attendant.cycles) :
    ∃ next, (attendance.slice attendant).Follows attendant.answer program (slices + 1) next := by
  obtain ⟨next, hRun, hNext⟩ := execute_presents h.presents attendant.cycles
  have hReached := h.run.trans ⟨0, rfl, hRun⟩
  have hResponse :=
    respond_follows attendant hReached hNext (executed_of_slice h.overOrGoing hBudget)
  rwa [← execute_fst] at hResponse

/-- An attended run of a program follows the run on its answers. -/
theorem afterSlices_follows (answer : Nat → String) {budget : Nat → Nat}
    (hBudget : ∀ slice, 0 < budget slice) (program : Program) (pacing : Pacing) (slices : Nat) :
    ∃ core, (afterSlices answer budget (load program pacing) slices).Follows answer program
      slices core := by
  induction slices with
  | zero =>
    exact ⟨Core.start program, .refl _ _, presents_load program pacing,
      .inr ⟨rfl, .inl ⟨rfl, Nat.zero_le _⟩⟩⟩
  | succ slices ih =>
    obtain ⟨core, hFollows⟩ := ih
    exact hFollows.slice ⟨answer, budget slices, 1⟩ (hBudget slices)

/-- A final event is that of a run that is over. -/
theorem Follows.over_of_final {attendance : Attendance} {answer : Nat → String} {program : Program}
    {slices : Nat} {core : Core} (h : attendance.Follows answer program slices core)
    (hFinal : isFinal attendance.event = true) : attendance.Over := by
  rcases h.overOrGoing with hOver | ⟨hNotFinal, -⟩
  · exact hOver
  · rw [hFinal] at hNotFinal
    contradiction

/-- The machine of a run that goes on has the core that is reached. -/
theorem Follows.core_of_going {attendance : Attendance} {answer : Nat → String}
    {program : Program} {slices : Nat} {core : Core}
    (h : attendance.Follows answer program slices core) (hGoing : attendance.Going slices) :
    attendance.machine.core = core ∧ slices ≤ 2 * core.executed := by
  rcases hGoing.2 with ⟨hRunning, hCount⟩ | ⟨hPaused, hCount⟩
  · have hCore := h.presents.of_live (.inl hRunning)
    exact ⟨hCore, hCore ▸ hCount⟩
  · have hCore := h.presents.of_live (.inr hPaused)
    exact ⟨hCore, hCore ▸ Nat.le_of_succ_le hCount⟩

section

variable {answer : Nat → String} {budget : Nat → Nat} {program : Program} {pacing : Pacing}

/-- A run that cannot go on is attended to its end. -/
theorem exists_over (hBudget : ∀ slice, 0 < budget slice) (pacing : Pacing) {last : Core}
    {total : Nat} (hRun : (Core.start program).RunsOn answer 0 last total) (hStuck : last.Stuck) :
    ∃ slices, (afterSlices answer budget (load program pacing) slices).Over ∧
      (afterSlices answer budget (load program pacing) slices).Follows answer program slices
        last := by
  obtain ⟨core, hFollows⟩ :=
    afterSlices_follows answer hBudget program pacing (2 * last.executed + 1)
  have hOver : (afterSlices answer budget (load program pacing) (2 * last.executed + 1)).Over := by
    rcases hFollows.overOrGoing with hOver | hGoing
    · exact hOver
    · have hCount := (hFollows.core_of_going hGoing).2
      have hLast := (hFollows.run.rest_of_stuck hRun hStuck).executed_le
      omega
  obtain ⟨rfl, -⟩ :=
    hFollows.run.unique (hFollows.presents.stuck_of_ended hOver.1) hRun hStuck
  exact ⟨_, hOver, hFollows⟩

/-- An attended machine that tells that it halted has the core at the end of the run on the answers
given. -/
theorem run_of_event_halted (hBudget : ∀ slice, 0 < budget slice) {slices : Nat} {output : String}
    (h : (afterSlices answer budget (load program pacing) slices).event = .halted output) :
    let attendance := afterSlices answer budget (load program pacing) slices
    (Core.start program).RunsOn answer 0 attendance.machine.core attendance.requests ∧
      attendance.machine.core.turn = .ends ∧ attendance.machine.core.output = output := by
  intro attendance
  obtain ⟨core, hFollows⟩ := afterSlices_follows answer hBudget program pacing slices
  have hOver : attendance.Over := hFollows.over_of_final (by rw [h]; rfl)
  have hHalted := (event_eq_halted_iff _ output).1 (hOver.2.symm.trans h)
  obtain ⟨rfl, hEnds⟩ := hFollows.presents.of_halted hHalted.1
  exact ⟨hFollows.run, hEnds, hHalted.2⟩

/-- An attended machine that tells of a fault ends a run on the answers given at a turn that fails
by that fault. -/
theorem run_of_event_faulted (hBudget : ∀ slice, 0 < budget slice) {slices : Nat} {fault : Fault}
    (h : (afterSlices answer budget (load program pacing) slices).event = .faulted fault) :
    ∃ last, (Core.start program).RunsOn answer 0 last
        (afterSlices answer budget (load program pacing) slices).requests ∧
      last.turn = .fails fault := by
  obtain ⟨core, hFollows⟩ := afterSlices_follows answer hBudget program pacing slices
  have hOver := hFollows.over_of_final (by rw [h]; rfl)
  have hFaulted := (event_eq_faulted_iff _ fault).1 (hOver.2.symm.trans h)
  exact ⟨core, hFollows.run, (hFollows.presents.of_faulted hFaulted).2⟩

/-- An attended machine halts exactly if the run on the answers comes to the end of the program. -/
theorem exists_event_halted_iff (hBudget : ∀ slice, 0 < budget slice) (output : String) :
    (∃ slices, (afterSlices answer budget (load program pacing) slices).event = .halted output) ↔
      ∃ last total, (Core.start program).RunsOn answer 0 last total ∧ last.turn = .ends ∧
        last.output = output := by
  constructor
  · intro h
    obtain ⟨slices, hEvent⟩ := h
    exact ⟨_, _, run_of_event_halted hBudget hEvent⟩
  · intro h
    obtain ⟨last, total, hRun, hEnds, hOutput⟩ := h
    obtain ⟨slices, hOver, hFollows⟩ := exists_over hBudget pacing hRun (.inl hEnds)
    refine ⟨slices, hOver.2.trans ?_⟩
    rcases hFollows.presents.of_ended hOver.1 with ⟨-, hHalted, hCore⟩ | ⟨fault, hFails, -, -⟩
    · exact (event_eq_halted_iff _ output).2 ⟨hHalted, (congrArg Core.output hCore).trans hOutput⟩
    · rw [hEnds] at hFails
      contradiction

/-- An attended machine fails exactly if the run on the answers comes to a turn that fails. -/
theorem exists_event_faulted_iff (hBudget : ∀ slice, 0 < budget slice) (fault : Fault) :
    (∃ slices, (afterSlices answer budget (load program pacing) slices).event = .faulted fault) ↔
      ∃ last total, (Core.start program).RunsOn answer 0 last total ∧
        last.turn = .fails fault := by
  constructor
  · intro h
    obtain ⟨slices, hEvent⟩ := h
    obtain ⟨last, hRun, hFails⟩ := run_of_event_faulted hBudget hEvent
    exact ⟨last, _, hRun, hFails⟩
  · intro h
    obtain ⟨last, total, hRun, hFails⟩ := h
    obtain ⟨slices, hOver, hFollows⟩ := exists_over hBudget pacing hRun (.inr ⟨fault, hFails⟩)
    refine ⟨slices, hOver.2.trans ?_⟩
    rcases hFollows.presents.of_ended hOver.1 with ⟨hEnds, -, -⟩ | ⟨other, hOther, hFaulted, -⟩
    · rw [hEnds] at hFails
      contradiction
    · rw [hFails, Turn.fails.injEq] at hOther
      exact (event_eq_faulted_iff _ fault).2 (hOther ▸ hFaulted)

end

end Attendance

end ByteTape
