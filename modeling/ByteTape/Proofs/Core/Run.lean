import ByteTape.Proofs.Core.Basic

/-!
# Runs of a core

A run goes from core to core, one turn after the other, and takes one line at every request. Given
the lines it is determined: a run that cannot go on contains every other run from the same core
whose lines agree with its own. A machine that is called from outside presents, at every moment,
the core of a run that took exactly the lines the machine accepted; budgets, pauses and calls that
do not fit only decide how far that run has got.
-/

namespace ByteTape

/-- Two sequences of lines agree position by position as far as both of them go. -/
def AgreeAsFar (first second : List String) : Prop :=
  ∀ place, place < first.length → place < second.length → first[place]? = second[place]?

/-- Agreeing lines begin with the same line and agree after it. -/
theorem AgreeAsFar.of_cons {line other : String} {first second : List String}
    (h : AgreeAsFar (line :: first) (other :: second)) :
    line = other ∧ AgreeAsFar first second := by
  refine ⟨Option.some.inj (h 0 (Nat.zero_lt_succ _) (Nat.zero_lt_succ _)), ?_⟩
  intro place hFirst hSecond
  have hNext := h (place + 1) (Nat.succ_lt_succ hFirst) (Nat.succ_lt_succ hSecond)
  rwa [List.getElem?_cons_succ, List.getElem?_cons_succ] at hNext

namespace Core

/-- From one core to another by turns, with the lines taken on the way. -/
inductive Run : Core → List String → Core → Prop
  /-- No turn is taken. -/
  | refl (core : Core) : Run core [] core
  /-- An instruction is completed by itself. -/
  | moves {core next last : Core} {lines : List String} (hTurn : core.turn = .moves next)
    (rest : Run next lines last) : Run core lines last
  /-- A request is answered. -/
  | asks {core last : Core} {lines : List String} (line : String) (hTurn : core.turn = .asks)
    (rest : Run (core.answer line) lines last) : Run core (line :: lines) last

/-- A core that takes no further turn. -/
def Stuck (core : Core) : Prop :=
  core.turn = .ends ∨ ∃ fault, core.turn = .fails fault

/-- Two runs in a row are a run. -/
theorem Run.trans {first middle last : Core} {lines more : List String}
    (hFirst : Run first lines middle) (hSecond : Run middle more last) :
    Run first (lines ++ more) last := by
  induction hFirst with
  | refl core => exact hSecond
  | moves hTurn rest ih => exact .moves hTurn (ih hSecond)
  | asks line hTurn rest ih => exact .asks line hTurn (ih hSecond)

/-- A run goes on with a completed instruction. -/
theorem Run.snoc_moves {first core next : Core} {lines : List String} (h : Run first lines core)
    (hTurn : core.turn = .moves next) : Run first lines next := by
  have hRun := h.trans (.moves hTurn (.refl next))
  rwa [List.append_nil] at hRun

/-- A core that takes no further turn is at the end of its runs. -/
theorem Run.eq_of_stuck {core last : Core} {lines : List String} (h : Run core lines last)
    (hStuck : core.Stuck) : lines = [] ∧ last = core := by
  cases h with
  | refl => exact ⟨rfl, rfl⟩
  | moves hTurn rest =>
    rcases hStuck with hEnds | ⟨fault, hFails⟩
    · rw [hEnds] at hTurn
      contradiction
    · rw [hFails] at hTurn
      contradiction
  | asks line hTurn rest =>
    rcases hStuck with hEnds | ⟨fault, hFails⟩
    · rw [hEnds] at hTurn
      contradiction
    · rw [hFails] at hTurn
      contradiction

/-- A run that cannot go on contains every run from the same core on agreeing lines. -/
theorem Run.rest_of_stuck {core last stop : Core} {lines taken : List String}
    (hRun : Run core taken stop) (hFull : Run core lines last) (hStuck : last.Stuck)
    (hAgree : AgreeAsFar taken lines) :
    ∃ left, lines = taken ++ left ∧ Run stop left last := by
  induction hRun generalizing lines with
  | refl core => exact ⟨lines, rfl, hFull⟩
  | moves hTurn rest ih =>
    cases hFull with
    | refl =>
      have hNone := (Run.moves hTurn rest).eq_of_stuck hStuck
      obtain ⟨rfl, rfl⟩ := hNone
      exact ⟨[], rfl, .refl _⟩
    | moves hTurn' rest' =>
      rw [hTurn, Turn.moves.injEq] at hTurn'
      subst hTurn'
      exact ih rest' hAgree
    | asks line hTurn' rest' =>
      rw [hTurn] at hTurn'
      contradiction
  | asks line hTurn rest ih =>
    cases hFull with
    | refl =>
      have hNone := (Run.asks line hTurn rest).eq_of_stuck hStuck
      exact absurd hNone.1 (List.cons_ne_nil _ _)
    | moves hTurn' rest' =>
      rw [hTurn] at hTurn'
      contradiction
    | asks other hTurn' rest' =>
      obtain ⟨rfl, hTail⟩ := hAgree.of_cons
      obtain ⟨left, hLines, hLeft⟩ := ih rest' hTail
      exact ⟨left, by rw [hLines, List.cons_append], hLeft⟩

/-- Two runs from one core that cannot go on and took agreeing lines are the same run. -/
theorem Run.unique {core first second : Core} {lines others : List String}
    (hFirst : Run core lines first) (hSecond : Run core others second) (hEnd : first.Stuck)
    (hStop : second.Stuck) (hAgree : AgreeAsFar lines others) :
    lines = others ∧ first = second := by
  obtain ⟨left, hLines, hLeft⟩ := hFirst.rest_of_stuck hSecond hStop hAgree
  obtain ⟨hNone, hSame⟩ := hLeft.eq_of_stuck hEnd
  rw [hNone, List.append_nil] at hLines
  exact ⟨hLines.symm, hSame.symm⟩

/-- What every turn keeps is kept along a run. -/
theorem Run.invariant {P : Core → Prop}
    (hMoves : ∀ core next, P core → core.turn = .moves next → P next)
    (hAnswer : ∀ core line, P core → core.turn = .asks → P (core.answer line))
    {core last : Core} {lines : List String} (hRun : Run core lines last) (h : P core) :
    P last := by
  induction hRun with
  | refl core => exact h
  | moves hTurn rest ih => exact ih (hMoves _ _ h hTurn)
  | asks line hTurn rest ih => exact ih (hAnswer _ line h hTurn)

/-- A run stays in its program. -/
theorem Run.program_eq {core last : Core} {lines : List String} (hRun : Run core lines last) :
    last.program = core.program :=
  hRun.invariant (P := fun current => current.program = core.program)
    (fun _ _ hCore hTurn => (frame_of_moves hTurn).1.trans hCore) (fun _ _ hCore _ => hCore) rfl

end Core

namespace Machine

open ByteTape.Core

/-- The status of a machine is true of a core, and the machine computes with that core. -/
def Presents (machine : Machine) (core : Core) : Prop :=
  match machine.status with
  | .running => machine.core = core
  | .awaitingInput => machine.core = core.begun ∧ core.turn = .asks
  | .paused _ => machine.core = core
  | .halted => machine.core = core ∧ core.turn = .ends
  | .faulted fault => machine.core = core.begun ∧ core.turn = .fails fault

/-- The run of a machine was cancelled at a core, perhaps during a request. -/
def Cancelled (machine : Machine) (core : Core) : Prop :=
  (∃ fault, machine.status = .faulted fault ∧ fault.cause = .interrupted) ∧
    (machine.core = core ∨ machine.core = core.begun)

/-- The run of a machine is over. -/
def Ended (machine : Machine) : Prop :=
  machine.status = .halted ∨ ∃ fault, machine.status = .faulted fault

/-- Whether a run is over can be computed. -/
instance (machine : Machine) : Decidable machine.Ended :=
  match h : machine.status with
  | .halted => .isTrue (.inl h)
  | .faulted fault => .isTrue (.inr ⟨fault, h⟩)
  | .running => .isFalse (by simp [Ended, h])
  | .awaitingInput => .isFalse (by simp [Ended, h])
  | .paused _ => .isFalse (by simp [Ended, h])

/-- A run that is over does not go on. -/
theorem Ended.status_ne_running {machine : Machine} (h : machine.Ended) :
    machine.status ≠ .running := by
  rcases h with hHalted | ⟨fault, hFaulted⟩
  · simp [hHalted]
  · simp [hFaulted]

/-- The lines a call brings to a machine that waits for one. -/
def acceptedBy (machine : Machine) : Call → List String
  | .enter line => if machine.status = .awaitingInput then [line] else []
  | _ => []

/-- The lines a machine accepts during a sequence of calls. -/
def accepted (machine : Machine) : List Call → List String
  | [] => []
  | call :: calls => machine.acceptedBy call ++ (machine.call call).2.accepted calls

/-- A machine that is not standing still presents its own core. -/
theorem Live.presents {machine : Machine} (h : machine.Live) : machine.Presents machine.core := by
  rcases h with hRunning | ⟨inspection, hPaused⟩
  · simp [Presents, hRunning]
  · simp [Presents, hPaused]

/-- A machine that is not standing still has the core it presents. -/
theorem Presents.of_live {machine : Machine} {core : Core} (h : machine.Presents core)
    (hLive : machine.Live) : machine.core = core := by
  rcases hLive with hRunning | ⟨inspection, hPaused⟩
  · simpa [Presents, hRunning] using h
  · simpa [Presents, hPaused] using h

/-- A machine that waits for a line has begun the request. -/
theorem Presents.of_awaiting {machine : Machine} {core : Core} (h : machine.Presents core)
    (hStatus : machine.status = .awaitingInput) :
    machine.core = core.begun ∧ core.turn = .asks := by
  simpa [Presents, hStatus] using h

/-- A machine that has halted has the core at the end of the program. -/
theorem Presents.of_halted {machine : Machine} {core : Core} (h : machine.Presents core)
    (hStatus : machine.status = .halted) : machine.core = core ∧ core.turn = .ends := by
  simpa [Presents, hStatus] using h

/-- A machine that has failed has begun the instruction that fails. -/
theorem Presents.of_faulted {machine : Machine} {core : Core} (h : machine.Presents core)
    {fault : Fault} (hStatus : machine.status = .faulted fault) :
    machine.core = core.begun ∧ core.turn = .fails fault := by
  simpa [Presents, hStatus] using h

/-- A machine has the core it presents, up to an instruction begun and not completed. -/
theorem Presents.core_or_begun {machine : Machine} {core : Core} (h : machine.Presents core) :
    machine.core = core ∨ machine.core = core.begun := by
  cases hStatus : machine.status with
  | running => exact .inl (h.of_live (.inl hStatus))
  | paused inspection => exact .inl (h.of_live (.inr ⟨inspection, hStatus⟩))
  | awaitingInput => exact .inr (h.of_awaiting hStatus).1
  | halted => exact .inl (h.of_halted hStatus).1
  | faulted fault => exact .inr (h.of_faulted hStatus).1

/-- A fresh machine presents the first core of its program. -/
theorem presents_load (program : Program) (pacing : Pacing) :
    (load program pacing).Presents (Core.start program) :=
  rfl

/-- What a machine presents depends on its core and status only. -/
theorem Presents.congr {machine other : Machine} {core : Core} (h : machine.Presents core)
    (hCore : other.core = machine.core) (hStatus : other.status = machine.status) :
    other.Presents core := by
  rw [Presents, hStatus, hCore]
  exact h

/-- Running goes on with the run, without taking a line. -/
theorem execute_presents {machine : Machine} {core : Core} (h : machine.Presents core)
    (cycles : Nat) :
    ∃ next, Run core [] next ∧ (machine.execute cycles).2.Presents next := by
  refine execute_invariant (P := fun machine => ∃ next, Run core [] next ∧ machine.Presents next)
    ?_ ?_ ⟨core, .refl core, h⟩ cycles
  · intro machine hMachine hRunning hEnd
    obtain ⟨next, hRun, hNext⟩ := hMachine
    have hCore := hNext.of_live (.inl hRunning)
    subst hCore
    exact ⟨machine.core, hRun, rfl, (turn_eq_ends_iff _).2 hEnd⟩
  · intro machine hMachine hRunning hInside
    obtain ⟨next, hRun, hNext⟩ := hMachine
    have hCore := hNext.of_live (.inl hRunning)
    subst hCore
    have hStepped := step_stepped hRunning
    cases hTurn : machine.core.turn with
    | ends => exact absurd ((turn_eq_ends_iff _).1 hTurn) (Nat.not_le_of_lt hInside)
    | moves next =>
      rw [hTurn] at hStepped
      obtain ⟨rfl, hLive⟩ := hStepped
      exact ⟨machine.step.core, hRun.snoc_moves hTurn, hLive.presents⟩
    | asks =>
      rw [hTurn] at hStepped
      obtain ⟨hCore, hStatus⟩ := hStepped
      refine ⟨machine.core, hRun, ?_⟩
      rw [Presents, hStatus]
      exact ⟨hCore, hTurn⟩
    | fails fault =>
      rw [hTurn] at hStepped
      obtain ⟨hCore, hStatus⟩ := hStepped
      refine ⟨machine.core, hRun, ?_⟩
      rw [Presents, hStatus]
      exact ⟨hCore, hTurn⟩

/-- A line goes on with the run if it is asked for, and does nothing otherwise. -/
theorem enter_presents {machine : Machine} {core : Core} (h : machine.Presents core)
    (line : String) :
    ∃ next, Run core (machine.acceptedBy (.enter line)) next ∧
      (machine.enter line).Presents next := by
  by_cases hStatus : machine.status = .awaitingInput
  · have hAsks := h.of_awaiting hStatus
    obtain ⟨hCore, hLive⟩ := enter_of_awaiting line hStatus hAsks.1
    refine ⟨core.answer line, ?_, ?_⟩
    · rw [acceptedBy, if_pos hStatus]
      exact .asks line hAsks.2 (.refl _)
    · rw [← hCore]
      exact hLive.presents
  · obtain ⟨hCore, hSame⟩ := enter_of_not_awaiting line hStatus
    refine ⟨core, ?_, h.congr hCore hSame⟩
    rw [acceptedBy, if_neg hStatus]
    exact .refl core

/-- Ending a pause leaves the run where it is. -/
theorem resume_presents {machine : Machine} {core : Core} (h : machine.Presents core) :
    machine.resume.Presents core := by
  cases hStatus : machine.status with
  | paused inspection =>
    have hResume : machine.resume = { machine with status := .running } := by
      simp [resume, hStatus]
    rw [hResume]
    exact h.of_live (.inr ⟨inspection, hStatus⟩)
  | _ =>
    rw [resume_of_not_paused machine (by simp [hStatus])]
    exact h

/-- Every call but a cancellation goes on with the run by the lines it brings. -/
theorem call_presents {machine : Machine} {core : Core} (h : machine.Presents core) {call : Call}
    (hCall : call ≠ .interrupt) :
    ∃ next, Run core (machine.acceptedBy call) next ∧ (machine.call call).2.Presents next := by
  cases call with
  | execute cycles => exact execute_presents h cycles
  | enter line => exact enter_presents h line
  | resume => exact ⟨core, .refl core, resume_presents h⟩
  | interrupt => contradiction

/-- Without cancellation a machine presents the run on the lines it accepted. -/
theorem afterCalls_presents {machine : Machine} {core : Core} (h : machine.Presents core)
    {calls : List Call} (hCalls : .interrupt ∉ calls) :
    ∃ next, Run core (machine.accepted calls) next ∧ (machine.afterCalls calls).Presents next := by
  induction calls generalizing machine core with
  | nil => exact ⟨core, .refl core, h⟩
  | cons call calls ih =>
    rw [List.mem_cons, not_or] at hCalls
    obtain ⟨middle, hFirst, hMiddle⟩ := call_presents h (Ne.symm hCalls.1)
    obtain ⟨next, hRest, hNext⟩ := ih hMiddle hCalls.2
    exact ⟨next, hFirst.trans hRest, hNext⟩

/-- A machine whose run has ended by a fault keeps its core and status. -/
theorem call_of_faulted {machine : Machine} {fault : Fault} (h : machine.status = .faulted fault)
    (call : Call) :
    (machine.call call).2.core = machine.core ∧ (machine.call call).2.status = .faulted fault := by
  cases call with
  | execute cycles =>
    have hExecute := execute_of_status_ne_running (by simp [h] : machine.status ≠ .running) cycles
    simp [call, hExecute, h]
  | enter line =>
    have hEnter := enter_of_not_awaiting line (by simp [h] : machine.status ≠ .awaitingInput)
    exact ⟨hEnter.1, hEnter.2.trans h⟩
  | resume =>
    have hResume := resume_of_not_paused machine (by simp [h])
    simp [call, hResume, h]
  | interrupt => simp [call, interrupt, h]

/-- A run that has ended is not cancelled any more. -/
theorem interrupt_of_ended {machine : Machine} (h : machine.Ended) :
    machine.interrupt = machine := by
  rcases h with hHalted | ⟨fault, hFaulted⟩
  · simp [interrupt, hHalted]
  · simp [interrupt, hFaulted]

/-- A run that has not ended is cancelled where it is. -/
theorem interrupt_of_not_ended {machine : Machine} (h : ¬ machine.Ended) :
    machine.interrupt = machine.fail (interruption machine.position) := by
  unfold interrupt
  split
  · rename_i hHalted
    exact absurd (.inl hHalted) h
  · rename_i fault hFaulted
    exact absurd (.inr ⟨fault, hFaulted⟩) h
  · rfl

/-- Cancelling a run that has not ended leaves it cancelled where it was. -/
theorem interrupt_presents {machine : Machine} {core : Core} (h : machine.Presents core) :
    machine.interrupt.Presents core ∨ machine.interrupt.Cancelled core := by
  by_cases hEnded : machine.Ended
  · left
    rw [interrupt_of_ended hEnded]
    exact h
  · right
    rw [interrupt_of_not_ended hEnded]
    exact ⟨⟨_, rfl, rfl⟩, h.core_or_begun⟩

/-- Whatever is called, a machine presents a run on the lines it accepted or was cancelled on such
a run. -/
theorem afterCalls_run {machine : Machine} {core : Core}
    (h : machine.Presents core ∨ machine.Cancelled core) (calls : List Call) :
    ∃ next, Run core (machine.accepted calls) next ∧
      ((machine.afterCalls calls).Presents next ∨ (machine.afterCalls calls).Cancelled next) := by
  induction calls generalizing machine core with
  | nil => exact ⟨core, .refl core, h⟩
  | cons call calls ih =>
    have hCall : ∃ middle, Run core (machine.acceptedBy call) middle ∧
        ((machine.call call).2.Presents middle ∨ (machine.call call).2.Cancelled middle) := by
      rcases h with hPresents | ⟨⟨fault, hStatus, hCause⟩, hCore⟩
      · by_cases hInterrupt : call = .interrupt
        · rw [hInterrupt]
          exact ⟨core, .refl core, interrupt_presents hPresents⟩
        · obtain ⟨middle, hRun, hMiddle⟩ := call_presents hPresents hInterrupt
          exact ⟨middle, hRun, .inl hMiddle⟩
      · have hNone : machine.acceptedBy call = [] := by
          cases call <;> simp [acceptedBy, hStatus]
        obtain ⟨hSame, hFaulted⟩ := call_of_faulted hStatus call
        refine ⟨core, ?_, .inr ⟨⟨fault, hFaulted, hCause⟩, ?_⟩⟩
        · rw [hNone]
          exact .refl core
        · rw [hSame]
          exact hCore
    obtain ⟨middle, hFirst, hMiddle⟩ := hCall
    obtain ⟨next, hRest, hNext⟩ := ih hMiddle
    exact ⟨next, hFirst.trans hRest, hNext⟩

/-- Whatever is called on a fresh machine, its core is that of a run from the start, up to an
instruction begun and not completed; and the run is over when the machine has halted. -/
theorem exists_run_afterCalls (program : Program) (pacing : Pacing) (calls : List Call) :
    ∃ core, Run (Core.start program) ((load program pacing).accepted calls) core ∧
      (((load program pacing).afterCalls calls).core = core ∨
        ((load program pacing).afterCalls calls).core = core.begun) ∧
      (((load program pacing).afterCalls calls).status = .halted → core.turn = .ends) := by
  obtain ⟨core, hRun, hPresents | ⟨⟨fault, hStatus, -⟩, hCore⟩⟩ :=
    afterCalls_run (.inl (presents_load program pacing)) calls
  · exact ⟨core, hRun, hPresents.core_or_begun, fun hHalted => (hPresents.of_halted hHalted).2⟩
  · refine ⟨core, hRun, hCore, ?_⟩
    rw [hStatus]
    exact fun hHalted => absurd hHalted (by simp)

end Machine

end ByteTape
