import ByteTape.Proofs.Session.Dialogue

/-!
# Sessions render dialogues

Between two turns a session stands where the dialogue of its source does. A turn takes it over one or
more steps of that dialogue: it runs along the silent ones, asks for a line or tells of a pause as the
dialogue does, and ends as the dialogue does. So whatever the budget, what a session comes to is what
its dialogue comes to, and all that the dialogue comes to is reached by the session.
-/

namespace ByteTape

namespace Session

open CommandLine Attendance Machine

namespace Dialogue

/-- A session between two turns is where a dialogue is. If the run is to be cancelled, the interrupt key
was pressed or the machine is cancelled already; the pause after a line that was entered is still to
come. -/
def Stands (dialogue : Dialogue) (session : Session) : Prop :=
  (dialogue.cancelled = true ∧
      session.machine.status = .faulted (interruption dialogue.core.position)) ∨
    (session.terminal.interrupted = dialogue.cancelled ∧ session.machine.core = dialogue.core ∧
      session.machine.status =
        if dialogue.due then dialogue.core.statusAfter session.machine.pacing else .running)

/-- What a session has come to is what a dialogue has come to. -/
structure RenderedBy (dialogue : Dialogue) (state : Except Ending Session) (opening : List Exchange)
    (pacing : Pacing) (columns cycles : Nat) : Prop where
  /-- What has to be shown can be drawn. -/
  drawable : Inspection.Drawable columns
  /-- The terminal shows the dialogue. -/
  shown : dialogue.ShownAt (terminalOf state) opening pacing columns
  /-- A session stands where the dialogue does. -/
  stands : ∀ session, state = .ok session →
    session.machine.pacing = pacing ∧ session.columns = columns ∧ session.cycles = cycles ∧
      dialogue.Stands session
  /-- A session that is over has ended as the dialogue does. -/
  exits : ∀ ending, state = .error ending → dialogue.exit? = some ending.exit

section Handle

variable {dialogue : Dialogue} {session : Session} {opening : List Exchange}

/-- The exchanges of an event come at the end of the transcript. -/
theorem shownAt_handle {later : Dialogue} {event : Event} (hShow : CanShow session.columns event)
    (h : dialogue.ShownAt session.terminal opening session.machine.pacing session.columns)
    (hScript : (terminalOf (session.handle event)).script = later.script)
    (hEvents : later.events session.machine.pacing =
      dialogue.events session.machine.pacing ++ [event]) :
    later.ShownAt (terminalOf (session.handle event)) opening session.machine.pacing
      session.columns := by
  refine ⟨hScript, ?_⟩
  rw [transcript_handle hShow, h.transcript_eq, hEvents, List.flatMap_append, List.append_assoc,
    List.flatMap_singleton]

/-- Asking for a line is a moment that takes one reply. -/
theorem request_frame (dialogue : Dialogue) :
    dialogue.request.script = dialogue.script.tail ∧
      dialogue.request.cancelled = !dialogue.reply.isCalm ∧
      dialogue.request.moments = dialogue.moments ++ [.request] := by
  unfold request
  dsimp only
  split <;> exact ⟨rfl, rfl, rfl⟩

/-- The interrupt key is remembered with a line exactly if the line cancels the run. -/
theorem pressesInterrupt_eq_not_isCalm {reply : Reply} (h : reply ≠ .signal) :
    reply.pressesInterrupt = !reply.isCalm := by
  cases reply with
  | line interrupted text => simp [Reply.pressesInterrupt, Reply.isCalm]
  | signal => contradiction
  | endOfInput => rfl

/-- No reply changes the pacing. -/
theorem pacing_answer (machine : Machine) (reply : Reply) :
    (answerInput machine reply).pacing = machine.pacing ∧
      (answerPause machine reply).pacing = machine.pacing := by
  cases reply with
  | line interrupted text => exact ⟨pacing_enter machine text, pacing_resume machine⟩
  | signal => exact ⟨pacing_call machine .interrupt, pacing_call machine .interrupt⟩
  | endOfInput => exact ⟨pacing_enter machine "", pacing_resume machine⟩

/-- Only a signal does not enter a line. -/
theorem answerInput_of_ne_signal (machine : Machine) {reply : Reply} (h : reply ≠ .signal) :
    answerInput machine reply = machine.enter reply.text := by
  cases reply with
  | signal => contradiction
  | _ => rfl

/-- Only a signal does not end a pause. -/
theorem answerPause_of_ne_signal (machine : Machine) {reply : Reply} (h : reply ≠ .signal) :
    answerPause machine reply = machine.resume := by
  cases reply with
  | signal => contradiction
  | _ => rfl

/-- A machine that was cancelled where a dialogue is stands there. -/
theorem stands_of_interrupt {machine : Machine} (hCancelled : dialogue.cancelled = true)
    (hMachine : session.machine = machine.interrupt) (hGoesOn : ¬ machine.Ended)
    (hPosition : machine.position = dialogue.core.position) : dialogue.Stands session := by
  refine .inl ⟨hCancelled, ?_⟩
  rw [hMachine, interrupt_of_not_ended hGoesOn, ← hPosition]
  rfl

/-- A session asks for a line as the dialogue does. -/
theorem Reflects.renders_request (h : dialogue.Reflects session.machine)
    (hDrawable : Inspection.Drawable session.columns)
    (hShown : dialogue.ShownAt session.terminal opening session.machine.pacing session.columns)
    (hCalm : session.terminal.interrupted = false)
    (hStatus : session.machine.status = .awaitingInput) :
    dialogue.request.RenderedBy (session.handle .inputRequested) opening session.machine.pacing
      session.columns session.cycles := by
  obtain ⟨hScript, hCancelled, hMoments⟩ := dialogue.request_frame
  obtain ⟨hCore, hTurn⟩ := h.presents.of_awaiting hStatus
  have hReply : session.terminal.script.headD .endOfInput = dialogue.reply := by
    rw [reply, hShown.script_eq]
  refine ⟨hDrawable, shownAt_handle trivial hShown ?_ ?_, ?_, by simp [handle]⟩
  · rw [hScript, ← hShown.script_eq]
    rfl
  · rw [events, hMoments, List.flatMap_append]
    rfl
  · intro after hAfter
    have hLater : after = { session with
        machine := answerInput session.machine dialogue.reply
        terminal := (session.terminal.ask inputPrompt).2 } := by
      rw [← hReply]
      exact (Except.ok.inj hAfter).symm
    have hPressed : after.terminal.interrupted = dialogue.reply.pressesInterrupt := by
      rw [hLater, Terminal.ask, hCalm, hReply]
      exact Bool.false_or _
    have hMachine : after.machine = answerInput session.machine dialogue.reply := by rw [hLater]
    have hPacing := (pacing_answer session.machine dialogue.reply).1
    rw [← hMachine] at hPacing
    refine ⟨hPacing, by rw [hLater], by rw [hLater], ?_⟩
    by_cases hSignal : dialogue.reply = .signal
    · rw [hSignal] at hMachine hCancelled
      refine stands_of_interrupt hCancelled hMachine (by simp [Ended, hStatus]) ?_
      have hPosition : session.machine.position = dialogue.core.position :=
        congrArg Core.position hCore
      rw [hPosition, request, if_pos hSignal]
      rfl
    · rw [answerInput_of_ne_signal _ hSignal] at hMachine
      have hEntered := (enter_of_awaiting dialogue.reply.text hStatus hCore).1
      have hAnswered := status_enter dialogue.reply.text hStatus
      rw [← hMachine] at hEntered hAnswered
      have hRequest : dialogue.request.core = dialogue.core.answer dialogue.reply.text ∧
          dialogue.request.due = true := by
        rw [request, if_neg hSignal]
        exact ⟨rfl, rfl⟩
      refine .inr ⟨?_, ?_, ?_⟩
      · rw [hPressed, hCancelled, pressesInterrupt_eq_not_isCalm hSignal]
      · rw [hEntered, hRequest.1]
      · rw [if_pos hRequest.2, hRequest.1, hAnswered, hEntered, hPacing]

/-- A pause is one event that the dialogue tells. -/
theorem events_tell {inspection : Inspection} {pacing : Pacing}
    (h : dialogue.core.pauseShown? pacing = some inspection) (step : Bool) :
    (dialogue.tell step).events pacing = dialogue.events pacing ++ [.paused inspection] := by
  have hMoments : (dialogue.tell step).moments =
      dialogue.moments ++ [.completion dialogue.core] := by
    unfold tell
    dsimp only
    split <;> rfl
  rw [events, hMoments, List.flatMap_append, List.flatMap_singleton, Moment.events, h]
  rfl

/-- A session tells of a pause as the dialogue does. -/
theorem Reflects.renders_tell (h : dialogue.Reflects session.machine)
    (hDrawable : Inspection.Drawable session.columns)
    (hShown : dialogue.ShownAt session.terminal opening session.machine.pacing session.columns)
    (hCalm : session.terminal.interrupted = false) {inspection : Inspection}
    (hStatus : session.machine.status = .paused inspection)
    (hPause : dialogue.core.pauseShown? session.machine.pacing = some inspection) :
    (dialogue.tell session.machine.pacing.step).RenderedBy (session.handle (.paused inspection))
      opening session.machine.pacing session.columns session.cycles := by
  have hCore : session.machine.core = dialogue.core :=
    h.presents.of_live (.inr ⟨inspection, hStatus⟩)
  have hEvents := events_tell hPause session.machine.pacing.step
  have hWants := Core.acknowledge_of_pauseShown? hPause
  have hResume := resume_of_paused hStatus
  have hReply : session.terminal.script.headD .endOfInput = dialogue.reply := by
    rw [reply, hShown.script_eq]
  by_cases hAcknowledge : inspection.pause.acknowledge = true
  · rw [hAcknowledge] at hWants
    have hTell : dialogue.tell session.machine.pacing.step =
        { dialogue with
          due := false
          script := dialogue.script.tail
          cancelled := !dialogue.reply.isCalm
          moments := dialogue.moments ++ [Moment.completion dialogue.core] } := by
      rw [tell, ← hWants]
      rfl
    have hHandle : session.handle (.paused inspection) = .ok { session with
        machine := answerPause session.machine dialogue.reply
        terminal := ((session.terminal.write (inspection.draw session.columns green)).ask
          (acknowledgmentPrompt inspection)).2 } := by
      rw [handle_paused hDrawable, if_pos hAcknowledge, ← hReply]
      rfl
    refine ⟨hDrawable, shownAt_handle hDrawable hShown ?_ hEvents, ?_, by simp [hHandle]⟩
    · rw [hHandle, hTell]
      exact congrArg List.tail hShown.script_eq
    · intro after hAfter
      rw [hHandle, Except.ok.injEq] at hAfter
      subst hAfter
      refine ⟨(pacing_answer session.machine dialogue.reply).2, rfl, rfl, ?_⟩
      rw [hTell]
      by_cases hSignal : dialogue.reply = .signal
      · refine stands_of_interrupt (by rw [hSignal]; rfl) (by rw [hSignal]; rfl)
          (by simp [Ended, hStatus]) ?_
        exact congrArg Core.position hCore
      · refine .inr ⟨?_, ?_, ?_⟩
        · rw [← pressesInterrupt_eq_not_isCalm hSignal, ← hReply]
          simp [Terminal.ask, Terminal.write, hCalm]
        · rw [answerPause_of_ne_signal _ hSignal, hResume]
          exact hCore
        · rw [answerPause_of_ne_signal _ hSignal, hResume]
          rfl
  · rw [Bool.not_eq_true] at hAcknowledge
    rw [hAcknowledge] at hWants
    have hTell : dialogue.tell session.machine.pacing.step =
        { dialogue with
          due := false
          moments := dialogue.moments ++ [Moment.completion dialogue.core] } := by
      simp [tell, ← hWants]
    have hHandle : session.handle (.paused inspection) = .ok { session with
        machine := session.machine.resume
        terminal := session.terminal.write (inspection.draw session.columns green) } := by
      simp [handle_paused hDrawable, hAcknowledge]
    refine ⟨hDrawable, shownAt_handle hDrawable hShown ?_ hEvents, ?_, by simp [hHandle]⟩
    · rw [hHandle, hTell]
      exact hShown.script_eq
    · intro after hAfter
      rw [hHandle, Except.ok.injEq] at hAfter
      subst hAfter
      refine ⟨pacing_resume session.machine, rfl, rfl, .inr ?_⟩
      rw [hTell, hResume]
      exact ⟨hCalm.trans h.calm.symm, hCore, rfl⟩

/-- A dialogue that is reflected by a machine whose run is over ends with the event of the machine. -/
theorem Reflects.exit_of_ended {machine : Machine} (h : dialogue.Reflects machine)
    (hEnded : machine.Ended) :
    ∃ exit, exitAfter? machine.event = some exit ∧ dialogue.exit? = some exit := by
  have hDue : dialogue.due = false := by
    rcases h.told with ⟨hDue, -⟩ | ⟨inspection, -, hPaused, -⟩
    · exact hDue
    · simp [Ended, hPaused] at hEnded
  rcases hEnded with hHalted | ⟨fault, hFaulted⟩
  · obtain ⟨hCore, hTurn⟩ := h.presents.of_halted hHalted
    have hOutput : machine.output = dialogue.core.output := congrArg Core.output hCore
    refine ⟨.halted machine.output, by simp [Machine.event, hHalted, exitAfter?], ?_⟩
    simp [exit?, h.calm, hDue, hTurn, hOutput]
  · have hTurn := (h.presents.of_faulted hFaulted).2
    refine ⟨.faulted fault, by simp [Machine.event, hFaulted, exitAfter?], ?_⟩
    simp [exit?, h.calm, hDue, hTurn]

/-- A machine that stands still at the end of a dialogue has ended its run. -/
theorem Reflects.ended_of_exit? {machine : Machine} {exit : Exit} (h : dialogue.Reflects machine)
    (hExit : dialogue.exit? = some exit) (hStill : machine.status ≠ .running) : machine.Ended := by
  cases hStatus : machine.status with
  | running => contradiction
  | awaitingInput =>
    have hTurn := (h.presents.of_awaiting hStatus).2
    simp [exit?, h.calm, hTurn] at hExit
  | paused inspection =>
    rcases h.told with ⟨-, hNoPause⟩ | ⟨-, hDue, -⟩
    · exact absurd hStatus (hNoPause inspection)
    · simp [exit?, h.calm, hDue] at hExit
  | halted => exact .inl hStatus
  | faulted fault => exact .inr ⟨fault, hStatus⟩

/-- An event that ends a session leaves the terminal as it is. -/
theorem handle_of_exitAfter? {event : Event} {exit : Exit} (h : exitAfter? event = some exit) :
    session.handle event = .error ⟨exit, session.terminal⟩ := by
  cases event with
  | halted output => rw [handle, ← Option.some.inj h]
  | faulted fault => rw [handle, ← Option.some.inj h]
  | _ => contradiction

/-- A session that ends with the dialogue renders it. -/
theorem renderedBy_error {terminal : Terminal} {pacing : Pacing} {columns : Nat} {exit : Exit}
    (hDrawable : Inspection.Drawable columns)
    (hShown : dialogue.ShownAt terminal opening pacing columns) (hExit : dialogue.exit? = some exit)
    (cycles : Nat) : dialogue.RenderedBy (.error ⟨exit, terminal⟩) opening pacing columns cycles := by
  refine ⟨hDrawable, hShown, by simp, ?_⟩
  intro ending hEnding
  rw [← Except.error.inj hEnding]
  exact hExit

/-- A session deals with the event of a machine that stands still as the dialogue goes on. -/
theorem Reflects.renders_next (h : dialogue.Reflects session.machine)
    (hDrawable : Inspection.Drawable session.columns)
    (hShown : dialogue.ShownAt session.terminal opening session.machine.pacing session.columns)
    (hCalm : session.terminal.interrupted = false) (hStill : session.machine.status ≠ .running) :
    (dialogue.next session.machine.pacing.step).RenderedBy (session.handle session.machine.event)
      opening session.machine.pacing session.columns session.cycles := by
  by_cases hEnded : session.machine.Ended
  · obtain ⟨exit, hEvent, hExit⟩ := h.exit_of_ended hEnded
    rw [handle_of_exitAfter? hEvent, next_of_exit? hExit]
    exact renderedBy_error hDrawable hShown hExit session.cycles
  · rcases h.told with ⟨hDue, hNoPause⟩ | ⟨inspection, hDue, hStatus, hPause⟩
    · have hStatus : session.machine.status = .awaitingInput := by
        cases hStatus : session.machine.status with
        | running => contradiction
        | awaitingInput => rfl
        | paused inspection => exact absurd hStatus (hNoPause inspection)
        | halted => simp [Ended, hStatus] at hEnded
        | faulted fault => simp [Ended, hStatus] at hEnded
      have hTurn := (h.presents.of_awaiting hStatus).2
      have hNext : dialogue.next session.machine.pacing.step = dialogue.request := by
        simp [next, h.calm, hDue, hTurn]
      rw [hNext, (event_eq_inputRequested_iff _).2 hStatus]
      exact h.renders_request hDrawable hShown hCalm hStatus
    · have hNext : dialogue.next session.machine.pacing.step =
          dialogue.tell session.machine.pacing.step := by
        simp [next, h.calm, hDue]
      rw [hNext, (event_eq_paused_iff _ inspection).2 hStatus]
      exact h.renders_tell hDrawable hShown hCalm hStatus hPause

end Handle

/-- A session that nobody wants to cancel has a machine that reflects the dialogue, or will after
telling silently of the instruction completed last. -/
theorem Stands.exists_reflects {dialogue : Dialogue} {session : Session}
    (h : dialogue.Stands session) (hCalm : dialogue.cancelled = false) :
    session.terminal.interrupted = false ∧
      ∃ steps, dialogue.SilentFor session.machine.pacing steps ∧
        (dialogue.after session.machine.pacing.step steps).core = dialogue.core ∧
        (dialogue.after session.machine.pacing.step steps).Reflects session.machine := by
  rcases h with ⟨hCancelled, -⟩ | ⟨hPressed, hCore, hStatus⟩
  · rw [hCalm] at hCancelled
    contradiction
  · refine ⟨hPressed.trans hCalm, ?_⟩
    cases hDue : dialogue.due with
    | false =>
      rw [hDue] at hStatus
      have hRunning : session.machine.status = .running := hStatus
      refine ⟨0, silentFor_zero _ _, rfl, reflects_of_told hCalm hDue ?_ (by simp [hRunning])⟩
      rw [Presents, hRunning]
      exact hCore
    | true =>
      rw [hDue] at hStatus
      rcases Core.statusAfter_cases dialogue.core session.machine.pacing with
        ⟨hShown, hAfter⟩ | ⟨inspection, hShown, hAfter⟩
      · have hRunning : session.machine.status = .running := hStatus.trans hAfter
        obtain ⟨hTell, hSilent⟩ := silent_tell hShown
        have hNext : dialogue.next session.machine.pacing.step =
            dialogue.tell session.machine.pacing.step := by
          simp [next, hCalm, hDue]
        refine ⟨1, .succ (hNext ▸ hSilent) (silentFor_zero _ _), ?_⟩
        rw [after, after, hNext, hTell]
        refine ⟨rfl, reflects_of_told hCalm rfl ?_ (by simp [hRunning])⟩
        rw [Presents, hRunning]
        exact hCore
      · have hPaused : session.machine.status = .paused inspection := hStatus.trans hAfter
        refine ⟨0, silentFor_zero _ _, rfl, hCalm, ?_, .inr ⟨inspection, hDue, hPaused, hShown⟩⟩
        rw [Presents, hPaused]
        exact hCore

/-- A session whose run is to be cancelled reports so in the next turn. -/
theorem Stands.turn_of_cancelled {dialogue : Dialogue} {session : Session}
    (h : dialogue.Stands session) (hCancelled : dialogue.cancelled = true) :
    session.turn = .error ⟨.faulted (interruption dialogue.core.position),
      session.terminal.acknowledgeInterrupt⟩ := by
  rcases h with ⟨-, hStatus⟩ | ⟨hPressed, hCore, hStatus⟩
  · exact (turn_of_faulted hStatus).1
  · have hGoesOn : ¬ session.machine.Ended := by
      rcases Core.statusAfter_cases dialogue.core session.machine.pacing with
        ⟨-, hAfter⟩ | ⟨inspection, -, hAfter⟩
      · exact Live.not_ended (.inl (by rw [hStatus, hAfter, ite_self]))
      · cases hDue : dialogue.due with
        | false => exact Live.not_ended (.inl (by simp [hStatus, hDue]))
        | true => exact Live.not_ended (.inr ⟨inspection, by simp [hStatus, hDue, hAfter]⟩)
    have hPosition : session.machine.position = dialogue.core.position :=
      congrArg Core.position hCore
    rw [← hPosition]
    exact (turn_of_interrupted (hPressed.trans hCancelled) hGoesOn).1

/-- A turn takes a session over at least one step of the dialogue. All but the last of them are silent,
and if the dialogue was at its end, so is the session. -/
theorem RenderedBy.turn {dialogue : Dialogue} {session : Session} {opening : List Exchange}
    {pacing : Pacing} {columns cycles : Nat}
    (h : dialogue.RenderedBy (.ok session) opening pacing columns cycles) (hCycles : 0 < cycles) :
    ∃ steps, 0 < steps ∧
      (∀ step < steps,
        (dialogue.after pacing.step step).ShownAt session.terminal opening pacing columns) ∧
      (dialogue.after pacing.step steps).RenderedBy session.turn opening pacing columns cycles ∧
      ∀ exit, dialogue.exit? = some exit → ∃ ending, session.turn = .error ending := by
  obtain ⟨rfl, rfl, rfl, hStands⟩ := h.stands session rfl
  have hShown : dialogue.ShownAt session.terminal opening session.machine.pacing session.columns :=
    h.shown
  cases hCancelled : dialogue.cancelled with
  | true =>
    have hTurn := hStands.turn_of_cancelled hCancelled
    have hExit : dialogue.exit? = some (.faulted (interruption dialogue.core.position)) := by
      simp [exit?, hCancelled]
    refine ⟨1, Nat.one_pos, ?_, ?_, fun _ _ => ⟨_, hTurn⟩⟩
    · intro step hStep
      rw [after_of_exit? hExit]
      exact hShown
    · have hForgotten : dialogue.ShownAt session.terminal.acknowledgeInterrupt opening
          session.machine.pacing session.columns := ⟨hShown.script_eq, hShown.transcript_eq⟩
      rw [after_of_exit? hExit, hTurn]
      exact renderedBy_error h.drawable hForgotten hExit session.cycles
  | false =>
    obtain ⟨hCalm, first, hFirst, hSame, hReflects⟩ := hStands.exists_reflects hCancelled
    obtain ⟨second, hSecond, hRan⟩ := hReflects.execute session.cycles
    have hSilent := hFirst.append hSecond
    have hTurn := turn_of_calm hCalm
    have hPacing := pacing_execute session.machine session.cycles
    have hShownAfter := hShown.of_silent (hSilent (first + second) (Nat.le_refl _))
    have hFurther := hReflects.executed_lt hRan
    rw [execute_fst] at hTurn
    rw [hSame, ← after_add] at hFurther
    rw [← after_add] at hRan
    generalize (session.machine.execute session.cycles).2 = ran at hTurn hPacing hRan hFurther
    rw [hTurn]
    by_cases hRunning : ran.status = .running
    · have hEvent : ran.event = .running := by simp [Machine.event, hRunning]
      have hMoved := hFurther hRunning hCycles
      obtain ⟨hCore, hDue⟩ := hRan.of_running hRunning
      rw [hEvent]
      refine ⟨first + second, ?_, ?_, ⟨h.drawable, hShownAfter, ?_, by simp [handle]⟩, ?_⟩
      · by_contra hNone
        rw [Nat.eq_zero_of_not_pos hNone] at hMoved
        exact Nat.lt_irrefl _ hMoved
      · intro step hStep
        exact hShown.of_silent (hSilent step (Nat.le_of_lt hStep))
      · intro after hAfter
        rw [← Except.ok.inj hAfter]
        refine ⟨hPacing, rfl, rfl, .inr ⟨hCalm.trans hRan.calm.symm, hCore, ?_⟩⟩
        rw [hDue]
        exact hRunning
      · intro exit hExit
        rw [after_of_exit? hExit] at hMoved
        exact absurd hMoved (Nat.lt_irrefl _)
    · have hShownRan : (dialogue.after session.machine.pacing.step (first + second)).ShownAt
          session.terminal opening ran.pacing session.columns := by
        rw [hPacing]
        exact hShownAfter
      have hNext := @Reflects.renders_next _ { session with machine := ran } opening hRan
        h.drawable hShownRan hCalm hRunning
      rw [hPacing] at hNext
      refine ⟨first + second + 1, Nat.succ_pos _, ?_, ?_, ?_⟩
      · intro step hStep
        exact hShown.of_silent (hSilent step (Nat.le_of_lt_succ hStep))
      · rw [after_add]
        exact hNext
      · intro exit hExit
        rw [after_of_exit? hExit] at hRan
        obtain ⟨found, hEvent, -⟩ := hRan.exit_of_ended (hRan.ended_of_exit? hExit hRunning)
        exact ⟨_, handle_of_exitAfter? hEvent⟩

/-- However many turns a session takes, it has come to what the dialogue comes to. -/
theorem RenderedBy.exists_steps {dialogue : Dialogue} {session : Session} {opening : List Exchange}
    {pacing : Pacing} {columns cycles : Nat}
    (h : dialogue.RenderedBy (.ok session) opening pacing columns cycles) (hCycles : 0 < cycles)
    (turns : Nat) :
    ∃ steps, (dialogue.after pacing.step steps).RenderedBy (session.afterTurns turns) opening pacing
      columns cycles := by
  induction turns with
  | zero => exact ⟨0, h⟩
  | succ turns ih =>
    obtain ⟨steps, hSteps⟩ := ih
    rw [afterTurns]
    cases hState : session.afterTurns turns with
    | error ending =>
      rw [hState] at hSteps
      exact ⟨steps, hSteps⟩
    | ok later =>
      rw [hState] at hSteps
      obtain ⟨more, -, -, hTurn, -⟩ := hSteps.turn hCycles
      refine ⟨steps + more, ?_⟩
      rw [after_add]
      exact hTurn

/-- A session that renders the end of a dialogue is over, or will be after one more turn. -/
theorem RenderedBy.exists_ending {dialogue : Dialogue} {session : Session} {turns : Nat}
    {opening : List Exchange} {pacing : Pacing} {columns cycles : Nat} {exit : Exit}
    (h : dialogue.RenderedBy (session.afterTurns turns) opening pacing columns cycles)
    (hCycles : 0 < cycles) (hExit : dialogue.exit? = some exit) :
    ∃ later ending, session.afterTurns later = .error ending ∧ ending.exit = exit ∧
      dialogue.ShownAt ending.terminal opening pacing columns := by
  -- In either case an ending that renders the dialogue is found.
  have hFound : ∃ later ending, session.afterTurns later = .error ending ∧
      dialogue.RenderedBy (.error ending) opening pacing columns cycles := by
    cases hState : session.afterTurns turns with
    | error ending =>
      rw [hState] at h
      exact ⟨turns, ending, hState, h⟩
    | ok later =>
      rw [hState] at h
      obtain ⟨steps, -, -, hTurn, hEnds⟩ := h.turn hCycles
      obtain ⟨ending, hEnding⟩ := hEnds exit hExit
      rw [after_of_exit? hExit, hEnding] at hTurn
      refine ⟨turns + 1, ending, ?_, hTurn⟩
      rw [afterTurns, hState]
      exact hEnding
  obtain ⟨later, ending, hEnding, hRendered⟩ := hFound
  have hSame := (hRendered.exits ending rfl).symm.trans hExit
  exact ⟨later, ending, hEnding, Option.some.inj hSame, hRendered.shown⟩

/-- However many steps a dialogue takes, the session shows it at some time, and if the dialogue is at
its end, the session ends so. -/
theorem RenderedBy.exists_turns {dialogue : Dialogue} {session : Session} {opening : List Exchange}
    {pacing : Pacing} {columns cycles : Nat}
    (h : dialogue.RenderedBy (.ok session) opening pacing columns cycles) (hCycles : 0 < cycles)
    (steps : Nat) :
    let later := dialogue.after pacing.step steps
    (∃ turns, later.ShownAt (terminalOf (session.afterTurns turns)) opening pacing columns) ∧
      ∀ exit, later.exit? = some exit →
        ∃ turns ending, session.afterTurns turns = .error ending ∧ ending.exit = exit ∧
          later.ShownAt ending.terminal opening pacing columns := by
  induction steps using Nat.strong_induction_on generalizing dialogue session with
  | _ steps ih =>
    intro later
    obtain ⟨more, hMore, hShown, hTurn, -⟩ := h.turn hCycles
    have hFirst : session.afterTurns 1 = session.turn := rfl
    rw [← hFirst] at hTurn
    by_cases hSoon : steps < more
    · -- The dialogue has not yet come to where the first turn takes the session.
      refine ⟨⟨0, hShown steps hSoon⟩, ?_⟩
      intro exit hExit
      have hSame : dialogue.after pacing.step more = later := by
        obtain ⟨rest, rfl⟩ := Nat.exists_eq_add_of_lt hSoon
        rw [Nat.add_assoc, after_add]
        exact after_of_exit? hExit pacing.step _
      rw [hSame] at hTurn
      exact hTurn.exists_ending hCycles hExit
    · obtain ⟨rest, rfl⟩ := Nat.exists_eq_add_of_le (Nat.le_of_not_lt hSoon)
      have hLater : later = (dialogue.after pacing.step more).after pacing.step rest :=
        after_add dialogue pacing.step more rest
      cases hState : session.turn with
      | error ending =>
        rw [hFirst, hState] at hTurn
        have hExit := hTurn.exits ending rfl
        have hSame : later = dialogue.after pacing.step more := by
          rw [hLater, after_of_exit? hExit]
        rw [hSame]
        refine ⟨⟨1, ?_⟩, ?_⟩
        · rw [hFirst, hState]
          exact hTurn.shown
        · intro exit hFound
          rw [hExit] at hFound
          exact ⟨1, ending, hState, Option.some.inj hFound, hTurn.shown⟩
      | ok next =>
        rw [hFirst, hState] at hTurn
        have hSucc : ∀ turns, session.afterTurns (turns + 1) = next.afterTurns turns := by
          intro turns
          rw [afterTurns_succ, hState]
        obtain ⟨⟨turns, hTurns⟩, hEnds⟩ := ih rest (by omega) hTurn
        rw [← hLater, ← hSucc] at hTurns
        refine ⟨⟨turns + 1, hTurns⟩, ?_⟩
        intro exit hExit
        rw [hLater] at hExit
        obtain ⟨last, ending, hEnding, hSame, hLast⟩ := hEnds exit hExit
        rw [← hSucc] at hEnding
        rw [← hLater] at hLast
        exact ⟨last + 1, ending, hEnding, hSame, hLast⟩

end Dialogue

end Session

end ByteTape
