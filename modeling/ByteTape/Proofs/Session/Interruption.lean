import ByteTape.Proofs.Core.StatusTruth
import ByteTape.Proofs.Record.Completion
import ByteTape.Proofs.Session.Fidelity

/-!
# Interrupting a session

The interrupt key reaches a session in two ways: it is remembered until the next turn looks for it, or
the reading of a line reports it at once. Either way the turn after it finds a run that has not ended
and cancels it, or finds it cancelled already; it runs no instruction, asks for nothing and shows
nothing, and the session ends with the position at which the run was cancelled. No other turn ends a
session with such a report.
-/

namespace ByteTape

namespace Machine

/-- The run of a machine has not been ended by a cancellation. -/
def NotCancelled (machine : Machine) : Prop :=
  ∀ fault, machine.status = .faulted fault → fault.cause ≠ .interrupted

/-- A run that goes on has not been cancelled. -/
theorem Live.notCancelled {machine : Machine} (h : machine.Live) : machine.NotCancelled := by
  intro fault hFaulted
  rcases h with hRunning | ⟨inspection, hPaused⟩
  · simp [hRunning] at hFaulted
  · simp [hPaused] at hFaulted

/-- A run that goes on has not ended. -/
theorem Live.not_ended {machine : Machine} (h : machine.Live) : ¬ machine.Ended := by
  rcases h with hRunning | ⟨inspection, hPaused⟩
  · simp [Ended, hRunning]
  · simp [Ended, hPaused]

/-- No step cancels a run. -/
theorem Performed.notCancelled {machine after : Machine} {more : List Instruction}
    (h : machine.Performed after more) (hRunning : machine.status = .running) :
    after.NotCancelled := by
  cases h with
  | ended hEnd => exact Live.notCancelled (.inl hRunning)
  | completed instruction next hStatus hPacing hExecuted hJournal =>
    exact (live_retire (hStatus.trans hRunning) instruction next).notCancelled
  | waits =>
    intro fault hFaulted
    contradiction
  | fails found hCause =>
    intro fault hFaulted
    injection hFaulted with hFault
    exact hFault ▸ hCause

/-- Running cancels no run. -/
theorem NotCancelled.execute {machine : Machine} (h : machine.NotCancelled) (cycles : Nat) :
    (machine.execute cycles).2.NotCancelled := by
  refine execute_invariant (P := NotCancelled) ?_ ?_ h cycles
  · intro after _ _ _ fault hFaulted
    contradiction
  · intro after _ hRunning _
    exact (performed_step after).notCancelled hRunning

/-- A machine asks for a line exactly if it waits for one. -/
theorem event_eq_inputRequested_iff (machine : Machine) :
    machine.event = .inputRequested ↔ machine.status = .awaitingInput := by
  cases hStatus : machine.status <;> simp [event, hStatus]

/-- A machine tells of a pause exactly if it is paused. -/
theorem event_eq_paused_iff (machine : Machine) (inspection : Inspection) :
    machine.event = .paused inspection ↔ machine.status = .paused inspection := by
  cases hStatus : machine.status <;> simp [event, hStatus]

/-- Resuming leaves a paused machine running where it is. -/
theorem resume_of_paused {machine : Machine} {inspection : Inspection}
    (h : machine.status = .paused inspection) :
    machine.resume = { machine with status := .running } := by
  simp [resume, h]

end Machine

/-- Only the text of a cancellation begins with its title. -/
theorem Fault.cause_of_text_eq {fault : Fault} {rest : String}
    (h : fault.text = "INTERRUPTED" ++ rest) : fault.cause = .interrupted := by
  have hFirst := congrArg (fun text => text.toList.head?) h
  cases hCause : fault.cause <;> simp [text, hCause, Cause.title] at hFirst
  rfl

namespace Session

open CommandLine Attendance Machine

/-- The reply that the next turn of a session reads, if it asks for one. -/
def replyRead? (session : Session) : Option Reply :=
  (promptFor session.columns session.slice.1).map fun _ => session.terminal.script.headD .endOfInput

/-- The machine that is cancelled when a reply to the next turn brings an interrupt: a line that was
asked for as input is still entered. -/
def struck (session : Session) (reply : Reply) : Machine :=
  match session.slice.1, reply with
  | .inputRequested, .line _ text => session.slice.2.machine.enter text
  | _, _ => session.slice.2.machine

/-- The event of a slice is that of the machine after it. -/
theorem slice_fst (session : Session) : session.slice.1 = session.slice.2.machine.event :=
  execute_fst _ _

/-- A session that has ended stays so. -/
theorem afterTurns_of_error {session : Session} {turns : Nat} {ending : Ending}
    (h : session.afterTurns turns = .error ending) (more : Nat) :
    session.afterTurns (turns + more) = .error ending := by
  induction more with
  | zero => exact h
  | succ more ih => rw [← Nat.add_assoc, afterTurns, ih]

/-- A session that has ended did so in one of its turns. -/
theorem exists_last_turn {session : Session} {turns : Nat} {ending : Ending}
    (h : session.afterTurns turns = .error ending) :
    ∃ earlier < turns, ∃ before, session.afterTurns earlier = .ok before ∧
      before.turn = .error ending := by
  induction turns with
  | zero => contradiction
  | succ turns ih =>
    rw [afterTurns] at h
    cases hBefore : session.afterTurns turns with
    | ok before =>
      rw [hBefore] at h
      exact ⟨turns, Nat.lt_succ_self _, before, hBefore, h⟩
    | error found =>
      rw [hBefore] at h
      injection h with hFound
      obtain ⟨earlier, hLt, hLast⟩ := ih (hFound ▸ hBefore)
      exact ⟨earlier, Nat.lt_succ_of_lt hLt, hLast⟩

/-- A session whose run was ended by a fault reports it in the next turn, and nothing else happens. -/
theorem turn_of_faulted {session : Session} {fault : Fault}
    (h : session.machine.status = .faulted fault) :
    session.turn = .error ⟨.faulted fault, session.terminal.acknowledgeInterrupt⟩ ∧
      session.slice.2.machine = session.machine := by
  have hStill : ∀ cycles, session.machine.execute cycles = (.faulted fault, session.machine) := by
    intro cycles
    rw [execute_of_status_ne_running (by simp [h]), Machine.event, h]
  have hInterrupt := interrupt_of_ended (.inr ⟨fault, h⟩ : session.machine.Ended)
  have hSlice : session.slice = (.faulted fault,
      { session with terminal := session.terminal.acknowledgeInterrupt }) := by
    rw [slice, hInterrupt, ite_self, hStill]
  rw [turn, hSlice]
  exact ⟨rfl, rfl⟩

/-- A session that has cancelled a run reports the position in the next turn, and nothing else
happens. -/
theorem turn_of_cancelled {session : Session} {machine : Machine}
    (hMachine : session.machine = machine.interrupt) (hGoesOn : ¬ machine.Ended) :
    session.turn = .error ⟨.faulted (interruption machine.position),
        session.terminal.acknowledgeInterrupt⟩ ∧
      session.slice.2.machine.core = machine.core := by
  rw [interrupt_of_not_ended hGoesOn] at hMachine
  have hStatus : session.machine.status = .faulted (interruption machine.position) := by
    rw [hMachine]
    rfl
  obtain ⟨hTurn, hSlice⟩ := turn_of_faulted hStatus
  refine ⟨hTurn, ?_⟩
  rw [hSlice, hMachine]
  rfl

/-- A session whose interrupt key was pressed cancels a run that has not ended in the next turn, and
nothing else happens. -/
theorem turn_of_interrupted {session : Session} (hPressed : session.terminal.interrupted = true)
    (hGoesOn : ¬ session.machine.Ended) :
    session.turn = .error ⟨.faulted (interruption session.machine.position),
        session.terminal.acknowledgeInterrupt⟩ ∧
      session.slice.2.machine.core = session.machine.core := by
  -- Looking for the key comes to the same as having cancelled the run before the turn.
  have hEnded : session.machine.interrupt.Ended := by
    rw [interrupt_of_not_ended hGoesOn]
    exact .inr ⟨_, rfl⟩
  have hSlice : session.slice = { session with machine := session.machine.interrupt }.slice := by
    simp only [slice, hPressed, if_true, interrupt_of_ended hEnded]
  have hMachine : { session with machine := session.machine.interrupt }.machine =
      session.machine.interrupt := rfl
  rw [turn, hSlice]
  exact turn_of_cancelled hMachine hGoesOn

/-- A reply that is not calm is a signal, or a line during which the key was pressed. -/
theorem Reply.eq_of_not_calm {reply : Reply} (h : reply.isCalm = false) :
    reply = .signal ∨ ∃ text, reply = .line true text := by
  cases reply with
  | line interrupted text => exact .inr ⟨text, by simpa [Reply.isCalm] using h⟩
  | signal => exact .inl rfl
  | endOfInput => simp [Reply.isCalm] at h

/-- A turn that reads a reply has met a request or a pause that wants to be acknowledged. -/
theorem event_of_replyRead? {session : Session} {reply : Reply}
    (h : session.replyRead? = some reply) :
    session.terminal.script.headD .endOfInput = reply ∧
      (session.slice.1 = .inputRequested ∨
        ∃ inspection, session.slice.1 = .paused inspection ∧
          inspection.pause.acknowledge = true) := by
  obtain ⟨prompt, hPrompt, hReply⟩ := Option.map_eq_some_iff.1 h
  refine ⟨hReply, ?_⟩
  cases hEvent : session.slice.1 with
  | inputRequested => exact .inl rfl
  | paused inspection =>
    refine .inr ⟨inspection, rfl, ?_⟩
    by_contra hSilent
    simp [promptFor, hEvent, hSilent] at hPrompt
  | _ => simp [promptFor, hEvent] at hPrompt

/-- What a turn that reads a reply leaves of a session. -/
theorem turn_of_replyRead? {session : Session} {reply : Reply}
    (h : session.replyRead? = some reply) :
    ∃ after, session.turn = .ok after ∧
      after.machine =
        (if session.slice.1 = .inputRequested then answerInput session.slice.2.machine reply
          else answerPause session.slice.2.machine reply) ∧
      after.terminal.interrupted = reply.pressesInterrupt ∧
      after.terminal.script = session.terminal.script.tail ∧
      after.terminal.transcript.toList =
        session.terminal.transcript.toList ++ exchangesFor session.columns session.slice.1 := by
  obtain ⟨hReply, hEvent⟩ := event_of_replyRead? h
  obtain ⟨prompt, hPrompt, -⟩ := Option.map_eq_some_iff.1 h
  have hShow : CanShow session.slice.2.columns session.slice.1 := canShow_of_promptFor hPrompt
  have hTranscript := transcript_handle hShow
  have hTurn : session.turn = session.slice.2.handle session.slice.1 := rfl
  have hTerminal : session.slice.2.terminal = session.terminal.acknowledgeInterrupt := rfl
  rw [← hTurn] at hTranscript
  rcases hEvent with hAsked | ⟨inspection, hPaused, hAcknowledge⟩
  · have hDone : session.turn = .ok { session.slice.2 with
        machine := answerInput session.slice.2.machine reply
        terminal := (session.terminal.acknowledgeInterrupt.ask inputPrompt).2 } := by
      rw [hTurn, hAsked, handle, hTerminal, ← hReply]
      rfl
    rw [hDone] at hTranscript
    refine ⟨_, hDone, by rw [if_pos hAsked], ?_, rfl, hTranscript⟩
    rw [← hReply]
    exact Bool.false_or _
  · have hDrawable : Inspection.Drawable session.slice.2.columns := by
      rw [hPaused] at hShow
      exact hShow
    have hDone : session.turn = .ok { session.slice.2 with
        machine := answerPause session.slice.2.machine reply
        terminal := ((session.terminal.acknowledgeInterrupt.write
          (inspection.draw session.columns green)).ask (acknowledgmentPrompt inspection)).2 } := by
      rw [hTurn, hPaused, handle_paused hDrawable, if_pos hAcknowledge, hTerminal, ← hReply]
      rfl
    rw [hDone] at hTranscript
    refine ⟨_, hDone, by rw [if_neg (by simp [hPaused])], ?_, rfl, hTranscript⟩
    rw [← hReply]
    exact Bool.false_or _

/-- A turn that reads no reply and does not end the session has used up its budget, or has met a pause
that nobody needs to acknowledge. -/
theorem turn_of_silent {session after : Session} (hRead : session.replyRead? = none)
    (hTurn : session.turn = .ok after) :
    after.terminal.interrupted = false ∧
      ((session.slice.1 = .running ∧ after.machine = session.slice.2.machine) ∨
        ∃ inspection, session.slice.1 = .paused inspection ∧
          after.machine = session.slice.2.machine.resume) := by
  have hHandle : session.slice.2.handle session.slice.1 = .ok after := hTurn
  have hPrompt : promptFor session.slice.2.columns session.slice.1 = none :=
    Option.map_eq_none_iff.1 hRead
  cases hEvent : session.slice.1 with
  | running =>
    rw [hEvent] at hHandle
    injection hHandle with hAfter
    exact hAfter ▸ ⟨rfl, .inl ⟨rfl, rfl⟩⟩
  | inputRequested => simp [hEvent, promptFor] at hPrompt
  | paused inspection =>
    rw [hEvent] at hHandle
    have hDrawable : Inspection.Drawable session.slice.2.columns := canShow_of_handle hHandle
    have hSilent : ¬ inspection.pause.acknowledge = true := by
      intro hAcknowledge
      simp [hEvent, promptFor, hDrawable, hAcknowledge] at hPrompt
    rw [handle_paused hDrawable, if_neg hSilent] at hHandle
    injection hHandle with hAfter
    exact hAfter ▸ ⟨rfl, .inr ⟨inspection, rfl, rfl⟩⟩
  | halted output =>
    rw [hEvent] at hHandle
    contradiction
  | faulted fault =>
    rw [hEvent] at hHandle
    contradiction

/-- What a session asks for is asked for last. -/
theorem getLast?_exchangesFor {columns : Nat} {event : Event} {prompt : String}
    (h : promptFor columns event = some prompt) :
    (exchangesFor columns event).getLast? = some (.asked prompt) := by
  cases event with
  | inputRequested => exact congrArg (fun prompt => some (Exchange.asked prompt)) (Option.some.inj h)
  | paused inspection =>
    rw [promptFor] at h
    split at h
    · rename_i hBoth
      rw [exchangesFor, if_pos hBoth.2, ← Option.some.inj h]
      rfl
    · contradiction
  | _ => simp [promptFor] at h

/-- After a turn that reads an interrupt, the next one ends the session at the position at which the
run was cancelled, and no instruction is begun any more. -/
theorem turn_of_interrupt {session : Session} {reply : Reply}
    (hReply : session.replyRead? = some reply) (hInterrupt : reply.isCalm = false) :
    ∃ after, session.turn = .ok after ∧
      after.terminal.script = session.terminal.script.tail ∧
      after.terminal.transcript.toList =
        session.terminal.transcript.toList ++ exchangesFor session.columns session.slice.1 ∧
      after.turn = .error ⟨.faulted (interruption (session.struck reply).position),
        after.terminal.acknowledgeInterrupt⟩ ∧
      after.slice.2.machine.core = (session.struck reply).core := by
  obtain ⟨after, hTurn, hMachine, hPressed, hScript, hTranscript⟩ := turn_of_replyRead? hReply
  refine ⟨after, hTurn, hScript, hTranscript, ?_⟩
  obtain ⟨-, hEvent⟩ := event_of_replyRead? hReply
  rcases hEvent with hAsked | ⟨inspection, hPaused, -⟩
  · have hStatus := (event_eq_inputRequested_iff _).1 ((slice_fst session).symm.trans hAsked)
    rw [if_pos hAsked] at hMachine
    rcases Reply.eq_of_not_calm hInterrupt with rfl | ⟨text, rfl⟩
    · have hStruck : session.struck .signal = session.slice.2.machine := by simp [struck, hAsked]
      rw [hStruck]
      exact turn_of_cancelled hMachine (by simp [Ended, hStatus])
    · have hStruck : session.struck (.line true text) = after.machine := by
        simp [struck, hAsked, hMachine, answerInput]
      have hLive : after.machine.Live := by
        rw [hMachine, answerInput, enter_eq_retire text hStatus]
        exact live_retire rfl _ _
      rw [hStruck]
      exact turn_of_interrupted hPressed hLive.not_ended
  · have hStatus := (event_eq_paused_iff _ inspection).1 ((slice_fst session).symm.trans hPaused)
    have hStruck : session.struck reply = session.slice.2.machine := by simp [struck, hPaused]
    rw [if_neg (by simp [hPaused])] at hMachine
    rw [hStruck]
    rcases Reply.eq_of_not_calm hInterrupt with rfl | ⟨text, rfl⟩
    · exact turn_of_cancelled hMachine (by simp [Ended, hStatus])
    · rw [answerPause, resume_of_paused hStatus] at hMachine
      have hNext := turn_of_interrupted hPressed (by simp [Ended, hMachine])
      rw [hMachine] at hNext
      exact hNext

/-- The machine that is cancelled has begun no further instruction. It has gone past a request exactly
if the line was read. -/
theorem struck_frame {session : Session} {reply : Reply} (hReply : session.replyRead? = some reply)
    (hInterrupt : reply.isCalm = false) :
    (session.slice.1 = .inputRequested → (session.struck reply).position =
        (if reply = .signal then session.slice.2.machine.position
          else session.slice.2.machine.position + 1)) ∧
      (session.slice.1 ≠ .inputRequested →
        (session.struck reply).position = session.slice.2.machine.position) ∧
      (session.struck reply).executed = session.slice.2.machine.executed := by
  obtain ⟨-, hEvent⟩ := event_of_replyRead? hReply
  rcases hEvent with hAsked | ⟨inspection, hPaused, -⟩
  · have hStatus := (event_eq_inputRequested_iff _).1 ((slice_fst session).symm.trans hAsked)
    rcases Reply.eq_of_not_calm hInterrupt with rfl | ⟨text, rfl⟩
    · simp [struck, hAsked]
    · have hCore := core_retire { session.slice.2.machine with
        tape := session.slice.2.machine.tape.write (byteOfLine text)
        status := .running } .input (session.slice.2.machine.position + 1)
      rw [← enter_eq_retire text hStatus] at hCore
      have hPosition := congrArg Core.position hCore
      have hExecuted := congrArg Core.executed hCore
      have hStruck : session.struck (.line true text) = session.slice.2.machine.enter text := by
        simp [struck, hAsked]
      rw [hStruck, if_neg (by simp)]
      exact ⟨fun _ => hPosition, fun hOther => absurd hAsked hOther, hExecuted⟩
  · have hStruck : session.struck reply = session.slice.2.machine := by simp [struck, hPaused]
    rw [hStruck]
    exact ⟨fun hAsked => absurd (hPaused.symm.trans hAsked) (by simp), fun _ => rfl, rfl⟩

/-- A machine is reached from another by calls. -/
def ReachedFrom (fresh machine : Machine) : Prop :=
  ∃ calls, machine = fresh.afterCalls calls

/-- One more call reaches one more machine. -/
theorem ReachedFrom.call {fresh machine : Machine} (h : ReachedFrom fresh machine) (call : Call) :
    ReachedFrom fresh (machine.call call).2 := by
  obtain ⟨calls, rfl⟩ := h
  exact ⟨calls ++ [call], (afterCalls_append_singleton fresh calls call).symm⟩

/-- A slice reaches its machine by calls. -/
theorem ReachedFrom.slice {fresh : Machine} {session : Session}
    (h : ReachedFrom fresh session.machine) : ReachedFrom fresh session.slice.2.machine := by
  by_cases hPressed : session.terminal.interrupted = true
  · have hSlice : session.slice.2.machine =
        (session.machine.interrupt.execute session.cycles).2 := by simp [Session.slice, hPressed]
    rw [hSlice]
    exact (h.call .interrupt).call (.execute session.cycles)
  · have hSlice : session.slice.2.machine = (session.machine.execute session.cycles).2 := by
      simp [Session.slice, hPressed]
    rw [hSlice]
    exact h.call (.execute session.cycles)

/-- A session reaches its machine by calls, whatever its turns meet. -/
theorem ReachedFrom.turn {fresh : Machine} {session after : Session}
    (h : ReachedFrom fresh session.machine) (hTurn : session.turn = .ok after) :
    ReachedFrom fresh after.machine := by
  have hSlice := h.slice
  cases hRead : session.replyRead? with
  | some reply =>
    obtain ⟨next, hNext, hMachine, -⟩ := turn_of_replyRead? hRead
    rw [hTurn] at hNext
    injection hNext with hNext
    rw [hNext, hMachine]
    cases reply with
    | line interrupted text =>
      split
      · exact hSlice.call (.enter text)
      · exact hSlice.call .resume
    | signal =>
      split
      · exact hSlice.call .interrupt
      · exact hSlice.call .interrupt
    | endOfInput =>
      split
      · exact hSlice.call (.enter "")
      · exact hSlice.call .resume
  | none =>
    rcases (turn_of_silent hRead hTurn).2 with ⟨-, hMachine⟩ | ⟨inspection, -, hMachine⟩
    · exact hMachine ▸ hSlice
    · exact hMachine ▸ hSlice.call .resume

/-- The machine of a session is reached by calls on the machine it began with. -/
theorem reachedFrom_afterTurns {session after : Session} {turns : Nat}
    (h : session.afterTurns turns = .ok after) : ReachedFrom session.machine after.machine := by
  induction turns generalizing after with
  | zero =>
    injection h with hAfter
    exact hAfter ▸ ⟨[], rfl⟩
  | succ turns ih =>
    rw [afterTurns] at h
    cases hBefore : session.afterTurns turns with
    | error ending =>
      rw [hBefore] at h
      contradiction
    | ok before =>
      rw [hBefore] at h
      exact (ih hBefore).turn h

/-- A machine that is reached by calls waits for a line at an instruction for input of its source. -/
theorem ReachedFrom.instruction?_of_awaiting {source : String} {pacing : Pacing}
    {machine : Machine} (h : ReachedFrom (ofSource source pacing) machine)
    (hStatus : machine.status = .awaitingInput) :
    (Program.ofString source).instruction? machine.position = some .input := by
  obtain ⟨calls, rfl⟩ := h
  have hProgram := program_afterCalls (Program.ofString source) pacing calls
  have hTruthful := truthful_afterCalls (Program.ofString source) pacing calls
  have hHere := hTruthful.awaiting hStatus
  rwa [hProgram] at hHere

/-- No interrupt has reached a session. -/
structure Undisturbed (session : Session) : Prop where
  /-- The interrupt key was not pressed since the last look. -/
  calm : session.terminal.interrupted = false
  /-- The run was not cancelled. -/
  notCancelled : session.machine.NotCancelled

/-- At a session that no interrupt has reached, the machine after a slice was not cancelled. -/
theorem Undisturbed.slice {session : Session} (h : session.Undisturbed) :
    session.slice.2.machine.NotCancelled := by
  have hSlice : session.slice.2.machine = (session.machine.execute session.cycles).2 := by
    simp [Session.slice, h.calm]
  rw [hSlice]
  exact h.notCancelled.execute session.cycles

/-- A turn that reads no interrupt leaves a session undisturbed. -/
theorem Undisturbed.turn {session after : Session} (h : session.Undisturbed)
    (hReply : ∀ reply, session.replyRead? = some reply → reply.isCalm = true)
    (hTurn : session.turn = .ok after) : after.Undisturbed := by
  have hSlice := h.slice
  cases hRead : session.replyRead? with
  | some reply =>
    have hCalm := hReply reply hRead
    obtain ⟨next, hNext, hMachine, hPressed, -, -⟩ := turn_of_replyRead? hRead
    rw [hTurn] at hNext
    injection hNext with hNext
    subst hNext
    refine ⟨hPressed.trans (Reply.pressesInterrupt_of_calm hCalm), ?_⟩
    obtain ⟨-, hEvent⟩ := event_of_replyRead? hRead
    rcases hEvent with hAsked | ⟨inspection, hPaused, -⟩
    · have hStatus := (event_eq_inputRequested_iff _).1 ((slice_fst session).symm.trans hAsked)
      rw [hMachine, if_pos hAsked, answerInput_of_calm _ hCalm, enter_eq_retire _ hStatus]
      exact (live_retire rfl _ _).notCancelled
    · have hStatus := (event_eq_paused_iff _ inspection).1 ((slice_fst session).symm.trans hPaused)
      rw [hMachine, if_neg (by simp [hPaused]), answerPause_of_calm _ hCalm,
        resume_of_paused hStatus]
      exact Live.notCancelled (.inl rfl)
  | none =>
    obtain ⟨hPressed, hEvent⟩ := turn_of_silent hRead hTurn
    refine ⟨hPressed, ?_⟩
    rcases hEvent with ⟨-, hMachine⟩ | ⟨inspection, hPaused, hMachine⟩
    · exact hMachine ▸ hSlice
    · have hStatus := (event_eq_paused_iff _ inspection).1 ((slice_fst session).symm.trans hPaused)
      rw [hMachine, resume_of_paused hStatus]
      exact Live.notCancelled (.inl rfl)

/-- An exit that tells of no cancellation: a program came to its end, a drawing cannot be made, or an
instruction failed. -/
def Exit.Uncancelled (exit : Exit) : Prop :=
  (∃ output, exit = .halted output) ∨ exit = .overflow ∨
    ∃ fault, exit = .faulted fault ∧ fault.cause ≠ .interrupted

/-- A turn that ends a session that no interrupt has reached reports no cancellation. -/
theorem Undisturbed.exit {session : Session} {ending : Ending} (h : session.Undisturbed)
    (hTurn : session.turn = .error ending) : ending.exit.Uncancelled := by
  have hSlice := h.slice
  have hHandle : session.slice.2.handle session.slice.1 = .error ending := hTurn
  rw [slice_fst] at hHandle
  cases hStatus : session.slice.2.machine.status with
  | halted =>
    rw [Machine.event, hStatus] at hHandle
    injection hHandle with hEnding
    exact hEnding ▸ .inl ⟨_, rfl⟩
  | faulted fault =>
    rw [Machine.event, hStatus] at hHandle
    injection hHandle with hEnding
    exact hEnding ▸ .inr (.inr ⟨fault, rfl, hSlice fault hStatus⟩)
  | running =>
    rw [Machine.event, hStatus] at hHandle
    contradiction
  | awaitingInput =>
    rw [Machine.event, hStatus] at hHandle
    contradiction
  | paused inspection =>
    rw [Machine.event, hStatus] at hHandle
    by_cases hDrawable : Inspection.Drawable session.slice.2.columns
    · rw [handle_paused hDrawable] at hHandle
      dsimp only at hHandle
      split at hHandle <;> contradiction
    · rw [handle_paused_of_not_drawable hDrawable] at hHandle
      injection hHandle with hEnding
      exact hEnding ▸ .inr (.inl rfl)

/-- An interrupt was read before a session came to a turn, or the session is undisturbed there. -/
theorem undisturbed_or_interrupted {session after : Session} {turns : Nat}
    (h : session.Undisturbed) (hAfter : session.afterTurns turns = .ok after) :
    after.Undisturbed ∨
      ∃ earlier < turns, ∃ before reply, session.afterTurns earlier = .ok before ∧
        before.replyRead? = some reply ∧ reply.isCalm = false := by
  induction turns generalizing after with
  | zero =>
    injection hAfter with hAfter
    exact .inl (hAfter ▸ h)
  | succ turns ih =>
    rw [afterTurns] at hAfter
    cases hBefore : session.afterTurns turns with
    | error ending =>
      rw [hBefore] at hAfter
      contradiction
    | ok before =>
      rw [hBefore] at hAfter
      rcases ih hBefore with hCalm | ⟨earlier, hLt, hInterrupted⟩
      · by_cases hReply : ∀ reply, before.replyRead? = some reply → reply.isCalm = true
        · exact .inl (hCalm.turn hReply hAfter)
        · push Not at hReply
          obtain ⟨reply, hRead, hNot⟩ := hReply
          exact .inr ⟨turns, Nat.lt_succ_self _, before, reply, hBefore, hRead,
            Bool.eq_false_iff.2 hNot⟩
      · exact .inr ⟨earlier, Nat.lt_succ_of_lt hLt, hInterrupted⟩

/-- The exit of a session that was cancelled at a position. -/
theorem exit_interruption (position : Nat) :
    Exit.faulted (interruption position) =
      ⟨1, "", "\x1b[1m" ++ ("INTERRUPTED AT " ++ position.repr) ++ "\x1b[0m" ++ "\n"⟩ := by
  have hText : (interruption position).text = "INTERRUPTED AT " ++ position.repr := by
    simp only [Fault.text, interruption, Fault.placed, Fault.ofCause, Cause.title,
      Fault.positionText, Fault.noteText]
    rw [← String.append_assoc]
    exact String.append_empty
  rw [Exit.faulted, hText, bold]

/-- An exit that complains of an interrupt is that of a cancelled run. -/
theorem Exit.Uncancelled.not_complains {exit : Exit} (h : exit.Uncancelled) (rest : String) :
    exit.complaint ≠ "\x1b[1m" ++ ("INTERRUPTED" ++ rest) ++ "\x1b[0m" ++ "\n" := by
  intro hComplaint
  rcases h with ⟨output, rfl⟩ | rfl | ⟨fault, rfl, hCause⟩
  · have hLength := congrArg String.length hComplaint
    have hSilent : (Exit.halted output).complaint.length = 0 := rfl
    have hLine : "\n".length = 1 := rfl
    rw [String.length_append] at hLength
    omega
  · have hFirst := congrArg (fun text => text.toList.head?) hComplaint
    simp [Exit.overflow] at hFirst
  · have hBold : bold fault.text = "\x1b[1m" ++ ("INTERRUPTED" ++ rest) ++ "\x1b[0m" :=
      (String.append_left_inj "\n").1 hComplaint
    rw [bold, String.append_left_inj, String.append_right_inj] at hBold
    exact hCause (Fault.cause_of_text_eq hBold)

/-- A terminal at which a source was found remembers the interrupt key if it was pressed at the start
or while the source was asked for. -/
theorem interrupted_of_findSource {options : Options} {surroundings : Surroundings}
    {source : String} {terminal : Terminal}
    (h : findSource options surroundings = .ok (source, terminal)) :
    terminal.interrupted = (surroundings.terminal.interrupted ||
      (options.lacksSource &&
        (surroundings.terminal.script.headD .endOfInput).pressesInterrupt)) := by
  unfold findSource at h
  split at h
  · rename_i given hGiven
    simp only [Except.ok.injEq, Prod.mk.injEq] at h
    obtain ⟨-, rfl⟩ := h
    simp [Options.lacksSource, hGiven]
  · rename_i path hNone hPath
    split at h
    · simp only [Except.ok.injEq, Prod.mk.injEq] at h
      obtain ⟨-, rfl⟩ := h
      simp [Options.lacksSource, hPath]
    · contradiction
  · rename_i hNone hNoPath
    split at h
    · rename_i interrupted line after hLine
      simp only [Except.ok.injEq, Prod.mk.injEq] at h
      obtain ⟨-, rfl⟩ := h
      have hAsked := congrArg (fun asked => asked.2.interrupted) hLine
      simpa [Options.lacksSource, hNone, hNoPath, Terminal.ask] using hAsked.symm
    · contradiction

/-- An interrupt ends a session. If the key was pressed before the run, nothing is asked for or shown
any more, no instruction is begun, and the session ends with the report of an interrupt at address
zero. If a reply brings an interrupt, the prompt it replies to is the last thing that happens at the
terminal, no further instruction is begun, and the report has the position of the machine: that of the
request for a signal at a request, the one after it if the key was pressed during the line, which is
still entered, and the present one at an acknowledgment. And such a report is given only if there was
an interrupt. -/
theorem interrupt_ends_session (options : Options)
    (fileBytes : String → Except FileFailure ByteArray) (width : Option Nat) (script : List Reply)
    (pressed : Bool) (source : String) (terminal : Terminal)
    (hSource : findSource options ⟨fileBytes, width, .ofScript script pressed⟩ =
      .ok (source, terminal)) :
    let surroundings : Surroundings := ⟨fileBytes, width, .ofScript script pressed⟩
    let program := Program.ofString source
    let cancelledAt := fun position : Nat =>
      (⟨1, "", "\x1b[1m" ++ ("INTERRUPTED AT " ++ position.repr) ++ "\x1b[0m" ++ "\n"⟩ : Exit)
    let pressedBefore := pressed ||
      (options.lacksSource && (script.headD .endOfInput).pressesInterrupt)
    ∃ session, start options surroundings = .ok session ∧
      (pressedBefore = true → session.slice.2.machine.executed = 0 ∧
        ∀ turns, ∃ ending, serve surroundings (turns + 1) (.run options) = some ending ∧
          ending.exit = cancelledAt 0 ∧ ending.terminal.transcript = terminal.transcript ∧
          ending.terminal.script = terminal.script) ∧
      (∀ turns before reply, session.afterTurns turns = .ok before →
        before.replyRead? = some reply → reply.isCalm = false →
        let asking := before.slice.2.machine
        let struck := before.struck reply
        (before.slice.1 = .inputRequested →
          program.instruction? asking.position = some .input ∧
            struck.position =
              (if reply = .signal then asking.position else asking.position + 1)) ∧
        (before.slice.1 ≠ .inputRequested → struck.position = asking.position) ∧
        struck.executed = asking.executed ∧
        (∃ after, session.afterTurns (turns + 1) = .ok after ∧
          after.slice.2.machine.core = struck.core) ∧
        ∀ more, ∃ ending, serve surroundings (turns + 2 + more) (.run options) = some ending ∧
          ending.exit = cancelledAt struck.position ∧
          ending.terminal.transcript.toList =
            before.terminal.transcript.toList ++ exchangesFor before.columns before.slice.1 ∧
          ending.terminal.transcript.toList.getLast? =
            (promptFor before.columns before.slice.1).map Exchange.asked ∧
          ending.terminal.script = before.terminal.script.tail) ∧
      ∀ turns ending rest, serve surroundings turns (.run options) = some ending →
        ending.exit.complaint =
          "\x1b[1m" ++ ("INTERRUPTED" ++ rest) ++ "\x1b[0m" ++ "\n" →
        pressedBefore = true ∨
          ∃ earlier < turns, ∃ before reply, session.afterTurns earlier = .ok before ∧
            before.replyRead? = some reply ∧ reply.isCalm = false := by
  intro surroundings program cancelledAt pressedBefore
  have hPressed : terminal.interrupted = pressedBefore := interrupted_of_findSource hSource
  have hStart : start options surroundings = .ok ⟨machineFor options source,
      columnsFor options width, options.budget, terminal⟩ := by
    rw [start, hSource]
    rfl
  have hServe := serve_run_eq_some_iff hStart
  generalize hSession : (⟨machineFor options source, columnsFor options width, options.budget,
    terminal⟩ : Session) = session at hStart hServe
  have hMachine : session.machine = machineFor options source := by rw [← hSession]
  have hTerminal : session.terminal = terminal := by rw [← hSession]
  refine ⟨session, hStart, ?_, ?_, ?_⟩
  · intro hBefore
    have hKey : session.terminal.interrupted = true := by rw [hTerminal, hPressed, hBefore]
    have hFresh : ¬ session.machine.Ended := by
      rw [hMachine]
      exact Live.not_ended (.inl rfl)
    obtain ⟨hTurn, hCore⟩ := turn_of_interrupted hKey hFresh
    rw [hMachine] at hTurn hCore
    refine ⟨congrArg Core.executed hCore, fun turns => ?_⟩
    have hFirst : session.afterTurns 1 = .error _ := hTurn
    have hEnding := afterTurns_of_error hFirst turns
    rw [Nat.add_comm] at hEnding
    refine ⟨_, (hServe _ _).2 hEnding, exit_interruption 0, ?_⟩
    rw [hTerminal]
    exact ⟨rfl, rfl⟩
  · intro turns before reply hBefore hRead hInterrupt asking struck
    obtain ⟨hRequest, hPause, hExecuted⟩ := struck_frame hRead hInterrupt
    obtain ⟨after, hAfter, hScript, hTranscript, hEnds, hCore⟩ := turn_of_interrupt hRead hInterrupt
    have hNext : session.afterTurns (turns + 1) = .ok after := by
      rw [afterTurns, hBefore]
      exact hAfter
    refine ⟨fun hAsked => ⟨?_, hRequest hAsked⟩, hPause, hExecuted, ⟨after, hNext, hCore⟩, ?_⟩
    · have hReached := reachedFrom_afterTurns hBefore
      rw [hMachine] at hReached
      have hStatus := (event_eq_inputRequested_iff _).1 ((slice_fst before).symm.trans hAsked)
      exact hReached.slice.instruction?_of_awaiting hStatus
    · intro more
      have hLater : session.afterTurns (turns + 2) = after.turn := by rw [afterTurns, hNext]
      have hEnding := afterTurns_of_error (hLater.trans hEnds) more
      obtain ⟨prompt, hPrompt, -⟩ := Option.map_eq_some_iff.1 hRead
      have hLast := getLast?_exchangesFor hPrompt
      refine ⟨_, (hServe _ _).2 hEnding, exit_interruption _, hTranscript, ?_, hScript⟩
      rw [hPrompt, Option.map_some, ← hLast]
      refine (congrArg List.getLast? hTranscript).trans ?_
      exact List.getLast?_append_of_ne_nil _ (fun hNil => by simp [hNil] at hLast)
  · intro turns ending rest hEnding hComplaint
    have hError := (hServe turns ending).1 hEnding
    by_cases hBefore : pressedBefore = true
    · exact .inl hBefore
    · right
      have hCalm : session.Undisturbed := by
        refine ⟨by rw [hTerminal, hPressed, Bool.eq_false_iff.2 hBefore], ?_⟩
        rw [hMachine]
        exact Live.notCancelled (.inl rfl)
      obtain ⟨last, hLt, before, hLast, hTurn⟩ := exists_last_turn hError
      rcases undisturbed_or_interrupted hCalm hLast with hStill | ⟨earlier, hEarlier, hFound⟩
      · exact absurd hComplaint ((hStill.exit hTurn).not_complains rest)
      · exact ⟨earlier, Nat.lt_trans hEarlier hLt, hFound⟩

/-- The key is pressed while the last instruction of a program waits for its line. The line is still
entered, and the report has the address after the last instruction; a signal at the same prompt is
reported at the request. -/
theorem interrupt_ends_session_last :
    (serve ⟨fun _ => .error .missing, none, .ofScript [.line true "A", .line false "B"] false⟩ 2
      (.run { Options.none with source := some "," })).map Ending.exit =
        some ⟨1, "", "\x1b[1mINTERRUPTED AT 1\x1b[0m\n"⟩ ∧
      (serve ⟨fun _ => .error .missing, none, .ofScript [.signal] false⟩ 2
        (.run { Options.none with source := some "," })).map Ending.exit =
          some ⟨1, "", "\x1b[1mINTERRUPTED AT 0\x1b[0m\n"⟩ := by
  obtain ⟨pressed, hPressed, -, hLine, -⟩ := interrupt_ends_session
    { Options.none with source := some "," } (fun _ => .error .missing) none
    [.line true "A", .line false "B"] false "," _ rfl
  obtain ⟨signalled, hSignalled, -, hSignal, -⟩ := interrupt_ends_session
    { Options.none with source := some "," } (fun _ => .error .missing) none [.signal] false "," _ rfl
  injection hPressed with hPressed
  injection hSignalled with hSignalled
  subst hPressed hSignalled
  obtain ⟨-, -, -, -, hEnds⟩ := hLine 0 _ (.line true "A") rfl (by decide +kernel) rfl
  obtain ⟨-, -, -, -, hStops⟩ := hSignal 0 _ .signal rfl (by decide +kernel) rfl
  obtain ⟨ending, hEnding, hExit, -⟩ := hEnds 0
  obtain ⟨stop, hStop, hReport, -⟩ := hStops 0
  constructor
  · rw [hEnding, Option.map_some, hExit]
    rfl
  · rw [hStop, Option.map_some, hReport]
    rfl

end Session

end ByteTape
