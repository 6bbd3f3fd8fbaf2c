import ByteTape.Proofs.Core.Progress
import ByteTape.Proofs.Session.Reading

/-!
# A session is an attended run

As long as nobody presses the interrupt key, a session at a terminal does with its machine what an
attendant does who answers with the lines read at the prompts for input: turn by turn the machines
are the same, and what happens at the terminal is what is heard from the attended run, event by event.
So a session ends exactly if the run does, its exit tells how, and budgets decide neither.
-/

namespace ByteTape

namespace Session

open CommandLine Attendance Machine

/-- How a session ends with an event, if the event ends it. -/
def exitAfter? : Event → Option Exit
  | .halted output => some (.halted output)
  | .faulted fault => some (.faulted fault)
  | _ => none

/-- No calm reply comes with the interrupt key. -/
theorem Reply.pressesInterrupt_of_calm {reply : Reply} (h : reply.isCalm = true) :
    reply.pressesInterrupt = false := by
  cases reply with
  | line interrupted text => simpa [Reply.isCalm, Reply.pressesInterrupt] using h
  | signal => rfl
  | endOfInput => rfl

/-- A calm terminal that began with a script: every prompt has taken one reply from it, and the
interrupt key was not pressed. -/
structure Terminal.Consumes (terminal : Terminal) (script : List Reply) : Prop where
  /-- The replies to come are those that no prompt has taken. -/
  script_eq : terminal.script = script.drop (promptCount terminal.transcript.toList)
  /-- The interrupt key was not pressed. -/
  calm : terminal.interrupted = false

/-- A text that is written takes no reply. -/
theorem Terminal.Consumes.write {terminal : Terminal} {script : List Reply}
    (h : terminal.Consumes script) (text : String) : (terminal.write text).Consumes script := by
  refine ⟨?_, h.calm⟩
  have hCount : promptCount (terminal.write text).transcript.toList =
      promptCount terminal.transcript.toList := by
    simp [promptCount, Terminal.write, Exchange.isPrompt]
  rw [hCount]
  exact h.script_eq

/-- The next reply of a calm script is calm. -/
theorem Terminal.Consumes.isCalm {terminal : Terminal} {script : List Reply}
    (h : terminal.Consumes script) (hCalm : ∀ reply ∈ script, reply.isCalm = true) :
    (terminal.script.headD .endOfInput).isCalm = true := by
  cases hScript : terminal.script with
  | nil => rfl
  | cons reply rest =>
    have hMember : reply ∈ terminal.script := by simp [hScript]
    rw [h.script_eq] at hMember
    exact hCalm reply (List.mem_of_mem_drop hMember)

/-- A prompt takes one reply. -/
theorem Terminal.Consumes.ask {terminal : Terminal} {script : List Reply}
    (h : terminal.Consumes script) (hCalm : ∀ reply ∈ script, reply.isCalm = true)
    (prompt : String) : (terminal.ask prompt).2.Consumes script := by
  have hReply := h.isCalm hCalm
  have hCount : promptCount (terminal.ask prompt).2.transcript.toList =
      promptCount terminal.transcript.toList + 1 := by
    simp [promptCount, Terminal.ask, Exchange.isPrompt]
  constructor
  · rw [hCount, ← List.tail_drop, ← h.script_eq]
    rfl
  · rw [Terminal.ask, h.calm, Bool.false_or]
    exact Reply.pressesInterrupt_of_calm hReply

/-- At a calm terminal a turn is a slice, and its event is dealt with. -/
theorem turn_of_calm {session : Session} (h : session.terminal.interrupted = false) :
    session.turn =
      { session with machine := (session.machine.execute session.cycles).2 }.handle
        (session.machine.execute session.cycles).1 := by
  have hTerminal : session.terminal.acknowledgeInterrupt = session.terminal := by
    rw [Terminal.acknowledgeInterrupt, ← h]
  rw [turn, slice, hTerminal, h]
  rfl

/-- A calm reply to a request enters its line. -/
theorem answerInput_of_calm (machine : Machine) {reply : Reply} (h : reply.isCalm = true) :
    answerInput machine reply = machine.enter reply.text := by
  cases reply with
  | line interrupted text => rfl
  | signal => simp [Reply.isCalm] at h
  | endOfInput => rfl

/-- A calm reply to a pause ends it. -/
theorem answerPause_of_calm (machine : Machine) {reply : Reply} (h : reply.isCalm = true) :
    answerPause machine reply = machine.resume := by
  cases reply with
  | line interrupted text => rfl
  | signal => simp [Reply.isCalm] at h
  | endOfInput => rfl

/-- Only what suspends a run shows at a terminal. -/
theorem flatMap_suspension (columns : Nat) (event : Event) :
    event.suspension.flatMap (exchangesFor columns) = exchangesFor columns event := by
  cases event <;> simp [Event.suspension, exchangesFor]

/-- A line of input is read exactly when a request is dealt with. -/
theorem inputLines_exchangesFor (script : List Reply) (columns : Nat) (event : Event) :
    inputLines script (exchangesFor columns event) =
      if event = .inputRequested then [(script.headD .endOfInput).text] else [] := by
  cases event with
  | inputRequested => simp [exchangesFor, inputLines]
  | paused inspection =>
    have hPrompt :
        (if inspection.instruction = some .breakpoint then "Press Enter to Continue!" else "") ≠
          "Input one character:" := by
      split <;> decide
    by_cases hPause : inspection.pause.acknowledge = true
    · simp [exchangesFor, hPause, inputLines, hPrompt]
    · simp [exchangesFor, hPause, inputLines]
  | _ => simp [exchangesFor, inputLines]

/-- A session has the machine of an attended run that goes on, and an ending the exit of one that is
over. -/
def Agrees (columns cycles : Nat) (attendance : Attendance) : Except Ending Session → Prop
  | .ok session =>
    session.machine = attendance.machine ∧ session.columns = columns ∧ session.cycles = cycles ∧
      isFinal attendance.event = false
  | .error ending => attendance.Over ∧ exitAfter? attendance.event = some ending.exit

/-- What a session has come to is what an attended run has come to, and what has happened at its
terminal is what was heard from the run. -/
structure Mirrors (state : Except Ending Session) (script : List Reply) (opening : List Exchange)
    (columns cycles : Nat) (attendance : Attendance) (heard : List Event) : Prop where
  /-- Every prompt has taken one reply. -/
  consumes : (terminalOf state).Consumes script
  /-- After the opening, every event heard has its exchanges. -/
  transcript_eq : (terminalOf state).transcript.toList =
    opening ++ heard.flatMap (exchangesFor columns)
  /-- A line was read for every request answered. -/
  requests_eq : (inputLines script (terminalOf state).transcript.toList).length =
    attendance.requests
  /-- The machines or the exits are the same. -/
  agrees : Agrees columns cycles attendance state

/-- Dealing with an event takes one reply for each prompt. -/
theorem consumes_handle {session : Session} {script : List Reply}
    (hDrawable : Inspection.Drawable session.columns) (h : session.terminal.Consumes script)
    (hCalm : ∀ reply ∈ script, reply.isCalm = true) (event : Event) :
    (terminalOf (session.handle event)).Consumes script := by
  cases event with
  | inputRequested => exact h.ask hCalm inputPrompt
  | paused inspection =>
    have hWritten := h.write (inspection.draw session.columns green)
    rw [handle_paused hDrawable]
    by_cases hPause : inspection.pause.acknowledge = true
    · rw [if_pos hPause]
      exact hWritten.ask hCalm (acknowledgmentPrompt inspection)
    · rw [if_neg hPause]
      exact hWritten
  | _ => exact h

/-- A session deals with the event of a machine as an attendant does whose answer is the line that
comes next. -/
theorem agrees_handle {session : Session} {script : List Reply} {attendance : Attendance}
    {attendant : Attendant} (hDrawable : Inspection.Drawable session.columns)
    (h : session.terminal.Consumes script)
    (hCalm : ∀ reply ∈ script, reply.isCalm = true)
    (hLine : session.machine.event = .inputRequested →
      attendant.answer attendance.requests = (session.terminal.script.headD .endOfInput).text) :
    Agrees session.columns session.cycles
      (attendance.respond attendant session.machine.event session.machine)
      (session.handle session.machine.event) := by
  have hReply := h.isCalm hCalm
  cases hStatus : session.machine.status with
  | running =>
    have hEvent : session.machine.event = .running := by simp [Machine.event, hStatus]
    rw [hEvent]
    exact ⟨rfl, rfl, rfl, rfl⟩
  | awaitingInput =>
    have hEvent : session.machine.event = .inputRequested := by simp [Machine.event, hStatus]
    have hAnswer := hLine hEvent
    rw [hEvent]
    refine ⟨?_, rfl, rfl, rfl⟩
    rw [respond, hAnswer]
    exact answerInput_of_calm session.machine hReply
  | paused inspection =>
    have hEvent : session.machine.event = .paused inspection := by simp [Machine.event, hStatus]
    rw [hEvent, handle_paused hDrawable]
    by_cases hPause : inspection.pause.acknowledge = true
    · rw [if_pos hPause]
      exact ⟨answerPause_of_calm session.machine hReply, rfl, rfl, rfl⟩
    · rw [if_neg hPause]
      exact ⟨rfl, rfl, rfl, rfl⟩
  | halted =>
    have hEvent : session.machine.event = .halted session.machine.output := by
      simp [Machine.event, hStatus]
    rw [hEvent]
    exact ⟨⟨.inl hStatus, hEvent.symm⟩, rfl⟩
  | faulted fault =>
    have hEvent : session.machine.event = .faulted fault := by simp [Machine.event, hStatus]
    rw [hEvent]
    exact ⟨⟨.inr ⟨fault, hStatus⟩, hEvent.symm⟩, rfl⟩

/-- A response counts a request exactly if it answers one. -/
theorem requests_respond (attendance : Attendance) (attendant : Attendant) (event : Event)
    (machine : Machine) :
    (attendance.respond attendant event machine).requests =
      attendance.requests + if event = .inputRequested then 1 else 0 := by
  cases event <;> rfl

/-- Dealing with a request reads the line that the transcript then tells. -/
theorem getElem?_inputLines_handle {session : Session} {script : List Reply}
    (h : session.terminal.Consumes script) {event : Event} (hEvent : event = .inputRequested) :
    (inputLines script (terminalOf (session.handle event)).transcript.toList)[
        (inputLines script session.terminal.transcript.toList).length]? =
      some (session.terminal.script.headD .endOfInput).text := by
  have hShow : CanShow session.columns event := by
    rw [hEvent]
    trivial
  rw [transcript_handle hShow, inputLines_append, ← h.script_eq, inputLines_exchangesFor,
    if_pos hEvent]
  exact List.getElem?_concat_length

/-- A turn of a session is a slice of the attended run whose answers are the lines it reads. -/
theorem Mirrors.turn {session : Session} {script : List Reply} {opening : List Exchange}
    {columns cycles : Nat} {attendance : Attendance} {heard : List Event}
    (h : Mirrors (.ok session) script opening columns cycles attendance heard)
    (hDrawable : Inspection.Drawable columns)
    (hCalm : ∀ reply ∈ script, reply.isCalm = true) (answer : Nat → String)
    (hLine : ∀ line,
      (inputLines script (terminalOf session.turn).transcript.toList)[attendance.requests]? =
        some line → answer attendance.requests = line) :
    Mirrors session.turn script opening columns cycles (attendance.slice ⟨answer, cycles, 1⟩)
      (heard ++ (attendance.slice ⟨answer, cycles, 1⟩).event.suspension) := by
  obtain ⟨hMachine, rfl, rfl, -⟩ := h.agrees
  have hConsumes : session.terminal.Consumes script := h.consumes
  have hRequests : (inputLines script session.terminal.transcript.toList).length =
      attendance.requests := h.requests_eq
  -- The session and the attendant run one machine for one slice, and deal with its event.
  have hTurn := turn_of_calm hConsumes.calm
  have hSlice : attendance.slice ⟨answer, session.cycles, 1⟩ =
      attendance.respond ⟨answer, session.cycles, 1⟩
        (session.machine.execute session.cycles).1 (session.machine.execute session.cycles).2 := by
    rw [hMachine]
    rfl
  rw [execute_fst] at hTurn hSlice
  generalize (session.machine.execute session.cycles).2 = ran at hTurn hSlice
  have hRan : { session with machine := ran }.terminal.Consumes script := hConsumes
  have hDraws : Inspection.Drawable { session with machine := ran }.columns := hDrawable
  have hShow := canShow_of_drawable hDraws ran.event
  rw [hTurn] at hLine ⊢
  rw [hSlice, event_respond]
  refine ⟨consumes_handle hDraws hRan hCalm ran.event, ?_, ?_, ?_⟩
  · have hBefore : session.terminal.transcript.toList = _ := h.transcript_eq
    rw [transcript_handle hShow, hBefore, List.flatMap_append, flatMap_suspension, List.append_assoc]
  · rw [transcript_handle hShow, inputLines_append, List.length_append, inputLines_exchangesFor,
      hRequests, requests_respond]
    split <;> rfl
  · refine agrees_handle hDraws hRan hCalm ?_
    intro hEvent
    have hRead := getElem?_inputLines_handle hRan hEvent
    rw [hRequests] at hRead
    exact hLine _ hRead

/-- An event that ends a session suspends nothing, and is final. -/
theorem of_exitAfter?_eq_some {event : Event} {exit : Exit} (h : exitAfter? event = some exit) :
    event.suspension = [] ∧ isFinal event = true := by
  cases event with
  | halted output => exact ⟨rfl, rfl⟩
  | faulted fault => exact ⟨rfl, rfl⟩
  | _ => contradiction

/-- A session has ended exactly when the attended run has. -/
theorem Mirrors.exists_error_iff {state : Except Ending Session} {script : List Reply}
    {opening : List Exchange} {columns cycles : Nat} {attendance : Attendance} {heard : List Event}
    (h : Mirrors state script opening columns cycles attendance heard) :
    (∃ ending, state = .error ending) ↔ isFinal attendance.event = true := by
  have hAgrees := h.agrees
  cases state with
  | ok session =>
    have hGoesOn := hAgrees.2.2.2
    simp [hGoesOn]
  | error ending =>
    have hFinal := (of_exitAfter?_eq_some hAgrees.2).2
    simp [hFinal]

/-- After every turn a session has come to what a machine has come to that is attended with the budget
of the session. -/
def Enacts (session : Session) (script : List Reply) (opening : List Exchange)
    (columns cycles : Nat) (answer : Nat → String) (machine : Machine) : Prop :=
  ∀ turns, Mirrors (session.afterTurns turns) script opening columns cycles
    (afterSlices answer (fun _ => cycles) machine turns)
    (heard answer (fun _ => cycles) machine turns)

/-- Turn by turn a session is the attended run whose answers are the lines it reads. -/
theorem Mirrors.enacts {session : Session} {script : List Reply} {opening : List Exchange}
    {columns cycles : Nat} {answer : Nat → String} {machine : Machine}
    (h : Mirrors (.ok session) script opening columns cycles (begin machine) [])
    (hDrawable : Inspection.Drawable columns)
    (hCalm : ∀ reply ∈ script, reply.isCalm = true)
    (hAnswer : session.AnswersAsRead script answer) :
    session.Enacts script opening columns cycles answer machine := by
  intro turns
  induction turns with
  | zero => exact h
  | succ turns ih =>
    have hNext := hAnswer (turns + 1)
    rw [afterTurns] at hNext ⊢
    cases hAfter : session.afterTurns turns with
    | ok after =>
      rw [hAfter] at ih hNext
      exact ih.turn hDrawable hCalm answer (hNext _)
    | error ending =>
      -- Both stay as they are: the session has ended, and the attended run is over.
      rw [hAfter] at ih
      obtain ⟨hOver, hExit⟩ := ih.agrees
      have hStill : afterSlices answer (fun _ => cycles) machine (turns + 1) =
          afterSlices answer (fun _ => cycles) machine turns :=
        slice_of_over hOver _
      rw [heard, hStill, (of_exitAfter?_eq_some hExit).1, List.append_nil]
      exact ih

section Enacts

variable {session : Session} {script : List Reply} {opening : List Exchange}
  {columns cycles : Nat} {answer : Nat → String} {budget : Nat → Nat} {program : Program}
  {pacing : Pacing}

/-- A session ends exactly if the attended run does, whatever the budgets. -/
theorem Enacts.ends_iff
    (h : session.Enacts script opening columns cycles answer (load program pacing))
    (hCycles : 0 < cycles) (hBudget : ∀ slice, 0 < budget slice) :
    (∃ turns ending, session.afterTurns turns = .error ending) ↔
      ∃ slices, isFinal (afterSlices answer budget (load program pacing) slices).event = true := by
  constructor
  · rintro ⟨turns, hEnds⟩
    have hFinal := (h turns).exists_error_iff.1 hEnds
    exact exists_final_of_final (fun _ => hCycles) hBudget hFinal
  · rintro ⟨slices, hFinal⟩
    have hTurns : ∃ turns,
        isFinal (afterSlices answer (fun _ => cycles) (load program pacing) turns).event = true :=
      exists_final_of_final hBudget (fun _ => hCycles) hFinal
    obtain ⟨turns, hTurns⟩ := hTurns
    exact ⟨turns, (h turns).exists_error_iff.2 hTurns⟩

/-- A session exits as the attended run ended, and all that happened at its terminal is what was
heard. -/
theorem Enacts.of_final
    (h : session.Enacts script opening columns cycles answer (load program pacing))
    (hCycles : 0 < cycles) (hBudget : ∀ slice, 0 < budget slice) {turns slices : Nat}
    {ending : Ending} (hEnding : session.afterTurns turns = .error ending)
    (hFinal : isFinal (afterSlices answer budget (load program pacing) slices).event = true) :
    exitAfter? (afterSlices answer budget (load program pacing) slices).event =
        some ending.exit ∧
      ending.terminal.transcript.toList =
        opening ++
          (heard answer budget (load program pacing) slices).flatMap (exchangesFor columns) := by
  have hTurns := h turns
  have hOver := hTurns.exists_error_iff.1 ⟨ending, hEnding⟩
  obtain ⟨hEvent, hHeard⟩ := same_of_final (fun _ => hCycles) hBudget hOver hFinal
  rw [hEnding] at hTurns
  rw [← hEvent, ← hHeard]
  exact ⟨hTurns.agrees.2, hTurns.transcript_eq⟩

/-- What has happened at the terminal of a session was at some time all that was heard. -/
theorem Enacts.exists_slices
    (h : session.Enacts script opening columns cycles answer (load program pacing))
    (hBudget : ∀ slice, 0 < budget slice) (turns : Nat) :
    ∃ slices, (terminalOf (session.afterTurns turns)).transcript.toList =
      opening ++
        (heard answer budget (load program pacing) slices).flatMap (exchangesFor columns) := by
  obtain ⟨slices, hSlices⟩ := exists_heard_eq_heard (fun _ => cycles) hBudget turns
  refine ⟨slices, ?_⟩
  rw [hSlices]
  exact (h turns).transcript_eq

/-- What is heard has at some time happened at the terminal of a session, and nothing else. -/
theorem Enacts.exists_turns
    (h : session.Enacts script opening columns cycles answer (load program pacing))
    (hCycles : 0 < cycles) (slices : Nat) :
    ∃ turns, (terminalOf (session.afterTurns turns)).transcript.toList =
      opening ++
        (heard answer budget (load program pacing) slices).flatMap (exchangesFor columns) := by
  have hTurns : ∃ turns, heard answer (fun _ => cycles) (load program pacing) turns =
      heard answer budget (load program pacing) slices :=
    exists_heard_eq_heard budget (fun _ => hCycles) slices
  obtain ⟨turns, hTurns⟩ := hTurns
  refine ⟨turns, ?_⟩
  rw [← hTurns]
  exact (h turns).transcript_eq

end Enacts

/-- What has happened at a terminal when a session begins: a source that was not given was asked
for. -/
def opening (options : Options) : List Exchange :=
  if options.lacksSource then [.asked "Brainfuck Code:"] else []

/-- A terminal at which a source was found has gone through the opening and nothing else. -/
theorem findSource_opening {options : Options} {surroundings : Surroundings} {source : String}
    {terminal : Terminal} {script : List Reply}
    (hTerminal : surroundings.terminal = .ofScript script false)
    (hCalm : ∀ reply ∈ script, reply.isCalm = true)
    (h : findSource options surroundings = .ok (source, terminal)) :
    terminal.Consumes script ∧ terminal.transcript.toList = opening options := by
  have hBegin : surroundings.terminal.Consumes script := by
    rw [hTerminal]
    exact ⟨rfl, rfl⟩
  have hEmpty : surroundings.terminal.transcript.toList = [] := by
    rw [hTerminal]
    rfl
  unfold findSource at h
  split at h
  · rename_i given hGiven
    simp only [Except.ok.injEq, Prod.mk.injEq] at h
    obtain ⟨-, rfl⟩ := h
    exact ⟨hBegin, by simpa [opening, Options.lacksSource, hGiven] using hEmpty⟩
  · rename_i path hNone hPath
    split at h
    · simp only [Except.ok.injEq, Prod.mk.injEq] at h
      obtain ⟨-, rfl⟩ := h
      exact ⟨hBegin, by simpa [opening, Options.lacksSource, hPath] using hEmpty⟩
    · contradiction
  · rename_i hNone hNoPath
    have hAsked := hBegin.ask hCalm sourcePrompt
    have hOnce : (surroundings.terminal.ask sourcePrompt).2.transcript.toList =
        opening options := by
      simp [opening, Options.lacksSource, hNone, hNoPath, Terminal.ask, hEmpty, sourcePrompt]
    split at h
    · rename_i interrupted line after hLine
      simp only [Except.ok.injEq, Prod.mk.injEq] at h
      obtain ⟨-, rfl⟩ := h
      rw [hLine] at hAsked hOnce
      exact ⟨hAsked, hOnce⟩
    · contradiction

/-- A session that has found its source goes on as the attended run of the source does. -/
theorem exists_enacts {options : Options} {surroundings : Surroundings} {source : String}
    {terminal : Terminal} {script : List Reply}
    (hDrawable : Inspection.Drawable (columnsFor options surroundings.width))
    (hTerminal : surroundings.terminal = .ofScript script false)
    (hCalm : ∀ reply ∈ script, reply.isCalm = true)
    (h : findSource options surroundings = .ok (source, terminal)) :
    ∃ session, start options surroundings = .ok session ∧
      ∀ answer, session.AnswersAsRead script answer →
        session.Enacts script (opening options) (columnsFor options surroundings.width)
          options.budget answer (machineFor options source) := by
  obtain ⟨hConsumes, hTranscript⟩ := findSource_opening hTerminal hCalm h
  have hNoLine : inputLines script (opening options) = [] := by
    unfold opening
    split
    · simp [inputLines]
    · rfl
  have hBegins : Mirrors (.ok ⟨machineFor options source, columnsFor options surroundings.width,
      options.budget, terminal⟩) script (opening options) (columnsFor options surroundings.width)
      options.budget (begin (machineFor options source)) [] := by
    refine ⟨hConsumes, ?_, ?_, rfl, rfl, rfl, rfl⟩
    · rw [List.flatMap_nil, List.append_nil]
      exact hTranscript
    · rw [terminalOf, hTranscript, hNoLine]
      rfl
  refine ⟨_, ?_, fun answer hAnswer => hBegins.enacts hDrawable hCalm hAnswer⟩
  rw [start, h]
  rfl

/-- A request for a run ends as the session that it begins. -/
theorem serve_run_eq_some_iff {options : Options} {surroundings : Surroundings} {session : Session}
    (h : start options surroundings = .ok session) (turns : Nat) (ending : Ending) :
    serve surroundings turns (.run options) = some ending ↔
      session.afterTurns turns = .error ending := by
  rw [serve, h]
  exact takeTurns_eq_some_iff session turns ending

/-- A session exits with the output of a run that halted, or else with its fault. -/
theorem exit_of_exitAfter?_eq_some {event : Event} {exit : Exit} (h : exitAfter? event = some exit) :
    (∃ output, event = .halted output ∧ exit = ⟨0, output ++ "\n", ""⟩) ∨
      ∃ fault, event = .faulted fault ∧
        exit = ⟨1, "", "\x1b[1m" ++ fault.text ++ "\x1b[0m" ++ "\n"⟩ := by
  cases event with
  | halted output => exact .inl ⟨output, rfl, (Option.some.inj h).symm⟩
  | faulted fault => exact .inr ⟨fault, rfl, (Option.some.inj h).symm⟩
  | _ => contradiction

/-- A session is faithful to the run of its source. Let its inspections have no more columns than can
be drawn, let no reply come with the interrupt key, and let requests be answered by the lines read at the prompts for input, the end of input counting as an empty
line. Then the session ends exactly if the attended run does, whatever the budgets: with the output
and nothing else if the run halted, with the fault in bold and no output if it failed. Every prompt
takes one reply of the script. After the prompt for a source that was not given, the transcript has
one prompt for every request, and for every pause one drawing, followed by one prompt exactly if the
pause wants to be acknowledged, in the order in which the run tells them. -/
theorem serve_faithful (options : Options) (fileBytes : String → Except FileFailure ByteArray)
    (width : Option Nat) (script : List Reply) (source : String) (terminal : Terminal)
    (hColumns : 5 * columnsFor options width < UInt64.size)
    (hCalm : ∀ reply ∈ script, reply.isCalm = true) (hCycles : 0 < options.budget)
    (hSource : findSource options ⟨fileBytes, width, .ofScript script false⟩ =
      .ok (source, terminal)) :
    let surroundings : Surroundings := ⟨fileBytes, width, .ofScript script false⟩
    let fresh := ofSource source (.ofSeconds options.step options.seconds)
    let transcriptOf := fun events : List Event =>
      (if options.lacksSource then [.asked "Brainfuck Code:"] else []) ++
        events.flatMap (exchangesFor (columnsFor options width))
    ∃ session, start options surroundings = .ok session ∧
      (∀ turns,
        let terminal := terminalOf (session.afterTurns turns)
        terminal.script = script.drop (promptCount terminal.transcript.toList)) ∧
      (∃ answer, session.AnswersAsRead script answer) ∧
      ∀ answer budget, session.AnswersAsRead script answer → (∀ slice, 0 < budget slice) →
        let attended := afterSlices answer budget fresh
        ((∃ turns ending, serve surroundings turns (.run options) = some ending) ↔
          ∃ slices, isFinal (attended slices).event = true) ∧
        (∀ turns ending slices, serve surroundings turns (.run options) = some ending →
          isFinal (attended slices).event = true →
          ((∃ output, (attended slices).event = .halted output ∧
              ending.exit = ⟨0, output ++ "\n", ""⟩) ∨
            ∃ fault, (attended slices).event = .faulted fault ∧
              ending.exit = ⟨1, "", "\x1b[1m" ++ fault.text ++ "\x1b[0m" ++ "\n"⟩) ∧
          ending.terminal.transcript.toList =
            transcriptOf (heard answer budget fresh slices)) ∧
        (∀ turns, ∃ slices, (terminalOf (session.afterTurns turns)).transcript.toList =
          transcriptOf (heard answer budget fresh slices)) ∧
        ∀ slices, ∃ turns, (terminalOf (session.afterTurns turns)).transcript.toList =
          transcriptOf (heard answer budget fresh slices) := by
  intro surroundings fresh transcriptOf
  have hTerminal : surroundings.terminal = .ofScript script false := rfl
  have hDrawable := (Inspection.drawable_iff (columnsFor options width)).2 hColumns
  obtain ⟨session, hStart, hEnacts⟩ := exists_enacts hDrawable hTerminal hCalm hSource
  have hServe := serve_run_eq_some_iff hStart
  obtain ⟨read, hRead⟩ := session.exists_answersAsRead script
  refine ⟨session, hStart, fun turns => (hEnacts read hRead turns).consumes.script_eq,
    ⟨read, hRead⟩, ?_⟩
  intro answer budget hAnswer hBudget attended
  have hRun := hEnacts answer hAnswer
  refine ⟨?_, ?_, hRun.exists_slices hBudget, hRun.exists_turns hCycles⟩
  · simp only [hServe]
    exact hRun.ends_iff hCycles hBudget
  · intro turns ending slices hEnding hFinal
    obtain ⟨hExit, hTranscript⟩ :=
      hRun.of_final hCycles hBudget ((hServe turns ending).1 hEnding) hFinal
    exact ⟨exit_of_exitAfter?_eq_some hExit, hTranscript⟩

/-- A session that asks for its source echoes one line and stops at a breakpoint, with three prompts in
all. Attended with another budget and answered by the line that was read, the run halts with the same
output and two suspensions. -/
theorem serve_faithful_echo :
    ∃ session answer slices,
      start { Options.none with cycles := some 2 } ⟨fun _ => .error .missing, none,
        .ofScript [.line false ",.^", .line false "A", .endOfInput] false⟩ = .ok session ∧
      session.AnswersAsRead [.line false ",.^", .line false "A", .endOfInput] answer ∧
      (afterSlices answer (fun _ => 1) (ofSource ",.^" (.ofSeconds false .zero)) slices).event =
        .halted "A" ∧
      promptCount (.asked "Brainfuck Code:" ::
        (heard answer (fun _ => 1) (ofSource ",.^" (.ofSeconds false .zero)) slices).flatMap
          (exchangesFor 16)) = 3 := by
  have hServed : (serve ⟨fun _ => .error .missing, none,
      .ofScript [.line false ",.^", .line false "A", .endOfInput] false⟩ 9
      (.run { Options.none with cycles := some 2 })).map
        (fun ending => (ending.exit, promptCount ending.terminal.transcript.toList)) =
      some (⟨0, "A\n", ""⟩, 3) := by decide +kernel
  obtain ⟨ending, hEnding, hPair⟩ := Option.map_eq_some_iff.1 hServed
  obtain ⟨hExit, hPrompts⟩ := Prod.mk.inj hPair
  obtain ⟨session, hStart, -, ⟨answer, hAnswer⟩, hFaithful⟩ :=
    serve_faithful { Options.none with cycles := some 2 } (fun _ => .error .missing) none
      [.line false ",.^", .line false "A", .endOfInput] ",.^"
      ⟨[.line false "A", .endOfInput], #[.asked "Brainfuck Code:"], false⟩ (by decide) (by decide)
      (by decide) rfl
  obtain ⟨hEnds, hSame, -⟩ := hFaithful answer (fun _ => 1) hAnswer (fun _ => Nat.zero_lt_one)
  obtain ⟨slices, hFinal⟩ := hEnds.1 ⟨9, ending, hEnding⟩
  obtain ⟨hEvent, hTranscript⟩ := hSame 9 ending slices hEnding hFinal
  refine ⟨session, answer, slices, hStart, hAnswer, ?_, ?_⟩
  · rcases hEvent with ⟨output, hHalted, hOutput⟩ | ⟨fault, -, hFault⟩
    · rw [hExit] at hOutput
      have hText : output ++ "\n" = "A" ++ "\n" := (congrArg Exit.output hOutput).symm
      rw [(String.append_left_inj "\n").1 hText] at hHalted
      exact hHalted
    · rw [hExit] at hFault
      exact absurd (congrArg Exit.code hFault) Nat.zero_ne_one
  · rw [hTranscript] at hPrompts
    exact hPrompts

end Session

end ByteTape
