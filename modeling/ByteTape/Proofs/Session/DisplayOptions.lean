import ByteTape.Proofs.Session.Rendering

/-!
# Display options do not influence a run

The delay, the columns and the budget of a session decide how it is watched. Two sessions that differ
in nothing else render one and the same dialogue, so one ends exactly if the other does, with the same
exit, and their users are asked for the same lines and answer them with the same replies. If both pause
after effectful instructions or neither does, they also show the same inspections, each in its own
columns.
-/

namespace ByteTape

/-- Two pacings that pause alike want the same pauses, up to their delays. -/
theorem Core.pauseShown?_congr (core : Core) {pacing other : Pacing}
    (hStep : other.step = pacing.step) (hPauses : other.pauses = pacing.pauses) :
    core.pauseShown? other =
      (core.pauseShown? pacing).map fun inspection =>
        { inspection with pause := ⟨inspection.pause.acknowledge, other.delay⟩ } := by
  unfold pauseShown?
  cases core.last with
  | none => rfl
  | some instruction =>
    simp only [Option.bind_some, Pacing.pauseAfter, hStep, hPauses]
    split
    · rfl
    · split <;> rfl

namespace Session

open CommandLine Machine

/-- The prompts of a transcript, in their order. -/
def prompts (transcript : List Exchange) : List Exchange :=
  transcript.filter Exchange.isPrompt

namespace Moment

/-- The prompts at a moment: a request asks for a line, and a completed instruction for an
acknowledgment if it waits for one. -/
def prompts (step : Bool) : Moment → List Exchange
  | .request => [.asked "Input one character:"]
  | .completion core =>
    if core.wantsAcknowledgment step then
      [.asked (if core.last = some .breakpoint then "Press Enter to Continue!" else "")]
    else
      []

/-- Neither the delay nor the columns change what is asked for at a moment. -/
theorem prompts_exchanges (moment : Moment) (pacing : Pacing) (columns : Nat) :
    Session.prompts ((moment.events pacing).flatMap (exchangesFor columns)) =
      moment.prompts pacing.step := by
  cases moment with
  | request => rfl
  | completion core =>
    cases hShown : core.pauseShown? pacing with
    | none =>
      have hSilent := Core.wantsAcknowledgment_of_pauseShown?_eq_none hShown
      simp [events, prompts, Session.prompts, hShown, hSilent]
    | some inspection =>
      have hWants := Core.acknowledge_of_pauseShown? hShown
      obtain ⟨pause, -, rfl⟩ := Option.map_eq_some_iff.1 hShown
      have hLast : (core.shown pause).instruction = core.last := rfl
      cases hAcknowledge : core.wantsAcknowledgment pacing.step <;>
        simp [events, prompts, Session.prompts, hShown, exchangesFor, hWants, hAcknowledge,
          Exchange.isPrompt, hLast]

/-- Where pacings pause alike, a moment is shown alike. -/
theorem exchanges_congr (moment : Moment) {pacing other : Pacing}
    (hStep : other.step = pacing.step) (hPauses : other.pauses = pacing.pauses) (columns : Nat) :
    (moment.events other).flatMap (exchangesFor columns) =
      (moment.events pacing).flatMap (exchangesFor columns) := by
  cases moment with
  | request => rfl
  | completion core =>
    rw [events, events, core.pauseShown?_congr hStep hPauses]
    cases core.pauseShown? pacing <;> rfl

end Moment

/-- What a request for a run has come to after a number of turns. -/
def runFor (options : Options) (surroundings : Surroundings) (turns : Nat) :
    Except Ending Session :=
  match start options surroundings with
  | .error ending => .error ending
  | .ok session => session.afterTurns turns

/-- A request for a run is served within a number of turns exactly if it has come to its ending after
them. -/
theorem serve_eq_some_iff_runFor (options : Options) (surroundings : Surroundings) (turns : Nat)
    (ending : Ending) :
    serve surroundings turns (.run options) = some ending ↔
      runFor options surroundings turns = .error ending := by
  rw [serve, runFor]
  cases start options surroundings with
  | error found => simp
  | ok session => exact takeTurns_eq_some_iff session turns ending

/-- The terminal at which a source was looked for. -/
def searched : Except Ending (String × Terminal) → Terminal
  | .error ending => ending.terminal
  | .ok found => found.2

/-- Looking for a source asks for it if it was not given, and nothing else happens. -/
theorem transcript_searched (options : Options) (surroundings : Surroundings) :
    (searched (findSource options surroundings)).transcript.toList =
      surroundings.terminal.transcript.toList ++ opening options := by
  unfold findSource
  split
  · rename_i given hGiven
    simp [searched, opening, Options.lacksSource, hGiven]
  · rename_i path hNone hPath
    split <;> simp [searched, opening, Options.lacksSource, hPath]
  · rename_i hNone hNoPath
    have hAsked : (surroundings.terminal.ask sourcePrompt).2.transcript.toList =
        surroundings.terminal.transcript.toList ++ opening options := by
      simp [opening, Options.lacksSource, hNone, hNoPath, Terminal.ask, sourcePrompt]
    split
    · rename_i interrupted line after hLine
      rw [hLine] at hAsked
      exact hAsked
    · rename_i reply after hNoLine hReply
      rw [hReply] at hAsked
      exact hAsked

/-- At two terminals the same lines were asked for, and the same replies are left. -/
def AskedAlike (first second : Terminal) : Prop :=
  second.script = first.script ∧
    prompts second.transcript.toList = prompts first.transcript.toList

/-- At two terminals the same events were shown after an opening, each with its own columns. -/
def ShownAlike (opening : List Exchange) (firstColumns secondColumns : Nat)
    (first second : Terminal) : Prop :=
  ∃ events : List Event,
    first.transcript.toList = opening ++ events.flatMap (exchangesFor firstColumns) ∧
      second.transcript.toList = opening ++ events.flatMap (exchangesFor secondColumns)

namespace Dialogue

/-- Neither the delay nor the columns change what is asked for in a dialogue. -/
theorem prompts_events (dialogue : Dialogue) (pacing : Pacing) (columns : Nat) :
    prompts ((dialogue.events pacing).flatMap (exchangesFor columns)) =
      dialogue.moments.flatMap (Moment.prompts pacing.step) := by
  have hMoment : ∀ moment : Moment,
      ((moment.events pacing).flatMap (exchangesFor columns)).filter Exchange.isPrompt =
        moment.prompts pacing.step :=
    fun moment => moment.prompts_exchanges pacing columns
  rw [prompts, events, List.flatMap_assoc, List.filter_flatMap]
  simp only [hMoment]

/-- Where pacings pause alike, a dialogue is shown alike. -/
theorem exchanges_congr (dialogue : Dialogue) {pacing other : Pacing}
    (hStep : other.step = pacing.step) (hPauses : other.pauses = pacing.pauses) (columns : Nat) :
    (dialogue.events other).flatMap (exchangesFor columns) =
      (dialogue.events pacing).flatMap (exchangesFor columns) := by
  simp only [events, List.flatMap_assoc, Moment.exchanges_congr _ hStep hPauses]

section Shown

variable {dialogue : Dialogue} {first second : Terminal} {opening : List Exchange}
  {pacing other : Pacing} {firstColumns secondColumns : Nat}

/-- At terminals that show one dialogue the same lines were asked for. -/
theorem ShownAt.askedAlike (hFirst : dialogue.ShownAt first opening pacing firstColumns)
    (hSecond : dialogue.ShownAt second opening other secondColumns)
    (hStep : other.step = pacing.step) : AskedAlike first second := by
  refine ⟨hSecond.script_eq.trans hFirst.script_eq.symm, ?_⟩
  have hHere := dialogue.prompts_events pacing firstColumns
  have hThere := dialogue.prompts_events other secondColumns
  rw [hStep, ← hHere] at hThere
  rw [hFirst.transcript_eq, hSecond.transcript_eq]
  unfold prompts at hThere ⊢
  rw [List.filter_append, List.filter_append, hThere]

/-- At terminals that show one dialogue and pause alike the same events were shown. -/
theorem ShownAt.shownAlike (hFirst : dialogue.ShownAt first opening pacing firstColumns)
    (hSecond : dialogue.ShownAt second opening other secondColumns)
    (hStep : other.step = pacing.step) (hPauses : other.pauses = pacing.pauses) :
    ShownAlike opening firstColumns secondColumns first second := by
  refine ⟨dialogue.events pacing, hFirst.transcript_eq, ?_⟩
  rw [hSecond.transcript_eq, dialogue.exchanges_congr hStep hPauses]

end Shown

/-- Of two sessions that render one dialogue, one comes to what the other comes to. -/
theorem RenderedBy.keeps_up {dialogue : Dialogue} {first second : Session}
    {opening : List Exchange} {pacing other : Pacing}
    {firstColumns secondColumns firstCycles secondCycles : Nat}
    (hFirst : dialogue.RenderedBy (.ok first) opening pacing firstColumns firstCycles)
    (hSecond : dialogue.RenderedBy (.ok second) opening other secondColumns secondCycles)
    (hStep : other.step = pacing.step) (hCycles : 0 < firstCycles) (hBudget : 0 < secondCycles)
    (turns : Nat) :
    ∃ later : Dialogue,
      later.ShownAt (terminalOf (first.afterTurns turns)) opening pacing firstColumns ∧
        (∃ others,
          later.ShownAt (terminalOf (second.afterTurns others)) opening other secondColumns) ∧
        ∀ ending, first.afterTurns turns = .error ending →
          ∃ others found, second.afterTurns others = .error found ∧ found.exit = ending.exit ∧
            later.ShownAt found.terminal opening other secondColumns := by
  obtain ⟨steps, hSteps⟩ := hFirst.exists_steps hCycles turns
  have hOther := hSecond.exists_turns hBudget steps
  rw [hStep] at hOther
  refine ⟨_, hSteps.shown, hOther.1, ?_⟩
  intro ending hEnding
  exact hOther.2 ending.exit (hSteps.exits ending hEnding)

end Dialogue

/-- A session that has found its source renders the dialogue with it. -/
theorem renderedBy_start (options : Options) (width : Option Nat) (source : String)
    {terminal : Terminal} {opening : List Exchange}
    (hDrawable : Inspection.Drawable (columnsFor options width))
    (hOpening : terminal.transcript.toList = opening) :
    (Dialogue.start (Program.ofString source) terminal.script terminal.interrupted).RenderedBy
      (.ok ⟨machineFor options source, columnsFor options width, options.budget, terminal⟩)
      opening (.ofSeconds options.step options.seconds) (columnsFor options width)
      options.budget := by
  refine ⟨hDrawable, ⟨rfl, ?_⟩, ?_, by simp⟩
  · rw [← hOpening]
    exact (List.append_nil _).symm
  · intro session hSession
    rw [← Except.ok.inj hSession]
    exact ⟨rfl, rfl, rfl, .inr ⟨rfl, rfl, rfl⟩⟩

/-- A request for a run that has found its source goes on with a session. -/
theorem runFor_of_ok {options : Options} {surroundings : Surroundings} {source : String}
    {terminal : Terminal} (h : findSource options surroundings = .ok (source, terminal))
    (turns : Nat) :
    runFor options surroundings turns =
      afterTurns ⟨machineFor options source, columnsFor options surroundings.width,
        options.budget, terminal⟩ turns := by
  rw [runFor, start, h]
  rfl

/-- A request for a run that has found no source is over. -/
theorem runFor_of_error {options : Options} {surroundings : Surroundings} {ending : Ending}
    (h : findSource options surroundings = .error ending) (turns : Nat) :
    runFor options surroundings turns = .error ending := by
  rw [runFor, start, h]
  rfl

/-- Of two requests that find the same source and step alike, one comes to what the other comes to. -/
theorem runFor_keeps_up {first second : Options} {here there : Surroundings}
    {opening : List Exchange} (hFind : findSource second there = findSource first here)
    (hOpening : (searched (findSource first here)).transcript.toList = opening)
    (hHereDrawable : Inspection.Drawable (columnsFor first here.width))
    (hThereDrawable : Inspection.Drawable (columnsFor second there.width))
    (hStep : second.step = first.step) (hFirst : 0 < first.budget) (hSecond : 0 < second.budget)
    (turns : Nat) :
    ∃ later : Dialogue,
      later.ShownAt (terminalOf (runFor first here turns)) opening
          (.ofSeconds first.step first.seconds) (columnsFor first here.width) ∧
        (∃ others, later.ShownAt (terminalOf (runFor second there others)) opening
          (.ofSeconds second.step second.seconds) (columnsFor second there.width)) ∧
        ∀ ending, runFor first here turns = .error ending →
          ∃ others other, runFor second there others = .error other ∧ other.exit = ending.exit ∧
            later.ShownAt other.terminal opening (.ofSeconds second.step second.seconds)
              (columnsFor second there.width) := by
  cases hFound : findSource first here with
  | error ending =>
    rw [hFound] at hFind hOpening
    -- Nothing has been said: the dialogue with no program at all is shown.
    have hShown : ∀ pacing columns,
        (Dialogue.start ⟨#[]⟩ ending.terminal.script false).ShownAt ending.terminal opening pacing
          columns := by
      intro pacing columns
      refine ⟨rfl, ?_⟩
      rw [← hOpening]
      exact (List.append_nil _).symm
    have hHere := runFor_of_error hFound turns
    have hThere := runFor_of_error hFind
    rw [hHere]
    refine ⟨_, hShown _ _, ⟨0, ?_⟩, ?_⟩
    · rw [hThere]
      exact hShown _ _
    · intro found hEnding
      rw [← Except.error.inj hEnding]
      exact ⟨0, ending, hThere 0, rfl, hShown _ _⟩
  | ok found =>
    obtain ⟨source, terminal⟩ := found
    rw [hFound] at hFind hOpening
    have hHere := renderedBy_start first here.width source hHereDrawable hOpening
    have hThere := renderedBy_start second there.width source hThereDrawable hOpening
    simp only [runFor_of_ok hFound, runFor_of_ok hFind]
    exact hHere.keeps_up hThere hStep hFirst hSecond turns

/-- Pacings with the same step pause alike if one of them steps, or if both delays are zero or
neither is. -/
theorem pauses_congr {first second : Options} (hStep : second.step = first.step)
    (h : first.step = true ∨
      (Delay.ofSeconds first.seconds = Delay.none ↔ Delay.ofSeconds second.seconds = Delay.none)) :
    (Pacing.ofSeconds second.step second.seconds).pauses =
      (Pacing.ofSeconds first.step first.seconds).pauses := by
  simp only [Pacing.pauses, Pacing.ofSeconds, hStep]
  rcases h with hSteps | hDelays
  · simp [hSteps]
  · have hSame : (Delay.ofSeconds second.seconds != Delay.none) =
        (Delay.ofSeconds first.seconds != Delay.none) := by
      by_cases hNone : Delay.ofSeconds first.seconds = Delay.none
      · simp [hNone, hDelays.1 hNone]
      · have hNonzero := mt hDelays.2 hNone
        simp [bne, hNone, hNonzero]
    rw [hSame]

/-- Where the source is found does not depend on the display. -/
theorem findSource_congr {first second : Options} {here there : Surroundings}
    (hSource : second.source = first.source) (hFile : second.file = first.file)
    (hBytes : there.fileBytes = here.fileBytes) (hTerminal : there.terminal = here.terminal) :
    findSource second there = findSource first here := by
  simp only [findSource, hSource, hFile, hBytes, hTerminal]

/-- Display options do not influence a run. Let two command lines agree on the source and on the step
flag, and let their terminals have the same replies to come, interrupts included. Whatever the delays,
the columns or widths that can be drawn and the positive budgets, one ends exactly if the other does, with the same exit
code, output and complaint; and at its end, as after any number of turns, the same prompts have been
answered by the same replies at some time of the other. If every instruction waits for an
acknowledgment, or if both delays are zero or neither is, then also the same events were shown, each
with its own columns. -/
theorem display_options_immaterial (first second : Options)
    (fileBytes : String → Except FileFailure ByteArray) (firstWidth secondWidth : Option Nat)
    (script : List Reply) (pressed : Bool) (hSource : second.source = first.source)
    (hFile : second.file = first.file) (hStep : second.step = first.step)
    (hHereColumns : 5 * columnsFor first firstWidth < UInt64.size)
    (hThereColumns : 5 * columnsFor second secondWidth < UInt64.size)
    (hFirst : 0 < first.budget) (hSecond : 0 < second.budget) :
    let here : Surroundings := ⟨fileBytes, firstWidth, .ofScript script pressed⟩
    let there : Surroundings := ⟨fileBytes, secondWidth, .ofScript script pressed⟩
    let Alike := fun one other : Terminal =>
      AskedAlike one other ∧
        (first.step = true ∨
            (Delay.ofSeconds first.seconds = Delay.none ↔
              Delay.ofSeconds second.seconds = Delay.none) →
          ShownAlike (opening first) (columnsFor first firstWidth)
            (columnsFor second secondWidth) one other)
    (∀ turns ending, serve here turns (.run first) = some ending →
      ∃ others other, serve there others (.run second) = some other ∧
        other.exit = ending.exit ∧ Alike ending.terminal other.terminal) ∧
      (∀ others other, serve there others (.run second) = some other →
        ∃ turns ending, serve here turns (.run first) = some ending ∧
          other.exit = ending.exit ∧ Alike ending.terminal other.terminal) ∧
      (∀ turns, ∃ others, Alike (terminalOf (runFor first here turns))
        (terminalOf (runFor second there others))) ∧
      ∀ others, ∃ turns, Alike (terminalOf (runFor first here turns))
        (terminalOf (runFor second there others)) := by
  intro here there Alike
  have hFind : findSource second there = findSource first here :=
    findSource_congr hSource hFile rfl rfl
  have hOpening : (searched (findSource first here)).transcript.toList = opening first :=
    transcript_searched first here
  have hAlike : ∀ {later : Dialogue} {one other : Terminal},
      later.ShownAt one (opening first) (.ofSeconds first.step first.seconds)
        (columnsFor first firstWidth) →
      later.ShownAt other (opening first) (.ofSeconds second.step second.seconds)
        (columnsFor second secondWidth) → Alike one other := by
    intro later one other hOne hOther
    exact ⟨hOne.askedAlike hOther hStep,
      fun hPauses => hOne.shownAlike hOther hStep (pauses_congr hStep hPauses)⟩
  have hHere : Inspection.Drawable (columnsFor first here.width) :=
    (Inspection.drawable_iff _).2 hHereColumns
  have hThere : Inspection.Drawable (columnsFor second there.width) :=
    (Inspection.drawable_iff _).2 hThereColumns
  have hForth := runFor_keeps_up hFind hOpening hHere hThere hStep hFirst hSecond
  have hBack := runFor_keeps_up hFind.symm (hFind.symm ▸ hOpening) hThere hHere hStep.symm hSecond
    hFirst
  simp only [serve_eq_some_iff_runFor]
  refine ⟨?_, ?_, ?_, ?_⟩
  · intro turns ending hEnding
    obtain ⟨later, hOne, -, hEnds⟩ := hForth turns
    rw [hEnding] at hOne
    obtain ⟨others, other, hOther, hExit, hShown⟩ := hEnds ending hEnding
    exact ⟨others, other, hOther, hExit, hAlike hOne hShown⟩
  · intro others other hOther
    obtain ⟨later, hOne, -, hEnds⟩ := hBack others
    rw [hOther] at hOne
    obtain ⟨turns, ending, hEnding, hExit, hShown⟩ := hEnds other hOther
    exact ⟨turns, ending, hEnding, hExit.symm, hAlike hShown hOne⟩
  · intro turns
    obtain ⟨later, hOne, ⟨others, hOther⟩, -⟩ := hForth turns
    exact ⟨others, hAlike hOne hOther⟩
  · intro others
    obtain ⟨later, hOne, ⟨turns, hOther⟩, -⟩ := hBack others
    exact ⟨turns, hAlike hOther hOne⟩

/-- A session with no delay and a budget of one is interrupted at the acknowledgment of a breakpoint. One
that waits a second after every instruction and draws three columns ends in the same way, after the same
two prompts. -/
theorem display_options_immaterial_interrupted :
    ∃ others other,
      serve ⟨fun _ => .error .missing, some 80,
          .ofScript [.line false "A", .line true "", .endOfInput] false⟩ others
        (.run { Options.none with
          source := some ",^.", delay := some (.finite false 1 0), columns := some 3 }) =
        some other ∧
      other.exit = ⟨1, "", "\x1b[1mINTERRUPTED AT 2\x1b[0m\n"⟩ ∧
      other.terminal.script = [.endOfInput] ∧
      prompts other.terminal.transcript.toList =
        [.asked "Input one character:", .asked "Press Enter to Continue!"] := by
  have hServed : (serve ⟨fun _ => .error .missing, none,
      .ofScript [.line false "A", .line true "", .endOfInput] false⟩ 9
      (.run { Options.none with source := some ",^.", cycles := some 1 })).map
        (fun ending => (ending.exit, ending.terminal.script,
          prompts ending.terminal.transcript.toList)) =
      some (⟨1, "", "\x1b[1mINTERRUPTED AT 2\x1b[0m\n"⟩, [.endOfInput],
        [.asked "Input one character:", .asked "Press Enter to Continue!"]) := by decide +kernel
  obtain ⟨ending, hEnding, hFound⟩ := Option.map_eq_some_iff.1 hServed
  simp only [Prod.mk.injEq] at hFound
  obtain ⟨hExit, hScript, hPrompts⟩ := hFound
  obtain ⟨others, other, hOther, hSame, hAsked, -⟩ :=
    (display_options_immaterial { Options.none with source := some ",^.", cycles := some 1 }
      { Options.none with
        source := some ",^.", delay := some (.finite false 1 0), columns := some 3 }
      (fun _ => .error .missing) none (some 80)
      [.line false "A", .line true "", .endOfInput] false rfl rfl rfl (by decide) (by decide)
      (by decide) (by decide)).1 9 ending hEnding
  exact ⟨others, other, hOther, hSame.trans hExit, hAsked.1.trans hScript,
    hAsked.2.trans hPrompts⟩

end Session

end ByteTape
