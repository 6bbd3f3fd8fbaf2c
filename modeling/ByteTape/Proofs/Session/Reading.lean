import ByteTape.Session.Scripted
import Mathlib.Data.Nat.Init
import Mathlib.Tactic.Choose

/-!
# What happens at a terminal, turn by turn

A session is followed from turn to turn, to its ending if it has one. What happens at its terminal
only grows: every event that is dealt with adds its exchanges to the transcript, unless it is a pause
that cannot be drawn, and every prompt takes one reply from the script. So the transcript and the
script tell which lines were read at the prompts for input, and there is a sequence of answers that
begins with these lines however far the session gets.
-/

namespace ByteTape

namespace Session

open CommandLine

/-- Whether the interrupt key plays no part in a reply. -/
def Reply.isCalm : Reply → Bool
  | .line interrupted _ => !interrupted
  | .signal => false
  | .endOfInput => true

/-- The line that a reply brings; the end of input counts as an empty one. -/
def Reply.text : Reply → String
  | .line _ text => text
  | .signal => ""
  | .endOfInput => ""

/-- Whether something that happens at a terminal takes a reply. -/
def Exchange.isPrompt : Exchange → Bool
  | .written _ => false
  | .asked _ => true

/-- The number of prompts in a transcript. -/
def promptCount (transcript : List Exchange) : Nat :=
  transcript.countP Exchange.isPrompt

/-- The lines read at the prompts for input of a transcript, with a script that every prompt takes
one reply from. -/
def inputLines : (script : List Reply) → (transcript : List Exchange) → List String
  | _, [] => []
  | script, .written _ :: transcript => inputLines script transcript
  | script, .asked prompt :: transcript =>
    if prompt = "Input one character:" then
      (script.headD .endOfInput).text :: inputLines script.tail transcript
    else
      inputLines script.tail transcript

/-- Lines are read one part of a transcript after the other. -/
theorem inputLines_append (script : List Reply) (transcript later : List Exchange) :
    inputLines script (transcript ++ later) =
      inputLines script transcript ++ inputLines (script.drop (promptCount transcript)) later := by
  induction transcript generalizing script with
  | nil => rfl
  | cons exchange transcript ih =>
    cases exchange with
    | written text =>
      have hCount : promptCount (.written text :: transcript) = promptCount transcript :=
        List.countP_cons_of_neg (by simp [Exchange.isPrompt])
      rw [List.cons_append, inputLines, inputLines, ih, hCount]
    | asked prompt =>
      have hCount : promptCount (.asked prompt :: transcript) = promptCount transcript + 1 :=
        List.countP_cons_of_pos rfl
      have hDrop : script.tail.drop (promptCount transcript) =
          script.drop (promptCount transcript + 1) := by
        rw [List.drop_tail]
      rw [List.cons_append, inputLines, inputLines, ih, hCount, hDrop]
      split <;> rfl

/-- A line that was read stays read when the transcript goes on. -/
theorem getElem?_inputLines {script : List Reply} {transcript later : List Exchange}
    (h : transcript <+: later) {place : Nat} {line : String}
    (hLine : (inputLines script transcript)[place]? = some line) :
    (inputLines script later)[place]? = some line := by
  obtain ⟨more, rfl⟩ := h
  have hPlace : place < (inputLines script transcript).length :=
    (List.getElem?_eq_some_iff.1 hLine).1
  rw [inputLines_append, List.getElem?_append_left hPlace]
  exact hLine

/-- What happens at a terminal when an event is dealt with: a request is one prompt; a pause is one
drawing with the current cell between the codes for green, and one prompt if it wants to be
acknowledged. -/
def exchangesFor (columns : Nat) : Event → List Exchange
  | .inputRequested => [.asked "Input one character:"]
  | .paused inspection =>
    .written (inspection.draw columns fun cell => "\x1b[32m" ++ cell ++ "\x1b[0m") ::
      if inspection.pause.acknowledge then
        [.asked
          (if inspection.instruction = some .breakpoint then "Press Enter to Continue!" else "")]
      else
        []
  | _ => []

/-- What has to be shown of an event can be drawn. -/
def CanShow (columns : Nat) : Event → Prop
  | .paused _ => Inspection.Drawable columns
  | _ => True

/-- Where inspections can be drawn, every event can be shown. -/
theorem canShow_of_drawable {columns : Nat} (h : Inspection.Drawable columns) (event : Event) :
    CanShow columns event := by
  cases event with
  | paused inspection => exact h
  | _ => trivial

/-- An event that asks for a line can be shown. -/
theorem canShow_of_promptFor {columns : Nat} {event : Event} {prompt : String}
    (h : promptFor columns event = some prompt) : CanShow columns event := by
  cases event with
  | paused inspection =>
    by_contra hDrawable
    have hNone : promptFor columns (.paused inspection) = none :=
      if_neg fun hBoth => hDrawable hBoth.1
    rw [hNone] at h
    contradiction
  | _ => trivial

/-- The terminal of a session, or of its ending. -/
def terminalOf : Except Ending Session → Terminal
  | .error ending => ending.terminal
  | .ok session => session.terminal

/-- The session after a number of turns, or its ending if it has come to one. -/
def afterTurns (session : Session) : (turns : Nat) → Except Ending Session
  | 0 => .ok session
  | turns + 1 =>
    match session.afterTurns turns with
    | .error ending => .error ending
    | .ok after => after.turn

/-- The first turn comes before all others. -/
theorem afterTurns_succ (session : Session) (turns : Nat) :
    session.afterTurns (turns + 1) =
      match session.turn with
      | .error ending => .error ending
      | .ok after => after.afterTurns turns := by
  induction turns with
  | zero =>
    simp only [afterTurns]
    split <;> simp_all
  | succ turns ih =>
    rw [afterTurns, ih]
    cases session.turn with
    | error ending => rfl
    | ok after => rfl

/-- A session ends within a number of turns exactly if it has come to that ending after them. -/
theorem takeTurns_eq_some_iff (session : Session) (turns : Nat) (ending : Ending) :
    session.takeTurns turns = some ending ↔ session.afterTurns turns = .error ending := by
  induction turns generalizing session with
  | zero => simp [takeTurns, afterTurns]
  | succ turns ih =>
    rw [takeTurns, afterTurns_succ]
    cases session.turn with
    | error found => simp
    | ok after => exact ih after

/-- An event that cannot be shown ends the session as it is. -/
theorem handle_of_not_canShow {session : Session} {event : Event}
    (h : ¬ CanShow session.columns event) :
    session.handle event = .error ⟨.overflow, session.terminal⟩ := by
  cases event with
  | paused inspection => exact handle_paused_of_not_drawable h inspection
  | _ => exact absurd trivial h

/-- Only an event that can be shown lets the session go on. -/
theorem canShow_of_handle {session after : Session} {event : Event}
    (h : session.handle event = .ok after) : CanShow session.columns event := by
  by_contra hShow
  rw [handle_of_not_canShow hShow] at h
  contradiction

/-- Dealing with an event that can be shown adds its exchanges to the transcript. -/
theorem transcript_handle {session : Session} {event : Event}
    (h : CanShow session.columns event) :
    (terminalOf (session.handle event)).transcript.toList =
      session.terminal.transcript.toList ++ exchangesFor session.columns event := by
  cases event with
  | paused inspection =>
    have hDrawable : Inspection.Drawable session.columns := h
    rw [handle_paused hDrawable, exchangesFor]
    by_cases hPause : inspection.pause.acknowledge = true
    · rw [if_pos hPause, if_pos hPause]
      simp only [terminalOf, Terminal.ask, Terminal.write, Array.toList_push, List.append_assoc]
      rfl
    · rw [if_neg hPause, if_neg hPause]
      simp only [terminalOf, Terminal.write, Array.toList_push]
      rfl
  | inputRequested =>
    simp only [handle, terminalOf, exchangesFor, Terminal.ask, Array.toList_push]
    rfl
  | _ => simp [handle, terminalOf, exchangesFor]

/-- A turn only adds to the transcript. -/
theorem transcript_prefix_turn (session : Session) :
    session.terminal.transcript.toList <+: (terminalOf session.turn).transcript.toList := by
  have hTurn : session.turn = session.slice.2.handle session.slice.1 := rfl
  have hSlice : session.slice.2.terminal.transcript = session.terminal.transcript := rfl
  rw [hTurn, ← hSlice]
  by_cases hShow : CanShow session.slice.2.columns session.slice.1
  · rw [transcript_handle hShow]
    exact List.prefix_append _ _
  · rw [handle_of_not_canShow hShow]
    exact List.prefix_refl _

/-- More turns only add to the transcript. -/
theorem transcript_prefix_afterTurns (session : Session) {turns later : Nat} (h : turns ≤ later) :
    (terminalOf (session.afterTurns turns)).transcript.toList <+:
      (terminalOf (session.afterTurns later)).transcript.toList := by
  induction later, h using Nat.le_induction with
  | base => exact List.prefix_refl _
  | succ later hLe ih =>
    refine ih.trans ?_
    rw [afterTurns]
    cases session.afterTurns later with
    | error ending => exact List.prefix_refl _
    | ok after => exact transcript_prefix_turn after

/-- The answers to all requests begin with the lines that a session reads at its prompts for input,
however many turns it takes. -/
def AnswersAsRead (session : Session) (script : List Reply) (answer : Nat → String) : Prop :=
  ∀ turns place line,
    (inputLines script (terminalOf (session.afterTurns turns)).transcript.toList)[place]? =
      some line → answer place = line

/-- There are answers that begin with the lines a session reads. -/
theorem exists_answersAsRead (session : Session) (script : List Reply) :
    ∃ answer, session.AnswersAsRead script answer := by
  have hLine : ∀ place : Nat, ∃ answer : String, ∀ turns line,
      (inputLines script (terminalOf (session.afterTurns turns)).transcript.toList)[place]? =
        some line → answer = line := by
    intro place
    by_cases hRead : ∃ turns line,
        (inputLines script (terminalOf (session.afterTurns turns)).transcript.toList)[place]? =
          some line
    · obtain ⟨turns, answer, hAnswer⟩ := hRead
      refine ⟨answer, ?_⟩
      intro later line hLine
      -- Of two moments the later one has read all that the earlier one has.
      rcases Nat.le_total turns later with hLe | hLe
      · have hSame := getElem?_inputLines (session.transcript_prefix_afterTurns hLe) hAnswer
        rw [hLine] at hSame
        exact (Option.some.inj hSame).symm
      · have hSame := getElem?_inputLines (session.transcript_prefix_afterTurns hLe) hLine
        rw [hAnswer] at hSame
        exact Option.some.inj hSame
    · refine ⟨"", ?_⟩
      intro turns line hLine
      exact absurd ⟨turns, line, hLine⟩ hRead
  choose answer hAnswer using hLine
  exact ⟨answer, fun turns place line h => hAnswer place turns line h⟩

end Session

end ByteTape
