import ByteTape.CommandLine.Reading
import ByteTape.Session.Conversation
import ByteTape.Session.Terminal

/-!
# A session at a scripted terminal

A session first finds its source, then takes turns. In each turn a pressed interrupt key cancels
the run, the machine runs for one slice, and the event of the slice is dealt with: a line is asked
for, an inspection is shown and perhaps acknowledged, or the session ends. It also ends where an
inspection is to be shown in more columns than can be drawn.
-/

namespace ByteTape

open CommandLine

/-- A machine at a terminal. -/
structure Session where
  /-- The machine being run. -/
  machine : Machine
  /-- The columns of a drawing. -/
  columns : Nat
  /-- The budget of a slice. -/
  cycles : Nat
  /-- The terminal. -/
  terminal : Session.Terminal
  deriving DecidableEq

namespace Session

/-- A session that is over. -/
structure Ending where
  /-- How it ended. -/
  exit : Exit
  /-- The terminal at the end. -/
  terminal : Terminal
  deriving DecidableEq

/-- What a command line finds around it. -/
structure Surroundings where
  /-- The bytes of the file of a path. -/
  fileBytes : String → Except FileFailure ByteArray
  /-- The width of the terminal, if it is known. -/
  width : Option Nat
  /-- The terminal. -/
  terminal : Terminal

/-- The machine after a reply to a request for input. -/
def answerInput (machine : Machine) : Reply → Machine
  | .line _ text => machine.enter text
  | .endOfInput => machine.enter ""
  | .signal => machine.interrupt

/-- The machine after a reply to a request for acknowledgment. -/
def answerPause (machine : Machine) : Reply → Machine
  | .line _ _ => machine.resume
  | .endOfInput => machine.resume
  | .signal => machine.interrupt

/-- Cancel the run if the interrupt key was pressed, and run the machine for one slice. -/
def slice (session : Session) : Event × Session :=
  let machine :=
    if session.terminal.interrupted then session.machine.interrupt else session.machine
  let (event, after) := machine.execute session.cycles
  (event, { session with machine := after, terminal := session.terminal.acknowledgeInterrupt })

/-- Deal with the event of a slice. -/
def handle (session : Session) : Event → Except Ending Session
  | .running => .ok session
  | .inputRequested =>
    let (reply, terminal) := session.terminal.ask inputPrompt
    .ok { session with machine := answerInput session.machine reply, terminal }
  | .paused inspection =>
    match shown? inspection session.columns with
    | none => .error ⟨.overflow, session.terminal⟩
    | some drawing =>
      let terminal := session.terminal.write drawing
      if inspection.pause.acknowledge then
        let (reply, terminal) := terminal.ask (acknowledgmentPrompt inspection)
        .ok { session with machine := answerPause session.machine reply, terminal }
      else
        .ok { session with machine := session.machine.resume, terminal }
  | .halted output => .error ⟨.halted output, session.terminal⟩
  | .faulted fault => .error ⟨.faulted fault, session.terminal⟩

/-- A pause that can be drawn is shown, and acknowledged if it wants to be. -/
theorem handle_paused {session : Session} (h : Inspection.Drawable session.columns)
    (inspection : Inspection) :
    session.handle (.paused inspection) =
      let terminal := session.terminal.write (inspection.draw session.columns green)
      if inspection.pause.acknowledge then
        let (reply, terminal) := terminal.ask (acknowledgmentPrompt inspection)
        .ok { session with machine := answerPause session.machine reply, terminal }
      else
        .ok { session with machine := session.machine.resume, terminal } := by
  rw [handle, shown?, Inspection.draw?_of_drawable h]

/-- A pause that cannot be drawn ends the session, and nothing is shown or asked for. -/
theorem handle_paused_of_not_drawable {session : Session}
    (h : ¬ Inspection.Drawable session.columns) (inspection : Inspection) :
    session.handle (.paused inspection) = .error ⟨.overflow, session.terminal⟩ := by
  rw [handle, shown?, Inspection.draw?_of_not_drawable h]

/-- One turn of a session. -/
def turn (session : Session) : Except Ending Session :=
  let (event, after) := session.slice
  after.handle event

/-- Take at most the given number of turns; no ending if the session goes on after them. -/
def takeTurns (session : Session) : (turns : Nat) → Option Ending
  | 0 => none
  | turns + 1 =>
    match session.turn with
    | .error ending => some ending
    | .ok after => after.takeTurns turns

/-- Find the source: as it was given, in a file, or by asking for it. -/
def findSource (options : Options) (surroundings : Surroundings) :
    Except Ending (String × Terminal) :=
  match options.source, options.file with
  | some source, _ => .ok (source, surroundings.terminal)
  | none, some path =>
    match surroundings.fileBytes path >>= sourceOfBytes with
    | .ok source => .ok (source, surroundings.terminal)
    | .error failure => .error ⟨.unreadable path failure, surroundings.terminal⟩
  | none, none =>
    match surroundings.terminal.ask sourcePrompt with
    | (.line _ source, terminal) => .ok (source, terminal)
    | (_, terminal) => .error ⟨.silent, terminal⟩

/-- Begin a session, unless there is no source. -/
def start (options : Options) (surroundings : Surroundings) : Except Ending Session :=
  (findSource options surroundings).map fun (source, terminal) =>
    { machine := machineFor options source
      columns := columnsFor options surroundings.width
      cycles := options.budget
      terminal }

/-- Do what a request asks for, taking at most the given number of turns. -/
def serve (surroundings : Surroundings) (turns : Nat) : Request → Option Ending
  | .version => some ⟨.version, surroundings.terminal⟩
  | .help => some ⟨.help, surroundings.terminal⟩
  | .run options =>
    match start options surroundings with
    | .error ending => some ending
    | .ok session => session.takeTurns turns

end Session

end ByteTape
