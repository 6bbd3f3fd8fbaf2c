/-!
# A terminal with a script

What a terminal will answer is a list of replies, taken one for each line that is asked for, and
what happens at it is a transcript. The terminal also remembers that its user pressed the
interrupt key, until somebody looks.
-/

namespace ByteTape.Session

/-- What comes of asking for a line. -/
inductive Reply where
  /-- A line; the flag tells whether the interrupt key was pressed before it. -/
  | line (interrupted : Bool) (text : String)
  /-- The reading itself was interrupted. -/
  | signal
  /-- There is no more input. -/
  | endOfInput
  deriving DecidableEq

namespace Reply

/-- Whether the interrupt key was pressed during the reading of a line. -/
def pressesInterrupt : Reply → Bool
  | line interrupted _ => interrupted
  | signal => false
  | endOfInput => false

end Reply

/-- Something that happens at a terminal. -/
inductive Exchange where
  /-- A text was written. -/
  | written (text : String)
  /-- A line was asked for with a prompt. -/
  | asked (prompt : String)
  deriving DecidableEq

/-- A terminal whose replies are known in advance. -/
structure Terminal where
  /-- The replies to come; after them there is no more input. -/
  script : List Reply
  /-- What has happened, oldest first. -/
  transcript : Array Exchange
  /-- Whether the interrupt key was pressed since the last look. -/
  interrupted : Bool
  deriving DecidableEq

namespace Terminal

/-- A terminal at which nothing has happened yet. -/
def ofScript (script : List Reply) (interrupted : Bool) : Terminal :=
  ⟨script, #[], interrupted⟩

/-- Write a text. -/
def write (terminal : Terminal) (text : String) : Terminal :=
  { terminal with transcript := terminal.transcript.push (.written text) }

/-- Ask for a line. -/
def ask (terminal : Terminal) (prompt : String) : Reply × Terminal :=
  let reply := terminal.script.headD .endOfInput
  (reply,
    { script := terminal.script.tail
      transcript := terminal.transcript.push (.asked prompt)
      interrupted := terminal.interrupted || reply.pressesInterrupt })

/-- Forget that the interrupt key was pressed. -/
def acknowledgeInterrupt (terminal : Terminal) : Terminal :=
  { terminal with interrupted := false }

end Terminal

end ByteTape.Session
