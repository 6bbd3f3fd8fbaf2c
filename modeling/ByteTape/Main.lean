import ByteTape.Session.Scripted

/-!
# The program

A thin layer over the session: it asks for the lines, reads the file, waits, and prints. What to
ask for, what a reply means and how a session ends is decided by the session, which gets its one
reply a turn as a script. The interrupt key ends the process itself.
-/

namespace ByteTape.Console

open CommandLine Session

/-- A line without the mark of its end. -/
def withoutLineEnd (line : String) : String :=
  match line.toList.reverse with
  | '\n' :: '\r' :: rest => String.ofList rest.reverse
  | '\n' :: rest => String.ofList rest.reverse
  | _ => line

/-- Ask for a line. -/
def ask (prompt : String) : IO Reply := do
  let output ← IO.getStdout
  output.putStr prompt
  output.flush
  let line ← (← IO.getStdin).getLine
  if line.isEmpty then
    return .endOfInput
  else
    return .line false (withoutLineEnd line)

/-- The replies to the prompts there are. -/
def askAll : Option String → IO (List Reply)
  | none => return []
  | some prompt => return [← ask prompt]

/-- The failure that an error of the system stands for. -/
def failureOf : IO.Error → FileFailure
  | .noFileOrDirectory .. => .missing
  | .inappropriateType .. => .directory
  | error => .other (toString error)

/-- The bytes of a file. -/
def bytesOf (path : String) : IO (Except FileFailure ByteArray) := do
  try
    return .ok (← IO.FS.readBinFile path)
  catch error =>
    return .error (failureOf error)

/-- Wait as long as an event wants. -/
def await : Event → IO Unit
  | .paused inspection =>
    IO.sleep (UInt32.ofNat (min (inspection.pause.delay.nanoseconds / 1000000) (UInt32.size - 1)))
  | _ => return

/-- Print how a session ended and give its exit code. -/
def leave (exit : Exit) : IO UInt32 := do
  IO.print exit.output
  IO.eprint exit.complaint
  return UInt32.ofNat exit.code

/-- Take turns until the session ends. -/
partial def takeTurns (session : Session) : IO UInt32 := do
  let (event, after) := session.slice
  if let .paused inspection := event then
    IO.print ((shown? inspection after.columns).getD "")
  let replies ← askAll (promptFor after.columns event)
  match { after with terminal := .ofScript replies false }.handle event with
  | .error ending => leave ending.exit
  | .ok next =>
    await event
    takeTurns next

/-- Begin a session and take its turns. -/
def run (options : Options) : IO UInt32 := do
  let bytes ←
    match options.file with
    | some path => bytesOf path
    | none => pure (.error .missing)
  let replies ← askAll (if options.lacksSource then some sourcePrompt else none)
  match Session.start options ⟨fun _ => bytes, none, .ofScript replies false⟩ with
  | .error ending => leave ending.exit
  | .ok session => takeTurns session

end ByteTape.Console

/-- Do what the command line asks for. -/
def main (arguments : List String) : IO UInt32 :=
  match ByteTape.CommandLine.read arguments with
  | .error error => ByteTape.Console.leave (.usage error)
  | .ok .version => ByteTape.Console.leave .version
  | .ok .help => ByteTape.Console.leave .help
  | .ok (.run options) => ByteTape.Console.run options
