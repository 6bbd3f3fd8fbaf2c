import ByteTape.Machine.Call

/-!
# A machine that refuses

The operations of a machine are made for certain arguments: a cell is read and written where there
is one, a bracket scan begins at an opening bracket, a fault is placed once, and numbers are counted
down only to zero and up only so far: addresses of the program and open brackets as far as the
program goes, cells and instructions as far as the counters go. A guarded machine does what a
machine does, and refuses, by giving nothing, as soon as an argument is of another kind. Its bracket
scan keeps the count of open brackets as it is written down, from one at the opening bracket to
zero.
-/

namespace ByteTape

namespace Guarded

/-- The next number, refused where the counters end. -/
def succ? (limit count : Nat) : Option Nat :=
  if count + 1 < limit then some (count + 1) else none

/-- The number before, refused at zero. -/
def pred? : Nat → Option Nat
  | 0 => none
  | count + 1 => some count

end Guarded

open Guarded

namespace Tape

/-- Store a byte in the current cell, refused where there is no cell. -/
def write? (tape : Tape) (value : UInt8) : Option Tape :=
  if tape.address < tape.cells.size then some (tape.write value) else none

/-- Add one to the current cell. -/
def increment? (tape : Tape) : Option Tape := do
  let value ← tape.read?
  tape.write? (value + 1)

/-- Subtract one from the current cell. -/
def decrement? (tape : Tape) : Option Tape := do
  let value ← tape.read?
  tape.write? (value - 1)

/-- Append zero cells if there is none at the given address, refused where their number cannot be
counted. -/
def growTo? (limit : Nat) (tape : Tape) (address : Nat) : Option Tape :=
  if tape.cells.size ≤ address then do
    let size ← succ? limit address
    some { tape with cells := tape.cells ++ Array.replicate (size - tape.cells.size) 0 }
  else
    some tape

/-- Move to the next cell, refused where its address cannot be counted. -/
def moveRight? (limit : Nat) (tape : Tape) : Option Tape := do
  let address ← succ? limit tape.address
  growTo? limit { tape with address } address

end Tape

namespace Program

/-- Count one more address or bracket, refused where there are more than the program has. -/
def next? (program : Program) (count : Nat) : Option Nat :=
  succ? (program.size + 1) count

/-- Scan on from an address for at most the given number of steps, with some brackets open, until
none is open. A scan that needs more steps is refused. -/
def scanClose? (program : Program) : (steps depth address : Nat) → Option (Except Fault Nat)
  | 0, depth, address => if depth = 0 then some (.ok address) else none
  | steps + 1, depth, address =>
    if depth = 0 then
      some (.ok address)
    else do
      let address ← program.next? address
      match program.instruction? address with
      | some .loopOpen => do
        let depth ← program.next? depth
        scanClose? program steps depth address
      | some .loopClose => do
        let depth ← pred? depth
        scanClose? program steps depth address
      | some _ => scanClose? program steps depth address
      | none => some (.error (Fault.ofCause .unbalancedLoop))

/-- The end of the loop opened at an address, refused where no loop opens. The scan may not take
more steps than there are addresses from there to the end. -/
def guardedClose? (program : Program) (opening : Nat) : Option (Except Fault Nat) :=
  if program.instruction? opening = some .loopOpen then
    program.scanClose? (program.size - opening) 1 opening
  else
    none

end Program

namespace Machine

/-- Perform an instruction at the position of the machine. -/
def perform? (limit : Nat) (machine : Machine) : Instruction → Option Outcome
  | .increment => do
    let tape ← machine.tape.increment?
    let next ← machine.program.next? machine.position
    some (.done { machine with tape } next)
  | .decrement => do
    let tape ← machine.tape.decrement?
    let next ← machine.program.next? machine.position
    some (.done { machine with tape } next)
  | .right => do
    let tape ← machine.tape.moveRight? limit
    let next ← machine.program.next? machine.position
    some (.done { machine with tape } next)
  | .left =>
    match machine.tape.moveLeft with
    | .ok () tape => do
      let next ← machine.program.next? machine.position
      some (.done { machine with tape } next)
    | .error fault tape => some (.fails { machine with tape } fault)
  | .output => do
    let value ← machine.tape.read?
    let next ← machine.program.next? machine.position
    some (.done { machine with output := machine.output.push (charOfByte value) } next)
  | .input => some (.waits machine)
  | .loopOpen => do
    let value ← machine.tape.read?
    if value = 0 then do
      let scanned ← machine.program.guardedClose? machine.position
      match scanned with
      | .ok closing => do
        let next ← machine.program.next? closing
        some (.done (machine.note (.loopSkipped machine.position closing)) next)
      | .error fault => some (.fails machine fault)
    else do
      let next ← machine.program.next? machine.position
      some (.done { machine with stack := machine.stack.push machine.position } next)
  | .loopClose =>
    match machine.stack.pop with
    | .ok opening stack => do
      let value ← machine.tape.read?
      let next ← if value = 0 then machine.program.next? machine.position else some opening
      some (.done { machine with stack } next)
    | .error fault stack => some (.fails { machine with stack } fault)
  | .breakpoint => do
    let next ← machine.program.next? machine.position
    some (.done machine next)
  | .comment _ => do
    let next ← machine.program.next? machine.position
    some (.done machine next)

/-- Begin the instruction at the position; at the end of the program there is none. -/
def step? (limit : Nat) (machine : Machine) : Option Machine :=
  match machine.program.instruction? machine.position with
  | none => some machine
  | some instruction => do
    let executed ← succ? limit machine.executed
    let outcome ← { machine with executed }.perform? limit instruction
    match outcome with
    | .done performed next => some (performed.retire instruction next)
    | .waits begun => some { begun with status := .awaitingInput }
    | .fails begun fault => do
      let placed ← fault.locate? (some begun.position)
      some (begun.fail placed)

/-- The machine after running at most the given number of instructions. -/
def execute? (limit : Nat) (machine : Machine) : (cycles : Nat) → Option Machine
  | 0 => some machine.settle
  | cycles + 1 =>
    match machine.settle.status with
    | .running => do
      let stepped ← machine.settle.step? limit
      stepped.execute? limit cycles
    | _ => some machine.settle

/-- Answer a request for input by a line. -/
def enter? (machine : Machine) (input : String) : Option Machine :=
  match machine.status with
  | .awaitingInput => do
    let tape ← machine.tape.write? (byteOfLine input)
    let next ← machine.program.next? machine.position
    some ({ machine with tape, status := .running }.retire .input next)
  | _ => some (machine.note (.strayInput input))

/-- Cancel a run that has not ended. -/
def interrupt? (machine : Machine) : Option Machine :=
  match machine.status with
  | .halted => some machine
  | .faulted _ => some machine
  | _ => do
    let fault ← (Fault.ofCause .interrupted).locate? (some machine.position)
    some (machine.fail fault)

/-- What may be asked of a machine. -/
inductive Request where
  /-- A call that drives it. -/
  | drive (call : Call)
  /-- A look at it. -/
  | look
  deriving DecidableEq

/-- The call that a request makes, if it makes one. -/
def Request.call? : Request → Option Call
  | .drive call => some call
  | .look => none

/-- Make a call. -/
def call? (limit : Nat) (machine : Machine) : Call → Option Machine
  | .execute cycles => machine.execute? limit cycles
  | .enter input => machine.enter? input
  | .resume => some machine.resume
  | .interrupt => machine.interrupt?

/-- The machine after a request. A look reads no cell and counts nothing. -/
def serve? (limit : Nat) (machine : Machine) : Request → Option Machine
  | .drive call => machine.call? limit call
  | .look => some machine

/-- The machine after a sequence of requests. -/
def serveAll? (limit : Nat) (machine : Machine) (requests : List Request) : Option Machine :=
  requests.foldlM (serve? limit) machine

end Machine

end ByteTape
