import ByteTape.Fault
import ByteTape.Instruction

/-!
# Programs and the bracket scan

A program is the sequence of its characters, and an address counts them from zero. The end of a
loop is found by scanning forward from its opening bracket while counting the loops opened on the
way; only brackets count, everything else is passed over.
-/

namespace ByteTape

/-- A program as it was written. -/
structure Program where
  /-- The characters in order, one instruction each. -/
  symbols : Array Char
  deriving DecidableEq

namespace Program

/-- The program written in a text. -/
def ofString (source : String) : Program :=
  ⟨source.toList.toArray⟩

/-- The text of a program. -/
def text (program : Program) : String :=
  String.ofList program.symbols.toList

/-- The number of instructions, comments included. -/
def size (program : Program) : Nat :=
  program.symbols.size

/-- Whether there is no instruction at all. -/
def isEmpty (program : Program) : Bool :=
  program.symbols.isEmpty

/-- The instruction at an address, if the program reaches that far. -/
def instruction? (program : Program) (address : Nat) : Option Instruction :=
  program.symbols[address]?.map Instruction.ofChar

/-- Scan the given number of symbols from an address on for the bracket that closes a loop, with
some inner loops still to be closed before it. -/
def closeFrom (program : Program) : (remaining inner address : Nat) → Option Nat
  | 0, _, _ => none
  | remaining + 1, inner, address =>
    match program.instruction? address with
    | some .loopOpen => closeFrom program remaining (inner + 1) (address + 1)
    | some .loopClose =>
      if inner = 0 then some address
      else closeFrom program remaining (inner - 1) (address + 1)
    | _ => closeFrom program remaining inner (address + 1)

/-- The address of the bracket that closes the loop opened at an address. -/
def matchingClose (program : Program) (opening : Nat) : Except Fault Nat :=
  match program.closeFrom (program.size - (opening + 1)) 0 (opening + 1) with
  | some closing => .ok closing
  | none => .error (Fault.ofCause .unbalancedLoop)

/-- The bracket scan, refused at an address where no loop opens. -/
def matchingClose? (program : Program) (opening : Nat) : Option (Except Fault Nat) :=
  if program.instruction? opening = some .loopOpen then
    some (program.matchingClose opening)
  else
    none

/-- A program keeps the text it was written in. -/
@[simp]
theorem text_ofString (source : String) : (ofString source).text = source := by
  simp [text, ofString]

/-- The size of a program counts the characters of its text. -/
@[simp]
theorem size_ofString (source : String) : (ofString source).size = source.length := by
  simp [size, ofString, String.length_toList]

/-- There is an instruction exactly at the addresses below the size. -/
theorem instruction?_eq_none_iff (program : Program) (address : Nat) :
    program.instruction? address = none ↔ program.size ≤ address := by
  simp [instruction?, size]

end Program

end ByteTape
