/-!
# Instructions of a byte tape program

A program is written one character per instruction. Nine characters act on the machine; every
other character is a comment, which keeps its place in the program and does nothing. Decoding
loses nothing: `toChar_ofChar` gives every character back.
-/

namespace ByteTape

/-- One instruction of a program. -/
inductive Instruction where
  /-- Add one to the current cell. -/
  | increment
  /-- Subtract one from the current cell. -/
  | decrement
  /-- Move to the next cell, growing the tape if needed. -/
  | right
  /-- Move to the previous cell. -/
  | left
  /-- Append the character of the current cell to the output. -/
  | output
  /-- Ask for a line and store its first character. -/
  | input
  /-- Enter a loop, or skip it when the current cell is zero. -/
  | loopOpen
  /-- Repeat a loop, or leave it when the current cell is zero. -/
  | loopClose
  /-- Pause with the output shown. -/
  | breakpoint
  /-- Any other character, without effect. -/
  | comment (character : Char)
  deriving DecidableEq

namespace Instruction

/-- The instruction written as a character. -/
def ofChar : Char → Instruction
  | '+' => increment
  | '-' => decrement
  | '>' => right
  | '<' => left
  | '.' => output
  | ',' => input
  | '[' => loopOpen
  | ']' => loopClose
  | '^' => breakpoint
  | character => comment character

/-- The character an instruction is written as. -/
def toChar : Instruction → Char
  | increment => '+'
  | decrement => '-'
  | right => '>'
  | left => '<'
  | output => '.'
  | input => ','
  | loopOpen => '['
  | loopClose => ']'
  | breakpoint => '^'
  | comment character => character

/-- Writing a decoded character gives that character back. -/
@[simp]
theorem toChar_ofChar (character : Char) : (ofChar character).toChar = character := by
  unfold ofChar
  split <;> rfl

/-- Different characters decode to different instructions. -/
theorem ofChar_injective {first second : Char} (h : ofChar first = ofChar second) :
    first = second := by
  rw [← toChar_ofChar first, h, toChar_ofChar]

/-- Everything but a comment has an effect worth pausing after. -/
def isEffectful : Instruction → Bool
  | comment _ => false
  | _ => true

/-- An instruction lacks an effect exactly when it is a comment. -/
theorem isEffectful_eq_false_iff (instruction : Instruction) :
    instruction.isEffectful = false ↔ ∃ character, instruction = comment character := by
  cases instruction <;> simp [isEffectful]

/-- The text of an instruction: its one character. -/
def text (instruction : Instruction) : String :=
  String.singleton instruction.toChar

end Instruction

end ByteTape
