import ByteTape.Inspection

/-!
# Drawing an inspection

A drawing is a rule, a line for the instruction, a line for the stack, the cells in rows of a
chosen number of columns, and the output where it is to be shown. The text of the current cell is
passed through a highlight, so that a terminal may colour it and plain text may put marks around
it. The cell in a row and a column has the index `row * columns + column` on the tape. The length of
the rule is calculated in words of 64 bits, so a drawing is refused, by giving nothing, where that
length is no word.
-/

namespace ByteTape

namespace Inspection

/-- The number of columns drawn: at least one. -/
def columnCount (columns : Nat) : Nat :=
  max columns 1

/-- The length of the rule: five characters for each column. -/
def ruleWidth (columns : Nat) : Nat :=
  columnCount columns * 5

/-- The rule above a drawing. -/
def rule (columns : Nat) : String :=
  String.ofList (List.replicate (ruleWidth columns) '=')

/-- The text of a byte: two lower-case hexadecimal digits after `0x`. -/
def byteText (value : UInt8) : String :=
  String.ofList ['0', 'x', Nat.digitChar (value.toNat / 16), Nat.digitChar (value.toNat % 16)]

/-- Divide a list into rows of the given length, the last one perhaps shorter. -/
def rows {α : Type} (columns : Nat) : List α → List (List α)
  | [] => []
  | cell :: rest => (cell :: rest.take (columns - 1)) :: rows columns (rest.drop (columns - 1))
termination_by cells => cells.length
decreasing_by simp only [List.length_drop, List.length_cons]; omega

/-- The index on the tape of the cell drawn in a row and a column. -/
def cellIndex (columns row column : Nat) : Nat :=
  row * columns + column

/-- The text of the cell at an index, highlighted if it is the current one. -/
def cellText (address : Nat) (highlight : String → String) (index : Nat) (value : UInt8) :
    String :=
  if index = address then highlight (byteText value) else byteText value

/-- The texts of all cells, row by row. -/
def grid (tape : Tape) (columns : Nat) (highlight : String → String) : List (List String) :=
  (rows columns tape.cells.toList).mapIdx fun row cells =>
    cells.mapIdx fun column value =>
      cellText tape.address highlight (cellIndex columns row column) value

/-- A text with the end of its line. -/
def line (text : String) : String :=
  text ++ "\n"

/-- The line that tells the instruction. -/
def instructionText : Option Instruction → String
  | none => "Instruction :"
  | some instruction => "Instruction : " ++ instruction.text

/-- The lines of the cells, each row divided by blanks. -/
def memoryText (tape : Tape) (columns : Nat) (highlight : String → String) : String :=
  String.join ((grid tape columns highlight).map fun cells =>
    line (String.intercalate " " cells))

/-- The line of the output, where it is to be shown. -/
def outputText : Option String → String
  | none => ""
  | some output => line output

/-- Draw an inspection in the given number of columns. -/
def draw (inspection : Inspection) (columns : Nat) (highlight : String → String) : String :=
  line (rule columns) ++
    line (instructionText inspection.instruction) ++
    line ("Stack : " ++ inspection.stack.text) ++
    line "Memory:" ++
    memoryText inspection.tape (columnCount columns) highlight ++
    outputText inspection.output

/-- A drawing in the given number of columns can be made: the length of its rule is a word. -/
def Drawable (columns : Nat) : Prop :=
  ruleWidth columns < UInt64.size

instance (columns : Nat) : Decidable (Drawable columns) :=
  inferInstanceAs (Decidable (ruleWidth columns < UInt64.size))

/-- Draw an inspection in the given number of columns, refused where it cannot be drawn. -/
def draw? (inspection : Inspection) (columns : Nat) (highlight : String → String) :
    Option String :=
  if Drawable columns then some (inspection.draw columns highlight) else none

/-- Mark a cell by brackets. -/
def bracketed (text : String) : String :=
  "[" ++ text ++ "]"

/-- The plain text of an inspection: sixteen columns, the current cell in brackets. -/
def text (inspection : Inspection) : String :=
  inspection.draw 16 bracketed

/-- A drawing can be made exactly if five times its columns is a word: the least rule is one. -/
theorem drawable_iff (columns : Nat) : Drawable columns ↔ 5 * columns < UInt64.size := by
  have hFive : 5 < UInt64.size := by decide
  unfold Drawable ruleWidth columnCount
  omega

/-- What can be drawn is not refused. -/
theorem draw?_of_drawable {columns : Nat} (h : Drawable columns) (inspection : Inspection)
    (highlight : String → String) :
    inspection.draw? columns highlight = some (inspection.draw columns highlight) :=
  if_pos h

/-- What cannot be drawn is refused, whatever it is. -/
theorem draw?_of_not_drawable {columns : Nat} (h : ¬ Drawable columns) (inspection : Inspection)
    (highlight : String → String) : inspection.draw? columns highlight = none :=
  if_neg h

end Inspection

end ByteTape
