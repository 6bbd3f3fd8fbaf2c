import ByteTape.Fault

/-!
# The growing byte tape

A tape has a first cell and no last one: cells come into being, all zero, when the address moves
past those there are, and never go away. Cells hold bytes, so counting wraps around modulo 256.
A cell not made yet is read as zero, so `byteAt` gives a tape without end; growing leaves it alone
and writing changes it at one address. `WithinCells` says that the current cell has been made.
-/

namespace ByteTape

/-- The cells made so far and the address of the current one. -/
structure Tape where
  /-- The cells from address zero on. -/
  cells : Array UInt8
  /-- The address of the current cell. -/
  address : Nat
  deriving DecidableEq

namespace Tape

/-- A fresh tape: one zero cell, which is the current one. -/
def blank : Tape :=
  ⟨#[0], 0⟩

/-- The current cell is one of the cells made so far. -/
def WithinCells (tape : Tape) : Prop :=
  tape.address < tape.cells.size

/-- The current cell, if it has been made. -/
def read? (tape : Tape) : Option UInt8 :=
  tape.cells[tape.address]?

/-- The byte at an address, zero where no cell has been made. -/
def byteAt (tape : Tape) (address : Nat) : UInt8 :=
  tape.cells.getD address 0

/-- The byte in the current cell. -/
def read (tape : Tape) : UInt8 :=
  tape.byteAt tape.address

/-- Store a byte in the current cell. -/
def write (tape : Tape) (value : UInt8) : Tape :=
  { tape with cells := tape.cells.setIfInBounds tape.address value }

/-- Add one to the current cell, 255 going to 0. -/
def increment (tape : Tape) : Tape :=
  tape.write (tape.read + 1)

/-- Subtract one from the current cell, 0 going to 255. -/
def decrement (tape : Tape) : Tape :=
  tape.write (tape.read - 1)

/-- Append zero cells until there is one at the given address. -/
def growTo (tape : Tape) (address : Nat) : Tape :=
  { tape with cells := tape.cells ++ Array.replicate (address + 1 - tape.cells.size) 0 }

/-- Move to the next cell, made if it is not there. -/
def moveRight (tape : Tape) : Tape :=
  { tape with address := tape.address + 1 }.growTo (tape.address + 1)

/-- Move to the previous cell; there is none before address zero. Whether it succeeds or fails, the
result holds the tape there is then. -/
def moveLeft (tape : Tape) : EStateM.Result Fault Tape Unit :=
  match tape.address with
  | 0 => .error (Fault.ofCause .addressUnderflow) tape
  | previous + 1 => .ok () { tape with address := previous }

/-- A cell that has been made is read as it stands. -/
theorem read?_eq_some_read (tape : Tape) (h : tape.WithinCells) :
    tape.read? = some tape.read := by
  have hAddress : tape.address < tape.cells.size := h
  simp [read?, read, byteAt, Array.getD, hAddress]

/-- The fresh tape's current cell is its only one. -/
theorem withinCells_blank : blank.WithinCells :=
  Nat.zero_lt_one

/-- Writing neither makes cells nor moves the address. -/
@[simp]
theorem size_cells_write (tape : Tape) (value : UInt8) :
    (tape.write value).cells.size = tape.cells.size := by
  simp [write]

/-- Writing changes the byte at the current address only. -/
theorem byteAt_write (tape : Tape) (value : UInt8) (address : Nat) (h : tape.WithinCells) :
    (tape.write value).byteAt address =
      if address = tape.address then value else tape.byteAt address := by
  have hAddress : tape.address < tape.cells.size := h
  simp only [byteAt, write, Array.getD_eq_getD_getElem?, Array.getElem?_setIfInBounds]
  by_cases hSame : address = tape.address
  · rw [if_pos hSame.symm, if_pos hSame, if_pos (by omega)]
    rfl
  · rw [if_neg (Ne.symm hSame), if_neg hSame]

/-- Growing makes exactly the cells that are missing. -/
@[simp]
theorem size_cells_growTo (tape : Tape) (address : Nat) :
    (tape.growTo address).cells.size = max tape.cells.size (address + 1) := by
  simp only [growTo, Array.size_append, Array.size_replicate]
  omega

/-- Growing leaves the address alone. -/
@[simp]
theorem address_growTo (tape : Tape) (address : Nat) :
    (tape.growTo address).address = tape.address :=
  rfl

/-- Growing changes no byte: cells are zero before and after they are made. -/
@[simp]
theorem byteAt_growTo (tape : Tape) (target address : Nat) :
    (tape.growTo target).byteAt address = tape.byteAt address := by
  simp only [byteAt, growTo, Array.getD_eq_getD_getElem?, Array.getElem?_append]
  by_cases hMade : address < tape.cells.size
  · rw [if_pos hMade]
  · have hMissing : tape.cells[address]? = none := Array.getElem?_eq_none (by omega)
    rw [if_neg hMade, hMissing, Array.getElem?_replicate]
    split <;> rfl

/-- After a move to the right the current cell has been made. -/
theorem withinCells_moveRight (tape : Tape) : tape.moveRight.WithinCells := by
  simp only [WithinCells, moveRight, size_cells_growTo, address_growTo]
  omega

/-- A move to the left fails exactly at the first cell, and then it leaves the tape as it was. -/
theorem moveLeft_eq_error_iff (tape : Tape) (fault : Fault) (after : Tape) :
    tape.moveLeft = .error fault after ↔
      tape.address = 0 ∧ Fault.ofCause .addressUnderflow = fault ∧ tape = after := by
  unfold moveLeft
  split <;> simp_all

end Tape

end ByteTape
