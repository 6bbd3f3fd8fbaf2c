import ByteTape.Tape

/-!
# A tape seen from its current cell

A tape whose current cell has been made is the cells to its left, nearest first, the current cell,
and the cells to its right. Seen in this way every operation of a tape works next to the current
cell only, and cells that do not matter stay out of sight. A move to the right of the last cell
makes a zero there; a move to the left takes the nearest cell back.
-/

namespace ByteTape

namespace Tape

/-- The tape with the given cells to the left of the current one, nearest first, and to its
right. -/
def focused (left : List UInt8) (current : UInt8) (right : List UInt8) : Tape :=
  ⟨(left.reverse ++ current :: right).toArray, left.length⟩

/-- A fresh tape has nothing beside its current cell. -/
theorem blank_eq_focused : blank = focused [] 0 [] :=
  rfl

variable (left : List UInt8) (current : UInt8) (right : List UInt8)

/-- The address counts the cells to the left. -/
@[simp]
theorem address_focused : (focused left current right).address = left.length :=
  rfl

/-- The cells on both sides and the current one are all there are. -/
@[simp]
theorem size_cells_focused :
    (focused left current right).cells.size = left.length + 1 + right.length := by
  simp only [focused, List.size_toArray, List.length_append, List.length_reverse, List.length_cons]
  omega

/-- The current cell is read. -/
@[simp]
theorem read_focused : (focused left current right).read = current := by
  simp [read, byteAt, focused]

/-- Writing replaces the current cell. -/
@[simp]
theorem write_focused (value : UInt8) :
    (focused left current right).write value = focused left value right := by
  have hSet : (left.reverse ++ current :: right).set left.length value =
      left.reverse ++ value :: right := by
    rw [List.set_append_right _ _ (Nat.le_of_eq List.length_reverse), List.length_reverse,
      Nat.sub_self, List.set_cons_zero]
  simp [write, focused, hSet]

/-- Counting up changes the current cell. -/
@[simp]
theorem increment_focused :
    (focused left current right).increment = focused left (current + 1) right := by
  rw [increment, read_focused, write_focused]

/-- Counting down changes the current cell. -/
@[simp]
theorem decrement_focused :
    (focused left current right).decrement = focused left (current - 1) right := by
  rw [decrement, read_focused, write_focused]

/-- A move to the right of the last cell makes a zero. -/
@[simp]
theorem moveRight_focused_nil :
    (focused left current []).moveRight = focused (current :: left) 0 [] := by
  simp [moveRight, growTo, focused]

/-- A move to the right goes to the cell that is there. -/
@[simp]
theorem moveRight_focused_cons (next : UInt8) :
    (focused left current (next :: right)).moveRight = focused (current :: left) next right := by
  have hMade : left.length + 1 + 1 - (left.length + (right.length + 1 + 1)) = 0 := by omega
  simp [moveRight, growTo, focused, hMade]

/-- A move to the left goes to the nearest cell there. -/
@[simp]
theorem moveLeft_focused_cons (previous : UInt8) :
    (focused (previous :: left) current right).moveLeft =
      .ok () (focused left previous (current :: right)) := by
  simp [moveLeft, focused]

end Tape

end ByteTape
