import ByteTape.Inspection.Drawing
import Mathlib.Algebra.Order.Floor.Div
import Mathlib.Data.List.Basic

/-!
# Where the cells are drawn

The cells of a tape are drawn in rows of a fixed length, the last of which may be shorter. The cell
at an index stands in the row and at the place that quotient and remainder by that length give, and
the highlight reaches one cell or none. The rows put together again are the texts of all cells in
the order of the tape.
-/

namespace ByteTape

namespace Inspection

section Rows

variable {α : Type} {columns : Nat}

/-- The rows are the pieces of the list that begin at the multiples of their length. -/
theorem getElem?_rows (h : 0 < columns) (cells : List α) (row : Nat) :
    (rows columns cells)[row]? =
      if row * columns < cells.length then some ((cells.drop (row * columns)).take columns)
      else none := by
  obtain ⟨width, rfl⟩ := Nat.exists_eq_add_one_of_ne_zero (Nat.ne_of_gt h)
  fun_induction rows (width + 1) cells generalizing row with
  | case1 => rw [List.length_nil, if_neg (Nat.not_lt_zero _), List.getElem?_nil]
  | case2 cell rest ih =>
    cases row with
    | zero =>
      rw [Nat.zero_mul, List.length_cons, if_pos (Nat.succ_pos _), List.drop_zero,
        List.getElem?_cons_zero, List.take_succ_cons]
      rfl
    | succ row =>
      have hStart : (row + 1) * (width + 1) = width + row * (width + 1) + 1 := by
        rw [Nat.succ_mul]
        omega
      rw [List.getElem?_cons_succ, ih row, hStart, List.drop_succ_cons, List.length_cons,
        Nat.add_sub_cancel, List.drop_drop, List.length_drop]
      exact if_congr (by omega) rfl rfl

/-- A row takes as many elements as are left for it, up to the number of columns. -/
theorem length_of_getElem?_rows (h : 0 < columns) {cells piece : List α} {row : Nat}
    (hRow : (rows columns cells)[row]? = some piece) :
    row * columns < cells.length ∧ piece.length = min columns (cells.length - row * columns) := by
  rw [getElem?_rows h] at hRow
  split at hRow
  · rename_i hLt
    rw [Option.some.injEq] at hRow
    rw [← hRow, List.length_take, List.length_drop]
    exact ⟨hLt, rfl⟩
  · contradiction

end Rows

/-- The text drawn in a row at a place. -/
def textAt? (texts : List (List String)) (row place : Nat) : Option String :=
  texts[row]?.bind fun cells => cells[place]?

/-- The text of a byte has four symbols, the last two of them its digits. -/
theorem toList_byteText (value : UInt8) :
    (byteText value).toList =
      ['0', 'x', Nat.digitChar (value.toNat / 16), Nat.digitChar (value.toNat % 16)] :=
  String.toList_ofList

variable {tape : Tape} {columns : Nat} {highlight : String → String}

/-- A row of the drawing has the cells of a row of the tape. -/
theorem getElem?_grid (row : Nat) :
    (grid tape columns highlight)[row]? = (rows columns tape.cells.toList)[row]?.map fun cells =>
      cells.mapIdx fun place => cellText tape.address highlight (cellIndex columns row place) := by
  rw [grid, List.getElem?_mapIdx]

/-- What is drawn in a row at a place is the cell with the index that belongs there. -/
theorem textAt?_grid (h : 0 < columns) (row place : Nat) :
    textAt? (grid tape columns highlight) row place =
      if place < columns then
        tape.cells[cellIndex columns row place]?.map
          (cellText tape.address highlight (cellIndex columns row place))
      else none := by
  rw [textAt?, getElem?_grid, getElem?_rows h, Array.length_toList, cellIndex]
  split
  · rw [Option.map_some, Option.bind_some, List.getElem?_mapIdx, List.getElem?_take,
      List.getElem?_drop, Array.getElem?_toList]
    split <;> rfl
  · rename_i hNone
    have hOutside : tape.cells[row * columns + place]? = none :=
      Array.getElem?_eq_none (by omega)
    rw [hOutside]
    split <;> rfl

/-- The cell at an index stands where quotient and remainder say. -/
theorem textAt?_of_index (h : 0 < columns) (index : Nat) :
    textAt? (grid tape columns highlight) (index / columns) (index % columns) =
      tape.cells[index]?.map (cellText tape.address highlight index) := by
  have hIndex : cellIndex columns (index / columns) (index % columns) = index :=
    Nat.div_add_mod' index columns
  rw [textAt?_grid h, if_pos (Nat.mod_lt index h), hIndex]

end Inspection

end ByteTape
