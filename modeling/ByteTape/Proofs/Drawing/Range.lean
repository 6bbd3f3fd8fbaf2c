import ByteTape.Proofs.Drawing.Layout
import ByteTape.Session.Scripted

/-!
# Which drawings can be made with words

Two kinds of numbers have to be calculated for a drawing, the length of its rule and the indices of
its cells. Here both are calculated in words of 64 bits, and a drawing is refused as soon as one of
them is no word. Every cell that is drawn has an index below the size of its tape, so no index is ever
too large, whatever the number of columns. The length of the rule is another matter: it depends on the
number of columns alone, and there are words of which the fivefold is none. A drawing is refused for
exactly these, and a session that has to show one ends there.
-/

namespace ByteTape

namespace Number

/-- A number that is a word, refused otherwise. -/
def fitting? (value : Nat) : Option Nat :=
  if value < UInt64.size then some value else none

/-- A word is not refused. -/
theorem fitting?_eq_some {value : Nat} (h : value < UInt64.size) : fitting? value = some value :=
  if_pos h

/-- What is no word is refused. -/
theorem fitting?_eq_none {value : Nat} (h : UInt64.size ≤ value) : fitting? value = none :=
  if_neg (Nat.not_lt.2 h)

end Number

namespace Inspection

open Number CommandLine Session

/-- The rule above a drawing, refused where its length is no word. -/
def rule? (columns : Nat) : Option String := do
  let width ← fitting? (ruleWidth columns)
  some (String.ofList (List.replicate width '='))

/-- The index on the tape of the cell drawn in a row and a column, refused where it is no word. -/
def cellIndex? (columns row column : Nat) : Option Nat := do
  let start ← fitting? (row * columns)
  fitting? (start + column)

/-- The texts of all cells, row by row, refused where an index is no word. -/
def grid? (tape : Tape) (columns : Nat) (highlight : String → String) :
    Option (List (List String)) :=
  (rows columns tape.cells.toList).zipIdx.mapM fun (cells, row) =>
    cells.zipIdx.mapM fun (value, column) => do
      let index ← cellIndex? columns row column
      some (cellText tape.address highlight index value)

/-- Draw an inspection with every number calculated in words. -/
def drawInWords? (inspection : Inspection) (columns : Nat) (highlight : String → String) :
    Option String := do
  let rule ← rule? columns
  let texts ← grid? inspection.tape (columnCount columns) highlight
  some (line rule ++
    line (instructionText inspection.instruction) ++
    line ("Stack : " ++ inspection.stack.text) ++
    line "Memory:" ++
    String.join (texts.map fun cells => line (String.intercalate " " cells)) ++
    outputText inspection.output)

/-- A list is mapped as a whole where every element has its image. -/
theorem mapM_eq_some_map {α β : Type} {items : List α} {image? : α → Option β} {image : α → β}
    (h : ∀ item ∈ items, image? item = some (image item)) :
    items.mapM image? = some (items.map image) := by
  induction items with
  | nil => rfl
  | cons item rest ih =>
    have hRest := ih fun other hOther => h other (List.mem_cons_of_mem item hOther)
    rw [List.mapM_cons, h item List.mem_cons_self, hRest]
    rfl

variable {tape : Tape} {columns : Nat} {highlight : String → String}

/-- The index of a cell that is drawn is that of a cell of the tape. -/
theorem cellIndex_lt_size (h : 0 < columns) {row place : Nat} {cells : List UInt8}
    (hRow : (rows columns tape.cells.toList)[row]? = some cells) (hPlace : place < cells.length) :
    cellIndex columns row place < tape.cells.size := by
  obtain ⟨hStart, hLength⟩ := length_of_getElem?_rows h hRow
  have hLeft : cells.length ≤ tape.cells.toList.length - row * columns :=
    hLength.trans_le (Nat.min_le_right _ _)
  rw [cellIndex, ← Array.length_toList]
  omega

/-- An index that is a word is not refused. -/
theorem cellIndex?_eq_some {row place : Nat} (h : cellIndex columns row place < UInt64.size) :
    cellIndex? columns row place = some (cellIndex columns row place) := by
  rw [cellIndex] at h
  have hStart : row * columns < UInt64.size := by omega
  rw [cellIndex?, fitting?_eq_some hStart]
  exact fitting?_eq_some h

/-- No cell of a tape whose size is a word is refused. -/
theorem grid?_eq_some (h : 0 < columns) (hTape : tape.cells.size < UInt64.size) :
    grid? tape columns highlight = some (grid tape columns highlight) := by
  rw [grid, List.mapIdx_eq_zipIdx_map]
  refine mapM_eq_some_map ?_
  -- Rows and cells carry their numbers, so a member of the list tells where on the tape it stands.
  rintro ⟨cells, row⟩ hCells
  have hRow := List.mem_zipIdx_iff_getElem?.1 hCells
  dsimp only at hRow ⊢
  rw [List.mapIdx_eq_zipIdx_map]
  refine mapM_eq_some_map ?_
  rintro ⟨value, place⟩ hValue
  have hPlace := (List.getElem?_eq_some_iff.1 (List.mem_zipIdx_iff_getElem?.1 hValue)).1
  have hIndex := (cellIndex_lt_size h hRow hPlace).trans hTape
  dsimp only
  rw [cellIndex?_eq_some hIndex]
  rfl

/-- A rule whose length is a word is not refused. -/
theorem rule?_eq_some (h : Drawable columns) : rule? columns = some (rule columns) := by
  rw [rule?, fitting?_eq_some h]
  rfl

/-- A rule whose length is no word is refused. -/
theorem rule?_eq_none (h : ¬ Drawable columns) : rule? columns = none := by
  rw [rule?, fitting?_eq_none (Nat.le_of_not_lt h)]
  rfl

/-- Calculating the indices in words refuses nothing but what the rule refuses. -/
theorem drawInWords?_eq_draw? (inspection : Inspection) (columns : Nat)
    (highlight : String → String) (hTape : inspection.tape.cells.size < UInt64.size) :
    inspection.drawInWords? columns highlight = inspection.draw? columns highlight := by
  by_cases hDrawable : Drawable columns
  · have hCount : 0 < columnCount columns := Nat.le_max_right columns 1
    rw [drawInWords?, rule?_eq_some hDrawable, grid?_eq_some hCount hTape,
      draw?_of_drawable hDrawable]
    rfl
  · rw [drawInWords?, rule?_eq_none hDrawable, draw?_of_not_drawable hDrawable]
    rfl

/-- A drawing that can be made begins with five marks for each column drawn. -/
theorem draw?_eq_rule_append (inspection : Inspection) (highlight : String → String)
    (h : Drawable columns) :
    ∃ rest, inspection.draw? columns highlight =
      some (String.ofList (List.replicate (5 * max columns 1) '=') ++ "\n" ++ rest) := by
  have hWidth : ruleWidth columns = 5 * max columns 1 := Nat.mul_comm (max columns 1) 5
  rw [draw?_of_drawable h, draw, rule, hWidth]
  simp only [String.append_assoc, Option.some.injEq, line, String.append_right_inj]
  exact ⟨_, rfl⟩

/-- The number of columns drawn is calculated exactly in words. -/
theorem toNat_max_one (columns : UInt64) : (max columns 1).toNat = max columns.toNat 1 := by
  have hMax : max columns 1 = if columns ≤ 1 then 1 else columns := rfl
  have hOne : columns ≤ 1 ↔ columns.toNat ≤ 1 := UInt64.le_iff_toNat_le
  rw [hMax]
  split
  · rename_i hSmall
    exact (Nat.max_eq_right (hOne.1 hSmall)).symm
  · rename_i hLarge
    exact (Nat.max_eq_left (Nat.le_of_not_le fun hSmall => hLarge (hOne.2 hSmall))).symm

/-- An index is calculated exactly in words where it is one. -/
theorem toNat_cellIndex {row place : Nat} {count : UInt64} (hCount : 0 < count.toNat)
    (h : cellIndex count.toNat row place < 2 ^ 64) :
    (UInt64.ofNat row * count + UInt64.ofNat place).toNat = cellIndex count.toNat row place := by
  rw [cellIndex] at h ⊢
  have hRow : row ≤ row * count.toNat := Nat.le_mul_of_pos_right row hCount
  have hStart : row * count.toNat < 2 ^ 64 := by omega
  have hPlace : place < 2 ^ 64 := by omega
  have hRowWord : (UInt64.ofNat row).toNat = row :=
    UInt64.toNat_ofNat_of_lt' (hRow.trans_lt hStart)
  have hPlaceWord : (UInt64.ofNat place).toNat = place := UInt64.toNat_ofNat_of_lt' hPlace
  rw [UInt64.toNat_add, UInt64.toNat_mul, hRowWord, hPlaceWord, Nat.mod_eq_of_lt hStart,
    Nat.mod_eq_of_lt h]

/-- The length of the rule is calculated exactly in words exactly where it is one. -/
theorem toNat_ruleWidth (columns : UInt64) :
    (max columns 1 * 5).toNat = ruleWidth columns.toNat ↔ ruleWidth columns.toNat < 2 ^ 64 := by
  have hWord : (max columns 1 * 5).toNat = ruleWidth columns.toNat % 2 ^ 64 := by
    rw [UInt64.toNat_mul, toNat_max_one]
    rfl
  rw [hWord]
  constructor
  · intro hExact
    rw [← hExact]
    exact Nat.mod_lt _ (by decide)
  · exact Nat.mod_eq_of_lt

/-- The numbers of a drawing as words, for every number of columns that is one. For each cell drawn
the index is a word and calculating it in words is exact, so that the current cell is told from all
others. Calculating the length of the rule in words is exact exactly if five times the number of
columns drawn is a word, and then the drawing begins with a rule of that length. A drawing made with
words is refused for all other numbers of columns, whatever is drawn, and for no other reason. -/
theorem draws_within_words (inspection : Inspection) (columns : UInt64)
    (highlight : String → String) (hTape : inspection.tape.cells.size < 2 ^ 63) :
    let count := max columns.toNat 1
    (∀ row cells place, (grid inspection.tape count highlight)[row]? = some cells →
      place < cells.length →
        row * count + place < 2 ^ 64 ∧
          (UInt64.ofNat row * max columns 1 + UInt64.ofNat place).toNat = row * count + place) ∧
      ((max columns 1 * 5).toNat = 5 * count ↔ 5 * count < 2 ^ 64) ∧
      (5 * count < 2 ^ 64 →
        ∃ rest, inspection.drawInWords? columns.toNat highlight =
          some (String.ofList (List.replicate (5 * count) '=') ++ "\n" ++ rest)) ∧
      inspection.drawInWords? columns.toNat highlight =
        inspection.draw? columns.toNat highlight ∧
      (inspection.draw? columns.toNat highlight = none ↔ ¬ 5 * count < 2 ^ 64) := by
  intro count
  have hCount : 0 < count := Nat.le_max_right columns.toNat 1
  have hWidth : ruleWidth columns.toNat = 5 * count := Nat.mul_comm count 5
  have hDrawable : Drawable columns.toNat ↔ 5 * count < 2 ^ 64 := by
    rw [Drawable, hWidth]
    rfl
  have hWords := drawInWords?_eq_draw? inspection columns.toNat highlight (hTape.trans (by decide))
  refine ⟨?_, ?_, ?_, hWords, ?_⟩
  · intro row texts place hRow hPlace
    rw [getElem?_grid, Option.map_eq_some_iff] at hRow
    obtain ⟨cells, hCells, rfl⟩ := hRow
    rw [List.length_mapIdx] at hPlace
    have hIndex := cellIndex_lt_size hCount hCells hPlace
    have hWord : cellIndex count row place < 2 ^ 64 := by omega
    have hMax : (max columns 1).toNat = count := toNat_max_one columns
    rw [← hMax] at hCount hWord ⊢
    exact ⟨hWord, toNat_cellIndex hCount hWord⟩
  · rw [← hWidth]
    exact toNat_ruleWidth columns
  · intro hWord
    rw [hWords]
    exact draw?_eq_rule_append inspection highlight (hDrawable.2 hWord)
  · rw [← hDrawable, draw?, ite_eq_right_iff]
    simp only [reduceCtorEq, imp_false]

/-- Three cells in two columns: the third has the index two, and the rule has ten marks. -/
theorem draws_within_words_two_rows :
    let inspection : Inspection :=
      ⟨some .right, LoopStack.ofList [0], ⟨#[7, 0, 255], 1⟩, none, Pause.brief⟩
    inspection.tape.cells.size < 2 ^ 63 ∧
      (grid inspection.tape 2 bracketed)[1]? = some ["0xff"] ∧
      (UInt64.ofNat 1 * max 2 1 + UInt64.ofNat 0).toNat = 2 ∧
      (∃ rest, inspection.drawInWords? 2 bracketed =
        some (String.ofList (List.replicate 10 '=') ++ "\n" ++ rest)) ∧
      inspection.draw? 2 bracketed ≠ none := by
  intro inspection
  have hTape : inspection.tape.cells.size < 2 ^ 63 := by decide
  have hRow : (grid inspection.tape 2 bracketed)[1]? = some ["0xff"] := by decide +kernel
  obtain ⟨hCells, -, hRule, -, hRefused⟩ := draws_within_words inspection 2 bracketed hTape
  exact ⟨hTape, hRow, (hCells 1 _ 0 hRow (by decide)).2, hRule (by decide),
    fun hNone => hRefused.1 hNone (by decide)⟩

/-- There are words of which the fivefold is none. A session that has to show its one cell in so many
columns ends there with nothing shown: calculated in words, the rule would have four marks. -/
theorem rule_exceeds_words :
    let options : Options :=
      { Options.none with source := some "^", columns := some 3689348814741910324 }
    let terminal := Terminal.ofScript [.line false ""] false
    let session : Session := ⟨machineFor options "^", 3689348814741910324, 5000, terminal⟩
    let inspection : Inspection :=
      ⟨some .breakpoint, LoopStack.empty, Tape.blank, some "", ⟨true, Delay.none⟩⟩
    session.columns < 2 ^ 64 ∧ inspection.tape.cells.size < 2 ^ 63 ∧
      ¬ 5 * max session.columns 1 < 2 ^ 64 ∧
      (max (UInt64.ofNat session.columns) 1 * 5).toNat = 4 ∧
      start options ⟨fun _ => .error .missing, none, terminal⟩ = .ok session ∧
      session.slice.1 = .paused inspection ∧
      inspection.draw? session.columns green = none ∧
      serve ⟨fun _ => .error .missing, none, terminal⟩ 1 (.run options) =
        some ⟨⟨101, "", "attempt to multiply with overflow\n"⟩, terminal⟩ := by
  intro options terminal session inspection
  have hWide : ¬ Drawable session.columns := by decide
  exact ⟨by decide, by decide, by decide, by decide +kernel, rfl, by decide +kernel,
    draw?_of_not_drawable hWide inspection green, by decide +kernel⟩

end Inspection

end ByteTape
