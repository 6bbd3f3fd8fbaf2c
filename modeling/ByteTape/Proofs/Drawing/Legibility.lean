import ByteTape.Proofs.Core.Atomicity
import ByteTape.Proofs.Drawing.Layout
import ByteTape.Proofs.Record.Pausing
import ByteTape.Proofs.Text.Delimited

/-!
# A drawing without output can be read back

The rule of a drawing ends with its line and so tells the number of columns. The line of the
instruction has one symbol or none, whatever that symbol is. The stack is a listing with a mark at
its end, and every row of cells is one as well. So a drawing in which the current cell stands
between brackets belongs to one number of columns, one instruction, one stack and one tape. Every
look at a machine is of the kind that can be read back.
-/

namespace ByteTape

open Text

/-- A stack is known by its listing. -/
theorem LoopStack.toList_injective {first second : LoopStack}
    (h : first.toList = second.toList) : first = second := by
  obtain ⟨entries⟩ := first
  obtain ⟨others⟩ := second
  have hEntries : entries = others := List.reverse_injective h
  rw [hEntries]

namespace Inspection

/-- An instruction that is there was decoded from a symbol. -/
def Decoded (instruction? : Option Instruction) : Prop :=
  ∀ instruction, instruction? = some instruction →
    ∃ symbol, Instruction.ofChar symbol = instruction

/-- What makes a drawing legible. -/
structure Legible (inspection : Inspection) : Prop where
  /-- The current cell has been made. -/
  within : inspection.tape.WithinCells
  /-- The instruction, if there is one, is one that a symbol stands for. -/
  decoded : Decoded inspection.instruction

/-- The rule shows where it ends and tells the number of columns. -/
theorem selfDelimiting_rule :
    SelfDelimiting (fun columns => 1 ≤ columns) fun columns => (line (rule columns)).toList := by
  have hRule : ∀ columns, (line (rule columns)).toList =
      List.replicate (columnCount columns * 5) '=' ++ ['\n'] := by
    intro columns
    rw [line, String.toList_append, rule, String.toList_ofList]
    rfl
  simp only [hRule]
  refine SelfDelimiting.of_mark ?_ ?_
  · intro columns others hColumns hOthers hSame
    have hLength := (List.replicate_inj.1 hSame).1
    simp only [columnCount] at hLength
    omega
  · intro columns _ hMem
    exact absurd (List.eq_of_mem_replicate hMem) (by decide)

/-- The line of the instruction shows where it ends: behind the colon comes either its end or a
blank with one symbol, whatever that symbol is. -/
theorem selfDelimiting_instruction :
    SelfDelimiting Decoded fun instruction? => (line (instructionText instruction?)).toList := by
  have hNone : (line (instructionText none)).toList = "Instruction :".toList ++ ['\n'] := rfl
  have hSome : ∀ instruction, (line (instructionText (some instruction))).toList =
      "Instruction :".toList ++ [' ', instruction.toChar, '\n'] := fun _ => by
    simp [line, instructionText, Instruction.text]
  have hApart : ∀ instruction rest others, (line (instructionText none)).toList ++ rest ≠
      (line (instructionText (some instruction))).toList ++ others := by
    intro instruction rest others h
    rw [hNone, hSome, List.append_assoc, List.append_assoc] at h
    exact absurd (List.cons.inj (List.append_cancel_left h)).1 (by decide)
  intro first second hFirst hSecond rest others h
  dsimp only at h
  cases first with
  | none =>
    cases second with
    | none => exact ⟨rfl, List.append_cancel_left h⟩
    | some second => exact absurd h (hApart second rest others)
  | some first =>
    cases second with
    | none => exact absurd h.symm (hApart first others rest)
    | some second =>
      rw [hSome, hSome, List.append_assoc, List.append_assoc] at h
      have hTail := List.append_cancel_left h
      simp only [List.cons_append, List.nil_append, List.cons.injEq, true_and] at hTail
      obtain ⟨symbol, rfl⟩ := hFirst first rfl
      obtain ⟨other, rfl⟩ := hSecond second rfl
      rw [Instruction.toChar_ofChar, Instruction.toChar_ofChar] at hTail
      rw [hTail.1]
      exact ⟨rfl, hTail.2⟩

/-- The line of the stack shows where it ends. -/
theorem selfDelimiting_stack :
    SelfDelimiting (fun _ : LoopStack => True) fun stack =>
      (line ("Stack : " ++ stack.text)).toList := by
  have hLine : ∀ stack : LoopStack, (line ("Stack : " ++ stack.text)).toList =
      "Stack : [".toList ++
        ([',', ' '].intercalate (stack.toList.map fun position => position.repr.toList) ++ [']']) ++
        ['\n'] := by
    intro stack
    simp only [line, LoopStack.text, LoopStack.listing, String.toList_append,
      String.toList_intercalate, List.map_map, List.append_assoc]
    rfl
  simp only [hLine]
  refine SelfDelimiting.between ?_ _ _
  refine (selfDelimiting_listing (by decide)).comap ?_ ?_
  · intro first second hSame
    exact LoopStack.toList_injective (List.map_injective_iff.2 toList_repr_injective hSame)
  · intro stack _ word hMem
    obtain ⟨position, -, rfl⟩ := List.mem_map.1 hMem
    exact isWord_repr rfl rfl position

/-- Bytes with the same text are the same. -/
theorem byteText_injective {value other : UInt8} (h : byteText value = byteText other) :
    value = other := by
  have hDigits : ∀ digit < 16, ∀ another < 16,
      Nat.digitChar digit = Nat.digitChar another → digit = another := by decide
  have hValue : value.toNat < 256 := value.toNat_lt
  have hOther : other.toNat < 256 := other.toNat_lt
  have hTexts := congrArg String.toList h
  simp only [toList_byteText, List.cons.injEq, true_and, and_true] at hTexts
  have hHigh := hDigits _ (by omega) _ (by omega) hTexts.1
  have hLow := hDigits _ (by omega) _ (by omega) hTexts.2
  exact UInt8.toNat_inj.1 (by omega)

/-- A byte between brackets is told from one without them by its first symbol. -/
theorem bracketed_ne_byteText (value other : UInt8) :
    bracketed (byteText value) ≠ byteText other := by
  intro h
  have hTexts := congrArg String.toList h
  rw [bracketed, String.toList_append, String.toList_append, toList_byteText other] at hTexts
  exact absurd (List.cons.inj hTexts).1 (by decide)

/-- The text of a cell tells its byte and whether it is the current one. -/
theorem cellText_bracketed_injective {address another index : Nat} {value other : UInt8}
    (h : cellText address bracketed index value = cellText another bracketed index other) :
    value = other ∧ (index = address ↔ index = another) := by
  unfold cellText at h
  split at h <;> split at h
  · rename_i hAddress hAnother
    have hTexts := congrArg String.toList h
    simp only [bracketed, String.toList_append, List.append_assoc, List.append_cancel_left_eq,
      List.append_cancel_right_eq] at hTexts
    exact ⟨byteText_injective (String.toList_injective hTexts), iff_of_true hAddress hAnother⟩
  · exact absurd h (bracketed_ne_byteText value other)
  · exact absurd h.symm (bracketed_ne_byteText other value)
  · rename_i hAddress hAnother
    exact ⟨byteText_injective h, iff_of_false hAddress hAnother⟩

/-- The text of a cell can stand in a row. -/
theorem isWord_cellText (address index : Nat) (value : UInt8) :
    IsWord ' ' '\n' (cellText address bracketed index value).toList := by
  have hDigits : ∀ digit < 16, Nat.digitChar digit ≠ ' ' ∧ Nat.digitChar digit ≠ '\n' := by decide
  have hValue : value.toNat < 256 := value.toNat_lt
  have hHigh := hDigits (value.toNat / 16) (by omega)
  have hLow := hDigits (value.toNat % 16) (by omega)
  unfold cellText
  split
  · constructor <;>
      simp [bracketed, toList_byteText, hHigh.1.symm, hHigh.2.symm, hLow.1.symm, hLow.2.symm]
  · constructor <;>
      simp [toList_byteText, hHigh.1.symm, hHigh.2.symm, hLow.1.symm, hLow.2.symm]

/-- A row of cells shows where it ends. -/
theorem selfDelimiting_row :
    SelfDelimiting (fun cells : List String => ∀ text ∈ cells, IsWord ' ' '\n' text.toList)
      fun cells => (line (String.intercalate " " cells)).toList := by
  have hLine : ∀ cells, (line (String.intercalate " " cells)).toList =
      [' '].intercalate (cells.map String.toList) ++ ['\n'] := by
    intro cells
    rw [line, String.toList_append, String.toList_intercalate]
    rfl
  simp only [hLine]
  refine (selfDelimiting_listing (by decide)).comap ?_ ?_
  · exact List.map_injective_iff.2 fun _ _ => String.toList_injective
  · intro cells hCells word hMem
    obtain ⟨text, hText, rfl⟩ := List.mem_map.1 hMem
    exact hCells text hText

/-- Whatever is drawn is the text of a cell. -/
theorem exists_cellText {tape : Tape} {columns : Nat} {highlight : String → String}
    {cells : List String} {text : String} (hCells : cells ∈ grid tape columns highlight)
    (hText : text ∈ cells) : ∃ index value, cellText tape.address highlight index value = text := by
  obtain ⟨row, hRow, rfl⟩ := List.mem_mapIdx.1 hCells
  obtain ⟨place, hPlace, rfl⟩ := List.mem_mapIdx.1 hText
  exact ⟨_, _, rfl⟩

/-- The rows of cells tell the texts of all cells. -/
theorem grid_of_memoryText_eq {tape other : Tape} {columns : Nat}
    (h : memoryText tape columns bracketed = memoryText other columns bracketed) :
    grid tape columns bracketed = grid other columns bracketed := by
  have hTexts := congrArg String.toList h
  rw [memoryText, memoryText, String.toList_join, String.toList_join, List.flatMap_map,
    List.flatMap_map] at hTexts
  have hWords : ∀ tape : Tape, ∀ cells ∈ grid tape columns bracketed, ∀ text ∈ cells,
      IsWord ' ' '\n' text.toList := by
    intro tape cells hCells text hText
    obtain ⟨index, value, rfl⟩ := exists_cellText hCells hText
    exact isWord_cellText _ index value
  refine selfDelimiting_row.flatMap_injective ?_ (hWords tape) (hWords other) hTexts
  intro cells _ hEmpty
  simp [line] at hEmpty

/-- The texts of all cells tell the tape. -/
theorem tape_of_grid_eq {tape other : Tape} {columns : Nat} (hColumns : 0 < columns)
    (hWithin : tape.WithinCells)
    (h : grid tape columns bracketed = grid other columns bracketed) :
    tape.cells = other.cells ∧ tape.address = other.address := by
  have hTexts : ∀ index, tape.cells[index]?.map (cellText tape.address bracketed index) =
      other.cells[index]?.map (cellText other.address bracketed index) := by
    intro index
    rw [← textAt?_of_index hColumns, h, textAt?_of_index hColumns]
  have hCell : ∀ index value, tape.cells[index]? = some value →
      other.cells[index]? = some value ∧ (index = tape.address ↔ index = other.address) := by
    intro index value hValue
    have hText := hTexts index
    rw [hValue, Option.map_some, eq_comm, Option.map_eq_some_iff] at hText
    obtain ⟨otherValue, hOther, hSame⟩ := hText
    obtain ⟨rfl, hCurrent⟩ := cellText_bracketed_injective hSame
    exact ⟨hOther, hCurrent.symm⟩
  constructor
  · refine Array.ext_getElem? fun index => ?_
    cases hValue : tape.cells[index]? with
    | none =>
      have hText := hTexts index
      rw [hValue, Option.map_none, eq_comm, Option.map_eq_none_iff] at hText
      exact hText.symm
    | some value => exact (hCell index value hValue).1.symm
  · exact (hCell tape.address _ (Tape.read?_eq_some_read tape hWithin)).2.1 rfl

/-- A drawing without output is its three lines, the word above the cells, and the cells. -/
theorem toList_draw {inspection : Inspection} (h : inspection.output = none) (columns : Nat)
    (highlight : String → String) :
    (inspection.draw columns highlight).toList =
      (line (rule columns)).toList ++ ((line (instructionText inspection.instruction)).toList ++
        ((line ("Stack : " ++ inspection.stack.text)).toList ++ ((line "Memory:").toList ++
          (memoryText inspection.tape (columnCount columns) highlight).toList))) := by
  simp only [draw, h, outputText, String.append_empty, String.toList_append, List.append_assoc]

end Inspection

open Inspection

/-- The current cell of a run has been made, and the instruction completed last was decoded from the
text of its program. -/
theorem Core.Run.legible {program : Program} {lines : List String} {core : Core}
    (h : Run (start program) lines core) : core.tape.WithinCells ∧ Decoded core.last := by
  have hInvariant : core.InRange ∧ Decoded core.last := by
    refine h.invariant (P := fun core => core.InRange ∧ Decoded core.last) ?_ ?_
      ⟨inRange_start program, by simp [Decoded, start]⟩
    · intro core next hCore hTurn
      refine ⟨hCore.1.of_moves hTurn, ?_⟩
      cases hHere : core.program.instruction? core.position with
      | none =>
        rw [turn, hHere] at hTurn
        contradiction
      | some instruction =>
        obtain ⟨symbol, -, hSymbol⟩ := (Program.instruction?_eq_some_iff _ _ _).1 hHere
        rw [(acts_of_moves hCore.1.within hHere hTurn).last_eq]
        intro last hLast
        exact ⟨symbol, hSymbol.trans (Option.some.inj hLast)⟩
    · intro core line hCore _
      refine ⟨⟨hCore.1.within.write _, Nat.le_succ_of_le hCore.1.address_le⟩, ?_⟩
      intro last hLast
      exact ⟨',', Option.some.inj hLast⟩
  exact ⟨hInvariant.1.within, hInvariant.2⟩

namespace Machine

/-- Whatever is called, a look at a machine is legible. -/
theorem legible_inspect (source : String) (pacing : Pacing) (calls : List Call) :
    ((ofSource source pacing).afterCalls calls).inspect.Legible := by
  obtain ⟨core, hRun, hCore, -⟩ := exists_run_afterCalls (Program.ofString source) pacing calls
  obtain ⟨hWithin, hDecoded⟩ := hRun.legible
  have hFrame : ((ofSource source pacing).afterCalls calls).tape = core.tape ∧
      ((ofSource source pacing).afterCalls calls).last = core.last := by
    rcases hCore with hCore | hCore
    · exact ⟨congrArg Core.tape hCore, congrArg Core.last hCore⟩
    · exact ⟨congrArg Core.tape hCore, congrArg Core.last hCore⟩
  rw [← hFrame.1] at hWithin
  rw [← hFrame.2] at hDecoded
  exact ⟨hWithin, hDecoded⟩

/-- Whatever is called, a pause shows something legible. -/
theorem legible_of_paused {source : String} {pacing : Pacing} {calls : List Call}
    {inspection : Inspection}
    (h : ((ofSource source pacing).afterCalls calls).status = .paused inspection) :
    inspection.Legible := by
  have hTruthful := truthful_afterCalls (Program.ofString source) pacing calls
  have hLegible := legible_inspect source pacing calls
  obtain ⟨-, hTape, hInstruction, -⟩ := hTruthful.shown_of_paused h
  constructor
  · rw [hTape]
    exact hLegible.within
  · rw [hInstruction]
    exact hLegible.decoded

end Machine

namespace Inspection

/-- Drawings without output can be read back. If the current cell of both is on the tape and both
instructions, where there are any, are ones that a symbol stands for, then two drawings that are the
same were made in the same number of columns of the same instruction, stack, cells and address.
Every look at a machine, and everything a machine shows in a pause, is of this kind. -/
theorem draw_readable_back :
    (∀ (first second : Inspection) (columns others : Nat), first.Legible → second.Legible →
      first.output = none → second.output = none → 1 ≤ columns → 1 ≤ others →
      first.draw columns bracketed = second.draw others bracketed →
      columns = others ∧ first.instruction = second.instruction ∧ first.stack = second.stack ∧
        first.tape.cells = second.tape.cells ∧ first.tape.address = second.tape.address) ∧
      ∀ (source : String) (pacing : Pacing) (calls : List Machine.Call),
        ((Machine.ofSource source pacing).afterCalls calls).inspect.Legible ∧
          ∀ inspection, ((Machine.ofSource source pacing).afterCalls calls).status =
            .paused inspection → inspection.Legible := by
  refine ⟨?_, fun source pacing calls =>
    ⟨Machine.legible_inspect source pacing calls, fun _ => Machine.legible_of_paused⟩⟩
  intro first second columns others hFirst hSecond hNone hNothing hColumns hOthers h
  have hTexts := congrArg String.toList h
  rw [toList_draw hNone, toList_draw hNothing] at hTexts
  -- The three lines are taken off one after the other; what is left are the cells.
  obtain ⟨rfl, hTexts⟩ := selfDelimiting_rule _ _ hColumns hOthers _ _ hTexts
  obtain ⟨hInstruction, hTexts⟩ :=
    selfDelimiting_instruction _ _ hFirst.decoded hSecond.decoded _ _ hTexts
  obtain ⟨hStack, hTexts⟩ := selfDelimiting_stack _ _ trivial trivial _ _ hTexts
  have hMemory := String.toList_injective (List.append_cancel_left hTexts)
  have hCount : 0 < columnCount columns := hColumns.trans (Nat.le_max_left columns 1)
  exact ⟨rfl, hInstruction, hStack,
    tape_of_grid_eq hCount hFirst.within (grid_of_memoryText_eq hMemory)⟩

/-- A line break done last and a stack of two entries are read back; how the pauses end is not
drawn. A stepped machine shows something legible. -/
theorem draw_readable_back_line_break :
    let first : Inspection :=
      ⟨some (.comment '\n'), LoopStack.ofList [1, 12], ⟨#[0, 255, 7], 1⟩, none, ⟨true, Delay.none⟩⟩
    let second : Inspection := { first with pause := Pause.brief }
    let shown : Inspection :=
      ⟨some .right, LoopStack.empty, ⟨#[0, 0], 1⟩, none, ⟨true, Delay.none⟩⟩
    first.draw 2 bracketed = second.draw 2 bracketed ∧
      first.draw 2 bracketed =
        "==========\nInstruction : \n\nStack : [1, 12]\nMemory:\n0x00 [0xff]\n0x07\n" ∧
      first.stack = second.stack ∧ first.tape.address = second.tape.address ∧
      ((Machine.ofSource "\n>" ⟨true, Delay.none⟩).afterCalls [.execute 2]).status = .paused shown ∧
      shown.Legible := by
  intro first second shown
  have hDecoded : Decoded (some (.comment '\n')) := fun instruction hSame =>
    ⟨'\n', Option.some.inj hSame⟩
  have hWithin : first.tape.WithinCells := (by decide : 1 < 3)
  have hPaused : ((Machine.ofSource "\n>" ⟨true, Delay.none⟩).afterCalls [.execute 2]).status =
      .paused shown := by
    decide +kernel
  obtain ⟨hReadBack, hMachine⟩ := draw_readable_back
  obtain ⟨-, -, hStack, -, hAddress⟩ :=
    hReadBack first second 2 2 ⟨hWithin, hDecoded⟩ ⟨hWithin, hDecoded⟩ rfl rfl (by decide)
      (by decide) rfl
  exact ⟨rfl, by decide +kernel, hStack, hAddress, hPaused, (hMachine _ _ _).2 shown hPaused⟩

end Inspection

end ByteTape
