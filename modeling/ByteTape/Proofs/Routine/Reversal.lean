import ByteTape.Proofs.Routine.Contract
import ByteTape.Proofs.Routine.FocusedTape

/-!
# Writing the input backwards

The program `>,[>,]<[.<]` leaves the first cell zero and reads one line after the other into the
cells behind it, until a line stores zero. Then it goes back, writing every cell it comes to, until
it meets the zero of the first cell. So it writes the first characters of the lines before that line,
their codes taken modulo 256, in the order from the last one to the first. The cells to the left of
the current one, nearest first, are all that the two loops pass between them.
-/

namespace ByteTape

open Machine

/-- The code of the first character of a line, zero if the line is empty. -/
def codeOfLine (line : String) : Nat :=
  line.toList.head?.elim 0 Char.toNat

/-- A line is stored by the code of its first character. -/
theorem byteOfLine_eq_ofNat (line : String) : byteOfLine line = UInt8.ofNat (codeOfLine line) := by
  unfold byteOfLine codeOfLine
  cases line.toList with
  | nil => rfl
  | cons character rest => rfl

/-- A line stores zero exactly when the code of its first character is zero modulo 256. -/
theorem byteOfLine_eq_zero_iff (line : String) :
    byteOfLine line = 0 ↔ codeOfLine line % 256 = 0 := by
  rw [byteOfLine_eq_ofNat, ← UInt8.toNat_inj, UInt8.toNat_ofNat']
  rfl

/-- What is written of a stored line has the code of its first character modulo 256. -/
theorem charOfByte_byteOfLine (line : String) :
    charOfByte (byteOfLine line) = Char.ofNat (codeOfLine line % 256) := by
  rw [charOfByte, byteOfLine_eq_ofNat, UInt8.toNat_ofNat']

namespace Tape

/-- A tape whose first cell is zero and which has some bytes behind it, the current one first. Without
bytes the first cell is the current one. -/
def trail : List UInt8 → List UInt8 → Tape
  | [], right => focused [] 0 right
  | byte :: bytes, right => focused (bytes ++ [0]) byte right

/-- A move to the left goes to the nearest of the bytes behind the first cell, and to that cell if
there are none. -/
theorem moveLeft_focused_append (bytes : List UInt8) (current : UInt8) (right : List UInt8) :
    (focused (bytes ++ [0]) current right).moveLeft = .ok () (trail bytes (current :: right)) := by
  cases bytes with
  | nil => rfl
  | cons byte bytes => exact moveLeft_focused_cons (bytes ++ [0]) current right byte

end Tape

namespace Reversal

open Tape

variable {answer : Nat → String}

/-- A cell is made and a line is read into it. -/
theorem leads_reading (left : List UInt8) (current : UInt8) (output : String) (taken : Nat) :
    Leads answer ['>', ','] ⟨focused left current [], output, taken⟩
      ⟨focused (current :: left) (byteOfLine (answer taken)) [], output, taken + 1⟩ := by
  refine .right (.input ?_)
  rw [moveRight_focused_nil, write_focused]
  exact .nil _

/-- Lines are read until one stores zero; the bytes of the others lie to the left, the last one
nearest. -/
theorem repeats_reading {lines : List String} {last : String} {first : Nat}
    (hAnswers : answersFrom answer first (lines.length + 1) = lines ++ [last])
    (hLines : ∀ line ∈ lines, byteOfLine line ≠ 0) (hLast : byteOfLine last = 0)
    (left : List UInt8) (output : String) :
    Repeats answer ['>', ','] ⟨focused left (byteOfLine (answer first)) [], output, first + 1⟩
      ⟨focused ((lines.map byteOfLine).reverse ++ left) 0 [], output, first + lines.length + 1⟩ := by
  induction lines generalizing first left with
  | nil =>
    rw [answersFrom_succ] at hAnswers
    have hZero : byteOfLine (answer first) = 0 := (List.cons.inj hAnswers).1 ▸ hLast
    rw [hZero]
    exact .leave (read_focused left 0 [])
  | cons line lines ih =>
    rw [answersFrom_succ, List.cons_append] at hAnswers
    obtain ⟨hFirst, hRest⟩ := List.cons.inj hAnswers
    have hNonzero : byteOfLine (answer first) ≠ 0 := hFirst ▸ hLines line List.mem_cons_self
    have hMore := ih hRest (fun line hMem => hLines line (List.mem_cons_of_mem _ hMem))
      (byteOfLine (answer first) :: left)
    have hCount : first + 1 + lines.length + 1 = first + (line :: lines).length + 1 := by
      rw [List.length_cons]
      omega
    have hBytes : (lines.map byteOfLine).reverse ++ byteOfLine (answer first) :: left =
        ((line :: lines).map byteOfLine).reverse ++ left := by
      rw [hFirst]
      simp
    rw [hCount, hBytes] at hMore
    exact .again (by rwa [read_focused]) (leads_reading left _ output (first + 1)) hMore

/-- The current one of the bytes behind the first cell is written, and the next one becomes
current. -/
theorem leads_writing (byte : UInt8) (bytes right : List UInt8) (output : String) (taken : Nat) :
    Leads answer ['.', '<'] ⟨trail (byte :: bytes) right, output, taken⟩
      ⟨trail bytes (byte :: right), output.push (charOfByte byte), taken⟩ := by
  refine .output (.left (moveLeft_focused_append bytes byte right) ?_)
  rw [trail, read_focused]
  exact .nil _

/-- Bytes are written, the current one first, until the zero of the first cell is met. -/
theorem repeats_writing {bytes : List UInt8} (hBytes : ∀ byte ∈ bytes, byte ≠ 0)
    (right : List UInt8) (output : String) (taken : Nat) :
    Repeats answer ['.', '<'] ⟨trail bytes right, output, taken⟩
      ⟨focused [] 0 (bytes.reverse ++ right),
        output ++ String.ofList (bytes.map charOfByte), taken⟩ := by
  induction bytes generalizing right output with
  | nil =>
    have hOutput : output ++ String.ofList (([] : List UInt8).map charOfByte) = output := by simp
    rw [hOutput]
    exact .leave (read_focused [] 0 right)
  | cons byte bytes ih =>
    have hNonzero : (trail (byte :: bytes) right).read ≠ 0 := by
      rw [trail, read_focused]
      exact hBytes byte List.mem_cons_self
    have hMore := ih (fun byte hMem => hBytes byte (List.mem_cons_of_mem _ hMem)) (byte :: right)
      (output.push (charOfByte byte))
    have hCells : bytes.reverse ++ byte :: right = (byte :: bytes).reverse ++ right := by simp
    have hOutput : output.push (charOfByte byte) ++ String.ofList (bytes.map charOfByte) =
        output ++ String.ofList ((byte :: bytes).map charOfByte) := by
      rw [← String.toList_inj]
      simp
    rw [hCells, hOutput] at hMore
    exact .again hNonzero (leads_writing byte bytes right output taken) hMore

/-- The whole program leads to the lines written backwards, with the first cell current. -/
theorem leads_reversal {lines : List String} {last : String}
    (hAnswers : answersFrom answer 0 (lines.length + 1) = lines ++ [last])
    (hLines : ∀ line ∈ lines, byteOfLine line ≠ 0) (hLast : byteOfLine last = 0) :
    Leads answer ">,[>,]<[.<]".toList .start
      ⟨focused [] 0 (lines.map byteOfLine ++ [0]),
        String.ofList (lines.reverse.map fun line => charOfByte (byteOfLine line)),
        lines.length + 1⟩ := by
  have hText : ">,[>,]<[.<]".toList =
      ['>', ','] ++ (('[' :: ['>', ','] ++ [']']) ++ ('<' :: ('[' :: ['.', '<'] ++ [']']))) := rfl
  have hRead := (repeats_reading hAnswers hLines hLast [0] "").leads (by decide)
  have hBytes : ∀ byte ∈ (lines.map byteOfLine).reverse, byte ≠ 0 := by
    intro byte hMem
    obtain ⟨line, hLine, rfl⟩ := List.mem_map.1 (List.mem_reverse.1 hMem)
    exact hLines line hLine
  have hWrite : Leads answer _ _ _ :=
    (repeats_writing hBytes [0] "" (0 + lines.length + 1)).leads (by decide)
  have hBack := hWrite.left (moveLeft_focused_append (lines.map byteOfLine).reverse 0 [])
  have hAll := (leads_reading [] 0 "" 0).append (hRead.append hBack)
  rw [List.reverse_reverse, ← List.map_reverse, List.map_map, String.empty_append, Nat.zero_add]
    at hAll
  rw [hText, Scene.start, blank_eq_focused]
  exact hAll

end Reversal

namespace Attendance

open Tape

/-- An attended machine that reads lines and writes them backwards. The lines `lines` store something
other than zero and the line `last` after them stores zero, so all of them are taken and no other; the
machine halts at the first cell, within no loop, having made a cell for every line it took and one
before them. It has written the first characters of `lines`, their codes taken modulo 256, from the
last line to the first. -/
theorem writes_input_backwards (pacing : Pacing) (answer : Nat → String) (budget : Nat → Nat)
    (lines : List String) (last : String) (hBudget : ∀ slice, 0 < budget slice)
    (hAnswers : answersFrom answer 0 (lines.length + 1) = lines ++ [last])
    (hLines : ∀ line ∈ lines, codeOfLine line % 256 ≠ 0) (hLast : codeOfLine last % 256 = 0) :
    let attended := afterSlices answer budget (ofSource ">,[>,]<[.<]" pacing)
    (∃ slices, isFinal (attended slices).event = true) ∧
      ∀ slices, isFinal (attended slices).event = true →
        (attended slices).event = .halted
            (String.ofList (lines.reverse.map fun line => Char.ofNat (codeOfLine line % 256))) ∧
          (attended slices).requests = lines.length + 1 ∧
          (attended slices).machine.stack = LoopStack.empty ∧
          (attended slices).machine.tape.address = 0 ∧
          (attended slices).machine.tape.cells.size = lines.length + 2 := by
  intro attended
  have hBytes : ∀ line ∈ lines, byteOfLine line ≠ 0 := fun line hMem hZero =>
    hLines line hMem ((byteOfLine_eq_zero_iff line).1 hZero)
  have hLeads := Reversal.leads_reversal hAnswers hBytes ((byteOfLine_eq_zero_iff last).2 hLast)
  obtain ⟨hEnds, hEnd⟩ := halts_of_leads hBudget pacing hLeads
  refine ⟨hEnds, ?_⟩
  intro slices hFinal
  obtain ⟨hEvent, hRequests, hStack, hTape⟩ := hEnd slices hFinal
  simp only [charOfByte_byteOfLine] at hEvent
  refine ⟨hEvent, hRequests, hStack, ?_, ?_⟩
  · rw [hTape, address_focused]
    rfl
  · rw [hTape, size_cells_focused, List.length_append, List.length_map, List.length_nil,
      List.length_singleton]
    omega

/-- A stepped machine writes the second of two lines before the first; the code of the line that stops
it is zero only modulo 256, and so is that of the letter written for the second line. -/
theorem writes_input_backwards_wrapped :
    let answer := fun request => ["xy", "ł", "Ā"].getD request "z"
    let attended := afterSlices answer (fun slice => slice + 1)
      (ofSource ">,[>,]<[.<]" ⟨true, Delay.none⟩)
    answersFrom answer 0 3 = ["xy", "ł"] ++ ["Ā"] ∧
      (∃ slices, isFinal (attended slices).event = true) ∧
      ∀ slices, isFinal (attended slices).event = true →
        (attended slices).event = .halted "Bx" ∧ (attended slices).requests = 3 ∧
          (attended slices).machine.stack = LoopStack.empty ∧
          (attended slices).machine.tape.address = 0 ∧
          (attended slices).machine.tape.cells.size = 4 := by
  intro answer attended
  have hAnswers : answersFrom answer 0 3 = ["xy", "ł"] ++ ["Ā"] := by decide
  have hLines : ∀ line ∈ ["xy", "ł"], codeOfLine line % 256 ≠ 0 := by decide
  exact ⟨hAnswers, writes_input_backwards ⟨true, Delay.none⟩ answer (fun slice => slice + 1)
    ["xy", "ł"] "Ā" (fun slice => Nat.succ_pos slice) hAnswers hLines (by decide)⟩

end Attendance

end ByteTape
