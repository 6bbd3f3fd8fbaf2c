import ByteTape.Proofs.Routine.Contract
import ByteTape.Proofs.Routine.FocusedTape

/-!
# Multiplying by a loop

A first cell is counted up to one factor. A loop counts it down again and adds the other factor to
the cell beyond it each time, so that what is there at the end is the product. A cell counts modulo
256, and so do the first factor, the number of times the loop is repeated, and the sum it makes: all
of them go together to the product modulo 256. The cell beyond need not have been made before; a loop
that is not entered leaves it to be made afterwards, with the same zero in it.
-/

namespace ByteTape

open Machine Tape ByteTape.Bracket

/-- The text of a program that multiplies two factors by a loop, adds a summand and writes the cell
that has the result. -/
def multiplication (factor other summand : Nat) : String :=
  String.ofList (List.replicate factor '+') ++ "[>" ++ String.ofList (List.replicate other '+') ++
    "<-]>" ++ String.ofList (List.replicate summand '+') ++ "."

/-- The cell to the right of the first one has a value; one that has not been made has zero. -/
def HasBeyond (right : List UInt8) (value : UInt8) : Prop :=
  ∀ current, (focused [] current right).moveRight = focused [current] value []

/-- Where no cell has been made there is a zero. -/
theorem hasBeyond_nil : HasBeyond [] 0 :=
  fun current => moveRight_focused_nil [] current

/-- The only cell to the right has its own value. -/
theorem hasBeyond_singleton (value : UInt8) : HasBeyond [value] value :=
  fun current => moveRight_focused_cons [] current [] value

namespace Multiplication

variable {answer : Nat → String} {output : String} {taken : Nat}

/-- Counting up again and again adds to the current cell. -/
theorem leads_counting {text : List Char} {last : Scene} {left right : List UInt8}
    {current : UInt8} (count : Nat)
    (h : Leads answer text ⟨focused left (current + UInt8.ofNat count) right, output, taken⟩ last) :
    Leads answer (List.replicate count '+' ++ text) ⟨focused left current right, output, taken⟩
      last := by
  induction count generalizing current with
  | zero =>
    rw [show current + UInt8.ofNat 0 = current by simp] at h
    exact h
  | succ count ih =>
    have hSum : current + UInt8.ofNat (count + 1) = current + 1 + UInt8.ofNat count := by
      rw [UInt8.ofNat_add]
      grind
    rw [hSum] at h
    refine .increment ?_
    rw [increment_focused]
    exact ih h

/-- The body of the loop takes one from the first cell and adds the factor to the cell beyond it. -/
theorem leads_body (factor : Nat) {right : List UInt8} {current value : UInt8}
    (h : HasBeyond right value) :
    Leads answer ('>' :: (List.replicate factor '+' ++ ['<', '-']))
      ⟨focused [] current right, output, taken⟩
      ⟨focused [] (current - 1) [value + UInt8.ofNat factor], output, taken⟩ := by
  refine .right ?_
  rw [h current]
  refine leads_counting factor (.left (moveLeft_focused_cons [] _ [] current) (.decrement ?_))
  rw [decrement_focused]
  exact .nil _

/-- The loop empties the first cell and adds the factor to the cell beyond it as many times as the
first cell says. -/
theorem repeats_body (factor : Nat) (right : List UInt8) (current value : UInt8)
    (h : HasBeyond right value) :
    ∃ after, HasBeyond after (value + current * UInt8.ofNat factor) ∧
      Repeats answer ('>' :: (List.replicate factor '+' ++ ['<', '-']))
        ⟨focused [] current right, output, taken⟩ ⟨focused [] 0 after, output, taken⟩ := by
  induction hCount : current.toNat generalizing right current value with
  | zero =>
    obtain rfl : current = 0 := UInt8.toNat_inj.1 hCount
    refine ⟨right, ?_, .leave (read_focused [] 0 right)⟩
    rw [show value + 0 * UInt8.ofNat factor = value by grind]
    exact h
  | succ count ih =>
    have hNonzero : current ≠ 0 := by
      rintro rfl
      contradiction
    have hLess : (current - 1).toNat = count := by
      have hOne : (1 : UInt8) ≤ current := by
        rw [UInt8.le_iff_toNat_le, hCount]
        exact Nat.le_add_left 1 count
      rw [UInt8.toNat_sub_of_le _ _ hOne, hCount]
      rfl
    obtain ⟨after, hAfter, hMore⟩ := ih [value + UInt8.ofNat factor] (current - 1)
      (value + UInt8.ofNat factor) (hasBeyond_singleton _) hLess
    have hSum : value + UInt8.ofNat factor + (current - 1) * UInt8.ofNat factor =
        value + current * UInt8.ofNat factor := by grind
    rw [hSum] at hAfter
    exact ⟨after, hAfter, .again (by rwa [read_focused]) (leads_body factor h) hMore⟩

/-- The body of the loop has no brackets in it. -/
theorem balanced_body (factor : Nat) :
    Balanced ('>' :: (List.replicate factor '+' ++ ['<', '-'])) := by
  refine balanced_of_plain ?_
  intro symbol hMem
  simp only [List.mem_cons, List.mem_append, List.mem_replicate, List.not_mem_nil, or_false] at hMem
  rcases hMem with rfl | ⟨-, rfl⟩ | rfl | rfl <;> decide

/-- The whole program leads to the product and the summand in the second cell, which is written. -/
theorem leads_multiplication (factor other summand : Nat) :
    Leads answer (multiplication factor other summand).toList .start
      ⟨focused [0] (UInt8.ofNat (factor * other + summand)) [],
        String.singleton (charOfByte (UInt8.ofNat (factor * other + summand))), 0⟩ := by
  have hText : (multiplication factor other summand).toList = List.replicate factor '+' ++
      (('[' :: ('>' :: (List.replicate other '+' ++ ['<', '-'])) ++ [']']) ++
        ('>' :: (List.replicate summand '+' ++ ['.']))) := by
    simp [multiplication]
  have hResult : 0 + (0 + UInt8.ofNat factor) * UInt8.ofNat other + UInt8.ofNat summand =
      UInt8.ofNat (factor * other + summand) := by
    rw [UInt8.ofNat_add, UInt8.ofNat_mul]
    grind
  obtain ⟨after, hBeyond, hRepeats⟩ := repeats_body other [] (0 + UInt8.ofNat factor) 0 hasBeyond_nil
  rw [hText, Scene.start, blank_eq_focused]
  refine leads_counting factor ((hRepeats.leads (balanced_body other)).append (.right ?_))
  rw [hBeyond 0]
  refine leads_counting summand (.output ?_)
  rw [read_focused, hResult]
  exact .nil _

end Multiplication

namespace Attendance

open Multiplication

/-- An attended machine multiplies two factors by a loop and adds a summand, all modulo 256: it halts
within no loop at the second of two cells, which has the result and has been written, while the first
one is zero again. -/
theorem multiplies_modulo (factor other summand : Nat) (pacing : Pacing) (answer : Nat → String)
    (budget : Nat → Nat) (hBudget : ∀ slice, 0 < budget slice) :
    let attended := afterSlices answer budget (ofSource (multiplication factor other summand) pacing)
    let result := (factor * other + summand) % 256
    (∃ slices, isFinal (attended slices).event = true) ∧
      ∀ slices, isFinal (attended slices).event = true →
        (attended slices).event = .halted (String.singleton (Char.ofNat result)) ∧
          (attended slices).machine.stack = LoopStack.empty ∧
          (attended slices).machine.tape.address = 1 ∧
          (attended slices).machine.tape.cells = #[0, UInt8.ofNat result] := by
  intro attended result
  have hByte : UInt8.ofNat (factor * other + summand) = UInt8.ofNat result :=
    UInt8.ofNat_mod_size.symm
  have hCharacter : charOfByte (UInt8.ofNat (factor * other + summand)) = Char.ofNat result := by
    rw [charOfByte, UInt8.toNat_ofNat']
  have hLeads : Leads answer _ _ _ := leads_multiplication factor other summand
  rw [hCharacter, hByte] at hLeads
  obtain ⟨hEnds, hEnd⟩ := halts_of_leads hBudget pacing hLeads
  refine ⟨hEnds, ?_⟩
  intro slices hFinal
  obtain ⟨hEvent, -, hStack, hTape⟩ := hEnd slices hFinal
  exact ⟨hEvent, hStack, congrArg Tape.address hTape, congrArg Tape.cells hTape⟩

/-- A stepped machine writes a letter although its first cell has gone through zero on the way up to a
factor that no cell can have. -/
theorem multiplies_modulo_letter :
    let attended := afterSlices (fun _ => "") (fun slice => slice + 1)
      (ofSource (multiplication 264 8 1) ⟨true, Delay.none⟩)
    (∀ slice : Nat, 0 < slice + 1) ∧
      (∃ slices, isFinal (attended slices).event = true) ∧
      ∀ slices, isFinal (attended slices).event = true →
        (attended slices).event = .halted "A" ∧
          (attended slices).machine.stack = LoopStack.empty ∧
          (attended slices).machine.tape.address = 1 ∧
          (attended slices).machine.tape.cells = #[0, 65] := by
  intro attended
  exact ⟨fun slice => Nat.succ_pos slice, multiplies_modulo 264 8 1 ⟨true, Delay.none⟩ (fun _ => "")
    (fun slice => slice + 1) fun slice => Nat.succ_pos slice⟩

end Attendance

end ByteTape
