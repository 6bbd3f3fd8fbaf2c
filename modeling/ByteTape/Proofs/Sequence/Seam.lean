import ByteTape.Proofs.Bracket.OpenLoops
import ByteTape.Proofs.Core.Renumber
import ByteTape.Proofs.Core.StackDiscipline

/-!
# One program after another

Two programs written one after the other share a seam. The second part is a copy of the second program,
every address moved on by the size of the first. The first part is a copy of the first program as long
as its brackets are balanced: every bracket then has its partner before the seam, so that no scan looks
past it. A run of the first program is therefore a run of both, up to the point where the first comes
to its end, fails, or goes on for ever.
-/

namespace ByteTape

namespace Program

open ByteTape.Bracket

/-- A program written after another. -/
def followedBy (first second : Program) : Program :=
  ⟨first.symbols ++ second.symbols⟩

variable (first second : Program)

/-- Texts in a row are programs in a row. -/
theorem ofString_append (source other : String) :
    ofString (source ++ other) = (ofString source).followedBy (ofString other) := by
  simp [ofString, followedBy]

/-- The symbols stand in a row. -/
theorem toList_followedBy :
    (first.followedBy second).symbols.toList = first.symbols.toList ++ second.symbols.toList := by
  simp [followedBy]

/-- The sizes add up. -/
theorem size_followedBy : (first.followedBy second).size = first.size + second.size := by
  simp [followedBy, size]

/-- Before the seam stands the first program. -/
theorem instruction?_followedBy_left {address : Nat} (h : address < first.size) :
    (first.followedBy second).instruction? address = first.instruction? address := by
  simp [instruction?, followedBy, Array.getElem?_append_left h]

/-- After the seam stands the second program. -/
theorem instruction?_followedBy_right (address : Nat) :
    (first.followedBy second).instruction? (address + first.size) =
      second.instruction? address := by
  have hRight : first.symbols.size ≤ address + first.size := Nat.le_add_left _ _
  rw [instruction?, followedBy, Array.getElem?_append_right hRight]
  simp [instruction?, size]

/-- A text that ends before the seam is one of the first program. -/
theorem between_followedBy_left {start stop : Nat} (hStart : start ≤ stop)
    (hStop : stop ≤ first.size) :
    (first.followedBy second).between start stop = first.between start stop := by
  have hLength : first.symbols.toList.length = first.size := Array.length_toList
  have hDrop : (first.symbols.toList ++ second.symbols.toList).drop start =
      first.symbols.toList.drop start ++ second.symbols.toList :=
    List.drop_append_of_le_length (by omega)
  have hTake : stop - start ≤ (first.symbols.toList.drop start).length := by
    rw [List.length_drop]
    omega
  rw [between, between, toList_followedBy, hDrop, List.take_append_of_le_length hTake]

/-- A text that begins after the seam is one of the second program. -/
theorem between_followedBy_right (start stop : Nat) :
    (first.followedBy second).between (start + first.size) (stop + first.size) =
      second.between start stop := by
  have hDrop : (first.symbols.toList ++ second.symbols.toList).drop (start + first.size) =
      second.symbols.toList.drop start := by
    rw [Nat.add_comm]
    exact List.drop_length_add_append start
  have hStop : stop + first.size - (start + first.size) = stop - start := by omega
  rw [between, between, toList_followedBy, hDrop, hStop]

variable {first}

/-- Brackets that belong together in the first program do so before the seam. -/
theorem Pairs.followedBy {opening closing : Nat} (h : first.Pairs opening closing) :
    (first.followedBy second).Pairs opening closing := by
  have hInside := lt_size_of_instruction? h.closes
  refine ⟨h.lt, ?_, ?_, ?_⟩
  · rw [instruction?_followedBy_left _ _ (Nat.lt_trans h.lt hInside)]
    exact h.opens
  · rw [instruction?_followedBy_left _ _ hInside]
    exact h.closes
  · rw [between_followedBy_left _ _ h.lt (Nat.le_of_lt hInside)]
    exact h.balanced

variable (first) {second}

/-- Brackets belong together after the seam exactly if they do so in the second program. -/
theorem pairs_followedBy_right (opening closing : Nat) :
    (first.followedBy second).Pairs (opening + first.size) (closing + first.size) ↔
      second.Pairs opening closing := by
  have hBetween := between_followedBy_right first second (opening + 1) closing
  rw [Nat.add_right_comm] at hBetween
  constructor
  · intro h
    refine ⟨Nat.lt_of_add_lt_add_right h.lt, ?_, ?_, ?_⟩
    · rw [← instruction?_followedBy_right first]
      exact h.opens
    · rw [← instruction?_followedBy_right first]
      exact h.closes
    · rw [← hBetween]
      exact h.balanced
  · intro h
    refine ⟨Nat.add_lt_add_right h.lt _, ?_, ?_, ?_⟩
    · rw [instruction?_followedBy_right]
      exact h.opens
    · rw [instruction?_followedBy_right]
      exact h.closes
    · rw [hBetween]
      exact h.balanced

/-- The scan from an opening bracket after the seam ends as it does in the second program. -/
theorem matchingClose_followedBy_right {opening : Nat}
    (h : second.instruction? opening = some .loopOpen) :
    (first.followedBy second).matchingClose (opening + first.size) =
      (second.matchingClose opening).map (· + first.size) := by
  have hThere : (first.followedBy second).instruction? (opening + first.size) = some .loopOpen :=
    (instruction?_followedBy_right first second opening).trans h
  cases hScan : second.matchingClose opening with
  | ok closing =>
    have hPairs := (matchingClose_eq_ok_iff closing h).1 hScan
    exact (matchingClose_eq_ok_iff _ hThere).2 ((pairs_followedBy_right first _ _).2 hPairs)
  | error fault =>
    obtain ⟨hFault, hNone⟩ := (matchingClose_eq_error_iff fault h).1 hScan
    refine (matchingClose_eq_error_iff fault hThere).2 ⟨hFault, ?_⟩
    intro target hPairs
    -- The target lies after the opening bracket, hence after the seam.
    have hAfter := hPairs.lt
    obtain ⟨closing, rfl⟩ := Nat.exists_eq_add_of_le' (show first.size ≤ target by omega)
    exact hNone closing ((pairs_followedBy_right first _ _).1 hPairs)

/-- The second program is copied to the addresses after the seam. -/
theorem copiedAt_followedBy_right (address : Nat) :
    second.CopiedAt (· + first.size) (first.followedBy second) address where
  instruction?_eq := instruction?_followedBy_right first second address
  place_succ := fun _ => Nat.add_right_comm address 1 first.size
  matchingClose_eq := matchingClose_followedBy_right first
  place_close := fun closing _ _ => Nat.add_right_comm closing 1 first.size

variable {first} (second)

/-- A balanced program leaves no bracket open. -/
theorem openLoops_size_of_balanced (h : Balanced first.symbols.toList) :
    first.openLoops first.size = some [] := by
  have hStart : first.openLoops 0 = some [] := rfl
  refine openLoops_of_balanced hStart (Nat.zero_le _) (Nat.le_refl _) ?_
  have hLength : first.symbols.toList.length = first.size := Array.length_toList
  rw [between, List.drop_zero, Nat.sub_zero, ← hLength, List.take_length]
  exact h

/-- In a balanced program every opening bracket has its partner. -/
theorem exists_pairs_of_balanced (h : Balanced first.symbols.toList) {opening : Nat}
    (hOpen : first.instruction? opening = some .loopOpen) :
    ∃ closing, first.Pairs opening closing := by
  by_contra hNone
  have hNever := reverse_openLoops_size (openLoops_size_of_balanced h)
  have hMember := (mem_neverClosed_iff opening).2 ⟨hOpen, fun closing hPairs =>
    hNone ⟨closing, hPairs⟩⟩
  rw [← hNever] at hMember
  exact absurd hMember List.not_mem_nil

/-- A balanced program is copied to the addresses before the seam: no scan looks past it. -/
theorem copiedAt_followedBy_left (h : Balanced first.symbols.toList) {address : Nat}
    (hInside : address < first.size) :
    first.CopiedAt id (first.followedBy second) address := by
  have hThere := instruction?_followedBy_left first second hInside
  refine ⟨hThere, fun _ => rfl, ?_, fun _ _ _ => rfl⟩
  intro hOpen
  obtain ⟨closing, hPairs⟩ := exists_pairs_of_balanced h hOpen
  have hScan := (matchingClose_eq_ok_iff closing hOpen).2 hPairs
  rw [hScan]
  exact (matchingClose_eq_ok_iff closing (hThere.trans hOpen)).2 (hPairs.followedBy second)

end Program

/-- A stack whose addresses are left alone is the same stack. -/
@[simp]
theorem LoopStack.renumber_id (stack : LoopStack) : stack.renumber id = stack := by
  simp [renumber]

/-- A fault whose address is left alone is the same fault. -/
@[simp]
theorem Fault.renumber_id (fault : Fault) : fault.renumber id = fault := by
  simp [renumber]

/-- An event whose addresses are left alone is the same event. -/
@[simp]
theorem Event.renumber_id (event : Event) : event.renumber id = event := by
  cases event with
  | paused inspection => simp [renumber, Inspection.renumber]
  | faulted fault => simp [renumber]
  | _ => rfl

namespace Progress

open ByteTape.Bracket

variable {pacing : Pacing} {answer : Nat → String} {first : Program}

/-- Along a run the stack holds the brackets open before the position. -/
theorem wellNested_after (pacing : Pacing) (answer : Nat → String) (program : Program)
    (turns : Nat) : (after pacing answer program turns).core.WellNested := by
  obtain ⟨count, -, hRun⟩ : (Core.start program).RunsOn answer 0
      (after pacing answer program turns).core (after pacing answer program turns).taken :=
    runsOn_after turns
  exact hRun.wellNested (Core.wellNested_start program)

/-- A balanced program that has come to its end stands at its size, with no loop entered. -/
theorem end_of_balanced (h : Balanced first.symbols.toList) {turns : Nat}
    (hEnds : (after pacing answer first turns).core.turn = .ends) :
    (after pacing answer first turns).core.position = first.size ∧
      (after pacing answer first turns).core.stack = LoopStack.empty := by
  have hNested := wellNested_after pacing answer first turns
  have hUpper := hNested.position_le
  have hLower := (Core.turn_eq_ends_iff _).1 hEnds
  have hOpened := hNested.openLoops_eq
  rw [program_after] at hUpper hLower hOpened
  have hPosition := Nat.le_antisymm hUpper hLower
  rw [hPosition, Program.openLoops_size_of_balanced h, Option.some.injEq] at hOpened
  exact ⟨hPosition, congrArg LoopStack.mk hOpened.symm⟩

/-- Before its end a balanced program has a copy before the seam. -/
theorem copiedAt_after_left (h : Balanced first.symbols.toList) (second : Program)
    {turns : Nat} (others : Nat) (hGoesOn : (after pacing answer first turns).core.turn ≠ .ends) :
    (after pacing answer first turns).core.program.CopiedAt id
      (after pacing answer (first.followedBy second) others).core.program
      (after pacing answer first turns).core.position := by
  rw [Ne, Core.turn_eq_ends_iff, program_after, Nat.not_le] at hGoesOn
  rw [program_after, program_after]
  exact Program.copiedAt_followedBy_left second h hGoesOn

/-- A run of a balanced program is a run of it followed by another, unless it has come to its end
before. -/
theorem exists_joint (h : Balanced first.symbols.toList) (second : Program) (pacing : Pacing)
    (answer : Nat → String) (turns : Nat) :
    ∃ reached,
      (after pacing answer first reached).Corresponds id
          (after pacing answer (first.followedBy second) reached) ∧
        (reached = turns ∨
          (reached ≤ turns ∧ (after pacing answer first reached).core.turn = .ends)) := by
  induction turns with
  | zero => exact ⟨0, ⟨⟨rfl, rfl, rfl, rfl⟩, rfl, rfl⟩, .inl rfl⟩
  | succ turns ih =>
    obtain ⟨reached, hSame, rfl | ⟨hLe, hEnds⟩⟩ := ih
    · by_cases hEnds : (after pacing answer first reached).core.turn = .ends
      · exact ⟨reached, hSame, .inr ⟨Nat.le_succ reached, hEnds⟩⟩
      · exact ⟨reached + 1, hSame.next (copiedAt_after_left h second reached hEnds) pacing answer,
          .inl rfl⟩
    · exact ⟨reached, hSame, .inr ⟨Nat.le_succ_of_le hLe, hEnds⟩⟩

/-- A balanced program that comes to its end does so at the seam when it is followed by another. -/
theorem exists_seam (h : Balanced first.symbols.toList) (second : Program) {turns : Nat}
    (hEnds : (after pacing answer first turns).core.turn = .ends) :
    ∃ seam, (after pacing answer first turns).Corresponds id
      (after pacing answer (first.followedBy second) seam) := by
  obtain ⟨reached, hSame, rfl | ⟨-, hEarlier⟩⟩ := exists_joint h second pacing answer turns
  · exact ⟨reached, hSame⟩
  · rw [after_unique (.inl hEarlier) (.inl hEnds)] at hSame
    exact ⟨reached, hSame⟩

/-- A balanced program that fails does so by the same fault when it is followed by another. -/
theorem fails_of_fails (h : Balanced first.symbols.toList) (second : Program) {turns : Nat}
    {fault : Fault} (hFails : (after pacing answer first turns).core.turn = .fails fault) :
    (after pacing answer first turns).Corresponds id
        (after pacing answer (first.followedBy second) turns) ∧
      (after pacing answer (first.followedBy second) turns).core.turn = .fails fault := by
  have hGoesOn : (after pacing answer first turns).core.turn ≠ .ends := by simp [hFails]
  obtain ⟨reached, hSame, rfl | ⟨hLe, hEarlier⟩⟩ := exists_joint h second pacing answer turns
  · have hTurns := hSame.core.turn (copiedAt_after_left h second reached hGoesOn)
    refine ⟨hSame, ?_⟩
    rw [hFails] at hTurns
    cases hOther : (after pacing answer (first.followedBy second) reached).core.turn with
    | fails found =>
      rw [hOther] at hTurns
      rw [show found = fault.renumber id from hTurns, Fault.renumber_id]
    | _ =>
      rw [hOther] at hTurns
      exact hTurns.elim
  · rw [after_of_stuck (.inl hEarlier) hLe] at hGoesOn
    exact absurd hEarlier hGoesOn

/-- Where a balanced program followed by another cannot go on, the first alone has come to a place where
it cannot. -/
theorem exists_stuck_of_joint (h : Balanced first.symbols.toList) {second : Program} {turns : Nat}
    (hStuck : (after pacing answer (first.followedBy second) turns).core.Stuck) :
    ∃ earlier, (after pacing answer first earlier).core.Stuck := by
  obtain ⟨reached, hSame, hReached⟩ := exists_joint h second pacing answer turns
  by_cases hEnds : (after pacing answer first reached).core.turn = .ends
  · exact ⟨reached, .inl hEnds⟩
  · obtain rfl : reached = turns := hReached.resolve_right fun hEarlier => hEnds hEarlier.2
    have hTurns := hSame.core.turn (copiedAt_after_left h second reached hEnds)
    exact ⟨reached, (Core.Corresponds.stuck_iff hTurns).1 hStuck⟩

end Progress

end ByteTape
