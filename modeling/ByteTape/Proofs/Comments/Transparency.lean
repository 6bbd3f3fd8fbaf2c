import ByteTape.Proofs.Comments.Erasure
import ByteTape.Proofs.Core.StatusTruth

/-!
# Comments cannot be noticed

A run of a program and a run of the program without its comments go side by side: where the first
is at a comment it moves on alone and tells nothing, everywhere else both take corresponding turns.
A run cannot stay among comments, so neither run can leave the other behind. Hence an attendant
hears the same requests and pauses from both, one run ends exactly if the other does, and they end
alike, with every address taken to its place among the instructions that are no comments.
-/

namespace ByteTape

namespace Core

variable {core : Core}

/-- The next instruction is a comment. -/
def AtComment (core : Core) : Prop :=
  ∃ character, core.program.instruction? core.position = some (.comment character)

/-- A comment is passed by. -/
theorem turn_of_comment {character : Char}
    (h : core.program.instruction? core.position = some (.comment character)) :
    core.turn = .moves (core.begun.pass (.comment character) (core.position + 1)) :=
  turn_eq_effect h

/-- A run that cannot go on is not at a comment. -/
theorem Stuck.not_atComment (h : core.Stuck) : ¬ core.AtComment := by
  rintro ⟨character, hHere⟩
  rw [Stuck, turn_of_comment hHere] at h
  rcases h with hEnds | ⟨fault, hFails⟩ <;> contradiction

/-- Nothing is told after a comment. -/
theorem tidings_of_comment {character : Char} (h : core.last = some (.comment character))
    (pacing : Pacing) : core.tidings pacing = [] := by
  rw [tidings, statusAfter, pauseShown?_of_comment h]
  rfl

end Core

namespace Progress

variable {pacing : Pacing} {answer : Nat → String} {program : Program}

/-- A comment changes nothing but the position and the instruction completed last. -/
theorem next_of_comment {progress : Progress} {character : Char}
    (h : progress.core.program.instruction? progress.core.position =
      some (.comment character)) :
    progress.next pacing answer =
      ⟨progress.core.begun.pass (.comment character) (progress.core.position + 1),
        progress.taken, progress.told⟩ := by
  rw [next_of_moves (Core.turn_of_comment h), Core.tidings_of_comment rfl, List.append_nil]

/-- At a comment a run moves on alone. -/
theorem corresponds_after_comment {turns : Nat} {other : Progress}
    (h : (after pacing answer program turns).Corresponds program.place other)
    (hComment : (after pacing answer program turns).core.AtComment) :
    (after pacing answer program (turns + 1)).Corresponds program.place other ∧
      (after pacing answer program (turns + 1)).core.position =
        (after pacing answer program turns).core.position + 1 := by
  obtain ⟨character, hHere⟩ := hComment
  have hPlace := hHere
  rw [program_after] at hPlace
  rw [after, next_of_comment hHere]
  refine ⟨⟨⟨h.core.tape_eq, h.core.stack_eq, h.core.output_eq, ?_⟩, h.taken_eq, h.told_eq⟩, rfl⟩
  exact h.core.position_eq.trans (Program.place_succ_of_comment hPlace).symm

/-- An instruction that is no comment is copied by erasing the comments. -/
theorem copiedAt_after {turns : Nat} (others : Nat)
    (h : ¬ (after pacing answer program turns).core.AtComment) :
    (after pacing answer program turns).core.program.CopiedAt program.place
      (after pacing answer program.uncommented others).core.program
      (after pacing answer program turns).core.position := by
  rw [Core.AtComment, program_after] at h
  rw [program_after, program_after]
  exact Program.copiedAt_place fun character hHere => h ⟨character, hHere⟩

/-- A run gets past the comments it is at. -/
theorem exists_past_comments {turns : Nat} {other : Progress}
    (h : (after pacing answer program turns).Corresponds program.place other) :
    ∃ later, (after pacing answer program later).Corresponds program.place other ∧
      ¬ (after pacing answer program later).core.AtComment := by
  -- Every comment brings the run closer to the end of the program.
  induction hLeft : program.size - (after pacing answer program turns).core.position
    generalizing turns with
  | zero =>
    refine ⟨turns, h, ?_⟩
    rintro ⟨character, hHere⟩
    rw [program_after] at hHere
    have hInside := Program.lt_size_of_instruction? hHere
    omega
  | succ left ih =>
    by_cases hComment : (after pacing answer program turns).core.AtComment
    · obtain ⟨hNext, hPosition⟩ := corresponds_after_comment h hComment
      exact ih hNext (by omega)
    · exact ⟨turns, h, hComment⟩

/-- Both runs begin alike. -/
theorem corresponds_start (program : Program) :
    (start program).Corresponds program.place (start program.uncommented) :=
  ⟨⟨rfl, rfl, rfl, rfl⟩, rfl, rfl⟩

/-- The run without comments follows every turn of the run with them. -/
theorem exists_uncommented (pacing : Pacing) (answer : Nat → String) (program : Program)
    (turns : Nat) :
    ∃ others, (after pacing answer program turns).Corresponds program.place
      (after pacing answer program.uncommented others) := by
  induction turns with
  | zero => exact ⟨0, corresponds_start program⟩
  | succ turns ih =>
    obtain ⟨others, hSoFar⟩ := ih
    by_cases hComment : (after pacing answer program turns).core.AtComment
    · exact ⟨others, (corresponds_after_comment hSoFar hComment).1⟩
    · exact ⟨others + 1, hSoFar.next (copiedAt_after others hComment) pacing answer⟩

/-- The run with comments follows every turn of the run without them. -/
theorem exists_commented (pacing : Pacing) (answer : Nat → String) (program : Program)
    (others : Nat) :
    ∃ turns, (after pacing answer program turns).Corresponds program.place
        (after pacing answer program.uncommented others) ∧
      ¬ (after pacing answer program turns).core.AtComment := by
  induction others with
  | zero =>
    have hStart : (after pacing answer program 0).Corresponds program.place
        (after pacing answer program.uncommented 0) := corresponds_start program
    exact exists_past_comments hStart
  | succ others ih =>
    obtain ⟨turns, hSoFar, hNot⟩ := ih
    have hNext : (after pacing answer program (turns + 1)).Corresponds program.place
        (after pacing answer program.uncommented (others + 1)) :=
      hSoFar.next (copiedAt_after others hNot) pacing answer
    exact exists_past_comments hNext

/-- Where the run with comments cannot go on, the run without them takes the same turn. -/
theorem exists_uncommented_of_stuck {turns : Nat}
    (h : (after pacing answer program turns).core.Stuck) :
    ∃ others, (after pacing answer program turns).Corresponds program.place
        (after pacing answer program.uncommented others) ∧
      (after pacing answer program turns).core.turn.Corresponds program.place
        (after pacing answer program.uncommented others).core.turn := by
  obtain ⟨others, hSame⟩ := exists_uncommented pacing answer program turns
  exact ⟨others, hSame, hSame.core.turn (copiedAt_after others h.not_atComment)⟩

/-- Where the run without comments cannot go on, the run with them comes to a place where it
cannot. -/
theorem exists_stuck_of_uncommented {others : Nat}
    (h : (after pacing answer program.uncommented others).core.Stuck) :
    ∃ turns, (after pacing answer program turns).core.Stuck := by
  obtain ⟨turns, hSame, hNot⟩ := exists_commented pacing answer program others
  have hTurns := hSame.core.turn (copiedAt_after others hNot)
  exact ⟨turns, (Core.Corresponds.stuck_iff hTurns).1 h⟩

end Progress

namespace Machine

/-- A run that is over has come to the end of its program or to a fault at its position. -/
theorem Presents.event_of_ended {machine : Machine} {core : Core} (h : machine.Presents core)
    (hEnded : machine.Ended) :
    machine.event = .halted machine.output ∨
      ∃ cause, machine.event = .faulted ⟨cause, some machine.position, ""⟩ := by
  rcases h.of_ended hEnded with ⟨-, hHalted, -⟩ | ⟨fault, hFails, hFaulted, hCore⟩
  · exact .inl ((event_eq_halted_iff machine _).2 ⟨hHalted, rfl⟩)
  · have hAccounts := Core.accounts_of_fails hFails
    have hPosition : machine.position = core.position := congrArg Core.position hCore
    refine .inr ⟨fault.cause, (event_eq_faulted_iff machine _).2 (hFaulted.trans ?_)⟩
    rw [hPosition, ← hAccounts.position_eq, ← hAccounts.note_eq]

end Machine

namespace Attendance

open Machine

variable {pacing : Pacing} {answer : Nat → String} {budget other : Nat → Nat} {program : Program}

/-- What is heard from a program without its comments is what is heard from the program, at other
addresses. -/
theorem exists_heard_uncommented_iff (hBudget : ∀ slice, 0 < budget slice)
    (hOther : ∀ slice, 0 < other slice) (events : List Event) :
    (∃ slices, heard answer other (load program.uncommented pacing) slices = events) ↔
      ∃ slices, (heard answer budget (load program pacing) slices).map
        (Event.renumber program.place) = events := by
  constructor
  · rintro ⟨others, rfl⟩
    obtain ⟨count, hTold⟩ := exists_told_of_heard answer other program.uncommented pacing others
    obtain ⟨turns, hSame, -⟩ := Progress.exists_commented pacing answer program count
    rw [hSame.told_eq, List.prefix_map_iff] at hTold
    obtain ⟨earlier, hEarlier, hHeard⟩ := hTold
    obtain ⟨slices, rfl⟩ := exists_heard_of_told hBudget hEarlier
    exact ⟨slices, hHeard.symm⟩
  · rintro ⟨slices, rfl⟩
    obtain ⟨turns, hTold⟩ := exists_told_of_heard answer budget program pacing slices
    obtain ⟨count, hSame⟩ := Progress.exists_uncommented pacing answer program turns
    have hMapped := hTold.map (Event.renumber program.place)
    rw [← hSame.told_eq] at hMapped
    exact exists_heard_of_told hOther hMapped

/-- A program comes to an end exactly if it does without its comments. -/
theorem exists_final_uncommented_iff (hBudget : ∀ slice, 0 < budget slice)
    (hOther : ∀ slice, 0 < other slice) :
    (∃ slices, isFinal (afterSlices answer budget (load program pacing) slices).event = true) ↔
      ∃ slices, isFinal
        (afterSlices answer other (load program.uncommented pacing) slices).event = true := by
  constructor
  · rintro ⟨slices, hFinal⟩
    obtain ⟨turns, hStuck, -⟩ := stuck_of_final hBudget hFinal
    obtain ⟨others, -, hTurns⟩ := Progress.exists_uncommented_of_stuck hStuck
    exact final_of_stuck hOther ((Core.Corresponds.stuck_iff hTurns).2 hStuck)
  · rintro ⟨slices, hFinal⟩
    obtain ⟨others, hStuck, -⟩ := stuck_of_final hOther hFinal
    obtain ⟨turns, hTurns⟩ := Progress.exists_stuck_of_uncommented hStuck
    exact final_of_stuck hBudget hTurns

/-- A final event tells the output, or a cause with the address of the instruction concerned. -/
theorem event_of_final (hBudget : ∀ slice, 0 < budget slice) {slices : Nat}
    (h : isFinal (afterSlices answer budget (load program pacing) slices).event = true) :
    (∃ output, (afterSlices answer budget (load program pacing) slices).event = .halted output) ∨
      ∃ cause position, (afterSlices answer budget (load program pacing) slices).event =
        .faulted ⟨cause, some position, ""⟩ := by
  obtain ⟨turns, -, hOver, hPresents, -⟩ := stuck_of_final hBudget h
  rcases hPresents.event_of_ended hOver.1 with hHalted | ⟨cause, hFaulted⟩
  · exact .inl ⟨_, hOver.2.trans hHalted⟩
  · exact .inr ⟨cause, _, hOver.2.trans hFaulted⟩

/-- Runs of a program with and without its comments that are over ended in corresponding cores with
corresponding events, after equally many requests. -/
theorem corresponds_of_final (hBudget : ∀ slice, 0 < budget slice)
    (hOther : ∀ slice, 0 < other slice) {slices others : Nat}
    (hFinal : isFinal (afterSlices answer budget (load program pacing) slices).event = true)
    (hFinalClean : isFinal
      (afterSlices answer other (load program.uncommented pacing) others).event = true) :
    let attended := afterSlices answer budget (load program pacing) slices
    let clean := afterSlices answer other (load program.uncommented pacing) others
    clean.event = attended.event.renumber program.place ∧
      clean.requests = attended.requests ∧
      attended.machine.core.Corresponds program.place clean.machine.core := by
  intro attended clean
  obtain ⟨turns, hStuck, hOver, hPresents, hRequests⟩ := stuck_of_final hBudget hFinal
  obtain ⟨reached, hStuckClean, hOverClean, hPresentsClean, hRequestsClean⟩ :=
    stuck_of_final hOther hFinalClean
  -- The run without comments cannot go on in one place only, which is the one that corresponds.
  obtain ⟨count, hSame, hTurns⟩ := Progress.exists_uncommented_of_stuck hStuck
  have hCount := (Core.Corresponds.stuck_iff hTurns).2 hStuck
  rw [Progress.after_unique hCount hStuckClean] at hSame hTurns
  refine ⟨?_, ?_, hPresents.corresponds hPresentsClean hSame.core⟩
  · rw [hOver.2, hOverClean.2]
    exact hPresents.event_corresponds hPresentsClean hSame.core hTurns hOver.1 hOverClean.1
  · rw [hRequests, hRequestsClean, hSame.taken_eq]

/-- Comments can be erased. Whatever the budgets of the two runs, what is heard from the program
without comments is what is heard from the program, every stack entry taken to its place; one run
ends exactly if the other does; and runs that are over halted with one output or failed for one
cause at an address and its place, after equally many requests, on the same tape and with stacks
that correspond. -/
theorem agrees_with_uncommented (source : String) (pacing : Pacing) (answer : Nat → String)
    (budget other : Nat → Nat) (hBudget : ∀ slice, 0 < budget slice)
    (hOther : ∀ slice, 0 < other slice) :
    let place := (Program.ofString source).place
    let machine := ofSource source pacing
    let clean := ofSource (uncommented source) pacing
    let attended := afterSlices answer budget machine
    let attendedClean := afterSlices answer other clean
    (∀ events, (∃ slices, heard answer other clean slices = events) ↔
        ∃ slices, (heard answer budget machine slices).map (Event.renumber place) = events) ∧
      ((∃ slices, isFinal (attended slices).event = true) ↔
        ∃ slices, isFinal (attendedClean slices).event = true) ∧
      ∀ slices others, isFinal (attended slices).event = true →
        isFinal (attendedClean others).event = true →
        ((∃ output, (attended slices).event = .halted output ∧
            (attendedClean others).event = .halted output) ∨
          ∃ cause position, (attended slices).event = .faulted ⟨cause, some position, ""⟩ ∧
            (attendedClean others).event = .faulted ⟨cause, some (place position), ""⟩) ∧
        (attendedClean others).requests = (attended slices).requests ∧
        (attendedClean others).machine.tape = (attended slices).machine.tape ∧
        (attendedClean others).machine.stack.toList =
          (attended slices).machine.stack.toList.map place := by
  intro place machine clean attended attendedClean
  have hClean : clean = load (Program.ofString source).uncommented pacing :=
    congrArg (load · pacing) (Program.ofString_uncommented source)
  have hAttended : attendedClean =
      afterSlices answer other (load (Program.ofString source).uncommented pacing) :=
    congrArg (afterSlices answer other) hClean
  rw [hClean, hAttended]
  refine ⟨exists_heard_uncommented_iff hBudget hOther,
    exists_final_uncommented_iff hBudget hOther, ?_⟩
  intro slices others hFinal hFinalClean
  obtain ⟨hEvent, hRequests, hCores⟩ := corresponds_of_final hBudget hOther hFinal hFinalClean
  refine ⟨?_, hRequests, hCores.tape_eq, ?_⟩
  · rcases event_of_final hBudget hFinal with ⟨output, hHalted⟩ | ⟨cause, position, hFaulted⟩
    · rw [hHalted] at hEvent
      exact .inl ⟨output, hHalted, hEvent⟩
    · rw [hFaulted] at hEvent
      exact .inr ⟨cause, position, hFaulted, hEvent⟩
  · exact (congrArg LoopStack.toList hCores.stack_eq).trans (LoopStack.toList_renumber _ _)

/-- A stepped run enters a loop and fails at an inner one that is never closed. Without its three
comments the program fails at address three instead of six, in the loop at address one instead of
three. -/
theorem agrees_with_uncommented_unclosed :
    (∃ slices,
      let attended := afterSlices (fun _ => "A") (fun _ => 2)
        (ofSource "in,[>y[" ⟨true, Delay.none⟩) slices
      attended.event = .faulted ⟨.unbalancedLoop, some 6, ""⟩ ∧
        attended.machine.stack.toList = [3]) ∧
      ∃ others,
        let clean := afterSlices (fun _ => "A") (fun _ => 1)
          (ofSource (uncommented "in,[>y[") ⟨true, Delay.none⟩) others
        clean.event = .faulted ⟨.unbalancedLoop, some 3, ""⟩ ∧
          clean.machine.stack.toList = [1] := by
  have hEvent : (afterSlices (fun _ => "A") (fun _ => 2)
      (ofSource "in,[>y[" ⟨true, Delay.none⟩) 9).event =
        .faulted ⟨.unbalancedLoop, some 6, ""⟩ := by decide +kernel
  have hStack : (afterSlices (fun _ => "A") (fun _ => 2)
      (ofSource "in,[>y[" ⟨true, Delay.none⟩) 9).machine.stack.toList = [3] := by decide +kernel
  have hPlace : (Program.ofString "in,[>y[").place 6 = 3 ∧
      (Program.ofString "in,[>y[").place 3 = 1 := by decide +kernel
  obtain ⟨-, hEnd, hAlike⟩ := agrees_with_uncommented "in,[>y[" ⟨true, Delay.none⟩ (fun _ => "A")
    (fun _ => 2) (fun _ => 1) (fun _ => Nat.zero_lt_two) (fun _ => Nat.zero_lt_one)
  have hFinal := congrArg isFinal hEvent
  obtain ⟨others, hOthers⟩ := hEnd.1 ⟨9, hFinal⟩
  obtain ⟨hEvents, -, -, hStacks⟩ := hAlike 9 others hFinal hOthers
  refine ⟨⟨9, hEvent, hStack⟩, others, ?_, ?_⟩
  · rcases hEvents with ⟨output, hHalted, -⟩ | ⟨cause, position, hFaulted, hClean⟩
    · rw [hEvent] at hHalted
      contradiction
    · rw [hEvent] at hFaulted
      injection hFaulted with hFault
      injection hFault with hCause hPosition
      injection hPosition with hPosition
      rw [hClean, ← hCause, ← hPosition, hPlace.1]
  · rw [hStacks, hStack, List.map_singleton, hPlace.2]

end Attendance

end ByteTape
