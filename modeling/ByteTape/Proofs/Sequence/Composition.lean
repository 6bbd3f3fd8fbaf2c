import ByteTape.Proofs.Sequence.Restart
import ByteTape.Proofs.Sequence.Seam
import ByteTape.Proofs.Structured.Code

/-!
# Sequential composition

A balanced program followed by another runs first as it runs alone. If it comes to its end, the other
program goes on from the seam as if it had been started there, on the tape and with the output that were
left, answered by the lines that were not taken; if it fails, both fail, and if it goes on for ever, both
do. Attended one instruction at a time, a run stands at the seam between two slices; other budgets
change neither what is heard nor how the run ends.
-/

namespace ByteTape

open ByteTape.Bracket

namespace Program

/-- A program of one loop is a text between brackets. -/
theorem toList_bracketed (body : String) :
    (ofString ("[" ++ body ++ "]")).symbols.toList = '[' :: body.toList ++ [']'] := by
  simp [ofString]

/-- A program of one loop is longer than its inside by two brackets. -/
theorem size_bracketed (body : String) :
    (ofString ("[" ++ body ++ "]")).size = body.length + 2 := by
  rw [size, ← Array.length_toList, toList_bracketed, ← String.length_toList]
  simp

/-- A program of one loop that is balanced inside is balanced. -/
theorem balanced_bracketed {body : String} (h : Balanced body.toList) :
    Balanced (ofString ("[" ++ body ++ "]")).symbols.toList := by
  rw [toList_bracketed]
  exact h.bracketed rfl rfl

/-- A program of one loop that is balanced inside has its two brackets for partners. -/
theorem pairs_bracketed {body : String} (h : Balanced body.toList) :
    (ofString ("[" ++ body ++ "]")).Pairs 0 (body.length + 1) := by
  have hText : (ofString ("[" ++ body ++ "]")).symbols.toList =
      [] ++ ('[' :: body.toList ++ [']']) ++ [] := by
    rw [toList_bracketed, List.nil_append, List.append_nil]
  have hPairs := pairs_of_text hText h
  rwa [List.length_nil, Nat.zero_add, String.length_toList] at hPairs

end Program

/-- An instruction is told at most by a pause. -/
theorem Core.tidings_cases (core : Core) (pacing : Pacing) :
    core.tidings pacing = [] ∨ ∃ inspection, core.tidings pacing = [.paused inspection] := by
  rw [tidings]
  rcases core.statusAfter_cases pacing with ⟨-, hRunning⟩ | ⟨inspection, -, hPaused⟩
  · left
    rw [hRunning]
    rfl
  · right
    rw [hPaused]
    exact ⟨inspection, rfl⟩

/-- On a blank tape a program of one loop is over after one instruction. -/
theorem Progress.after_bracketed (pacing : Pacing) (answer : Nat → String) {body : String}
    (h : Balanced body.toList) :
    let skipped := after pacing answer (Program.ofString ("[" ++ body ++ "]")) 1
    skipped.core.turn = .ends ∧ skipped.core.tape = Tape.blank ∧ skipped.core.output = "" ∧
      skipped.taken = 0 ∧
      (skipped.told = [] ∨ ∃ inspection, skipped.told = [.paused inspection]) := by
  intro skipped
  have hTurn : (Core.start (Program.ofString ("[" ++ body ++ "]"))).turn = _ :=
    Core.turn_of_skipped (Program.pairs_bracketed h) rfl
  have hNext : skipped = _ := Progress.next_of_moves hTurn
  rw [hNext]
  refine ⟨?_, rfl, rfl, rfl, Core.tidings_cases _ pacing⟩
  rw [Core.turn_eq_ends_iff]
  exact Nat.le_of_eq (Program.size_bracketed body)

/-- The machine that begins a program on a tape that was left, with the output that was left. -/
def Machine.resumedOn (program : Program) (pacing : Pacing) (tape : Tape) (output : String) : Machine :=
  { load program pacing with tape, output }

namespace Attendance

open Machine

variable {pacing : Pacing} {answer : Nat → String} {budget : Nat → Nat}

section Sequence

variable {first second : Program} {joint : Nat → Nat} {slices : Nat} {output : String}

/-- A machine that stands at the seam with no loop entered is the one that begins the second program
there, displaced by the size of the first. -/
theorem displaced_of_seam {machine : Machine} (hProgram : machine.program = first.followedBy second)
    (hPosition : machine.position = first.size) (hStack : machine.stack = LoopStack.empty)
    (hStatus : machine.status = .running ∨
      (machine.status = .halted ∧ machine.program.size ≤ machine.position)) :
    (resumedOn second machine.pacing machine.tape machine.output).settle.Displaced first.size
      machine.settle := by
  have hCopied : ∀ address, second.CopiedAt (· + first.size) machine.program address := by
    rw [hProgram]
    exact Program.copiedAt_followedBy_right first
  have hCore : (resumedOn second machine.pacing machine.tape machine.output).core.Corresponds
      (· + first.size) machine.core :=
    ⟨rfl, hStack, rfl, hPosition.trans (Nat.zero_add _).symm⟩
  rcases hStatus with hRunning | ⟨hHalted, hEnd⟩
  · exact Displaced.settle ⟨hCopied, hCore, rfl, hRunning⟩
  · -- The run has noticed the end of both programs, so the second has nothing to run.
    have hNothing : second.size ≤ 0 := by
      rw [hProgram, hPosition, Program.size_followedBy] at hEnd
      omega
    rw [settle_of_status_ne_running machine (by simp [hHalted]), settle_of_le _ rfl hNothing]
    exact ⟨hCopied, hCore, rfl, hHalted⟩

/-- An attended run stands where another machine is begun further on: on its tape and with its output,
with no loop entered. Answered by the lines that were not taken, both are attended in lockstep, every
position, stack entry and fault moved on by the distance. -/
structure HandsOver (met : Attendance) (answer : Nat → String) (distance : Nat)
    (rest : Machine) : Prop where
  /-- The run stands at the distance. -/
  position_eq : met.machine.position = distance
  /-- The tape is the one the other machine begins on. -/
  tape_eq : met.machine.tape = rest.tape
  /-- The output is the one the other machine begins with. -/
  output_eq : met.machine.output = rest.output
  /-- No loop is entered. -/
  stack_eq : met.machine.stack = LoopStack.empty
  /-- Whatever the budgets, the run goes on as the other machine runs. -/
  lockstep : ∀ later more,
    let answers := fun request => answer (met.requests + request)
    (afterSlices answers later rest more).Displaced distance
        (afterSlices answers later met.machine more) ∧
      heard answers later met.machine more =
        (heard answers later rest more).map (Event.renumber (· + distance))

/-- The machines of a run that hands over settle into displaced ones. -/
theorem HandsOver.displaced {met : Attendance} {distance : Nat} {rest : Machine}
    (h : met.HandsOver answer distance rest) :
    rest.settle.Displaced distance met.machine.settle :=
  (h.lockstep (fun _ => 0) 0).1.machine

/-- A balanced program that halts hands over, between two slices, to the program after it, begun on the
tape and with the output that were left; what was heard and answered so far is what the first program
alone lets hear and takes. -/
theorem exists_seam_slices (hBalanced : Balanced first.symbols.toList) (second : Program)
    (hBudget : ∀ slice, 0 < budget slice)
    (hHalted : (afterSlices answer budget (load first pacing) slices).event = .halted output) :
    ∃ seam,
      let done := afterSlices answer budget (load first pacing) slices
      let whole := load (first.followedBy second) pacing
      let met := afterSlices answer (fun _ => 1) whole seam
      met.HandsOver answer first.size (resumedOn second pacing done.machine.tape output) ∧
        met.requests = done.requests ∧
        heard answer (fun _ => 1) whole seam = heard answer budget (load first pacing) slices := by
  obtain ⟨turns, -, hOver, hPresents, hRequests, hHeard⟩ :=
    told_of_final hBudget (by rw [hHalted]; rfl)
  have hStatus := (event_eq_halted_iff _ output).1 (hOver.2.symm.trans hHalted)
  obtain ⟨hCore, hEnds⟩ := hPresents.of_halted hStatus.1
  obtain ⟨seamTurns, hSame⟩ := Progress.exists_seam hBalanced second hEnds
  obtain ⟨hPosition, hStack⟩ := Progress.end_of_balanced hBalanced hEnds
  obtain ⟨seam, hStands⟩ := exists_standsAt pacing answer (first.followedBy second) seamTurns
  refine ⟨seam, ?_⟩
  intro done whole met
  have hMet : done.machine.core.Corresponds id met.machine.core := by
    rw [hCore, hStands.core_eq]
    exact hSame.core
  have hProgram : met.machine.program = first.followedBy second :=
    (congrArg Core.program hStands.core_eq).trans (Progress.program_after seamTurns)
  have hTape : met.machine.tape = done.machine.tape := hMet.tape_eq
  have hOutput : met.machine.output = output := hMet.output_eq.trans hStatus.2
  rw [← hCore] at hPosition hStack
  have hAtSeam : met.machine.position = first.size := hMet.position_eq.trans hPosition
  have hEmpty : met.machine.stack = LoopStack.empty := by
    refine hMet.stack_eq.trans ?_
    rw [LoopStack.renumber_id, hStack]
  have hGoesOn : met.machine.status = .running ∨
      (met.machine.status = .halted ∧ met.machine.program.size ≤ met.machine.position) := by
    refine hStands.status.imp_right fun hEnd => ⟨hEnd.1, ?_⟩
    rw [← hStands.core_eq] at hEnd
    exact (Core.turn_eq_ends_iff _).1 hEnd.2
  have hDisplaced := displaced_of_seam hProgram hAtSeam hEmpty hGoesOn
  rw [hStands.pacing_eq, hTape, hOutput] at hDisplaced
  refine ⟨⟨hAtSeam, hTape, hOutput, hEmpty, ?_⟩, ?_, ?_⟩
  · exact fun later more => displaced_afterSlices hDisplaced _ later more
  · rw [hStands.requests_eq, hSame.taken_eq, hRequests]
  · rw [hStands.heard_eq, hSame.told_eq, hHeard, List.map_id'' Event.renumber_id]

/-- A balanced program that fails does so as well when it is followed by another, after the same
requests and with the same to be heard. -/
theorem exists_faulted_of_faulted (hBalanced : Balanced first.symbols.toList) (second : Program)
    (hBudget : ∀ slice, 0 < budget slice) (hJoint : ∀ slice, 0 < joint slice) {fault : Fault}
    (hFaulted : (afterSlices answer budget (load first pacing) slices).event = .faulted fault) :
    ∃ others,
      let done := afterSlices answer budget (load first pacing) slices
      let whole := load (first.followedBy second) pacing
      (afterSlices answer joint whole others).event = .faulted fault ∧
        (afterSlices answer joint whole others).requests = done.requests ∧
        heard answer joint whole others = heard answer budget (load first pacing) slices := by
  obtain ⟨turns, -, hOver, hPresents, hRequests, hHeard⟩ :=
    told_of_final hBudget (by rw [hFaulted]; rfl)
  have hStatus := (event_eq_faulted_iff _ fault).1 (hOver.2.symm.trans hFaulted)
  obtain ⟨hSame, hFails⟩ :=
    Progress.fails_of_fails hBalanced second (hPresents.of_faulted hStatus).2
  obtain ⟨others, hFinal⟩ := final_of_stuck hJoint (.inr ⟨fault, hFails⟩)
  obtain ⟨count, hStuck, hOver', hPresents', hRequests', hHeard'⟩ := told_of_final hJoint hFinal
  rw [Progress.after_unique hStuck (.inr ⟨fault, hFails⟩)] at hPresents' hRequests' hHeard'
  refine ⟨others, ?_, ?_, ?_⟩
  · rw [hOver'.2, event_eq_faulted_iff]
    rcases hPresents'.of_ended hOver'.1 with ⟨hEnds, -⟩ | ⟨found, hFound, hThere, -⟩
    · rw [hFails] at hEnds
      contradiction
    · rw [hFails, Turn.fails.injEq] at hFound
      rw [hFound]
      exact hThere
  · rw [hRequests', hSame.taken_eq, hRequests]
  · rw [hHeard', hSame.told_eq, hHeard, List.map_id'' Event.renumber_id]

/-- A balanced program that goes on for ever does so as well when it is followed by another. -/
theorem never_final_of_never_final (hBalanced : Balanced first.symbols.toList) (second : Program)
    (hBudget : ∀ slice, 0 < budget slice) (hJoint : ∀ slice, 0 < joint slice)
    (h : ∀ slices, isFinal (afterSlices answer budget (load first pacing) slices).event = false)
    (others : Nat) :
    isFinal (afterSlices answer joint (load (first.followedBy second) pacing) others).event =
      false := by
  by_contra hFinal
  rw [Bool.not_eq_false] at hFinal
  obtain ⟨turns, hStuck, -⟩ := stuck_of_final hJoint hFinal
  obtain ⟨earlier, hEarlier⟩ := Progress.exists_stuck_of_joint hBalanced hStuck
  obtain ⟨slices, hEnd⟩ := final_of_stuck hBudget hEarlier
  rw [h slices] at hEnd
  contradiction

end Sequence

/-- A loop that is balanced inside is skipped at the beginning: it halts on a blank tape, without output
and without a request, and a pause is all that may be heard. -/
theorem exists_halted_of_bracketed (hBudget : ∀ slice, 0 < budget slice) (pacing : Pacing)
    (answer : Nat → String) {body : String} (h : Balanced body.toList) :
    ∃ slices,
      let machine := ofSource ("[" ++ body ++ "]") pacing
      let skipped := afterSlices answer budget machine slices
      skipped.event = .halted "" ∧ skipped.machine.tape = Tape.blank ∧ skipped.requests = 0 ∧
        (heard answer budget machine slices = [] ∨
          ∃ inspection, heard answer budget machine slices = [.paused inspection]) := by
  obtain ⟨hEnds, hTape, hOutput, hTaken, hTold⟩ := Progress.after_bracketed pacing answer h
  obtain ⟨slices, hFinal⟩ := final_of_stuck hBudget (.inl hEnds)
  obtain ⟨turns, hStuck, hOver, hPresents, hRequests, hHeard⟩ := told_of_final hBudget hFinal
  rw [Progress.after_unique hStuck (.inl hEnds)] at hPresents hRequests hHeard
  refine ⟨slices, ?_⟩
  intro machine skipped
  rcases hPresents.of_ended hOver.1 with ⟨-, hHalted, hCore⟩ | ⟨fault, hFails, -⟩
  · refine ⟨hOver.2.trans ((event_eq_halted_iff _ _).2 ⟨hHalted, ?_⟩), ?_, ?_, ?_⟩
    · exact (congrArg Core.output hCore).trans hOutput
    · exact (congrArg Core.tape hCore).trans hTape
    · exact hRequests.trans hTaken
    · rw [show heard answer budget machine slices = _ from hHeard]
      exact hTold
  · rw [hEnds] at hFails
    contradiction

/-- After a loop that is balanced inside a program runs as it does alone, at addresses further on. -/
theorem exists_seam_of_bracketed (pacing : Pacing) (answer : Nat → String) {body : String}
    (h : Balanced body.toList) (second : String) :
    ∃ seam,
      let whole := ofSource ("[" ++ body ++ "]" ++ second) pacing
      let met := afterSlices answer (fun _ => 1) whole seam
      met.HandsOver answer (body.length + 2) (ofSource second pacing) ∧ met.requests = 0 ∧
        (heard answer (fun _ => 1) whole seam = [] ∨
          ∃ inspection, heard answer (fun _ => 1) whole seam = [.paused inspection]) := by
  obtain ⟨slices, hHalted, hTape, hRequests, hHeard⟩ :=
    exists_halted_of_bracketed (fun _ => Nat.zero_lt_one) pacing answer h
  obtain ⟨seam, hHands, hCount, hTold⟩ := exists_seam_slices (Program.balanced_bracketed h)
    (Program.ofString second) (fun _ => Nat.zero_lt_one) hHalted
  rw [← Program.ofString_append] at hHands hCount hTold
  refine ⟨seam, ?_, hCount.trans hRequests, ?_⟩
  · have hBlank : (afterSlices answer (fun _ => 1) (load (Program.ofString ("[" ++ body ++ "]"))
        pacing) slices).machine.tape = Tape.blank := hTape
    rw [Program.size_bracketed, hBlank] at hHands
    exact hHands
  · rw [show heard answer (fun _ => 1) (ofSource _ pacing) seam = _ from hTold]
    exact hHeard

/-- A balanced program followed by another runs as the two do one after the other, whatever the budgets.
If the first halts alone, the run of both hands over to the second, begun on the tape and with the
output that were left: what is heard is what was heard from the first, followed by what is heard from
the second, and the run ends exactly if the second does, and as it does. If the first fails alone, both
fail by the same fault; if it goes on for ever, so do both. A loop at the beginning that is balanced
inside is skipped. -/
theorem runs_one_after_the_other (first second : String) (pacing : Pacing) (answer : Nat → String)
    (budget joint later : Nat → Nat) (hBalanced : Balanced first.toList)
    (hBudget : ∀ slice, 0 < budget slice) (hJoint : ∀ slice, 0 < joint slice)
    (hLater : ∀ slice, 0 < later slice) :
    let alone := ofSource first pacing
    let whole := ofSource (first ++ second) pacing
    let attended := afterSlices answer budget alone
    let attendedWhole := afterSlices answer joint whole
    (∀ slices output, (attended slices).event = .halted output →
      let done := attended slices
      let told := heard answer budget alone slices
      let rest := resumedOn (Program.ofString second) pacing done.machine.tape output
      let answers := fun request => answer (done.requests + request)
      let attendedRest := afterSlices answers later rest
      (∃ seam,
        let met := afterSlices answer (fun _ => 1) whole seam
        met.HandsOver answer first.length rest ∧ met.requests = done.requests ∧
          heard answer (fun _ => 1) whole seam = told) ∧
      (∀ events, (∃ others, heard answer joint whole others = events) ↔
        events <+: told ∨ ∃ more, events =
          told ++ (heard answers later rest more).map (Event.renumber (· + first.length))) ∧
      ((∃ others, isFinal (attendedWhole others).event = true) ↔
        ∃ more, isFinal (attendedRest more).event = true) ∧
      ∀ others more, isFinal (attendedWhole others).event = true →
        isFinal (attendedRest more).event = true →
        (attendedWhole others).event = (attendedRest more).event.renumber (· + first.length) ∧
          (attendedWhole others).requests = done.requests + (attendedRest more).requests ∧
          (attendedRest more).machine.core.Corresponds (· + first.length)
            (attendedWhole others).machine.core) ∧
    (∀ slices fault, (attended slices).event = .faulted fault →
      ∃ others, (attendedWhole others).event = .faulted fault ∧
        (attendedWhole others).requests = (attended slices).requests ∧
        heard answer joint whole others = heard answer budget alone slices) ∧
    ((∀ slices, isFinal (attended slices).event = false) →
      ∀ others, isFinal (attendedWhole others).event = false) ∧
    ∀ body : String, Balanced body.toList →
      ∃ seam,
        let skipping := ofSource ("[" ++ body ++ "]" ++ second) pacing
        let met := afterSlices answer (fun _ => 1) skipping seam
        met.HandsOver answer (body.length + 2) (ofSource second pacing) ∧ met.requests = 0 ∧
          (heard answer (fun _ => 1) skipping seam = [] ∨
            ∃ inspection, heard answer (fun _ => 1) skipping seam = [.paused inspection]) := by
  intro alone whole attended attendedWhole
  have hWhole : whole =
      load ((Program.ofString first).followedBy (Program.ofString second)) pacing :=
    congrArg (load · pacing) (Program.ofString_append first second)
  have hText : Balanced (Program.ofString first).symbols.toList := by
    simpa [Program.ofString] using hBalanced
  refine ⟨?_, ?_, ?_, fun body hBody => exists_seam_of_bracketed pacing answer hBody second⟩
  · intro slices output hHalted done told rest answers attendedRest
    obtain ⟨seam, hHands, hTaken, hTold⟩ :=
      exists_seam_slices hText (Program.ofString second) hBudget hHalted
    rw [← hWhole, Program.size_ofString] at hHands
    rw [← hWhole] at hTaken hTold
    have hDisplaced := hHands.displaced
    refine ⟨⟨seam, hHands, hTaken, hTold⟩, ?_, ?_, ?_⟩
    · exact exists_heard_iff_of_displaced hJoint hLater hDisplaced hTaken hTold
    · exact exists_final_iff_of_displaced hJoint hLater hDisplaced hTaken
    · exact fun others more => corresponds_of_final_of_displaced hJoint hLater hDisplaced hTaken
  · intro slices fault hFaulted
    obtain ⟨others, hSame⟩ :=
      exists_faulted_of_faulted hText (Program.ofString second) hBudget hJoint hFaulted
    rw [← hWhole] at hSame
    exact ⟨others, hSame⟩
  · intro hNever others
    have hFinal := never_final_of_never_final hText (Program.ofString second) hBudget hJoint hNever
      others
    rw [← hWhole] at hFinal
    exact hFinal

/-- A stepped loop takes one line and moves on to the next cell. The program after it goes back, takes
the second line and fails at a stray bracket, at address six instead of two. -/
theorem runs_one_after_the_other_stray :
    Balanced ",[>]".toList ∧
      (afterSlices (fun request => if request = 0 then "A" else "B") (fun _ => 2)
        (ofSource ",[>]" ⟨true, Delay.none⟩) 6).event = .halted "" ∧
      ∃ others,
        let whole := afterSlices (fun request => if request = 0 then "A" else "B") (fun _ => 3)
          (ofSource (",[>]" ++ "<,]") ⟨true, Delay.none⟩) others
        whole.event = .faulted ⟨.stackUnderflow, some 6, ""⟩ ∧ whole.requests = 2 := by
  have hBalanced : Balanced ",[>]".toList := by decide +kernel
  have hHalted : (afterSlices (fun request => if request = 0 then "A" else "B") (fun _ => 2)
      (ofSource ",[>]" ⟨true, Delay.none⟩) 6).event = .halted "" := by decide +kernel
  obtain ⟨hRuns, -⟩ := runs_one_after_the_other ",[>]" "<,]" ⟨true, Delay.none⟩
    (fun request => if request = 0 then "A" else "B") (fun _ => 2) (fun _ => 3) (fun _ => 1)
    hBalanced (fun _ => Nat.zero_lt_two) (fun _ => Nat.zero_lt_succ 2) (fun _ => Nat.zero_lt_one)
  obtain ⟨-, -, hEnds, hAlike⟩ := hRuns 6 "" hHalted
  let done := afterSlices (fun request => if request = 0 then "A" else "B") (fun _ => 2)
    (ofSource ",[>]" ⟨true, Delay.none⟩) 6
  let rest := afterSlices (fun request => if done.requests + request = 0 then "A" else "B")
    (fun _ => 1)
    (resumedOn (Program.ofString "<,]") ⟨true, Delay.none⟩ done.machine.tape "") 5
  have hStray : rest.event = .faulted ⟨.stackUnderflow, some 2, ""⟩ := by decide +kernel
  have hRequests : done.requests + rest.requests = 2 := by decide +kernel
  have hFinal : isFinal rest.event = true := congrArg isFinal hStray
  obtain ⟨others, hOthers⟩ := hEnds.2 ⟨5, hFinal⟩
  obtain ⟨hEvent, hCount, -⟩ := hAlike others 5 hOthers hFinal
  refine ⟨hBalanced, hHalted, others, hEvent.trans ?_, hCount.trans hRequests⟩
  exact congrArg (Event.renumber (· + 4)) hStray

end Attendance

end ByteTape
