import ByteTape.Proofs.Record.Completion
import Mathlib.Data.List.Induction

/-!
# A run ends once, and its journal says so

The journal of a machine is compared with what has happened to it. The end of a run is told by one
entry, written when the machine comes to it, and there is no such entry before. A pause is told after
each completed instruction that the pacing pauses after. The count of instructions begun, which goes
into the last entry, is the number of instructions completed, and one more where an instruction was
begun and not completed: one that failed, or a request that was cancelled. A machine that has ended
ignores every call.
-/

namespace ByteTape

namespace Journal.Entry

/-- Whether an entry tells the end of a run. -/
def endsRun : Journal.Entry → Bool
  | .halted _ _ => true
  | .faulted _ _ => true
  | _ => false

/-- The instruction that a pause is told after. -/
def pausedAfter? : Journal.Entry → Option Instruction
  | .paused instruction _ => some instruction
  | _ => none

end Journal.Entry

namespace Pacing

/-- Whether a run pauses after an instruction: after every breakpoint, and after everything that has
an effect if the run is stepped or delayed. -/
def pausesAfter (pacing : Pacing) (instruction : Instruction) : Bool :=
  instruction = .breakpoint ||
    (instruction.isEffectful && (pacing.step || pacing.delay != Delay.none))

/-- There is a pause after exactly these instructions. -/
theorem isSome_pauseAfter (pacing : Pacing) (instruction : Instruction) :
    (pacing.pauseAfter instruction).isSome = pacing.pausesAfter instruction := by
  by_cases hBreak : instruction = .breakpoint
  · simp [pauseAfter, pausesAfter, hBreak]
  · by_cases hPause : (instruction.isEffectful && pacing.pauses) = true
    · have hPauses : (instruction.isEffectful &&
          (pacing.step || pacing.delay != Delay.none)) = true := hPause
      simp [pauseAfter, pausesAfter, hBreak, hPause, hPauses]
    · have hPauses : (instruction.isEffectful &&
          (pacing.step || pacing.delay != Delay.none)) = false := Bool.eq_false_iff.2 hPause
      simp [pauseAfter, pausesAfter, hBreak, hPause, hPauses]

end Pacing

namespace Machine

/-- A call does not fit the status of a machine. -/
def Ignores (machine : Machine) : Call → Prop
  | .execute _ => machine.status ≠ .running
  | .enter _ => machine.status ≠ .awaitingInput
  | .resume => ∀ inspection, machine.status ≠ .paused inspection
  | .interrupt => machine.Ended

/-- The entry that a call leaves on a machine that ignores it, if it brings a line. -/
def loggedIfStray? : Call → Option Journal.Entry
  | .enter line => some (.strayInput line)
  | _ => none

/-- A call that is ignored changes nothing but the journal, where a line is noted. -/
theorem call_of_ignores {machine : Machine} {call : Call} (h : machine.Ignores call) :
    (machine.call call).2 =
      { machine with journal := machine.journal ++ (loggedIfStray? call).toList.toArray } := by
  cases call with
  | execute cycles =>
    have hStill := execute_of_status_ne_running h cycles
    simp [call, hStill, loggedIfStray?]
  | enter line =>
    have hEnter : machine.enter line = machine.note (.strayInput line) := by
      unfold enter
      split
      · contradiction
      · rfl
    simp [call, hEnter, note, loggedIfStray?]
  | resume =>
    have hResume := resume_of_not_paused machine h
    simp [call, hResume, loggedIfStray?]
  | interrupt =>
    have hInterrupt := interrupt_of_ended h
    simp [call, hInterrupt, loggedIfStray?]

/-- Calls that are ignored change nothing but the journal, where their lines are noted. -/
theorem afterCalls_of_ignores {machine : Machine} {calls : List Call}
    (h : ∀ call ∈ calls, machine.Ignores call) :
    machine.afterCalls calls =
      { machine with journal := machine.journal ++ (calls.filterMap loggedIfStray?).toArray } := by
  induction calls using List.reverseRecOn with
  | nil => simp [afterCalls]
  | append_singleton calls call ih =>
    have hBefore := ih fun earlier hEarlier => h earlier (by simp [hEarlier])
    have hLast : (machine.afterCalls calls).Ignores call := by
      have hCall := h call (by simp)
      rw [hBefore]
      cases call <;> exact hCall
    rw [afterCalls_append_singleton, call_of_ignores hLast, hBefore]
    cases hEntry : loggedIfStray? call <;> simp [hEntry]

/-- A machine that has ended ignores every call. -/
theorem Ended.ignores {machine : Machine} (h : machine.Ended) (call : Call) :
    machine.Ignores call := by
  cases call <;> rcases h with hHalted | ⟨fault, hFaulted⟩ <;> simp_all [Ignores, Ended]

/-- Whether one of the calls cancels the run while the machine waits for a line. -/
def cutsRequest (machine : Machine) : List Call → Bool
  | [] => false
  | call :: calls =>
    (machine.status = .awaitingInput && call = .interrupt) ||
      (machine.call call).2.cutsRequest calls

/-- A request is cut off by the calls made so far or by the last one. -/
theorem cutsRequest_append_singleton (machine : Machine) (calls : List Call) (call : Call) :
    machine.cutsRequest (calls ++ [call]) =
      (machine.cutsRequest calls ||
        ((machine.afterCalls calls).status = .awaitingInput && call = .interrupt)) := by
  induction calls generalizing machine with
  | nil =>
    rw [List.nil_append, cutsRequest, cutsRequest, cutsRequest, Bool.or_false, Bool.false_or]
    rfl
  | cons first calls ih =>
    have hRest := ih (machine.call first).2
    rw [List.cons_append, cutsRequest, hRest, cutsRequest, Bool.or_assoc]
    rfl

/-- The entries that tell the end of a run which has ended as a machine has. -/
def endings (machine : Machine) : List Journal.Entry :=
  match machine.status with
  | .halted => [.halted machine.executed machine.output.utf8ByteSize]
  | .faulted fault => [.faulted fault machine.executed]
  | _ => []

/-- The number of instructions begun and not completed: a request that waits, an instruction that
failed, and a request that was cut off by a cancellation. -/
def unfinished (machine : Machine) (cut : Bool) : Nat :=
  match machine.status with
  | .awaitingInput => 1
  | .faulted fault => if fault.cause ≠ .interrupted ∨ cut = true then 1 else 0
  | _ => 0

/-- What a machine has on record is what has happened to it. -/
structure Chronicles (machine : Machine) (done : List Instruction) (cut : Bool) : Prop where
  /-- The instruction kept as the last one is the last one completed. -/
  last_eq : machine.last = done.getLast?
  /-- The end of the run is told once, if it has come, and not before. -/
  endings_eq : machine.journal.toList.filter Journal.Entry.endsRun = machine.endings
  /-- A pause is told after each completed instruction that is paused after. -/
  pauses_eq : machine.journal.toList.filterMap Journal.Entry.pausedAfter? =
    done.filter machine.pacing.pausesAfter
  /-- The instructions begun are those completed and the one that is not. -/
  executed_eq : machine.executed = done.length + machine.unfinished cut
  /-- A request that was cut off has ended the run. -/
  cut_faulted : cut = true → ∃ fault, machine.status = .faulted fault

/-- A machine that is not standing still has no instruction begun, and nothing ended. -/
theorem endings_of_live {machine : Machine} (h : machine.Live) (cut : Bool) :
    machine.endings = [] ∧ machine.unfinished cut = 0 := by
  rcases h with hRunning | ⟨inspection, hPaused⟩
  · simp [endings, unfinished, hRunning]
  · simp [endings, unfinished, hPaused]

/-- A fresh machine has nothing on record. -/
theorem chronicles_load (program : Program) (pacing : Pacing) :
    (load program pacing).Chronicles [] false :=
  ⟨rfl, rfl, rfl, rfl, by simp⟩

/-- Completing the instruction that was begun last puts it on record. -/
theorem chronicles_retire {machine : Machine} {done : List Instruction}
    (hRunning : machine.status = .running)
    (hEndings : machine.journal.toList.filter Journal.Entry.endsRun = [])
    (hPauses : machine.journal.toList.filterMap Journal.Entry.pausedAfter? =
      done.filter machine.pacing.pausesAfter)
    (hExecuted : machine.executed = done.length + 1) (instruction : Instruction) (next : Nat) :
    (machine.retire instruction next).Chronicles (done ++ [instruction]) false := by
  have hCore := core_retire machine instruction next
  have hLast : (machine.retire instruction next).last = some instruction :=
    congrArg Core.last hCore
  have hCount : (machine.retire instruction next).executed = machine.executed :=
    congrArg Core.executed hCore
  have hLive := endings_of_live (live_retire hRunning instruction next) false
  have hJournal := journal_retire machine instruction next
  rw [Pacing.isSome_pauseAfter] at hJournal
  constructor
  · rw [hLast, List.getLast?_concat]
  · rw [hLive.1, hJournal]
    split
    · rw [Array.toList_push, List.filter_append, hEndings]
      rfl
    · exact hEndings
  · rw [hJournal, pacing_retire, List.filter_append, ← hPauses]
    by_cases hPause : machine.pacing.pausesAfter instruction = true
    · rw [if_pos hPause, Array.toList_push, List.filterMap_append, List.filter_cons_of_pos hPause]
      rfl
    · rw [if_neg hPause, List.filter_cons_of_neg hPause]
      exact (List.append_nil _).symm
  · rw [hCount, hLive.2, hExecuted, List.length_append, List.length_singleton]
  · intro hCut
    contradiction

/-- A machine that runs has had no request cut off. -/
theorem Chronicles.cut_eq_false {machine : Machine} {done : List Instruction} {cut : Bool}
    (h : machine.Chronicles done cut) (hStatus : ∀ fault, machine.status ≠ .faulted fault) :
    cut = false := by
  cases cut with
  | false => rfl
  | true =>
    obtain ⟨fault, hFaulted⟩ := h.cut_faulted rfl
    exact absurd hFaulted (hStatus fault)

/-- A step keeps the record. -/
theorem Chronicles.step {machine after : Machine} {done more : List Instruction} {cut : Bool}
    (h : machine.Chronicles done cut) (hRunning : machine.status = .running)
    (hPerformed : machine.Performed after more) : after.Chronicles (done ++ more) cut := by
  have hCut : cut = false := h.cut_eq_false (by simp [hRunning])
  subst hCut
  have hLive := endings_of_live (.inl hRunning) false
  have hEndings := h.endings_eq
  have hExecuted := h.executed_eq
  rw [hLive.1] at hEndings
  rw [hLive.2] at hExecuted
  cases hPerformed with
  | ended hEnd =>
    rw [List.append_nil]
    exact h
  | @completed performed instruction next hStatus hPacing hCount hJournal =>
    have hPauses := h.pauses_eq
    refine chronicles_retire (hStatus.trans hRunning) ?_ ?_ (by omega) instruction next
    · rcases hJournal with hSame | ⟨opening, closing, hSkipped⟩
      · rw [hSame, hEndings]
      · rw [hSkipped, Array.toList_push, List.filter_append, hEndings]
        rfl
    · rw [hPacing, ← hPauses]
      rcases hJournal with hSame | ⟨opening, closing, hSkipped⟩
      · rw [hSame]
      · rw [hSkipped, Array.toList_push, List.filterMap_append]
        exact List.append_nil _
  | waits =>
    rw [List.append_nil]
    refine ⟨h.last_eq, hEndings, h.pauses_eq, ?_, by simp⟩
    simp [unfinished, hExecuted]
  | fails fault hCause =>
    rw [List.append_nil]
    refine ⟨h.last_eq, ?_, ?_, ?_, by simp⟩
    · simp only [fail, note, Array.toList_push, List.filter_append, hEndings]
      rfl
    · simp only [fail, note, Array.toList_push, List.filterMap_append, h.pauses_eq]
      exact List.append_nil _
    · simp [fail, note, unfinished, hCause, hExecuted]

/-- Halting tells the end of the run. -/
theorem Chronicles.halt {machine : Machine} {done : List Instruction} {cut : Bool}
    (h : machine.Chronicles done cut) (hRunning : machine.status = .running) :
    machine.halt.Chronicles done cut := by
  have hCut : cut = false := h.cut_eq_false (by simp [hRunning])
  subst hCut
  have hLive := endings_of_live (.inl hRunning) false
  have hEndings := h.endings_eq
  have hExecuted := h.executed_eq
  rw [hLive.1] at hEndings
  rw [hLive.2] at hExecuted
  refine ⟨h.last_eq, ?_, ?_, hExecuted, by simp⟩
  · simp only [Machine.halt, note, Array.toList_push, List.filter_append, hEndings]
    rfl
  · simp only [Machine.halt, note, Array.toList_push, List.filterMap_append, h.pauses_eq]
    exact List.append_nil _

/-- Running keeps the record, with the instructions it completes. -/
theorem Chronicles.execute {machine : Machine} {done : List Instruction} {cut : Bool}
    (h : machine.Chronicles done cut) (cycles : Nat) :
    (machine.execute cycles).2.Chronicles (done ++ machine.completedInCycles cycles) cut := by
  refine execute_record (P := fun machine done => machine.Chronicles done cut) ?_ ?_ h cycles
  · intro machine done hMachine hRunning
    exact hMachine.halt hRunning
  · intro machine done after more hMachine hRunning hPerformed
    exact hMachine.step hRunning hPerformed

/-- A line keeps the record: it completes the request, or is noted as stray. -/
theorem Chronicles.enter {machine : Machine} {done : List Instruction} {cut : Bool}
    (h : machine.Chronicles done cut) (line : String) :
    (machine.enter line).Chronicles (done ++ machine.completedBy (.enter line)) cut := by
  by_cases hStatus : machine.status = .awaitingInput
  · have hCut : cut = false := h.cut_eq_false (by simp [hStatus])
    have hEndings : machine.journal.toList.filter Journal.Entry.endsRun = [] := by
      rw [h.endings_eq, endings, hStatus]
    have hExecuted : machine.executed = done.length + 1 := by
      rw [h.executed_eq, unfinished, hStatus]
    rw [hCut, enter_eq_retire line hStatus, completedBy, if_pos hStatus]
    apply chronicles_retire
    · rfl
    · exact hEndings
    · exact h.pauses_eq
    · exact hExecuted
  · have hIgnores : machine.Ignores (.enter line) := hStatus
    have hNoted : machine.enter line =
        { machine with journal := machine.journal ++ #[.strayInput line] } :=
      call_of_ignores hIgnores
    rw [hNoted, completedBy, if_neg hStatus, List.append_nil]
    refine ⟨h.last_eq, ?_, ?_, h.executed_eq, h.cut_faulted⟩
    · rw [Array.toList_append, List.filter_append, h.endings_eq]
      exact List.append_nil _
    · rw [Array.toList_append, List.filterMap_append, h.pauses_eq]
      exact List.append_nil _

/-- Ending a pause keeps the record. -/
theorem Chronicles.resume {machine : Machine} {done : List Instruction} {cut : Bool}
    (h : machine.Chronicles done cut) : machine.resume.Chronicles done cut := by
  cases hStatus : machine.status with
  | paused inspection =>
    have hCut : cut = false := h.cut_eq_false (by simp [hStatus])
    have hResume : machine.resume = { machine with status := .running } := by
      simp [Machine.resume, hStatus]
    have hEndings := h.endings_eq
    have hExecuted := h.executed_eq
    rw [endings, hStatus] at hEndings
    rw [unfinished, hStatus] at hExecuted
    rw [hResume, hCut]
    exact ⟨h.last_eq, hEndings, h.pauses_eq, hExecuted, by simp⟩
  | _ =>
    rw [resume_of_not_paused machine (by simp [hStatus])]
    exact h

/-- Cancelling keeps the record: it ends a run once, and cuts off the request that waits. -/
theorem Chronicles.interrupt {machine : Machine} {done : List Instruction} {cut : Bool}
    (h : machine.Chronicles done cut) :
    machine.interrupt.Chronicles done (cut || (machine.status = .awaitingInput : Bool)) := by
  by_cases hEnded : machine.Ended
  · have hStatus : machine.status ≠ .awaitingInput := hEnded.ignores (.enter "")
    rw [interrupt_of_ended hEnded, decide_eq_false hStatus, Bool.or_false]
    exact h
  · have hCut : cut = false := h.cut_eq_false (fun fault hFaulted => hEnded (.inr ⟨fault, hFaulted⟩))
    have hEndings : machine.journal.toList.filter Journal.Entry.endsRun = [] := by
      rw [h.endings_eq, endings]
      split
      · rename_i hHalted
        exact absurd (.inl hHalted) hEnded
      · rename_i fault hFaulted
        exact absurd (.inr ⟨fault, hFaulted⟩) hEnded
      · rfl
    rw [interrupt_of_not_ended hEnded, hCut, Bool.false_or]
    refine ⟨h.last_eq, ?_, ?_, ?_, fun _ => ⟨_, rfl⟩⟩
    · simp only [fail, note, Array.toList_push, List.filter_append, hEndings]
      rfl
    · simp only [fail, note, Array.toList_push, List.filterMap_append, h.pauses_eq]
      exact List.append_nil _
    · -- The request that waits is the only instruction begun and not completed.
      have hExecuted := h.executed_eq
      rw [hCut] at hExecuted
      cases hStatus : machine.status with
      | halted => exact absurd (.inl hStatus) hEnded
      | faulted fault => exact absurd (.inr ⟨fault, hStatus⟩) hEnded
      | _ => simpa [unfinished, hStatus, fail, note, interruption, Fault.placed, Fault.ofCause]
          using hExecuted

/-- Every call keeps the record. -/
theorem Chronicles.call {machine : Machine} {done : List Instruction} {cut : Bool}
    (h : machine.Chronicles done cut) (call : Call) :
    (machine.call call).2.Chronicles (done ++ machine.completedBy call)
      (cut || (machine.status = .awaitingInput && call = .interrupt)) := by
  cases call with
  | execute cycles => simpa [Machine.call, completedBy] using h.execute cycles
  | enter line => simpa [Machine.call] using h.enter line
  | resume => simpa [Machine.call, completedBy] using h.resume
  | interrupt => simpa [Machine.call, completedBy] using h.interrupt

/-- Whatever is called on a fresh machine, what it has on record is what has happened to it. -/
theorem chronicles_afterCalls (program : Program) (pacing : Pacing) (calls : List Call) :
    ((load program pacing).afterCalls calls).Chronicles ((load program pacing).completed calls)
      ((load program pacing).cutsRequest calls) := by
  induction calls using List.reverseRecOn with
  | nil => exact chronicles_load program pacing
  | append_singleton calls call ih =>
    have hCompleted := completed_append (load program pacing) calls [call]
    rw [completed, completed, List.append_nil] at hCompleted
    rw [afterCalls_append_singleton, hCompleted, cutsRequest_append_singleton]
    exact ih.call call

/-- Running leaves the pacing alone. -/
theorem pacing_execute (machine : Machine) (cycles : Nat) :
    (machine.execute cycles).2.pacing = machine.pacing := by
  refine execute_invariant (P := fun after => after.pacing = machine.pacing) ?_ ?_ rfl cycles
  · intro after hAfter hRunning hEnd
    exact hAfter
  · intro after hAfter hRunning hInside
    exact (pacing_step after).trans hAfter

/-- No call changes the pacing. -/
theorem pacing_call (machine : Machine) (call : Call) :
    (machine.call call).2.pacing = machine.pacing := by
  cases call with
  | execute cycles => exact pacing_execute machine cycles
  | enter line => exact pacing_enter machine line
  | resume => exact pacing_resume machine
  | interrupt =>
    unfold call interrupt
    dsimp only
    split <;> rfl

/-- No sequence of calls changes the pacing. -/
theorem pacing_afterCalls (machine : Machine) (calls : List Call) :
    (machine.afterCalls calls).pacing = machine.pacing := by
  induction calls generalizing machine with
  | nil => rfl
  | cons call calls ih => exact (ih (machine.call call).2).trans (pacing_call machine call)

/-- The journal tells the end of a run exactly as the machine has ended. -/
theorem Chronicles.mem_journal_iff {machine : Machine} {done : List Instruction} {cut : Bool}
    (h : machine.Chronicles done cut) {entry : Journal.Entry} (hEnds : entry.endsRun = true) :
    entry ∈ machine.journal ↔ entry ∈ machine.endings := by
  rw [← h.endings_eq, List.mem_filter, Array.mem_toList_iff]
  exact (and_iff_left hEnds).symm

/-- The journal tells that a machine has halted exactly if it has, with its counts. -/
theorem Chronicles.mem_halted_iff {machine : Machine} {done : List Instruction} {cut : Bool}
    (h : machine.Chronicles done cut) (executed bytes : Nat) :
    Journal.Entry.halted executed bytes ∈ machine.journal ↔
      machine.status = .halted ∧ executed = done.length ∧
        bytes = machine.output.utf8ByteSize := by
  have hExecuted := h.executed_eq
  rw [h.mem_journal_iff rfl]
  cases hStatus : machine.status with
  | halted =>
    rw [unfinished, hStatus] at hExecuted
    simp [endings, hStatus, hExecuted]
  | _ => simp [endings, hStatus]

/-- The journal tells that a machine has failed exactly if it has, with its count. -/
theorem Chronicles.mem_faulted_iff {machine : Machine} {done : List Instruction} {cut : Bool}
    (h : machine.Chronicles done cut) (fault : Fault) (executed : Nat) :
    Journal.Entry.faulted fault executed ∈ machine.journal ↔
      machine.status = .faulted fault ∧
        executed = done.length + if fault.cause ≠ .interrupted ∨ cut = true then 1 else 0 := by
  have hExecuted := h.executed_eq
  rw [h.mem_journal_iff rfl]
  cases hStatus : machine.status with
  | faulted found =>
    rw [unfinished, hStatus] at hExecuted
    simp only [endings, hStatus, hExecuted, List.mem_singleton, Journal.Entry.faulted.injEq,
      Status.faulted.injEq]
    constructor
    · rintro ⟨rfl, rfl⟩
      exact ⟨rfl, rfl⟩
    · rintro ⟨rfl, rfl⟩
      exact ⟨rfl, rfl⟩
  | _ => simp [endings, hStatus]

/-- The journal tells the end of a run at most once. -/
theorem Chronicles.length_endings_le {machine : Machine} {done : List Instruction} {cut : Bool}
    (h : machine.Chronicles done cut) :
    (machine.journal.toList.filter Journal.Entry.endsRun).length ≤ 1 := by
  rw [h.endings_eq, endings]
  split <;> simp

/-- A run ends once and stays ended, and its journal says so. The journal tells a halt or a fault
exactly if the machine has halted or failed, and never a second end; a halt with the number of
instructions completed and the size of the output, a fault with that number, and one more if an
instruction failed or a request was cut off; and a pause after each completed instruction that is
paused after. A machine that has ended ignores every call: it tells the same event again, and only
lines nobody asked for are noted. -/
theorem ends_once (source : String) (pacing : Pacing) (calls : List Call) :
    let fresh := ofSource source pacing
    let machine := fresh.afterCalls calls
    let done := fresh.completed calls
    ((∃ executed bytes, .halted executed bytes ∈ machine.journal) ↔ machine.status = .halted) ∧
      ((∃ fault executed, .faulted fault executed ∈ machine.journal) ↔
        ∃ fault, machine.status = .faulted fault) ∧
      (machine.journal.toList.filter Journal.Entry.endsRun).length ≤ 1 ∧
      (∀ executed bytes, .halted executed bytes ∈ machine.journal →
        executed = done.length ∧ bytes = machine.output.utf8ByteSize) ∧
      (∀ fault executed, .faulted fault executed ∈ machine.journal →
        machine.status = .faulted fault ∧
          executed = done.length +
            if fault.cause ≠ .interrupted ∨ fresh.cutsRequest calls = true then 1 else 0) ∧
      machine.journal.toList.filterMap Journal.Entry.pausedAfter? =
        done.filter pacing.pausesAfter ∧
      (machine.Ended → ∀ later,
        let after := machine.afterCalls later
        after.forgetJournal = machine.forgetJournal ∧
          after.journal.toList = machine.journal.toList ++ later.filterMap loggedIfStray? ∧
          ∀ cycles, after.execute cycles = (machine.event, after)) := by
  intro fresh machine done
  have hChronicles : machine.Chronicles done (fresh.cutsRequest calls) :=
    chronicles_afterCalls (Program.ofString source) pacing calls
  have hPacing : machine.pacing = pacing := pacing_afterCalls fresh calls
  refine ⟨?_, ?_, hChronicles.length_endings_le, ?_, ?_, ?_, ?_⟩
  · simp only [hChronicles.mem_halted_iff]
    simp
  · simp only [hChronicles.mem_faulted_iff]
    simp
  · intro executed bytes hEntry
    exact ((hChronicles.mem_halted_iff executed bytes).1 hEntry).2
  · intro fault executed hEntry
    exact (hChronicles.mem_faulted_iff fault executed).1 hEntry
  · rw [← hPacing]
    exact hChronicles.pauses_eq
  · intro hEnded later after
    have hAfter : after =
        { machine with journal := machine.journal ++ (later.filterMap loggedIfStray?).toArray } :=
      afterCalls_of_ignores fun call _ => hEnded.ignores call
    refine ⟨?_, ?_, ?_⟩
    · rw [hAfter]
      rfl
    · rw [hAfter, Array.toList_append]
    · intro cycles
      have hStill : after.status ≠ .running := by
        rw [hAfter]
        exact hEnded.ignores (.execute cycles)
      rw [execute_of_status_ne_running hStill, hAfter]
      rfl

/-- A run that pauses at a breakpoint and is cancelled at a request has completed one instruction and
begun two; a line and a slice that come too late change nothing. -/
theorem ends_once_cancelled :
    ((ofSource "^," .plain).afterCalls [.execute 9, .resume, .execute 9, .interrupt]).status =
        .faulted ⟨.interrupted, some 1, ""⟩ ∧
      2 = ((ofSource "^," .plain).completed
        [.execute 9, .resume, .execute 9, .interrupt]).length + 1 ∧
      (((ofSource "^," .plain).afterCalls [.execute 9, .resume, .execute 9, .interrupt]).afterCalls
          [.enter "A", .execute 4]).journal.toList =
        ((ofSource "^," .plain).afterCalls
          [.execute 9, .resume, .execute 9, .interrupt]).journal.toList ++ [.strayInput "A"] := by
  have hEntry : Journal.Entry.faulted ⟨.interrupted, some 1, ""⟩ 2 ∈
      ((ofSource "^," .plain).afterCalls
        [.execute 9, .resume, .execute 9, .interrupt]).journal := by decide +kernel
  have hCut : (ofSource "^," .plain).cutsRequest
      [.execute 9, .resume, .execute 9, .interrupt] = true := by decide +kernel
  obtain ⟨-, -, -, -, hFaulted, -, hEnded⟩ :=
    ends_once "^," .plain [.execute 9, .resume, .execute 9, .interrupt]
  obtain ⟨hStatus, hCount⟩ := hFaulted _ _ hEntry
  rw [if_pos (.inr hCut)] at hCount
  have hLater := hEnded (.inr ⟨_, hStatus⟩) [.enter "A", .execute 4]
  exact ⟨hStatus, hCount, hLater.2.1⟩

end Machine

end ByteTape
