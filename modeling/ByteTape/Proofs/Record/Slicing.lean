import ByteTape.Proofs.Record.Completion
import Mathlib.Algebra.GroupWithZero.Nat

/-!
# Budgets add up

Running for some instructions and then for some more is running for all of them at once: the machine
comes out the same in every part, the same event is told, and the entries written into the journal
in the two slices make up those of the one. A slice begins no more instructions than its budget
allows, and tells that its budget is used up only if it has begun exactly so many.
-/

namespace ByteTape

namespace Machine

/-- The entries of a journal that an earlier machine has not written, oldest first. -/
def entriesSince (earlier later : Machine) : List Journal.Entry :=
  later.journal.toList.drop earlier.journal.size

/-- A completed instruction only adds to the journal. -/
theorem journal_prefix_retire (machine : Machine) (instruction : Instruction) (next : Nat) :
    machine.journal.toList <+: (machine.retire instruction next).journal.toList := by
  rw [journal_retire]
  split
  · rw [Array.toList_push]
    exact List.prefix_append _ _
  · exact List.prefix_refl _

/-- A step only adds to the journal. -/
theorem Performed.journal_grows {machine after : Machine} {more : List Instruction}
    (h : machine.Performed after more) : machine.journal.toList <+: after.journal.toList := by
  cases h with
  | ended hEnd => exact List.prefix_refl _
  | @completed performed instruction next hStatus hPacing hExecuted hJournal =>
    have hRetired := journal_prefix_retire performed instruction next
    rcases hJournal with hSame | ⟨opening, closing, hSkipped⟩
    · rw [← hSame]
      exact hRetired
    · rw [hSkipped, Array.toList_push] at hRetired
      exact (List.prefix_append _ _).trans hRetired
  | waits => exact List.prefix_refl _
  | fails fault hCause =>
    simp only [fail, note, Array.toList_push]
    exact List.prefix_append _ _

/-- Running only adds to the journal. -/
theorem journal_prefix_execute (machine : Machine) (cycles : Nat) :
    machine.journal.toList <+: (machine.execute cycles).2.journal.toList := by
  refine execute_invariant (P := fun after => machine.journal.toList <+: after.journal.toList)
    ?_ ?_ (List.prefix_refl _) cycles
  · intro after hAfter hRunning hEnd
    simp only [halt, note, Array.toList_push]
    exact hAfter.trans (List.prefix_append _ _)
  · intro after hAfter hRunning hInside
    exact hAfter.trans (performed_step after).journal_grows

/-- Entries written one slice after another make up those written in both. -/
theorem entriesSince_append {first second third : Machine}
    (hFirst : first.journal.toList <+: second.journal.toList)
    (hSecond : second.journal.toList <+: third.journal.toList) :
    first.entriesSince third = first.entriesSince second ++ second.entriesSince third := by
  obtain ⟨early, hEarly⟩ := hFirst
  obtain ⟨late, hLate⟩ := hSecond
  have hLength := congrArg List.length hEarly
  rw [List.length_append] at hLength
  simp only [entriesSince, ← hLate, ← hEarly, ← Array.length_toList]
  rw [List.append_assoc, List.drop_left, List.drop_left, ← List.append_assoc, List.drop_left]

/-- A slice after a slice is one slice with both budgets. -/
theorem execute_execute (machine : Machine) (first second : Nat) :
    (machine.execute first).2.execute second = machine.execute (first + second) := by
  induction first generalizing machine with
  | zero =>
    rw [Nat.zero_add]
    exact execute_settle machine second
  | succ first ih =>
    have hBudget : first + 1 + second = first + second + 1 := by omega
    by_cases hRunning : machine.settle.status = .running
    · rw [hBudget, execute, execute, hRunning]
      exact ih machine.settle.step
    · -- What stands still after the first slice is not moved by the second.
      have hFirst := execute_of_status_ne_running hRunning (first + 1)
      have hSecond := execute_of_status_ne_running hRunning second
      have hBoth := execute_of_status_ne_running hRunning (first + 1 + second)
      rw [execute_settle] at hFirst hBoth
      rw [hFirst, hBoth]
      exact hSecond

/-- Slices one after another are one slice with all their budgets. -/
theorem execute_afterCalls (machine : Machine) (slices : List Nat) (last : Nat) :
    (machine.afterCalls (slices.map .execute)).execute last =
      machine.execute (slices.sum + last) := by
  induction slices generalizing machine with
  | nil =>
    rw [List.sum_nil, Nat.zero_add]
    rfl
  | cons slice slices ih =>
    have hRest := ih (machine.execute slice).2
    rw [execute_execute, ← Nat.add_assoc] at hRest
    rw [List.sum_cons]
    exact hRest

/-- A slice begins no more instructions than its budget allows, and as many if the machine still
runs. -/
theorem executed_execute (machine : Machine) (cycles : Nat) :
    (machine.execute cycles).2.executed ≤ machine.executed + cycles ∧
      ((machine.execute cycles).2.status = .running →
        (machine.execute cycles).2.executed = machine.executed + cycles) := by
  have hSettled : machine.settle.executed = machine.executed :=
    congrArg Core.executed (core_settle machine)
  induction cycles generalizing machine with
  | zero =>
    rw [execute, Nat.add_zero]
    exact ⟨Nat.le_of_eq hSettled, fun _ => hSettled⟩
  | succ cycles ih =>
    by_cases hRunning : machine.settle.status = .running
    · have hInside := position_lt_of_settle hRunning
      have hBegun := executed_step hRunning hInside
      have hRest := ih machine.settle.step (congrArg Core.executed (core_settle _))
      rw [execute, hRunning]
      dsimp only
      refine ⟨by omega, fun hStill => ?_⟩
      have hCount := hRest.2 hStill
      omega
    · have hStill := execute_of_status_ne_running hRunning (cycles + 1)
      rw [execute_settle] at hStill
      rw [hStill]
      exact ⟨Nat.le_add_right_of_le (Nat.le_of_eq hSettled), fun hEvent => absurd hEvent hRunning⟩

/-- Running adds to the journal what it writes. -/
theorem journal_append_entriesSince (machine : Machine) (cycles : Nat) :
    machine.journal.toList ++ machine.entriesSince (machine.execute cycles).2 =
      (machine.execute cycles).2.journal.toList := by
  obtain ⟨entries, hEntries⟩ := journal_prefix_execute machine cycles
  rw [entriesSince, ← hEntries, ← Array.length_toList, List.drop_left]

/-- Only a machine that can go on tells that its budget is used up. -/
theorem status_of_event_running {machine : Machine} (h : machine.event = .running) :
    machine.status = .running := by
  cases hStatus : machine.status <;> simp [event, hStatus] at h
  rfl

/-- Budgets add up, whatever the machine. A slice after a slice leaves the machine in the state, tells
the event and writes the entries of one slice with both budgets, and so do slices in any number, with
or without a budget. A slice begins at most as many instructions as its budget allows, and tells that
its budget is used up only if it has begun exactly so many. -/
theorem slices_add_up (machine : Machine) :
    (∀ first second,
      let between := (machine.execute first).2
      let after := (between.execute second).2
      between.execute second = machine.execute (first + second) ∧
        machine.entriesSince between ++ between.entriesSince after =
          machine.entriesSince (machine.execute (first + second)).2) ∧
      (∀ cycles,
        let after := (machine.execute cycles).2
        machine.journal.toList ++ machine.entriesSince after = after.journal.toList ∧
          after.executed ≤ machine.executed + cycles ∧
          ((machine.execute cycles).1 = .running →
            after.executed = machine.executed + cycles)) ∧
      ∀ (slices : List Nat) (last : Nat),
        (machine.afterCalls (slices.map .execute)).execute last =
          machine.execute (slices.sum + last) := by
  refine ⟨?_, ?_, execute_afterCalls machine⟩
  · intro first second between after
    have hBoth := execute_execute machine first second
    refine ⟨hBoth, ?_⟩
    rw [← hBoth]
    exact (entriesSince_append (journal_prefix_execute machine first)
      (journal_prefix_execute between second)).symm
  · intro cycles after
    have hCount := executed_execute machine cycles
    refine ⟨journal_append_entriesSince machine cycles, hCount.1, ?_⟩
    intro hEvent
    rw [execute_fst] at hEvent
    exact hCount.2 (status_of_event_running hEvent)

/-- A machine that passes over a loop in its first slice and pauses in its second has written both
entries, as if it had run in one slice. -/
theorem slices_add_up_paused :
    let machine := ofSource "[-]+^" .plain
    let between := (machine.execute 2).2
    (machine.execute 2).1 = .running ∧ between.executed = machine.executed + 2 ∧
      machine.entriesSince (machine.execute (2 + 4)).2 =
        [.loopSkipped 0 2] ++ [.paused .breakpoint 5] := by
  intro machine between
  have hSlices := slices_add_up machine
  have hRunning : (machine.execute 2).1 = .running := by decide +kernel
  have hFirst : machine.entriesSince between = [.loopSkipped 0 2] := by decide +kernel
  have hSecond : between.entriesSince (between.execute 4).2 = [.paused .breakpoint 5] := by
    decide +kernel
  refine ⟨hRunning, (hSlices.2.1 2).2.2 hRunning, ?_⟩
  rw [← (hSlices.1 2 4).2, ← hFirst, ← hSecond]

end Machine

end ByteTape
