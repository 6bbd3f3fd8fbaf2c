import ByteTape.Proofs.Core.Run

/-!
# Schedules and pacings do not matter

Two machines run the same program under different pacings, in slices of different sizes, with
resumptions and lines nobody asked for. Both present the one run that the accepted lines determine,
so if both have ended they ended in the same core, in the same way.
-/

namespace ByteTape

namespace Machine

open ByteTape.Core

/-- How a machine has ended is told by the turn its core does not take. -/
theorem Presents.of_ended {machine : Machine} {core : Core} (h : machine.Presents core)
    (hEnded : machine.Ended) :
    (core.turn = .ends ∧ machine.status = .halted ∧ machine.core = core) ∨
      ∃ fault, core.turn = .fails fault ∧ machine.status = .faulted fault ∧
        machine.core = core.begun := by
  rcases hEnded with hHalted | ⟨fault, hFaulted⟩
  · have hCore := h.of_halted hHalted
    exact .inl ⟨hCore.2, hHalted, hCore.1⟩
  · have hCore := h.of_faulted hFaulted
    exact .inr ⟨fault, hCore.2, hFaulted, hCore.1⟩

/-- A machine that has ended presents a core that takes no further turn. -/
theorem Presents.stuck_of_ended {machine : Machine} {core : Core} (h : machine.Presents core)
    (hEnded : machine.Ended) : core.Stuck := by
  rcases h.of_ended hEnded with ⟨hEnds, -, -⟩ | ⟨fault, hFails, -, -⟩
  · exact .inl hEnds
  · exact .inr ⟨fault, hFails⟩

/-- Two machines that have ended and present one core agree in core and event. -/
theorem Presents.same_of_ended {first second : Machine} {core : Core} (hFirst : first.Presents core)
    (hSecond : second.Presents core) (hEnd : first.Ended) (hStop : second.Ended) :
    first.core = second.core ∧ first.event = second.event := by
  rcases hFirst.of_ended hEnd with ⟨hEnds, hHalted, hCore⟩ | ⟨fault, hFails, hFaulted, hCore⟩
  · rcases hSecond.of_ended hStop with ⟨-, hHalted', hCore'⟩ | ⟨fault', hFails', -, -⟩
    · have hSame := hCore.trans hCore'.symm
      have hOutput : first.output = second.output := congrArg Core.output hSame
      exact ⟨hSame, by simp [event, hHalted, hHalted', hOutput]⟩
    · rw [hEnds] at hFails'
      contradiction
  · rcases hSecond.of_ended hStop with ⟨hEnds', -, -⟩ | ⟨fault', hFails', hFaulted', hCore'⟩
    · rw [hEnds'] at hFails
      contradiction
    · rw [hFails, Turn.fails.injEq] at hFails'
      exact ⟨hCore.trans hCore'.symm, by simp [event, hFaulted, hFaulted', hFails']⟩

/-- Pacing, budgets, resumptions and stray lines never change what a program computes: two runs of
one program that have ended, on accepted lines that agree as far as both go, accepted equally many
lines and ended with the same event in the same core. -/
theorem ended_independent_of_schedule (source : String) (pacing other : Pacing)
    (calls others : List Call) (hCalls : .interrupt ∉ calls) (hOthers : .interrupt ∉ others)
    (hEnd : ((ofSource source pacing).afterCalls calls).Ended)
    (hStop : ((ofSource source other).afterCalls others).Ended)
    (hAgree : AgreeAsFar ((ofSource source pacing).accepted calls)
      ((ofSource source other).accepted others)) :
    let first := (ofSource source pacing).afterCalls calls
    let second := (ofSource source other).afterCalls others
    ((ofSource source pacing).accepted calls).length =
        ((ofSource source other).accepted others).length ∧
      first.event = second.event ∧ first.position = second.position ∧
      first.tape.cells = second.tape.cells ∧ first.tape.address = second.tape.address ∧
      first.stack = second.stack ∧ first.output = second.output ∧ first.last = second.last ∧
      first.executed = second.executed := by
  intro first second
  obtain ⟨core, hRun, hCore⟩ :=
    afterCalls_presents (presents_load (Program.ofString source) pacing) hCalls
  obtain ⟨core', hRun', hCore'⟩ :=
    afterCalls_presents (presents_load (Program.ofString source) other) hOthers
  obtain ⟨hLines, rfl⟩ := hRun.unique hRun' (hCore.stuck_of_ended hEnd)
    (hCore'.stuck_of_ended hStop) hAgree
  have hSame := hCore.same_of_ended hCore' hEnd hStop
  refine ⟨congrArg List.length hLines, hSame.2, congrArg Core.position hSame.1,
    congrArg (fun core => core.tape.cells) hSame.1,
    congrArg (fun core => core.tape.address) hSame.1, congrArg Core.stack hSame.1,
    congrArg Core.output hSame.1, congrArg Core.last hSame.1, congrArg Core.executed hSame.1⟩

/-- One machine runs to its breakpoint in one slice; the other is stepped, is called with no budget
and with lines it did not ask for. Both read one line and write it once. -/
theorem ended_independent_of_schedule_echo :
    ((ofSource ",.^" ⟨true, Delay.none⟩).accepted
        [.resume, .execute 0, .enter "stray", .execute 1, .enter "A", .resume, .execute 1,
          .enter "B", .resume, .execute 7, .resume, .execute 0]).length =
      ((ofSource ",.^" .plain).accepted
        [.execute 9, .enter "A", .execute 9, .resume, .execute 9]).length ∧
      ((ofSource ",.^" ⟨true, Delay.none⟩).afterCalls
        [.resume, .execute 0, .enter "stray", .execute 1, .enter "A", .resume, .execute 1,
          .enter "B", .resume, .execute 7, .resume, .execute 0]).event = .halted "A" := by
  have hMain := ended_independent_of_schedule ",.^" ⟨true, Delay.none⟩ .plain
    [.resume, .execute 0, .enter "stray", .execute 1, .enter "A", .resume, .execute 1,
      .enter "B", .resume, .execute 7, .resume, .execute 0]
    [.execute 9, .enter "A", .execute 9, .resume, .execute 9] (by decide) (by decide)
    (by decide +kernel) (by decide +kernel) (by
      have hFirst : (ofSource ",.^" ⟨true, Delay.none⟩).accepted
          [.resume, .execute 0, .enter "stray", .execute 1, .enter "A", .resume, .execute 1,
            .enter "B", .resume, .execute 7, .resume, .execute 0] = ["A"] := by decide +kernel
      have hSecond : (ofSource ",.^" .plain).accepted
          [.execute 9, .enter "A", .execute 9, .resume, .execute 9] = ["A"] := by decide +kernel
      rw [hFirst, hSecond]
      exact fun _ _ _ => rfl)
  refine ⟨hMain.1, hMain.2.1.trans ?_⟩
  decide +kernel

end Machine

end ByteTape
