import ByteTape.Proofs.Record.Slicing
import ByteTape.Proofs.Session.Interruption

/-!
# Every turn gets something done

A turn that does not end its session begins an instruction, reads a line or ends a pause, provided
that its slice has a budget. Behind it stands a number that grows in every such turn: four stages
for each instruction begun, from waiting for its line over the pause after it and running on to the
end of the run. So a session never comes back to a machine it had before. Without a budget the first
turn finds the end of the run, or else all turns leave the session exactly as it was.
-/

namespace ByteTape

/-- How far a run has got with the instruction begun last. -/
def Status.stage : Status → Nat
  | .awaitingInput => 0
  | .paused _ => 1
  | .running => 2
  | .halted => 3
  | .faulted _ => 3

/-- There are four stages. -/
theorem Status.stage_lt (status : Status) : status.stage < 4 := by
  cases status <;> simp [stage]

namespace Machine

/-- How far a run has got: four stages for each instruction begun. -/
def headway (machine : Machine) : Nat :=
  4 * machine.executed + machine.status.stage

/-- Another instruction counts more than any stage. -/
theorem headway_lt_of_executed_lt {machine after : Machine} (h : machine.executed < after.executed) :
    machine.headway < after.headway := by
  have hStage := machine.status.stage_lt
  rw [headway, headway]
  omega

/-- The headway of a machine does not depend on its journal. -/
theorem headway_eq_of_forgetJournal_eq {machine other : Machine}
    (h : machine.forgetJournal = other.forgetJournal) : machine.headway = other.headway := by
  have hExecuted : machine.executed = other.executed := congrArg (·.executed) h
  have hStatus : machine.status = other.status := congrArg (·.status) h
  rw [headway, headway, hExecuted, hStatus]

/-- Running loses no headway. -/
theorem headway_le_execute (machine : Machine) (cycles : Nat) :
    machine.headway ≤ (machine.execute cycles).2.headway := by
  refine execute_invariant (P := fun after => machine.headway ≤ after.headway) ?_ ?_
    (Nat.le_refl _) cycles
  · intro after hAfter hRunning hEnd
    have hMore : after.headway ≤ after.halt.headway := by
      simp [headway, hRunning, halt, note, Status.stage]
    exact hAfter.trans hMore
  · intro after hAfter hRunning hInside
    have hBegun := executed_step hRunning hInside
    exact hAfter.trans (headway_lt_of_executed_lt (by omega)).le

/-- A line that was asked for brings headway. -/
theorem headway_lt_enter {machine : Machine} (h : machine.status = .awaitingInput)
    (line : String) : machine.headway < (machine.enter line).headway := by
  have hEnter := enter_eq_retire line h
  have hLive : (machine.enter line).Live := by
    rw [hEnter]
    exact live_retire rfl _ _
  have hExecuted : (machine.enter line).executed = machine.executed := by
    rw [hEnter]
    exact congrArg Core.executed (core_retire _ _ _)
  rw [headway, headway, hExecuted, h]
  rcases hLive with hRunning | ⟨inspection, hPaused⟩
  · rw [hRunning]
    exact Nat.add_lt_add_left (by decide) _
  · rw [hPaused]
    exact Nat.add_lt_add_left (by decide : 0 < 1) _

/-- The end of a pause brings headway. -/
theorem headway_lt_resume {machine : Machine} {inspection : Inspection}
    (h : machine.status = .paused inspection) : machine.headway < machine.resume.headway := by
  rw [resume_of_paused h, headway, headway, h]
  exact Nat.add_lt_add_left (by decide : 1 < 2) _

/-- To be cancelled brings headway, too. -/
theorem headway_lt_interrupt {machine : Machine} (h : ¬ machine.Ended) :
    machine.headway < machine.interrupt.headway := by
  have hStage : machine.status.stage < 3 := by
    cases hStatus : machine.status with
    | halted => exact absurd (.inl hStatus) h
    | faulted fault => exact absurd (.inr ⟨fault, hStatus⟩) h
    | _ => simp [Status.stage]
  rw [interrupt_of_not_ended h]
  exact Nat.add_lt_add_left hStage _

end Machine

namespace Session

open CommandLine Machine

/-- What a turn gets done: it begins at least one instruction, reads at least one line, or ends the
pause that the machine was in. -/
def Advances (session after : Session) : Prop :=
  session.machine.executed < after.machine.executed ∨
    promptCount session.terminal.transcript.toList <
      promptCount after.terminal.transcript.toList ∨
    ∃ inspection, session.machine.status = .paused inspection ∧
      after.machine = { session.machine with status := .running }

/-- A slice that ends with a pause leaves a paused machine. -/
theorem status_of_slice_paused {session : Session} {inspection : Inspection}
    (h : session.slice.1 = .paused inspection) :
    session.slice.2.machine.status = .paused inspection := by
  rw [slice_fst] at h
  exact (event_eq_paused_iff _ inspection).1 h

/-- The machine goes on after a turn that does not end the session. -/
theorem not_ended_of_turn {session after : Session} (h : session.turn = .ok after) :
    ¬ session.slice.2.machine.Ended := by
  have hHandle : session.slice.2.handle session.slice.1 = .ok after := h
  rw [slice_fst] at hHandle
  rintro (hHalted | ⟨fault, hFaulted⟩)
  · rw [Machine.event, hHalted] at hHandle
    contradiction
  · rw [Machine.event, hFaulted] at hHandle
    contradiction

/-- A session that goes on was not interrupted, so that its turn began with a slice. -/
theorem slice_of_turn {session after : Session} (h : session.turn = .ok after) :
    session.terminal.interrupted = false ∧
      session.slice.2.machine = (session.machine.execute session.cycles).2 := by
  have hCalm : session.terminal.interrupted = false := by
    by_contra hPressed
    rw [Bool.not_eq_false] at hPressed
    by_cases hEnded : session.machine.Ended
    · have hStill : session.slice.2.machine = session.machine := by
        simp [slice, hPressed, interrupt_of_ended hEnded,
          execute_of_status_ne_running hEnded.status_ne_running]
      exact not_ended_of_turn h (hStill ▸ hEnded)
    · rw [(turn_of_interrupted hPressed hEnded).1] at h
      contradiction
  refine ⟨hCalm, ?_⟩
  simp [slice, hCalm]

/-- No turn changes the budget of the slices. -/
theorem cycles_turn {session after : Session} (h : session.turn = .ok after) :
    after.cycles = session.cycles := by
  have hHandle : session.slice.2.handle session.slice.1 = .ok after := h
  have hSlice : session.slice.2.cycles = session.cycles := rfl
  rw [← hSlice]
  cases hEvent : session.slice.1 with
  | paused inspection =>
    rw [hEvent] at hHandle
    have hDrawable : Inspection.Drawable session.slice.2.columns := canShow_of_handle hHandle
    rw [handle_paused hDrawable] at hHandle
    dsimp only at hHandle
    split at hHandle <;> (injection hHandle with hAfter; rw [← hAfter])
  | halted output => simp [hEvent, handle] at hHandle
  | faulted fault => simp [hEvent, handle] at hHandle
  | _ =>
    rw [hEvent] at hHandle
    injection hHandle with hAfter
    rw [← hAfter]

/-- A session that goes on after a turn went on before it. -/
theorem exists_of_afterTurns_succ {session after : Session} {turns : Nat}
    (h : session.afterTurns (turns + 1) = .ok after) :
    ∃ before, session.afterTurns turns = .ok before ∧ before.turn = .ok after := by
  rw [afterTurns] at h
  cases hBefore : session.afterTurns turns with
  | error ending => simp [hBefore] at h
  | ok before =>
    rw [hBefore] at h
    exact ⟨before, rfl, h⟩

/-- No number of turns changes the budget of the slices. -/
theorem cycles_afterTurns {session after : Session} {turns : Nat}
    (h : session.afterTurns turns = .ok after) : after.cycles = session.cycles := by
  induction turns generalizing after with
  | zero =>
    injection h with hAfter
    rw [hAfter]
  | succ turns ih =>
    obtain ⟨before, hBefore, hTurn⟩ := exists_of_afterTurns_succ h
    exact (cycles_turn hTurn).trans (ih hBefore)

/-- A turn that reads a reply counts as one that reads a line. -/
theorem promptCount_lt_of_replyRead? {session after : Session} {reply : Reply}
    (hRead : session.replyRead? = some reply) (hTurn : session.turn = .ok after) :
    promptCount session.terminal.transcript.toList <
      promptCount after.terminal.transcript.toList := by
  obtain ⟨next, hNext, -, -, -, hTranscript⟩ := turn_of_replyRead? hRead
  obtain ⟨prompt, hPrompt, -⟩ := Option.map_eq_some_iff.1 hRead
  have hAsked : Exchange.asked prompt ∈ exchangesFor session.columns session.slice.1 :=
    List.mem_of_getLast? (getLast?_exchangesFor hPrompt)
  have hMore : 0 < promptCount (exchangesFor session.columns session.slice.1) :=
    List.countP_pos_iff.2 ⟨_, hAsked, rfl⟩
  have hCount : promptCount next.terminal.transcript.toList =
      promptCount session.terminal.transcript.toList +
        promptCount (exchangesFor session.columns session.slice.1) := by
    rw [hTranscript, promptCount, List.countP_append]
    rfl
  rw [hTurn] at hNext
  injection hNext with hNext
  rw [hNext, hCount]
  omega

/-- What is done with the machine after a reply to its event brings headway. -/
theorem headway_lt_of_replyRead? {session after : Session} {reply : Reply}
    (hRead : session.replyRead? = some reply) (hTurn : session.turn = .ok after) :
    session.slice.2.machine.headway < after.machine.headway := by
  have hGoesOn := not_ended_of_turn hTurn
  obtain ⟨next, hNext, hMachine, -⟩ := turn_of_replyRead? hRead
  rw [hTurn] at hNext
  injection hNext with hNext
  rw [hNext, hMachine]
  obtain ⟨-, hAsked | ⟨inspection, hPaused, -⟩⟩ := event_of_replyRead? hRead
  · have hStatus := (event_eq_inputRequested_iff _).1 ((slice_fst session).symm.trans hAsked)
    rw [if_pos hAsked]
    cases reply with
    | line interrupted text => exact headway_lt_enter hStatus text
    | signal => exact headway_lt_interrupt hGoesOn
    | endOfInput => exact headway_lt_enter hStatus ""
  · have hStatus := status_of_slice_paused hPaused
    rw [if_neg (by simp [hPaused])]
    cases reply with
    | line interrupted text => exact headway_lt_resume hStatus
    | signal => exact headway_lt_interrupt hGoesOn
    | endOfInput => exact headway_lt_resume hStatus

/-- A slice with a budget that leaves the machine running has begun an instruction. -/
theorem executed_lt_slice {session : Session} (hBudget : 0 < session.cycles)
    (hSlice : session.slice.2.machine = (session.machine.execute session.cycles).2)
    (hRunning : session.slice.1 = .running) :
    session.machine.executed < session.slice.2.machine.executed := by
  have hStatus := status_of_event_running ((slice_fst session).symm.trans hRunning)
  rw [hSlice] at hStatus ⊢
  have hCount := (executed_execute session.machine session.cycles).2 hStatus
  omega

/-- A turn with a budget that does not end its session begins an instruction, reads a line or ends a
pause. -/
theorem advances_of_turn {session after : Session} (hBudget : 0 < session.cycles)
    (hTurn : session.turn = .ok after) : session.Advances after := by
  obtain ⟨-, hSlice⟩ := slice_of_turn hTurn
  have hGoesOn := not_ended_of_turn hTurn
  cases hRead : session.replyRead? with
  | some reply => exact .inr (.inl (promptCount_lt_of_replyRead? hRead hTurn))
  | none =>
    rcases (turn_of_silent hRead hTurn).2 with ⟨hRunning, hMachine⟩ | ⟨inspection, hEvent, hMachine⟩
    · exact .inl (hMachine ▸ executed_lt_slice hBudget hSlice hRunning)
    · have hPaused := status_of_slice_paused hEvent
      rw [resume_of_paused hPaused] at hMachine
      -- The pause is either one that the slice has run into, or the turn has met it already there.
      by_cases hRunning : session.machine.status = .running
      · left
        rw [hSlice] at hGoesOn
        have hBegun := (executed_lt_execute hRunning hBudget).resolve_left hGoesOn
        rw [hMachine, hSlice]
        exact hBegun
      · rw [execute_of_status_ne_running hRunning] at hSlice
        rw [hSlice] at hPaused hMachine
        exact .inr (.inr ⟨inspection, hPaused, hMachine⟩)

/-- A turn with a budget that does not end its session brings headway. -/
theorem headway_lt_of_turn {session after : Session} (hBudget : 0 < session.cycles)
    (hTurn : session.turn = .ok after) : session.machine.headway < after.machine.headway := by
  obtain ⟨-, hSlice⟩ := slice_of_turn hTurn
  have hKept : session.machine.headway ≤ session.slice.2.machine.headway := by
    rw [hSlice]
    exact headway_le_execute session.machine session.cycles
  cases hRead : session.replyRead? with
  | some reply => exact hKept.trans_lt (headway_lt_of_replyRead? hRead hTurn)
  | none =>
    rcases (turn_of_silent hRead hTurn).2 with ⟨hRunning, hMachine⟩ | ⟨inspection, hEvent, hMachine⟩
    · rw [hMachine]
      exact headway_lt_of_executed_lt (executed_lt_slice hBudget hSlice hRunning)
    · have hPaused := status_of_slice_paused hEvent
      rw [hMachine]
      exact hKept.trans_lt (headway_lt_resume hPaused)

/-- A session with a budget makes headway from turn to turn. -/
theorem headway_lt_afterTurns {session before after : Session} (hBudget : 0 < session.cycles)
    {turns later : Nat} (hLater : turns < later) (hBefore : session.afterTurns turns = .ok before)
    (hAfter : session.afterTurns later = .ok after) :
    before.machine.headway < after.machine.headway := by
  induction later, hLater using Nat.le_induction generalizing after with
  | base =>
    rw [afterTurns, hBefore] at hAfter
    exact headway_lt_of_turn (cycles_afterTurns hBefore ▸ hBudget) hAfter
  | succ later hLater ih =>
    obtain ⟨middle, hMiddle, hTurn⟩ := exists_of_afterTurns_succ hAfter
    have hMore := headway_lt_of_turn (cycles_afterTurns hMiddle ▸ hBudget) hTurn
    exact (ih hMiddle).trans hMore

/-- Without a budget a turn leaves a session as it is whose machine could run on. -/
theorem turn_of_idle {session : Session} (hCalm : session.terminal.interrupted = false)
    (hBudget : session.cycles = 0) (hRunning : session.machine.status = .running)
    (hInside : session.machine.position < session.machine.program.size) :
    session.turn = .ok session := by
  have hExecute : session.machine.execute session.cycles = (.running, session.machine) := by
    rw [hBudget, execute, settle_of_lt _ hInside, Machine.event, hRunning]
  rw [turn_of_calm hCalm, hExecute]
  rfl

/-- A session that a turn leaves as it is never changes again. -/
theorem afterTurns_of_idle {session : Session} (h : session.turn = .ok session) (turns : Nat) :
    session.afterTurns turns = .ok session := by
  induction turns with
  | zero => rfl
  | succ turns ih =>
    rw [afterTurns, ih]
    exact h

/-- A session that begins has a fresh machine for its source and the budget of the options. -/
theorem of_start {options : Options} {surroundings : Surroundings} {session : Session}
    (h : start options surroundings = .ok session) :
    session.cycles = options.budget ∧ ∃ source, session.machine = machineFor options source := by
  rw [start] at h
  cases hSource : findSource options surroundings with
  | error ending =>
    rw [hSource] at h
    contradiction
  | ok found =>
    rw [hSource] at h
    injection h with hSession
    rw [← hSession]
    exact ⟨rfl, found.1, rfl⟩

/-- A session without a budget ends in its first turn, if the interrupt key was pressed or there is
nothing to run, and otherwise never changes. -/
theorem turn_without_budget {session : Session} (hBudget : session.cycles = 0)
    (hRunning : session.machine.status = .running) (hFirst : session.machine.position = 0) :
    if session.terminal.interrupted = true ∨ session.machine.program.size = 0 then
      ∃ ending, session.turn = .error ending
    else ∀ turns, session.afterTurns turns = .ok session := by
  split
  · rename_i hEnds
    cases hTurn : session.turn with
    | error ending => exact ⟨ending, rfl⟩
    | ok after =>
      obtain ⟨hCalm, hSlice⟩ := slice_of_turn hTurn
      have hEmpty : session.machine.program.size ≤ session.machine.position := by
        rcases hEnds with hPressed | hEmpty
        · rw [hCalm] at hPressed
          contradiction
        · omega
      have hHalt : session.slice.2.machine = session.machine.halt := by
        rw [hSlice, hBudget, execute, settle_of_le _ hRunning hEmpty]
      exact absurd (hHalt ▸ .inl rfl) (not_ended_of_turn hTurn)
  · rename_i hIdle
    rw [not_or, Bool.not_eq_true] at hIdle
    exact afterTurns_of_idle (turn_of_idle hIdle.1 hBudget hRunning (by omega))

/-- Whether a session gets on is decided by the budget of its slices. With a budget, however it is
set, every turn that does not end the session begins an instruction, reads a line or ends a pause,
and no two turns begin with the same machine, its journal apart. Without one, a session that is not
interrupted and has something to run stays for ever as it began, and any other ends in its first
turn. -/
theorem gets_on_every_turn (options : Options) (surroundings : Surroundings) (session : Session)
    (hStart : start options surroundings = .ok session) :
    (0 < options.budget →
      (∀ turns before after, session.afterTurns turns = .ok before → before.turn = .ok after →
        before.Advances after) ∧
      ∀ turns later before after, turns < later → session.afterTurns turns = .ok before →
        session.afterTurns later = .ok after →
        before.machine.forgetJournal ≠ after.machine.forgetJournal) ∧
      (options.budget = 0 →
        if session.terminal.interrupted = true ∨ session.machine.program.size = 0 then
          ∃ ending, session.turn = .error ending
        else ∀ turns, session.afterTurns turns = .ok session) := by
  obtain ⟨hCycles, source, hMachine⟩ := of_start hStart
  refine ⟨?_, ?_⟩
  · intro hBudget
    rw [← hCycles] at hBudget
    constructor
    · intro turns before after hBefore hTurn
      exact advances_of_turn (cycles_afterTurns hBefore ▸ hBudget) hTurn
    · intro turns later before after hLater hBefore hAfter hSame
      have hMore := headway_lt_afterTurns hBudget hLater hBefore hAfter
      exact hMore.ne (headway_eq_of_forgetJournal_eq hSame)
  · intro hNone
    exact turn_without_budget (hCycles.trans hNone) (by rw [hMachine]; rfl) (by rw [hMachine]; rfl)

/-- A program that asks for a line and shows itself, one instruction a turn: its first two turns get
something done and leave another machine. Without a budget it stays as it began. -/
theorem gets_on_every_turn_request :
    let options : Options := { Options.none with source := some ",^", cycles := some 1 }
    let terminal := Terminal.ofScript [.line false "A", .endOfInput] false
    let surroundings : Surroundings := ⟨fun _ => .error .missing, none, terminal⟩
    let session : Session := ⟨machineFor options ",^", 16, 1, terminal⟩
    start options surroundings = .ok session ∧
      (∃ first second, session.turn = .ok first ∧ first.turn = .ok second ∧
        session.Advances first ∧ first.Advances second ∧
        session.machine.forgetJournal ≠ second.machine.forgetJournal) ∧
      start { options with cycles := some 0 } surroundings = .ok { session with cycles := 0 } ∧
      ∀ turns, { session with cycles := 0 }.afterTurns turns = .ok { session with cycles := 0 } := by
  intro options terminal surroundings session
  have hStart : start options surroundings = .ok session := rfl
  have hIdle : start { options with cycles := some 0 } surroundings =
      .ok { session with cycles := 0 } := rfl
  refine ⟨hStart, ?_, hIdle, ?_⟩
  · obtain ⟨hAdvances, hDiffers⟩ := (gets_on_every_turn _ _ _ hStart).1 Nat.one_pos
    obtain ⟨second, hSecond⟩ : ∃ second, session.afterTurns 2 = .ok second := by
      have hGoesOn : (session.afterTurns 2).toBool = true := by decide +kernel
      cases hTurns : session.afterTurns 2 with
      | error ending => simp [hTurns, Except.toBool] at hGoesOn
      | ok second => exact ⟨second, rfl⟩
    obtain ⟨first, hFirst, hTurn⟩ := exists_of_afterTurns_succ hSecond
    exact ⟨first, second, hFirst, hTurn, hAdvances 0 session first rfl hFirst,
      hAdvances 1 first second hFirst hTurn, hDiffers 0 2 session second Nat.two_pos rfl hSecond⟩
  · have hStays := (gets_on_every_turn _ _ _ hIdle).2 rfl
    rwa [if_neg (by decide +kernel)] at hStays

/-- With a budget of zero a session with one instruction to run takes turn after turn in which nothing
is begun, read or resumed, and never ends. -/
theorem stands_still_without_budget :
    let options : Options := { Options.none with source := some "+", cycles := some 0 }
    let terminal := Terminal.ofScript [] false
    let session : Session := ⟨machineFor options "+", 16, 0, terminal⟩
    start options ⟨fun _ => .error .missing, none, terminal⟩ = .ok session ∧
      session.turn = .ok session ∧ ¬ session.Advances session ∧
      ∀ turns, session.takeTurns turns = none := by
  intro options terminal session
  have hIdle : session.turn = .ok session := turn_of_idle rfl rfl rfl (by decide +kernel)
  refine ⟨rfl, hIdle, ?_, ?_⟩
  · rintro (hBegun | hRead | ⟨inspection, hPaused, -⟩)
    · exact Nat.lt_irrefl _ hBegun
    · exact Nat.lt_irrefl _ hRead
    · contradiction
  · intro turns
    rw [Option.eq_none_iff_forall_ne_some]
    intro ending hEnding
    rw [takeTurns_eq_some_iff, afterTurns_of_idle hIdle] at hEnding
    contradiction

end Session

end ByteTape
