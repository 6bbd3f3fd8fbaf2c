import ByteTape.Proofs.Core.Attended
import ByteTape.Proofs.Core.StatusTruth
import ByteTape.Proofs.Guarded.Basic

/-!
# A guarded machine never refuses

The current cell of a run has always been made, an address is at most the number of instructions
begun, a bracket scan is begun at the opening bracket that is to be skipped, and tape, stack and
program report their faults without a position. So no operation of a run is ever given an argument
it is not made for: whatever is asked of a machine, the guarded machine does the same, as long as
its counters can hold one more than the number of instructions begun.
-/

namespace ByteTape

open Guarded

/-- A number whose successor can be held is counted up. -/
theorem Guarded.succ?_eq_some {limit count : Nat} (h : count + 1 < limit) :
    succ? limit count = some (count + 1) :=
  if_pos h

namespace Tape

variable {tape : Tape} {limit : Nat}

/-- Writing to a cell that has been made is not refused. -/
theorem write?_eq_some (h : tape.WithinCells) (value : UInt8) :
    tape.write? value = some (tape.write value) :=
  if_pos h

/-- Adding to a cell that has been made is not refused. -/
theorem increment?_eq_some (h : tape.WithinCells) : tape.increment? = some tape.increment := by
  rw [increment?, read?_eq_some_read tape h]
  exact write?_eq_some h _

/-- Subtracting from a cell that has been made is not refused. -/
theorem decrement?_eq_some (h : tape.WithinCells) : tape.decrement? = some tape.decrement := by
  rw [decrement?, read?_eq_some_read tape h]
  exact write?_eq_some h _

/-- Growing to an address whose successor can be held is not refused. -/
theorem growTo?_eq_some {address : Nat} (h : address + 1 < limit) :
    growTo? limit tape address = some (tape.growTo address) := by
  unfold growTo?
  split
  · rw [succ?_eq_some h]
    rfl
  · rename_i hEnough
    have hNone : address + 1 - tape.cells.size = 0 := by omega
    rw [growTo, hNone, Array.replicate_zero, Array.append_empty]

/-- A move to the right is not refused while two more can be counted. -/
theorem moveRight?_eq_some (h : tape.address + 2 < limit) :
    tape.moveRight? limit = some tape.moveRight := by
  rw [moveRight?, succ?_eq_some (by omega)]
  exact growTo?_eq_some h

/-- Writing keeps the current cell among those made. -/
theorem WithinCells.write (h : tape.WithinCells) (value : UInt8) :
    (tape.write value).WithinCells := by
  rw [WithinCells, size_cells_write]
  exact h

/-- A move to the left goes to a cell that has been made, one address down. -/
theorem WithinCells.moveLeft (h : tape.WithinCells) {moved : Tape}
    (hMove : tape.moveLeft = .ok () moved) :
    moved.WithinCells ∧ moved.address ≤ tape.address := by
  have hWithin : tape.address < tape.cells.size := h
  unfold Tape.moveLeft at hMove
  split at hMove
  · contradiction
  · rename_i previous hAddress
    injection hMove with _ hMoved
    subst hMoved
    constructor
    · rw [WithinCells]
      dsimp only
      omega
    · dsimp only
      omega

end Tape

namespace Program

variable {program : Program}

/-- Up to the end of the program addresses are counted up. -/
theorem next?_eq_some {count : Nat} (h : count < program.size) :
    program.next? count = some (count + 1) :=
  succ?_eq_some (Nat.succ_lt_succ h)

/-- The scan that counts open brackets from one down to zero ends in time, never counts below zero,
and finds what the scan that counts inner loops finds. -/
theorem scanClose?_eq_some {remaining inner address : Nat}
    (hEnd : address + (remaining + 1) = program.size) (hInner : inner ≤ address) :
    program.scanClose? (remaining + 1) (inner + 1) address =
      some (match program.closeFrom remaining inner (address + 1) with
        | some closing => .ok closing
        | none => .error (Fault.ofCause .unbalancedLoop)) := by
  induction remaining generalizing inner address with
  | zero =>
    have hNone : program.instruction? (address + 1) = none :=
      (instruction?_eq_none_iff program _).2 (by omega)
    rw [scanClose?, if_neg (Nat.succ_ne_zero inner), next?_eq_some (by omega)]
    simp only [Option.bind_eq_bind, Option.bind_some, hNone, closeFrom]
  | succ remaining ih =>
    obtain ⟨symbol, -, hDecoded⟩ := exists_symbol (by omega : address + 1 < program.size)
    have hHere := (hDecoded _).2 rfl
    rw [scanClose?, if_neg (Nat.succ_ne_zero inner), next?_eq_some (by omega), closeFrom]
    simp only [Option.bind_eq_bind, Option.bind_some, hHere]
    cases hInstruction : Instruction.ofChar symbol with
    | loopOpen =>
      dsimp only
      rw [next?_eq_some (by omega), Option.bind_some]
      exact ih (by omega) (by omega)
    | loopClose =>
      dsimp only [pred?]
      rw [Option.bind_some]
      cases inner with
      | zero => rfl
      | succ inner =>
        rw [if_neg (Nat.succ_ne_zero inner)]
        exact ih (by omega) (by omega)
    | _ => exact ih (by omega) (by omega)

/-- The guarded scan from an opening bracket is not refused and finds what the scan finds. -/
theorem guardedClose?_eq_some {opening : Nat}
    (hOpen : program.instruction? opening = some .loopOpen) :
    program.guardedClose? opening = some (program.matchingClose opening) := by
  have hInside := lt_size_of_instruction? hOpen
  have hSteps : program.size - opening = program.size - (opening + 1) + 1 := by omega
  rw [guardedClose?, if_pos hOpen, hSteps]
  exact scanClose?_eq_some (by omega) (Nat.zero_le opening)

end Program

namespace Core

/-- What the operations of a core rely on: the current cell has been made, and its address has been
reached by moves that were counted. -/
structure InRange (core : Core) : Prop where
  /-- The current cell has been made. -/
  within : core.tape.WithinCells
  /-- Every move was an instruction. -/
  address_le : core.tape.address ≤ core.executed

variable {core next : Core}

/-- The first core of a program is in range. -/
theorem inRange_start (program : Program) : (start program).InRange :=
  ⟨Tape.withinCells_blank, Nat.le_refl 0⟩

/-- Beginning an instruction keeps a core in range. -/
theorem InRange.begun (h : core.InRange) : core.begun.InRange :=
  ⟨h.within, Nat.le_succ_of_le h.address_le⟩

/-- An instruction that leaves the tape alone keeps a core in range. -/
theorem InRange.of_tape_eq (h : core.InRange) (hTurn : core.turn = .moves next)
    (hTape : next.tape = core.tape) : next.InRange := by
  have hExecuted := (frame_of_moves hTurn).2
  have hAddress := h.address_le
  constructor
  · rw [hTape]
    exact h.within
  · rw [hTape, hExecuted]
    omega

/-- Every completed instruction keeps a core in range. -/
theorem InRange.of_moves (h : core.InRange) (hTurn : core.turn = .moves next) :
    next.InRange := by
  have hFrame := frame_of_moves hTurn
  have hAddress := h.address_le
  have hEffect := hTurn
  cases hHere : core.program.instruction? core.position with
  | none =>
    rw [turn, hHere] at hTurn
    contradiction
  | some instruction =>
    rw [turn_eq_effect hHere] at hEffect
    cases instruction with
    | increment =>
      simp only [effect, Turn.moves.injEq] at hEffect
      subst hEffect
      exact ⟨h.within.write _, Nat.le_succ_of_le hAddress⟩
    | decrement =>
      simp only [effect, Turn.moves.injEq] at hEffect
      subst hEffect
      exact ⟨h.within.write _, Nat.le_succ_of_le hAddress⟩
    | right =>
      simp only [effect, Turn.moves.injEq] at hEffect
      subst hEffect
      exact ⟨Tape.withinCells_moveRight _, Nat.succ_le_succ hAddress⟩
    | left =>
      cases hMove : core.tape.moveLeft with
      | error fault tape => simp [effect, Core.begun, hMove] at hEffect
      | ok _ moved =>
        obtain ⟨hWithin, hDown⟩ := h.within.moveLeft hMove
        simp only [effect, Core.begun, hMove, Turn.moves.injEq] at hEffect
        subst hEffect
        exact ⟨hWithin, Nat.le_succ_of_le (Nat.le_trans hDown hAddress)⟩
    | input => simp [effect] at hEffect
    | _ =>
      refine h.of_tape_eq hTurn ?_
      simp only [effect] at hEffect
      (repeat' split at hEffect) <;>
        first
        | contradiction
        | (rw [Turn.moves.injEq] at hEffect
           subst hEffect
           rfl)

end Core

namespace Machine

variable {machine : Machine} {limit : Nat}

/-- A fault that an instruction meets has no position yet. -/
theorem position_of_fails {begun : Machine} {instruction : Instruction} {fault : Fault}
    (hHere : machine.program.instruction? machine.position = some instruction)
    (h : machine.perform instruction = .fails begun fault) : fault.position = none := by
  cases instruction with
  | left =>
    cases hMove : machine.tape.moveLeft with
    | ok _ tape => simp [perform, hMove] at h
    | error cause tape =>
      obtain ⟨-, rfl, -⟩ := (Tape.moveLeft_eq_error_iff machine.tape cause tape).1 hMove
      simp only [perform, hMove, Outcome.fails.injEq] at h
      rw [← h.2]
      rfl
  | loopOpen =>
    by_cases hZero : machine.tape.read = 0
    · cases hScan : machine.program.matchingClose machine.position with
      | ok closing => simp [perform, openLoop, hZero, hScan] at h
      | error cause =>
        have hCause := ((Program.matchingClose_eq_error_iff cause hHere).1 hScan).1
        simp only [perform, openLoop, hZero, hScan, reduceIte, Outcome.fails.injEq] at h
        rw [← h.2, ← hCause]
        rfl
    · simp [perform, openLoop, hZero] at h
  | loopClose =>
    cases hPop : machine.stack.pop with
    | ok opening stack => simp [perform, closeLoop, hPop] at h
    | error cause stack =>
      obtain ⟨-, rfl, -⟩ := (LoopStack.pop_eq_error_iff machine.stack cause stack).1 hPop
      simp only [perform, closeLoop, hPop, Outcome.fails.injEq] at h
      rw [← h.2]
      rfl
  | _ => simp [perform] at h

/-- Performing an instruction inside the program is not refused. -/
theorem perform?_eq_some {instruction : Instruction} (hWithin : machine.tape.WithinCells)
    (hAddress : machine.tape.address + 2 < limit)
    (hHere : machine.program.instruction? machine.position = some instruction) :
    machine.perform? limit instruction = some (machine.perform instruction) := by
  have hNext := Program.next?_eq_some (Program.lt_size_of_instruction? hHere)
  have hRead := Tape.read?_eq_some_read machine.tape hWithin
  cases instruction with
  | increment => simp [perform?, perform, Tape.increment?_eq_some hWithin, hNext]
  | decrement => simp [perform?, perform, Tape.decrement?_eq_some hWithin, hNext]
  | right => simp [perform?, perform, Tape.moveRight?_eq_some hAddress, hNext]
  | left =>
    cases hMove : machine.tape.moveLeft with
    | ok _ tape => simp [perform?, perform, hMove, hNext]
    | error fault tape => simp [perform?, perform, hMove]
  | output => simp [perform?, perform, hRead, hNext]
  | input => rfl
  | loopOpen =>
    by_cases hZero : machine.tape.read = 0
    · have hScan := Program.guardedClose?_eq_some hHere
      cases hClose : machine.program.matchingClose machine.position with
      | ok closing =>
        have hPairs := (Program.matchingClose_eq_ok_iff closing hHere).1 hClose
        have hAfter := Program.next?_eq_some (Program.lt_size_of_instruction? hPairs.closes)
        simp [perform?, perform, openLoop, hRead, hZero, hScan, hClose, hAfter]
      | error fault => simp [perform?, perform, openLoop, hRead, hZero, hScan, hClose]
    · simp [perform?, perform, openLoop, hRead, hZero, hNext]
  | loopClose =>
    cases hPop : machine.stack.pop with
    | ok opening stack =>
      by_cases hZero : machine.tape.read = 0
      · simp [perform?, perform, closeLoop, hPop, hRead, hZero, hNext]
      · simp [perform?, perform, closeLoop, hPop, hRead, hZero]
    | error fault stack => simp [perform?, perform, closeLoop, hPop]
  | breakpoint => simp [perform?, perform, hNext]
  | comment character => simp [perform?, perform, hNext]

/-- A step of a core in range is not refused. -/
theorem step?_eq_some (h : machine.core.InRange) (hRunning : machine.status = .running)
    (hCount : machine.step.executed + 1 < limit) : machine.step? limit = some machine.step := by
  cases hHere : machine.program.instruction? machine.position with
  | none => simp [step?, step, hHere]
  | some instruction =>
    have hExecuted := executed_step hRunning (Program.lt_size_of_instruction? hHere)
    have hAddress : machine.tape.address ≤ machine.executed := h.address_le
    have hBegin := succ?_eq_some (by omega : machine.executed + 1 < limit)
    have hPerform : { machine with executed := machine.executed + 1 }.perform? limit instruction =
        some ({ machine with executed := machine.executed + 1 }.perform instruction) :=
      perform?_eq_some h.within (by dsimp only; omega) hHere
    simp only [step?, step, hHere, hBegin, hPerform, Option.bind_eq_bind, Option.bind_some]
    cases hOutcome : { machine with executed := machine.executed + 1 }.perform instruction with
    | done performed next => rfl
    | waits begun => rfl
    | fails begun fault =>
      have hBegun : { machine with executed := machine.executed + 1 }.program.instruction?
          { machine with executed := machine.executed + 1 }.position = some instruction := hHere
      have hPosition := position_of_fails hBegun hOutcome
      simp only [Fault.locate?_eq_some fault _ hPosition, Option.bind_some]

/-- A step keeps the core in range. -/
theorem inRange_step (h : machine.core.InRange) (hRunning : machine.status = .running) :
    machine.step.core.InRange := by
  have hStepped := step_stepped hRunning
  cases hTurn : machine.core.turn with
  | ends =>
    rw [hTurn] at hStepped
    rw [show machine.step = machine from hStepped]
    exact h
  | moves next =>
    rw [hTurn] at hStepped
    rw [hStepped.1]
    exact h.of_moves hTurn
  | asks =>
    rw [hTurn] at hStepped
    rw [hStepped.1]
    exact h.begun
  | fails fault =>
    rw [hTurn] at hStepped
    rw [hStepped.1]
    exact h.begun

/-- Running keeps the core in range. -/
theorem inRange_execute (h : machine.core.InRange) (cycles : Nat) :
    (machine.execute cycles).2.core.InRange := by
  refine execute_invariant (P := fun after => after.core.InRange) ?_ ?_ h cycles
  · intro after hAfter hRunning hEnd
    exact hAfter
  · intro after hAfter hRunning hInside
    exact inRange_step hAfter hRunning

/-- Running is not refused. -/
theorem execute?_eq_some (h : machine.core.InRange) {cycles : Nat}
    (hCount : (machine.execute cycles).2.executed + 1 < limit) :
    machine.execute? limit cycles = some (machine.execute cycles).2 := by
  induction cycles generalizing machine with
  | zero => rfl
  | succ cycles ih =>
    have hSettled : machine.settle.core.InRange := by
      rw [core_settle]
      exact h
    rw [execute] at hCount ⊢
    rw [execute?]
    cases hStatus : machine.settle.status with
    | running =>
      rw [hStatus] at hCount
      have hMore := executed_le_execute machine.settle.step cycles
      have hBudget : machine.settle.step.executed + 1 < limit := by
        dsimp only at hCount
        omega
      have hStep := step?_eq_some hSettled hStatus hBudget
      simp only [hStep, Option.bind_eq_bind, Option.bind_some]
      exact ih (inRange_step hSettled hStatus) hCount
    | _ => rfl

/-- A line that is asked for is stored in the current cell and leaves the rest in range. -/
theorem inRange_enter (h : machine.core.InRange) (line : String) :
    (machine.enter line).core.InRange := by
  by_cases hStatus : machine.status = .awaitingInput
  · rw [enter_eq_retire line hStatus, core_retire]
    exact ⟨h.within.write _, h.address_le⟩
  · rw [(enter_of_not_awaiting line hStatus).1]
    exact h

/-- A line is not refused, asked for or not. -/
theorem enter?_eq_some (h : machine.core.InRange) (hTruthful : machine.Truthful)
    (line : String) : machine.enter? line = some (machine.enter line) := by
  cases hStatus : machine.status with
  | awaitingInput =>
    have hHere := hTruthful.awaiting hStatus
    have hNext := Program.next?_eq_some (Program.lt_size_of_instruction? hHere)
    have hWrite := Tape.write?_eq_some h.within (byteOfLine line)
    simp only [core] at hWrite
    simp [enter?, enter, hStatus, hWrite, hNext]
  | _ => simp [enter?, enter, hStatus]

/-- Cancelling is not refused. -/
theorem interrupt?_eq_some (machine : Machine) :
    machine.interrupt? = some machine.interrupt := by
  cases hStatus : machine.status <;>
    simp [interrupt?, interrupt, hStatus, Fault.locate?, Fault.ofCause, interruption]

/-- What a guarded machine relies on when a call is made. -/
structure Secure (machine : Machine) : Prop where
  /-- The core is in range. -/
  inRange : machine.core.InRange
  /-- The status is true, so that a line is waited for only inside the program. -/
  truthful : machine.Truthful

/-- Every call keeps a machine secure. -/
theorem Secure.call (h : machine.Secure) (call : Call) :
    (machine.call call).2.Secure := by
  refine ⟨?_, h.truthful.call call⟩
  cases call with
  | execute cycles => exact inRange_execute h.inRange cycles
  | enter line => exact inRange_enter h.inRange line
  | resume =>
    have hCore : machine.resume.core = machine.core := by
      unfold resume
      split <;> rfl
    exact hCore.symm ▸ h.inRange
  | interrupt =>
    have hCore : machine.interrupt.core = machine.core := by
      unfold interrupt
      split <;> rfl
    exact hCore.symm ▸ h.inRange

/-- No call is refused. -/
theorem Secure.call?_eq_some (h : machine.Secure) {call : Call}
    (hCount : (machine.call call).2.executed + 1 < limit) :
    machine.call? limit call = some (machine.call call).2 := by
  cases call with
  | execute cycles => exact execute?_eq_some h.inRange hCount
  | enter line => exact enter?_eq_some h.inRange h.truthful line
  | resume => rfl
  | interrupt => exact interrupt?_eq_some machine

/-- No call counts instructions down. -/
theorem executed_le_call (machine : Machine) (call : Call) :
    machine.executed ≤ (machine.call call).2.executed := by
  cases call with
  | execute cycles => exact executed_le_execute machine cycles
  | enter line =>
    by_cases hStatus : machine.status = .awaitingInput
    · have hCore : (machine.enter line).core.executed = machine.executed := by
        rw [enter_eq_retire line hStatus, core_retire]
        rfl
      exact Nat.le_of_eq hCore.symm
    · have hCore := (enter_of_not_awaiting line hStatus).1
      exact Nat.le_of_eq (congrArg Core.executed hCore).symm
  | resume =>
    simp only [Machine.call, resume]
    split <;> exact Nat.le_refl _
  | interrupt =>
    simp only [Machine.call, interrupt]
    split <;> exact Nat.le_refl _

/-- No sequence of calls counts instructions down. -/
theorem executed_le_afterCalls (machine : Machine) (calls : List Call) :
    machine.executed ≤ (machine.afterCalls calls).executed := by
  induction calls generalizing machine with
  | nil => exact Nat.le_refl _
  | cons call calls ih => exact Nat.le_trans (executed_le_call machine call) (ih _)

/-- No sequence of requests is refused. -/
theorem Secure.serveAll?_eq_some (h : machine.Secure) {requests : List Request}
    (hCount : (machine.afterCalls (requests.filterMap Request.call?)).executed + 1 < limit) :
    machine.serveAll? limit requests =
      some (machine.afterCalls (requests.filterMap Request.call?)) := by
  induction requests generalizing machine with
  | nil => rfl
  | cons request requests ih =>
    cases request with
    | look => exact ih h hCount
    | drive call =>
      have hMore := executed_le_afterCalls (machine.call call).2
        (requests.filterMap Request.call?)
      have hAfter : ((machine.call call).2.afterCalls
          (requests.filterMap Request.call?)).executed + 1 < limit := hCount
      have hCall := h.call?_eq_some (by omega : (machine.call call).2.executed + 1 < limit)
      rw [serveAll?, List.foldlM_cons, serve?, hCall]
      exact ih (h.call call) hAfter

/-- Whatever is asked of a machine, no operation is given an argument it is not made for: no cell is
read or written that has not been made, no bracket scan begins elsewhere than at an opening bracket
or counts below zero or above the size of the program, no position goes past the end of the program,
no fault is placed twice, and no other number leaves the counters, as long as these hold one more
than the number of instructions begun. So the guarded machine refuses nothing and ends as the
machine does. -/
theorem guarded_never_refuses (limit : Nat) (source : String) (pacing : Pacing)
    (requests : List Request)
    (hCount : ((ofSource source pacing).afterCalls
      (requests.filterMap Request.call?)).executed + 1 < limit) :
    (ofSource source pacing).serveAll? limit requests =
      some ((ofSource source pacing).afterCalls (requests.filterMap Request.call?)) := by
  have hSecure : (ofSource source pacing).Secure :=
    ⟨Core.inRange_start (Program.ofString source), truthful_of_running rfl⟩
  exact hSecure.serveAll?_eq_some hCount

/-- Counters of 64 bits are enough for a run that skips a loop with a loop inside, grows the tape,
stores a line and fails to the left of the first cell, with a look in between. -/
theorem guarded_never_refuses_underflow :
    ((ofSource "[[-]]>,<<" .plain).afterCalls
        [.execute 9, .enter "A", .execute 9]).executed + 1 < UInt64.size ∧
      (ofSource "[[-]]>,<<" .plain).serveAll? UInt64.size
          [.drive (.execute 9), .look, .drive (.enter "A"), .drive (.execute 9)] =
        some ((ofSource "[[-]]>,<<" .plain).afterCalls
          [.execute 9, .enter "A", .execute 9]) ∧
      ((ofSource "[[-]]>,<<" .plain).afterCalls [.execute 9, .enter "A", .execute 9]).status =
        .faulted ⟨.addressUnderflow, some 8, ""⟩ := by
  have hCount : ((ofSource "[[-]]>,<<" .plain).afterCalls
      [.execute 9, .enter "A", .execute 9]).executed + 1 < UInt64.size := by decide +kernel
  have hServed := guarded_never_refuses UInt64.size "[[-]]>,<<" .plain
    [.drive (.execute 9), .look, .drive (.enter "A"), .drive (.execute 9)] hCount
  exact ⟨hCount, hServed, by decide +kernel⟩

end Machine

end ByteTape
