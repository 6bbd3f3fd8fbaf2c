import ByteTape.Proofs.Record.Chronicle
import ByteTape.Proofs.Record.Slicing
import ByteTape.Proofs.Session.Interruption

/-!
# The dialogue behind a session

What a program and its user say to each other is decided by the program, by the script of the
terminal and by whether every instruction waits for an acknowledgment. The dialogue is that and no
more: it knows no budget, no delay and no columns. It moves on by one completed instruction, one
moment to tell, or one line at a time. A session with any positive budget goes through the dialogue of
its source from one end to the other, a turn taking it over one or more of these steps, and all of
them but the last are silent at its terminal.
-/

namespace ByteTape

/-- Whether the instruction completed last waits for an acknowledgment. -/
def Core.wantsAcknowledgment (core : Core) (step : Bool) : Bool :=
  core.last.any fun instruction =>
    decide (instruction = .breakpoint) || (instruction.isEffectful && step)

/-- A pause wants to be acknowledged exactly if the instruction completed last waits for it. -/
theorem Core.acknowledge_of_pauseShown? {core : Core} {pacing : Pacing} {inspection : Inspection}
    (h : core.pauseShown? pacing = some inspection) :
    inspection.pause.acknowledge = core.wantsAcknowledgment pacing.step := by
  obtain ⟨pause, hPause, rfl⟩ := Option.map_eq_some_iff.1 h
  obtain ⟨instruction, hLast, hAfter⟩ := Option.bind_eq_some_iff.1 hPause
  have hShown : (core.shown pause).pause = pause := rfl
  rw [hShown, wantsAcknowledgment, hLast, Option.any_some]
  by_cases hBreak : instruction = .breakpoint
  · rw [Pacing.pauseAfter, if_pos hBreak, Option.some.injEq] at hAfter
    simp [← hAfter, hBreak]
  · rw [Pacing.pauseAfter, if_neg hBreak] at hAfter
    by_cases hPauses : (instruction.isEffectful && pacing.pauses) = true
    · rw [if_pos hPauses, Option.some.injEq] at hAfter
      have hEffect : instruction.isEffectful = true := (Bool.and_eq_true_iff.1 hPauses).1
      simp [← hAfter, hBreak, hEffect]
    · rw [if_neg hPauses] at hAfter
      contradiction

/-- Where nothing is paused for, nothing waits for an acknowledgment. -/
theorem Core.wantsAcknowledgment_of_pauseShown?_eq_none {core : Core} {pacing : Pacing}
    (h : core.pauseShown? pacing = none) : core.wantsAcknowledgment pacing.step = false := by
  rw [pauseShown?, Option.map_eq_none_iff, Option.bind_eq_none_iff] at h
  cases hLast : core.last with
  | none => simp [wantsAcknowledgment, hLast]
  | some instruction =>
    have hNone := h instruction hLast
    rw [Pacing.pauseAfter] at hNone
    by_cases hBreak : instruction = .breakpoint
    · simp [hBreak] at hNone
    · rw [if_neg hBreak] at hNone
      by_cases hStep : (instruction.isEffectful && pacing.step) = true
      · simp_all [Pacing.pauses]
      · simp [wantsAcknowledgment, hLast, hBreak, hStep]

namespace Session

open CommandLine Attendance Machine

/-- A moment of a dialogue that a terminal may show. -/
inductive Moment where
  /-- A line is asked for. -/
  | request
  /-- An instruction was completed and has left this core. -/
  | completion (core : Core)

/-- The events by which a machine with a pacing tells of a moment. -/
def Moment.events (pacing : Pacing) : Moment → List Event
  | .request => [.inputRequested]
  | .completion core => (core.pauseShown? pacing).toList.map .paused

/-- A program on its way and its user. -/
structure Dialogue where
  /-- What the program computes with. -/
  core : Core
  /-- Whether the instruction completed last has still to be told. -/
  due : Bool
  /-- The replies to come. -/
  script : List Reply
  /-- Whether the user wants the run to be cancelled. -/
  cancelled : Bool
  /-- The moments so far, oldest first. -/
  moments : List Moment

namespace Dialogue

/-- The dialogue with a program that has not begun. -/
def start (program : Program) (script : List Reply) (pressed : Bool) : Dialogue :=
  ⟨Core.start program, false, script, pressed, []⟩

/-- The reply that comes next. -/
def reply (dialogue : Dialogue) : Reply :=
  dialogue.script.headD .endOfInput

/-- Take a reply from the script; an interrupt that comes with it cancels the run. -/
def takeReply (dialogue : Dialogue) : Dialogue :=
  { dialogue with script := dialogue.script.tail, cancelled := !dialogue.reply.isCalm }

/-- Tell of the instruction completed last, waiting for an acknowledgment if there has to be one. -/
def tell (dialogue : Dialogue) (step : Bool) : Dialogue :=
  let told :=
    { dialogue with due := false, moments := dialogue.moments ++ [Moment.completion dialogue.core] }
  if dialogue.core.wantsAcknowledgment step then told.takeReply else told

/-- Ask for a line. Only a signal leaves the request unanswered. -/
def request (dialogue : Dialogue) : Dialogue :=
  let asked := { dialogue with moments := dialogue.moments ++ [Moment.request] }.takeReply
  if dialogue.reply = .signal then asked
  else { asked with core := dialogue.core.answer dialogue.reply.text, due := true }

/-- How a dialogue ends, if it is at its end. -/
def exit? (dialogue : Dialogue) : Option Exit :=
  if dialogue.cancelled then some (.faulted (interruption dialogue.core.position))
  else if dialogue.due then none
  else
    match dialogue.core.turn with
    | .ends => some (.halted dialogue.core.output)
    | .fails fault => some (.faulted fault)
    | _ => none

/-- One step of a dialogue. Nothing is said after its end. -/
def next (dialogue : Dialogue) (step : Bool) : Dialogue :=
  if dialogue.cancelled then dialogue
  else if dialogue.due then dialogue.tell step
  else
    match dialogue.core.turn with
    | .moves core => { dialogue with core, due := true }
    | .asks => dialogue.request
    | _ => dialogue

/-- The dialogue after a number of steps. -/
def after (dialogue : Dialogue) (step : Bool) : (steps : Nat) → Dialogue
  | 0 => dialogue
  | steps + 1 => (dialogue.next step).after step steps

/-- The events by which a session with a pacing tells of a dialogue. -/
def events (dialogue : Dialogue) (pacing : Pacing) : List Event :=
  dialogue.moments.flatMap (Moment.events pacing)

/-- Steps are taken one number after another. -/
theorem after_add (dialogue : Dialogue) (step : Bool) (first second : Nat) :
    dialogue.after step (first + second) = (dialogue.after step first).after step second := by
  induction first generalizing dialogue with
  | zero => rw [Nat.zero_add, after]
  | succ first ih =>
    rw [Nat.succ_add, after, after]
    exact ih _

/-- A dialogue at its end takes no further step. -/
theorem next_of_exit? {dialogue : Dialogue} {exit : Exit} (h : dialogue.exit? = some exit)
    (step : Bool) : dialogue.next step = dialogue := by
  unfold exit? at h
  unfold next
  split at h
  · rename_i hCancelled
    rw [if_pos hCancelled]
  · rename_i hCancelled
    split at h
    · contradiction
    · rename_i hDue
      rw [if_neg hCancelled, if_neg hDue]
      split at h <;> simp_all

/-- A dialogue at its end stays there. -/
theorem after_of_exit? {dialogue : Dialogue} {exit : Exit} (h : dialogue.exit? = some exit)
    (step : Bool) (steps : Nat) : dialogue.after step steps = dialogue := by
  induction steps with
  | zero => rfl
  | succ steps ih => rw [after, next_of_exit? h, ih]

/-- What a terminal shows of a dialogue: the replies that are left, and the exchanges of the events by
which the pacing tells of the moments. -/
structure ShownAt (dialogue : Dialogue) (terminal : Terminal) (opening : List Exchange)
    (pacing : Pacing) (columns : Nat) : Prop where
  /-- The same replies are left. -/
  script_eq : terminal.script = dialogue.script
  /-- After the opening, every event has its exchanges. -/
  transcript_eq : terminal.transcript.toList =
    opening ++ (dialogue.events pacing).flatMap (exchangesFor columns)

/-- A step that nobody notices at a terminal. -/
structure Silent (dialogue later : Dialogue) (pacing : Pacing) : Prop where
  /-- No reply was taken. -/
  script_eq : later.script = dialogue.script
  /-- No event was told. -/
  events_eq : later.events pacing = dialogue.events pacing

/-- What is silent does not show. -/
theorem ShownAt.of_silent {dialogue later : Dialogue} {terminal : Terminal}
    {opening : List Exchange} {pacing : Pacing} {columns : Nat}
    (h : dialogue.ShownAt terminal opening pacing columns) (hSilent : dialogue.Silent later pacing) :
    later.ShownAt terminal opening pacing columns := by
  refine ⟨h.script_eq.trans hSilent.script_eq.symm, ?_⟩
  rw [hSilent.events_eq]
  exact h.transcript_eq

/-- Silence after silence is silence. -/
theorem Silent.trans {dialogue later last : Dialogue} {pacing : Pacing}
    (h : dialogue.Silent later pacing) (hLater : later.Silent last pacing) :
    dialogue.Silent last pacing :=
  ⟨hLater.script_eq.trans h.script_eq, hLater.events_eq.trans h.events_eq⟩

/-- A completed instruction that the pacing does not pause after is told silently. -/
theorem silent_tell {dialogue : Dialogue} {pacing : Pacing}
    (h : dialogue.core.pauseShown? pacing = none) :
    dialogue.tell pacing.step =
        { dialogue with
          due := false
          moments := dialogue.moments ++ [Moment.completion dialogue.core] } ∧
      dialogue.Silent (dialogue.tell pacing.step) pacing := by
  have hTell : dialogue.tell pacing.step =
      { dialogue with
        due := false
        moments := dialogue.moments ++ [Moment.completion dialogue.core] } := by
    simp [tell, Core.wantsAcknowledgment_of_pauseShown?_eq_none h]
  refine ⟨hTell, ?_⟩
  rw [hTell]
  constructor
  · rfl
  · simp [events, Moment.events, h]

/-- A machine in the middle of a slice is where a dialogue is: it is paused exactly if the instruction
completed last has still to be told. -/
structure Reflects (dialogue : Dialogue) (machine : Machine) : Prop where
  /-- Nobody wants the run to be cancelled. -/
  calm : dialogue.cancelled = false
  /-- The machine presents the core of the dialogue. -/
  presents : machine.Presents dialogue.core
  /-- A pause shows the core, and nothing else is left to be told. -/
  told : (dialogue.due = false ∧ ∀ inspection, machine.status ≠ .paused inspection) ∨
    ∃ inspection, dialogue.due = true ∧ machine.status = .paused inspection ∧
      dialogue.core.pauseShown? machine.pacing = some inspection

/-- The first steps of a dialogue are silent. -/
def SilentFor (dialogue : Dialogue) (pacing : Pacing) (steps : Nat) : Prop :=
  ∀ step ≤ steps, dialogue.Silent (dialogue.after pacing.step step) pacing

/-- One more silent step at the beginning. -/
theorem SilentFor.succ {dialogue : Dialogue} {pacing : Pacing} {steps : Nat}
    (hNext : dialogue.Silent (dialogue.next pacing.step) pacing)
    (h : (dialogue.next pacing.step).SilentFor pacing steps) :
    dialogue.SilentFor pacing (steps + 1) := by
  intro step hStep
  cases step with
  | zero => exact ⟨rfl, rfl⟩
  | succ step => exact hNext.trans (h step (by omega))

/-- No step at all is silent. -/
theorem silentFor_zero (dialogue : Dialogue) (pacing : Pacing) : dialogue.SilentFor pacing 0 := by
  intro step hStep
  rw [Nat.le_zero.1 hStep]
  exact ⟨rfl, rfl⟩

/-- A machine that presents the core of a dialogue in which everything is told reflects it unless it is
paused. -/
theorem reflects_of_told {dialogue : Dialogue} {machine : Machine}
    (hCalm : dialogue.cancelled = false) (hDue : dialogue.due = false)
    (hPresents : machine.Presents dialogue.core)
    (hStatus : ∀ inspection, machine.status ≠ .paused inspection) : dialogue.Reflects machine :=
  ⟨hCalm, hPresents, .inl ⟨hDue, hStatus⟩⟩

/-- A running machine has the core of the dialogue that it reflects, and everything is told. -/
theorem Reflects.of_running {dialogue : Dialogue} {machine : Machine}
    (h : dialogue.Reflects machine) (hRunning : machine.status = .running) :
    machine.core = dialogue.core ∧ dialogue.due = false := by
  refine ⟨h.presents.of_live (.inl hRunning), ?_⟩
  rcases h.told with ⟨hDue, -⟩ | ⟨inspection, -, hPaused, -⟩
  · exact hDue
  · rw [hRunning] at hPaused
    contradiction

/-- A step of a running machine inside its program takes it along the dialogue: silently to a machine
that runs on, or to one that stands still. -/
theorem Reflects.step {dialogue : Dialogue} {machine : Machine} (h : dialogue.Reflects machine)
    (hRunning : machine.status = .running) (hInside : machine.position < machine.program.size) :
    ∃ steps, dialogue.SilentFor machine.pacing steps ∧
      (dialogue.after machine.pacing.step steps).Reflects machine.step := by
  obtain ⟨hCore, hDue⟩ := h.of_running hRunning
  have hStepped := step_stepped hRunning
  rw [hCore] at hStepped
  cases hTurn : dialogue.core.turn with
  | ends =>
    rw [← hCore] at hTurn
    exact absurd ((Core.turn_eq_ends_iff _).1 hTurn) (Nat.not_le_of_lt hInside)
  | moves core =>
    have hMoves : machine.core.turn = .moves core := by rw [hCore, hTurn]
    obtain ⟨hLater, hStatus⟩ := status_step hRunning hMoves
    have hNext : dialogue.next machine.pacing.step = { dialogue with core, due := true } := by
      simp [next, h.calm, hDue, hTurn]
    have hQuiet : dialogue.Silent (dialogue.next machine.pacing.step) machine.pacing := by
      rw [hNext]
      exact ⟨rfl, rfl⟩
    rcases Core.statusAfter_cases core machine.pacing with
      ⟨hShown, hAfter⟩ | ⟨inspection, hShown, hAfter⟩
    · -- Nothing is paused for: the instruction is told at once, and nobody notices.
      obtain ⟨hTell, hSilent⟩ : _ ∧ Silent { dialogue with core, due := true } _ _ :=
        silent_tell hShown
      have hAgain : (dialogue.next machine.pacing.step).next machine.pacing.step =
          tell { dialogue with core, due := true } machine.pacing.step := by
        rw [hNext]
        simp [next, h.calm]
      have hRest : (dialogue.next machine.pacing.step).SilentFor machine.pacing 1 := by
        refine .succ ?_ (silentFor_zero _ _)
        rw [hAgain, hNext]
        exact hSilent
      refine ⟨2, .succ hQuiet hRest, ?_⟩
      rw [after, after, after, hAgain, hTell]
      refine reflects_of_told h.calm rfl ?_ (by simp [hStatus, hAfter])
      rw [Presents, hStatus, hAfter]
      exact hLater
    · refine ⟨1, .succ hQuiet (silentFor_zero _ _), ?_⟩
      rw [after, after, hNext]
      refine ⟨h.calm, ?_, .inr ⟨inspection, rfl, hStatus.trans hAfter, ?_⟩⟩
      · rw [Presents, hStatus, hAfter]
        exact hLater
      · rw [pacing_step]
        exact hShown
  | asks =>
    rw [hTurn] at hStepped
    have hPresents : machine.step.Presents dialogue.core := by
      rw [Presents, hStepped.2]
      exact ⟨hCore ▸ hStepped.1, hTurn⟩
    exact ⟨0, silentFor_zero _ _, reflects_of_told h.calm hDue hPresents (by simp [hStepped.2])⟩
  | fails fault =>
    rw [hTurn] at hStepped
    have hPresents : machine.step.Presents dialogue.core := by
      rw [Presents, hStepped.2]
      exact ⟨hCore ▸ hStepped.1, hTurn⟩
    exact ⟨0, silentFor_zero _ _, reflects_of_told h.calm hDue hPresents (by simp [hStepped.2])⟩

/-- A machine that runs past the end of its program halts where the dialogue is. -/
theorem Reflects.halt {dialogue : Dialogue} {machine : Machine} (h : dialogue.Reflects machine)
    (hRunning : machine.status = .running) (hEnd : machine.program.size ≤ machine.position) :
    dialogue.Reflects machine.halt := by
  obtain ⟨hCore, hDue⟩ := h.of_running hRunning
  have hEnds := (Core.turn_eq_ends_iff machine.core).2 hEnd
  rw [hCore] at hEnds
  exact reflects_of_told h.calm hDue ⟨hCore, hEnds⟩ (by simp [Machine.halt])

/-- Silent steps after silent steps. -/
theorem SilentFor.append {dialogue : Dialogue} {pacing : Pacing} {first second : Nat}
    (hFirst : dialogue.SilentFor pacing first)
    (hSecond : (dialogue.after pacing.step first).SilentFor pacing second) :
    dialogue.SilentFor pacing (first + second) := by
  intro step hStep
  rcases Nat.le_total step first with hLe | hLe
  · exact hFirst step hLe
  · obtain ⟨more, rfl⟩ := Nat.exists_eq_add_of_le hLe
    rw [after_add]
    exact (hFirst first (Nat.le_refl _)).trans (hSecond more (by omega))

/-- Running takes a machine along the dialogue silently. -/
theorem Reflects.execute {dialogue : Dialogue} {machine : Machine} (h : dialogue.Reflects machine)
    (cycles : Nat) :
    ∃ steps, dialogue.SilentFor machine.pacing steps ∧
      (dialogue.after machine.pacing.step steps).Reflects (machine.execute cycles).2 := by
  have hKept : ∃ steps, dialogue.SilentFor machine.pacing steps ∧
      (dialogue.after machine.pacing.step steps).Reflects (machine.execute cycles).2 ∧
      (machine.execute cycles).2.pacing = machine.pacing := by
    refine execute_invariant (P := fun after => ∃ steps, dialogue.SilentFor machine.pacing steps ∧
      (dialogue.after machine.pacing.step steps).Reflects after ∧ after.pacing = machine.pacing)
      ?_ ?_ ⟨0, silentFor_zero _ _, h, rfl⟩ cycles
    · rintro after ⟨steps, hSilent, hAfter, hPacing⟩ hRunning hEnd
      exact ⟨steps, hSilent, hAfter.halt hRunning hEnd, hPacing⟩
    · rintro after ⟨steps, hSilent, hAfter, hPacing⟩ hRunning hInside
      obtain ⟨more, hMore, hLater⟩ := hAfter.step hRunning hInside
      rw [hPacing] at hMore hLater
      refine ⟨steps + more, hSilent.append hMore, ?_, (pacing_step after).trans hPacing⟩
      rw [after_add]
      exact hLater
  obtain ⟨steps, hSilent, hAfter, -⟩ := hKept
  exact ⟨steps, hSilent, hAfter⟩

/-- A machine that has used up a budget has come further in the dialogue. -/
theorem Reflects.executed_lt {dialogue later : Dialogue} {machine : Machine} {cycles : Nat}
    (h : dialogue.Reflects machine) (hLater : later.Reflects (machine.execute cycles).2)
    (hStill : (machine.execute cycles).2.status = .running) (hCycles : 0 < cycles) :
    dialogue.core.executed < later.core.executed := by
  have hRunning : machine.status = .running := by
    by_contra hStands
    rw [execute_of_status_ne_running hStands] at hStill
    exact hStands hStill
  have hCount : (machine.execute cycles).2.executed = machine.executed + cycles :=
    (executed_execute machine cycles).2 hStill
  have hHere : machine.executed = dialogue.core.executed :=
    congrArg Core.executed (h.of_running hRunning).1
  have hThere : (machine.execute cycles).2.executed = later.core.executed :=
    congrArg Core.executed (hLater.of_running hStill).1
  omega

end Dialogue

end Session

end ByteTape
