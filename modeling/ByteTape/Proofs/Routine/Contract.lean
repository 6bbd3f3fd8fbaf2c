import ByteTape.Proofs.Core.Progress
import ByteTape.Proofs.Core.StackDiscipline
import ByteTape.Proofs.Structured.Code

/-!
# Contracts of program texts

A piece of text leads from one scene to another when every run that comes to it with the first
scene, wherever the text stands in a program and whatever loops are around it, leaves it with the
second one, within the same loops. Contracts are put together as texts are: one symbol by its
effect, a text behind another, and a balanced text between brackets by the scenes at which it is
met again. Unlike the bytes of a structured run a scene has the cells that were made. If the text
of a whole program leads from the first scene to a last one, every attended run of the program
halts with the last one.
-/

namespace ByteTape

open ByteTape.Bracket Program

/-- What a piece of text finds and leaves. -/
structure Scene where
  /-- The tape with the cells made so far. -/
  tape : Tape
  /-- Everything written so far. -/
  output : String
  /-- The number of lines taken. -/
  consumed : Nat

namespace Scene

/-- The scene before the first symbol of a program. -/
def start : Scene :=
  ⟨Tape.blank, "", 0⟩

/-- The scene after an instruction other than a bracket, if the instruction can be done. -/
def after? (scene : Scene) (answer : Nat → String) : Instruction → Option Scene
  | .increment => some { scene with tape := scene.tape.increment }
  | .decrement => some { scene with tape := scene.tape.decrement }
  | .right => some { scene with tape := scene.tape.moveRight }
  | .left =>
    match scene.tape.moveLeft with
    | .ok () tape => some { scene with tape }
    | .error _ _ => none
  | .output =>
    some { scene with output := scene.output.push (Machine.charOfByte scene.tape.read) }
  | .input =>
    some
      { scene with
        tape := scene.tape.write (Machine.byteOfLine (answer scene.consumed))
        consumed := scene.consumed + 1 }
  | .loopOpen => none
  | .loopClose => none
  | .breakpoint => some scene
  | .comment _ => some scene

end Scene

namespace Core

variable {answer : Nat → String} {core : Core} {program : Program} {position : Nat}
  {stack : LoopStack} {scene : Scene}

/-- A core has a scene at a position of a program, within the loops of a stack. -/
structure HasAt (core : Core) (program : Program) (position : Nat) (stack : LoopStack)
    (scene : Scene) : Prop where
  /-- The core runs the program. -/
  program_eq : core.program = program
  /-- The core is at the position. -/
  position_eq : core.position = position
  /-- The core is within the loops. -/
  stack_eq : core.stack = stack
  /-- The core has the tape. -/
  tape_eq : core.tape = scene.tape
  /-- The core has the output. -/
  output_eq : core.output = scene.output

/-- A core runs on to a scene at another position, within the loops of a stack. -/
def Reaches (answer : Nat → String) (core : Core) (taken : Nat) (program : Program)
    (position : Nat) (stack : LoopStack) (scene : Scene) : Prop :=
  ∃ last, core.RunsOn answer taken last scene.consumed ∧ last.HasAt program position stack scene

/-- A completed instruction reaches the scene it leaves. -/
theorem reaches_of_moves {next : Core} {taken : Nat} (hTurn : core.turn = .moves next)
    (hTaken : scene.consumed = taken) (hNext : next.HasAt program position stack scene) :
    core.Reaches answer taken program position stack scene := by
  refine ⟨next, ?_, hNext⟩
  rw [hTaken]
  exact .of_moves hTurn taken

/-- What is reached from a later core is reached from an earlier one. -/
theorem Reaches.prepend {first : Core} {taken between : Nat}
    (hRun : first.RunsOn answer taken core between)
    (h : core.Reaches answer between program position stack scene) :
    first.Reaches answer taken program position stack scene := by
  obtain ⟨last, hLast, hScene⟩ := h
  exact ⟨last, hRun.trans hLast, hScene⟩

/-- An instruction other than a bracket leaves the scene that comes after it. -/
theorem HasAt.reaches_next (h : core.HasAt program position stack scene)
    {instruction : Instruction} (hHere : program.instruction? position = some instruction)
    {next : Scene} (hAfter : scene.after? answer instruction = some next) :
    core.Reaches answer scene.consumed program (position + 1) stack next := by
  obtain ⟨tape, output, consumed⟩ := scene
  obtain ⟨rfl, rfl, rfl, rfl, rfl⟩ := h
  have hTurn := turn_eq_effect hHere
  cases instruction with
  | left =>
    cases hMove : core.tape.moveLeft with
    | ok _ moved =>
      simp only [Scene.after?, hMove, Option.some.injEq] at hAfter
      simp only [effect, begun, hMove] at hTurn
      subst hAfter
      exact reaches_of_moves hTurn rfl ⟨rfl, rfl, rfl, rfl, rfl⟩
    | error fault tape => simp [Scene.after?, hMove] at hAfter
  | input =>
    cases hAfter
    exact ⟨core.answer (answer consumed), .of_asks hTurn _, rfl, rfl, rfl, rfl, rfl⟩
  | loopOpen => contradiction
  | loopClose => contradiction
  | _ =>
    cases hAfter
    exact reaches_of_moves hTurn rfl ⟨rfl, rfl, rfl, rfl, rfl⟩

/-- An opening bracket passes over its loop at a zero cell. -/
theorem HasAt.reaches_over (h : core.HasAt program position stack scene) {closing : Nat}
    (hPairs : program.Pairs position closing) (hZero : scene.tape.read = 0) :
    core.Reaches answer scene.consumed program (closing + 1) stack scene := by
  obtain ⟨rfl, rfl, rfl, hTape, hOutput⟩ := h
  have hTurn := turn_of_skipped hPairs (hTape ▸ hZero)
  exact reaches_of_moves hTurn rfl ⟨rfl, rfl, rfl, hTape, hOutput⟩

/-- An opening bracket enters its loop at a cell other than zero. -/
theorem HasAt.reaches_into (h : core.HasAt program position stack scene)
    (hOpens : program.instruction? position = some .loopOpen) (hNonzero : scene.tape.read ≠ 0) :
    core.Reaches answer scene.consumed program (position + 1) (stack.push position) scene := by
  obtain ⟨rfl, rfl, rfl, hTape, hOutput⟩ := h
  have hTurn := turn_of_entered hOpens (hTape ▸ hNonzero)
  exact reaches_of_moves hTurn rfl ⟨rfl, rfl, rfl, hTape, hOutput⟩

/-- A closing bracket leaves its loop at a zero cell and goes back to the opening bracket
otherwise. -/
theorem HasAt.reaches_close {opening : Nat}
    (h : core.HasAt program position (stack.push opening) scene)
    (hCloses : program.instruction? position = some .loopClose) :
    core.Reaches answer scene.consumed program
      (if scene.tape.read = 0 then position + 1 else opening) stack scene := by
  obtain ⟨rfl, rfl, hStack, hTape, hOutput⟩ := h
  have hTurn := turn_of_closed hCloses hStack
  rw [hTape] at hTurn
  exact reaches_of_moves hTurn rfl ⟨rfl, rfl, rfl, hTape, hOutput⟩

end Core

/-- Wherever a text stands in a program, a core that comes to it with one scene runs through it and
has the other scene behind it, within the same loops. -/
def Leads (answer : Nat → String) (text : List Char) (before after : Scene) : Prop :=
  ∀ ⦃program : Program⦄ ⦃front back : List Char⦄ ⦃stack : LoopStack⦄ ⦃core : Core⦄,
    program.symbols.toList = front ++ text ++ back →
    core.HasAt program front.length stack before →
    core.Reaches answer before.consumed program (front.length + text.length) stack after

/-- A body of a loop is met with one scene and, each time it is met with a current cell other than
zero, run through, until the loop is left with the other scene. -/
inductive Repeats (answer : Nat → String) (body : List Char) : Scene → Scene → Prop
  /-- The loop is left at a zero cell. -/
  | leave {scene : Scene} (hZero : scene.tape.read = 0) : Repeats answer body scene scene
  /-- The body is run through, and the loop is met again. -/
  | again {scene next last : Scene} (hNonzero : scene.tape.read ≠ 0)
    (hBody : Leads answer body scene next) (hMore : Repeats answer body next last) :
    Repeats answer body scene last

section Rules

variable {answer : Nat → String}

/-- Nothing leads nowhere. -/
theorem Leads.nil (scene : Scene) : Leads answer [] scene scene := by
  intro program front back stack core hText hCore
  exact ⟨core, .refl core _, hCore⟩

/-- A text behind another goes on from the scene the other leads to. -/
theorem Leads.append {first second : List Char} {before between after : Scene}
    (hFirst : Leads answer first before between) (hSecond : Leads answer second between after) :
    Leads answer (first ++ second) before after := by
  intro program front back stack core hText hCore
  have hLeft : program.symbols.toList = front ++ first ++ (second ++ back) := by
    rw [hText]
    simp only [List.append_assoc]
  have hRight : program.symbols.toList = (front ++ first) ++ second ++ back := by
    rw [hText]
    simp only [List.append_assoc]
  obtain ⟨middle, hRun, hMiddle⟩ := hFirst hLeft hCore
  rw [← List.length_append] at hMiddle
  have hReaches := (hSecond hRight hMiddle).prepend hRun
  rwa [List.length_append, Nat.add_assoc, ← List.length_append] at hReaches

/-- A symbol that is no bracket is done before the text behind it. -/
theorem Leads.cons {symbol : Char} {text : List Char} {scene next last : Scene}
    (h : scene.after? answer (Instruction.ofChar symbol) = some next)
    (hText : Leads answer text next last) : Leads answer (symbol :: text) scene last := by
  have hSymbol : Leads answer [symbol] scene next := by
    intro program front back stack core hProgram hCore
    rw [List.append_assoc, List.singleton_append] at hProgram
    exact hCore.reaches_next (instruction?_of_append hProgram rfl) h
  exact hSymbol.append hText

section Symbols

variable {text : List Char} {tape : Tape} {written : String} {taken : Nat} {last : Scene}

/-- Counting up, then the text. -/
theorem Leads.increment (h : Leads answer text ⟨tape.increment, written, taken⟩ last) :
    Leads answer ('+' :: text) ⟨tape, written, taken⟩ last :=
  .cons rfl h

/-- Counting down, then the text. -/
theorem Leads.decrement (h : Leads answer text ⟨tape.decrement, written, taken⟩ last) :
    Leads answer ('-' :: text) ⟨tape, written, taken⟩ last :=
  .cons rfl h

/-- A move to the right, then the text. -/
theorem Leads.right (h : Leads answer text ⟨tape.moveRight, written, taken⟩ last) :
    Leads answer ('>' :: text) ⟨tape, written, taken⟩ last :=
  .cons rfl h

/-- A move to the left that can be done, then the text. -/
theorem Leads.left {moved : Tape} (hMove : tape.moveLeft = .ok () moved)
    (h : Leads answer text ⟨moved, written, taken⟩ last) :
    Leads answer ('<' :: text) ⟨tape, written, taken⟩ last := by
  have hAfter : Scene.after? ⟨tape, written, taken⟩ answer .left = some ⟨moved, written, taken⟩ := by
    rw [Scene.after?, hMove]
  exact .cons hAfter h

/-- The current cell written, then the text. -/
theorem Leads.output (h : Leads answer text ⟨tape, written.push (Machine.charOfByte tape.read), taken⟩
    last) : Leads answer ('.' :: text) ⟨tape, written, taken⟩ last :=
  .cons rfl h

/-- The next line stored, then the text. -/
theorem Leads.input
    (h : Leads answer text ⟨tape.write (Machine.byteOfLine (answer taken)), written, taken + 1⟩ last) :
    Leads answer (',' :: text) ⟨tape, written, taken⟩ last :=
  .cons rfl h

end Symbols

/-- A balanced text between brackets leads to the scene at which its repetition ends. -/
theorem Repeats.leads {body : List Char} {before after : Scene}
    (h : Repeats answer body before after) (hBalanced : Balanced body) :
    Leads answer ('[' :: body ++ [']']) before after := by
  intro program front back stack core hText hCore
  have hPairs := pairs_of_text hText hBalanced
  have hInside : program.symbols.toList = (front ++ ['[']) ++ body ++ (']' :: back) := by
    rw [hText]
    simp
  have hEntry : (front ++ ['[']).length = front.length + 1 := by simp
  have hClosing : front.length + 1 + body.length = front.length + body.length + 1 := by omega
  have hEnd : front.length + ('[' :: body ++ [']']).length = front.length + body.length + 1 + 1 := by
    simp only [List.cons_append, List.length_cons, List.length_append, List.length_nil]
    omega
  rw [hEnd]
  induction h generalizing core with
  | leave hZero => exact hCore.reaches_over hPairs hZero
  | again hNonzero hBody hMore ih =>
    obtain ⟨entered, hEnter, hEntered⟩ := hCore.reaches_into hPairs.opens hNonzero
    rw [← hEntry] at hEntered
    obtain ⟨through, hThrough, hBehind⟩ := hBody hInside hEntered
    rw [hEntry, hClosing] at hBehind
    obtain ⟨back, hBack, hAfter⟩ := hBehind.reaches_close hPairs.closes
    have hRun := hEnter.trans (hThrough.trans hBack)
    split at hAfter
    · -- The closing bracket itself leaves the loop, so there is no other repetition.
      rename_i hZero
      cases hMore with
      | leave => exact ⟨back, hRun, hAfter⟩
      | again hNonzero' => exact absurd hZero hNonzero'
    · exact (ih hAfter).prepend hRun

end Rules

namespace Attendance

open ByteTape.Core Machine

/-- An attended machine whose text leads from the first scene to a last one comes to its end, and its
end is that it halts with the output of the last scene, having taken as many lines, with the same tape
and within no loop. -/
theorem halts_of_leads {answer : Nat → String} {budget : Nat → Nat}
    (hBudget : ∀ slice, 0 < budget slice) (pacing : Pacing) {source : String} {final : Scene}
    (h : Leads answer source.toList .start final) :
    let attended := afterSlices answer budget (ofSource source pacing)
    (∃ slices, isFinal (attended slices).event = true) ∧
      ∀ slices, isFinal (attended slices).event = true →
        (attended slices).event = .halted final.output ∧
          (attended slices).requests = final.consumed ∧
          (attended slices).machine.stack = LoopStack.empty ∧
          (attended slices).machine.tape = final.tape := by
  intro attended
  have hText : (Program.ofString source).symbols.toList = [] ++ source.toList ++ [] := by
    simp [Program.ofString]
  have hStart : (Core.start (Program.ofString source)).HasAt (Program.ofString source)
      ([] : List Char).length LoopStack.empty .start := ⟨rfl, rfl, rfl, rfl, rfl⟩
  obtain ⟨last, hRun, hLast⟩ := h hText hStart
  have hEnds : last.turn = .ends := by
    rw [turn_eq_ends_iff, hLast.program_eq, hLast.position_eq, Program.size_ofString,
      String.length_toList, List.length_nil, Nat.zero_add]
  constructor
  · obtain ⟨slices, hOver, -⟩ := exists_over hBudget pacing hRun (.inl hEnds)
    exact ⟨slices, hOver.isFinal_event⟩
  · intro slices hFinal
    obtain ⟨core, hFollows⟩ :=
      afterSlices_follows answer hBudget (Program.ofString source) pacing slices
    have hOver := hFollows.over_of_final hFinal
    obtain ⟨rfl, hRequests⟩ :=
      hFollows.run.unique (hFollows.presents.stuck_of_ended hOver.1) hRun (.inl hEnds)
    rcases hFollows.presents.of_ended hOver.1 with ⟨-, hHalted, hCore⟩ | ⟨fault, hFails, -, -⟩
    · have hOutput := (congrArg Core.output hCore).trans hLast.output_eq
      exact ⟨hOver.2.trans ((event_eq_halted_iff _ _).2 ⟨hHalted, hOutput⟩), hRequests,
        (congrArg Core.stack hCore).trans hLast.stack_eq,
        (congrArg Core.tape hCore).trans hLast.tape_eq⟩
    · rw [hEnds] at hFails
      contradiction

end Attendance

end ByteTape
