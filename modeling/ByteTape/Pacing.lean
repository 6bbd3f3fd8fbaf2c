import ByteTape.Delay
import ByteTape.Instruction

/-!
# Pacing: when a run pauses

A run can be watched instruction by instruction, waiting for an acknowledgment, for a delay, or
for both. A breakpoint always pauses and wants to be acknowledged.
-/

namespace ByteTape

/-- How a pause ends. -/
structure Pause where
  /-- Whether someone has to acknowledge it. -/
  acknowledge : Bool
  /-- The time to wait before going on. -/
  delay : Delay
  deriving DecidableEq

namespace Pause

/-- A look at a machine that asks for nothing. -/
def brief : Pause :=
  ⟨false, Delay.none⟩

end Pause

/-- When to pause during a run. -/
structure Pacing where
  /-- Whether every effectful instruction waits for an acknowledgment. -/
  step : Bool
  /-- The time to wait after every effectful instruction. -/
  delay : Delay
  deriving DecidableEq

namespace Pacing

/-- The pacing of a run that pauses at breakpoints only. -/
def plain : Pacing :=
  ⟨false, Delay.none⟩

/-- The pacing with a delay given in seconds. -/
def ofSeconds (step : Bool) (seconds : Number.Binary64) : Pacing :=
  ⟨step, Delay.ofSeconds seconds⟩

/-- Whether effectful instructions other than breakpoints pause. -/
def pauses (pacing : Pacing) : Bool :=
  pacing.step || pacing.delay != Delay.none

/-- The pause that follows an instruction, if there is one. -/
def pauseAfter (pacing : Pacing) (instruction : Instruction) : Option Pause :=
  if instruction = .breakpoint then
    some ⟨true, pacing.delay⟩
  else if instruction.isEffectful && pacing.pauses then
    some ⟨pacing.step, pacing.delay⟩
  else
    none

/-- A comment is never paused after. -/
@[simp]
theorem pauseAfter_comment (pacing : Pacing) (character : Char) :
    pacing.pauseAfter (.comment character) = none := by
  simp [pauseAfter, Instruction.isEffectful]

end Pacing

end ByteTape
