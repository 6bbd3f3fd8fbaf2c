import ByteTape.Fault

/-!
# The stack of entered loops

While a loop runs, the position of its opening bracket stands on the stack. The innermost loop is
on top; listings go the other way, from the outermost loop inwards.
-/

namespace ByteTape

/-- The positions of the opening brackets of the loops being run. -/
structure LoopStack where
  /-- The positions, innermost loop first. -/
  entries : List Nat
  deriving DecidableEq

namespace LoopStack

/-- The stack of a machine that is in no loop. -/
def empty : LoopStack :=
  ⟨[]⟩

/-- The number of loops entered. -/
def depth (stack : LoopStack) : Nat :=
  stack.entries.length

/-- Whether no loop is entered. -/
def isEmpty (stack : LoopStack) : Bool :=
  stack.entries.isEmpty

/-- The positions from the outermost loop to the innermost. -/
def toList (stack : LoopStack) : List Nat :=
  stack.entries.reverse

/-- The stack with the given positions, the outermost loop first. -/
def ofList (positions : List Nat) : LoopStack :=
  ⟨positions.reverse⟩

/-- Enter the loop that opens at a position. -/
def push (stack : LoopStack) (position : Nat) : LoopStack :=
  ⟨position :: stack.entries⟩

/-- Leave the innermost loop, telling where it opens. Whether it succeeds or fails, the result holds
the stack there is then. -/
def pop (stack : LoopStack) : EStateM.Result Fault LoopStack Nat :=
  match stack.entries with
  | [] => .error (Fault.ofCause .stackUnderflow) stack
  | position :: rest => .ok position ⟨rest⟩

/-- Where the innermost loop opens. -/
def peek (stack : LoopStack) : Except Fault Nat :=
  match stack.entries with
  | [] => .error (Fault.ofCause .stackUnderflow)
  | position :: _ => .ok position

/-- Positions between brackets, divided by a comma and a blank. -/
def listing (positions : List Nat) : String :=
  "[" ++ String.intercalate ", " (positions.map Nat.repr) ++ "]"

/-- The listing of a stack, outermost loop first. -/
def text (stack : LoopStack) : String :=
  listing stack.toList

/-- A stack made from positions lists these positions. -/
@[simp]
theorem toList_ofList (positions : List Nat) : (ofList positions).toList = positions := by
  simp [ofList, toList]

/-- A loop entered last is listed last. -/
@[simp]
theorem toList_push (stack : LoopStack) (position : Nat) :
    (stack.push position).toList = stack.toList ++ [position] := by
  simp [toList, push]

/-- Only the stack of a machine that is in no loop lists nothing. -/
theorem toList_eq_nil_iff (stack : LoopStack) : stack.toList = [] ↔ stack = empty := by
  obtain ⟨entries⟩ := stack
  simp [toList, empty]

/-- Leaving a loop undoes entering it. -/
@[simp]
theorem pop_push (stack : LoopStack) (position : Nat) :
    (stack.push position).pop = .ok position stack :=
  rfl

/-- Leaving a loop fails exactly when none is entered, and then it leaves the stack as it was. -/
theorem pop_eq_error_iff (stack : LoopStack) (fault : Fault) (after : LoopStack) :
    stack.pop = .error fault after ↔
      stack.toList = [] ∧ Fault.ofCause .stackUnderflow = fault ∧ stack = after := by
  obtain ⟨entries⟩ := stack
  cases entries <;> simp [pop, toList]

end LoopStack

end ByteTape
