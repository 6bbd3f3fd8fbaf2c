import ByteTape.Machine.Call
import ByteTape.Proofs.Structured.Code
import ByteTape.Proofs.UnboundedTape

/-!
# What nested blocks mean

A structured run has no position to jump to and no stack: a loop repeats its body while the current
byte is not zero, and a sequence of blocks is run in its order. The tape has no end to the right and
is zero at first. A run ends behind the last block, or at a move to the left of the first address;
a run without end has no ending at all. Positions are carried along only to tell where such a move
stands in the text.
-/

namespace ByteTape

/-- The state of a structured run. -/
structure BlockState where
  /-- The bytes at all addresses. -/
  bytes : Nat → UInt8
  /-- The current address. -/
  address : Nat
  /-- Everything written so far. -/
  output : String
  /-- The number of lines taken. -/
  consumed : Nat

namespace BlockState

/-- The state before the first block. -/
def start : BlockState :=
  ⟨fun _ => 0, 0, "", 0⟩

/-- The current byte. -/
def current (state : BlockState) : UInt8 :=
  state.bytes state.address

/-- Store a byte at the current address. -/
def store (state : BlockState) (value : UInt8) : BlockState :=
  { state with bytes := storeByte state.bytes state.address value }

/-- The byte that a line brings: the code point of its first character modulo 256, and zero if there
is none. -/
def brought (line : String) : UInt8 :=
  match line.toList.head? with
  | none => 0
  | some character => UInt8.ofNat (character.toNat % 256)

/-- What an instruction other than a bracket does; nothing is left of the first address. A byte is
written as the character with its code point, and the next line is taken from the sequence of all
lines. -/
def applied? (state : BlockState) (answer : Nat → String) : Instruction → Option BlockState
  | .increment => some (state.store (state.current + 1))
  | .decrement => some (state.store (state.current - 1))
  | .right => some { state with address := state.address + 1 }
  | .left =>
    match state.address with
    | 0 => none
    | previous + 1 => some { state with address := previous }
  | .output => some { state with output := state.output.push (Char.ofNat state.current.toNat) }
  | .input =>
    some
      { state.store (brought (answer state.consumed)) with
        consumed := state.consumed + 1 }
  | _ => some state

/-- A machine stores for a line the byte that the line brings. -/
theorem byteOfLine_eq_brought (line : String) : Machine.byteOfLine line = brought line := by
  unfold Machine.byteOfLine brought
  cases line.toList with
  | nil => rfl
  | cons character rest =>
    refine UInt8.toNat_inj.1 ?_
    simp only [List.head?_cons, UInt8.toNat_ofNat', Nat.mod_mod]

/-- Only a move to the left of the first address cannot be done. -/
theorem applied?_eq_none_iff (state : BlockState) (answer : Nat → String)
    (instruction : Instruction) :
    state.applied? answer instruction = none ↔ instruction = .left ∧ state.address = 0 := by
  cases instruction with
  | left => cases hAddress : state.address <;> simp [applied?, hAddress]
  | _ => simp [applied?]

end BlockState

/-- How a structured run ends. -/
inductive Ending where
  /-- All blocks are done. -/
  | finished (state : BlockState)
  /-- The move at a position of the text leaves the tape to the left. -/
  | underflow (position : Nat) (state : BlockState)

/-- The blocks of a code that begins at a position run from a state to an ending. -/
inductive Executes (answer : Nat → String) : Nat → Code → BlockState → Ending → Prop
  /-- Without blocks the run is finished. -/
  | done (position : Nat) (state : BlockState) :
    Executes answer position .done state (.finished state)
  /-- A plain symbol is applied. -/
  | plain {position : Nat} {symbol : PlainSymbol} {rest : Code} {state next : BlockState}
    {ending : Ending}
    (hApply : state.applied? answer (Instruction.ofChar symbol.symbol) = some next)
    (hRest : Executes answer (position + 1) rest next ending) :
    Executes answer position (.plain symbol rest) state ending
  /-- A plain symbol cannot be applied. -/
  | underflow {position : Nat} {symbol : PlainSymbol} {rest : Code} {state : BlockState}
    (hApply : state.applied? answer (Instruction.ofChar symbol.symbol) = none) :
    Executes answer position (.plain symbol rest) state (.underflow position state)
  /-- A loop is left at a zero byte. -/
  | leave {position : Nat} {body rest : Code} {state : BlockState} {ending : Ending}
    (hZero : state.current = 0)
    (hRest : Executes answer (position + body.size + 2) rest state ending) :
    Executes answer position (.loop body rest) state ending
  /-- A loop runs its body and is met again. -/
  | again {position : Nat} {body rest : Code} {state next : BlockState} {ending : Ending}
    (hNonzero : state.current ≠ 0)
    (hBody : Executes answer (position + 1) body state (.finished next))
    (hLoop : Executes answer position (.loop body rest) next ending) :
    Executes answer position (.loop body rest) state ending
  /-- A loop does not get through its body. -/
  | abort {position place : Nat} {body rest : Code} {state last : BlockState}
    (hNonzero : state.current ≠ 0)
    (hBody : Executes answer (position + 1) body state (.underflow place last)) :
    Executes answer position (.loop body rest) state (.underflow place last)

end ByteTape
