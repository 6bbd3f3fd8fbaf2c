import ByteTape.Program
import Mathlib.Data.List.Basic

/-!
# Balanced text and the bracket scan

Brackets are counted from left to right; a text is balanced when the count never has to go below
zero and ends at zero. An opening and a closing bracket pair when the text strictly between them is
balanced. The main statement is that the forward scan of a program, which keeps nothing but a
number of inner loops, finds exactly the closing bracket that pairs with its opening one, and fails
exactly when there is none.
-/

namespace ByteTape

namespace Bracket

/-- The number of brackets open after one more symbol; none when it closes what is not open. -/
def countSymbol (depth : Nat) (symbol : Char) : Option Nat :=
  match Instruction.ofChar symbol with
  | .loopOpen => some (depth + 1)
  | .loopClose =>
    match depth with
    | 0 => none
    | outer + 1 => some outer
  | _ => some depth

/-- The number of brackets open after a text, with some of them open before it. -/
def nesting (symbols : List Char) (depth : Nat) : Option Nat :=
  symbols.foldlM countSymbol depth

/-- No bracket of the text is closed before it is opened, and none is left open. -/
def Balanced (symbols : List Char) : Prop :=
  nesting symbols 0 = some 0

/-- Whether a text is balanced can be computed. -/
instance (symbols : List Char) : Decidable (Balanced symbols) :=
  inferInstanceAs (Decidable (nesting symbols 0 = some 0))

/-- An opening bracket adds one. -/
theorem countSymbol_of_loopOpen {symbol : Char} (h : Instruction.ofChar symbol = .loopOpen)
    (depth : Nat) : countSymbol depth symbol = some (depth + 1) := by
  simp [countSymbol, h]

/-- A closing bracket takes one away. -/
theorem countSymbol_of_loopClose {symbol : Char} (h : Instruction.ofChar symbol = .loopClose)
    (depth : Nat) : countSymbol (depth + 1) symbol = some depth := by
  simp [countSymbol, h]

/-- A closing bracket needs one that is open. -/
theorem countSymbol_zero_of_loopClose {symbol : Char}
    (h : Instruction.ofChar symbol = .loopClose) : countSymbol 0 symbol = none := by
  simp [countSymbol, h]

/-- Everything but a bracket leaves the count alone. -/
theorem countSymbol_of_plain {symbol : Char} (hOpen : Instruction.ofChar symbol ≠ .loopOpen)
    (hClose : Instruction.ofChar symbol ≠ .loopClose) (depth : Nat) :
    countSymbol depth symbol = some depth := by
  unfold countSymbol
  split <;> simp_all

/-- An empty text opens and closes nothing. -/
@[simp]
theorem nesting_nil (depth : Nat) : nesting [] depth = some depth :=
  rfl

/-- A text is counted symbol by symbol. -/
theorem nesting_cons (symbol : Char) (rest : List Char) (depth : Nat) :
    nesting (symbol :: rest) depth = (countSymbol depth symbol).bind (nesting rest) :=
  rfl

/-- Two texts in a row are counted one after the other. -/
theorem nesting_append (first second : List Char) (depth : Nat) :
    nesting (first ++ second) depth = (nesting first depth).bind (nesting second) := by
  simp only [nesting, List.foldlM_append]
  rfl

/-- Brackets that are open around a text are not seen by it. -/
theorem nesting_add {symbols : List Char} {depth after : Nat} (outer : Nat)
    (h : nesting symbols depth = some after) :
    nesting symbols (depth + outer) = some (after + outer) := by
  induction symbols generalizing depth with
  | nil =>
    simp only [nesting_nil, Option.some.injEq] at h ⊢
    rw [h]
  | cons symbol rest ih =>
    rw [nesting_cons] at h ⊢
    by_cases hOpen : Instruction.ofChar symbol = .loopOpen
    · rw [countSymbol_of_loopOpen hOpen] at h ⊢
      rw [Nat.add_right_comm]
      exact ih h
    · by_cases hClose : Instruction.ofChar symbol = .loopClose
      · cases depth with
        | zero =>
          rw [countSymbol_zero_of_loopClose hClose] at h
          contradiction
        | succ depth =>
          rw [countSymbol_of_loopClose hClose] at h
          rw [Nat.add_right_comm, countSymbol_of_loopClose hClose]
          exact ih h
      · rw [countSymbol_of_plain hOpen hClose] at h ⊢
        exact ih h

/-- A balanced text leaves the number of open brackets as it was. -/
theorem Balanced.nesting_eq {symbols : List Char} (h : Balanced symbols) (depth : Nat) :
    nesting symbols depth = some depth := by
  have hOuter := nesting_add depth h
  rwa [Nat.zero_add] at hOuter

/-- The empty text is balanced. -/
theorem balanced_nil : Balanced [] :=
  rfl

/-- Two balanced texts in a row are balanced. -/
theorem Balanced.append {first second : List Char} (hFirst : Balanced first)
    (hSecond : Balanced second) : Balanced (first ++ second) := by
  rw [Balanced, nesting_append, hFirst]
  exact hSecond

/-- A symbol that is no bracket is balanced by itself. -/
theorem balanced_singleton {symbol : Char} (hOpen : Instruction.ofChar symbol ≠ .loopOpen)
    (hClose : Instruction.ofChar symbol ≠ .loopClose) : Balanced [symbol] := by
  rw [Balanced, nesting_cons, countSymbol_of_plain hOpen hClose]
  rfl

/-- A text without brackets is balanced. -/
theorem balanced_of_plain {symbols : List Char}
    (h : ∀ symbol ∈ symbols, Instruction.ofChar symbol ≠ .loopOpen ∧
      Instruction.ofChar symbol ≠ .loopClose) : Balanced symbols := by
  induction symbols with
  | nil => exact balanced_nil
  | cons symbol symbols ih =>
    obtain ⟨hOpen, hClose⟩ := h symbol List.mem_cons_self
    exact (balanced_singleton hOpen hClose).append
      (ih fun other hMem => h other (List.mem_cons_of_mem _ hMem))

/-- A balanced text between brackets is balanced. -/
theorem Balanced.bracketed {symbols : List Char} (h : Balanced symbols) {opening closing : Char}
    (hOpen : Instruction.ofChar opening = .loopOpen)
    (hClose : Instruction.ofChar closing = .loopClose) :
    Balanced (opening :: symbols ++ [closing]) := by
  rw [Balanced, List.cons_append, nesting_cons, countSymbol_of_loopOpen hOpen, Option.bind_some,
    nesting_append, h.nesting_eq, Option.bind_some, nesting_cons,
    countSymbol_of_loopClose hClose]
  rfl

end Bracket

namespace Program

open ByteTape.Bracket

/-- The symbols from one address up to another, the latter left out. -/
def between (program : Program) (start stop : Nat) : List Char :=
  (program.symbols.toList.drop start).take (stop - start)

/-- The brackets at two addresses belong together. -/
structure Pairs (program : Program) (opening closing : Nat) : Prop where
  /-- The loop ends after it begins. -/
  lt : opening < closing
  /-- The first bracket opens. -/
  opens : program.instruction? opening = some .loopOpen
  /-- The second bracket closes. -/
  closes : program.instruction? closing = some .loopClose
  /-- Every bracket in between has its partner in between. -/
  balanced : Balanced (program.between (opening + 1) closing)

/-- An instruction is decoded from the symbol at its address. -/
theorem instruction?_eq_some_iff (program : Program) (address : Nat) (instruction : Instruction) :
    program.instruction? address = some instruction ↔
      ∃ symbol, program.symbols.toList[address]? = some symbol ∧
        Instruction.ofChar symbol = instruction := by
  simp [instruction?]

/-- Inside the program there is a symbol, from which the instruction is decoded. -/
theorem exists_symbol {program : Program} {address : Nat} (h : address < program.size) :
    ∃ symbol, program.symbols.toList[address]? = some symbol ∧
      ∀ instruction, program.instruction? address = some instruction ↔
        Instruction.ofChar symbol = instruction := by
  have hSymbol : program.symbols.toList[address]? = some program.symbols.toList[address] :=
    List.getElem?_eq_getElem h
  refine ⟨_, hSymbol, fun instruction => ?_⟩
  rw [instruction?_eq_some_iff, hSymbol]
  simp only [Option.some.injEq, exists_eq_left']

/-- An address with an instruction lies inside the program. -/
theorem lt_size_of_instruction? {program : Program} {address : Nat} {instruction : Instruction}
    (h : program.instruction? address = some instruction) : address < program.size := by
  by_contra hOutside
  have hNone := (instruction?_eq_none_iff program address).2 (Nat.le_of_not_lt hOutside)
  rw [h] at hNone
  contradiction

/-- Nothing lies between an address and itself. -/
@[simp]
theorem between_self (program : Program) (address : Nat) :
    program.between address address = [] := by
  simp [between]

/-- The text between two addresses begins with the symbol at the first. -/
theorem between_eq_cons {program : Program} {start stop : Nat} {symbol : Char}
    (hSymbol : program.symbols.toList[start]? = some symbol) (hLt : start < stop) :
    program.between start stop = symbol :: program.between (start + 1) stop := by
  obtain ⟨hInside, hHere⟩ := List.getElem?_eq_some_iff.1 hSymbol
  have hLength : stop - start = stop - (start + 1) + 1 := by omega
  rw [between, List.drop_eq_getElem_cons hInside, hHere, hLength, List.take_succ_cons]
  rfl

/-- A text is cut in two at any address in between. -/
theorem between_append (program : Program) {start middle stop : Nat} (hStart : start ≤ middle)
    (hStop : middle ≤ stop) :
    program.between start middle ++ program.between middle stop = program.between start stop := by
  have hLength : stop - start = (middle - start) + (stop - middle) := by omega
  have hDrop : program.symbols.toList.drop middle =
      (program.symbols.toList.drop start).drop (middle - start) := by
    rw [List.drop_drop, Nat.add_sub_cancel' hStart]
  rw [between, between, between, hLength, List.take_add, hDrop]

/-- The text up to the next address ends with the symbol in between. -/
theorem between_succ {program : Program} {start stop : Nat} {symbol : Char}
    (hSymbol : program.symbols.toList[stop]? = some symbol) (hLe : start ≤ stop) :
    program.between start (stop + 1) = program.between start stop ++ [symbol] := by
  rw [← between_append program hLe (Nat.le_succ stop),
    between_eq_cons hSymbol (Nat.lt_succ_self stop), between_self]

/-- The scan finds the first closing bracket before which all inner loops are closed. -/
theorem closeFrom_eq_some_iff (program : Program) (remaining inner address closing : Nat)
    (hInside : address + remaining ≤ program.size) :
    program.closeFrom remaining inner address = some closing ↔
      address ≤ closing ∧ closing < address + remaining ∧
        program.instruction? closing = some .loopClose ∧
        nesting (program.between address closing) inner = some 0 := by
  induction remaining generalizing inner address with
  | zero =>
    simp only [closeFrom, reduceCtorEq, false_iff]
    omega
  | succ remaining ih =>
    -- Either the bracket looked for is here, or it lies further on and the text before it
    -- begins with the symbol here.
    obtain ⟨symbol, hSymbol, hDecoded⟩ :=
      exists_symbol (by omega : address < program.size)
    have hHere := (hDecoded _).2 rfl
    have hLater : ∀ depth, countSymbol inner symbol = some depth →
        Instruction.ofChar symbol ≠ .loopClose ∨ inner ≠ 0 →
        (program.closeFrom remaining depth (address + 1) = some closing ↔
          address ≤ closing ∧ closing < address + (remaining + 1) ∧
            program.instruction? closing = some .loopClose ∧
            nesting (program.between address closing) inner = some 0) := by
      intro depth hDepth hElsewhere
      rw [ih depth (address + 1) (by omega)]
      constructor
      · intro h
        obtain ⟨hLower, hUpper, hClose, hNesting⟩ := h
        refine ⟨by omega, by omega, hClose, ?_⟩
        rw [between_eq_cons hSymbol (by omega), nesting_cons, hDepth]
        exact hNesting
      · intro h
        obtain ⟨hLower, hUpper, hClose, hNesting⟩ := h
        have hNe : closing ≠ address := by
          intro hSame
          subst hSame
          rw [hHere, Option.some.injEq] at hClose
          rw [between_self, nesting_nil, Option.some.injEq] at hNesting
          rcases hElsewhere with hOther | hInner
          · exact hOther hClose
          · exact hInner hNesting
        rw [between_eq_cons hSymbol (by omega), nesting_cons, hDepth] at hNesting
        exact ⟨by omega, by omega, hClose, hNesting⟩
    rw [closeFrom, hHere]
    cases hInstruction : Instruction.ofChar symbol with
    | loopOpen =>
      exact hLater _ (countSymbol_of_loopOpen hInstruction inner) (.inl (by simp [hInstruction]))
    | loopClose =>
      cases inner with
      | zero =>
        simp only [reduceIte, Option.some.injEq]
        constructor
        · intro hSame
          subst hSame
          rw [hHere, hInstruction, between_self]
          exact ⟨Nat.le_refl _, by omega, rfl, rfl⟩
        · intro h
          obtain ⟨hLower, -, -, hNesting⟩ := h
          by_contra hNe
          rw [between_eq_cons hSymbol (by omega), nesting_cons,
            countSymbol_zero_of_loopClose hInstruction] at hNesting
          contradiction
      | succ inner =>
        rw [if_neg (Nat.succ_ne_zero inner)]
        exact hLater _ (countSymbol_of_loopClose hInstruction inner) (.inr (Nat.succ_ne_zero inner))
    | _ =>
      exact hLater _ (countSymbol_of_plain (by simp [hInstruction]) (by simp [hInstruction]) inner)
        (.inl (by simp [hInstruction]))

/-- The bracket scan succeeds exactly with the closing bracket that pairs with the opening one. -/
theorem matchingClose_eq_ok_iff {program : Program} {opening : Nat} (closing : Nat)
    (hOpen : program.instruction? opening = some .loopOpen) :
    program.matchingClose opening = .ok closing ↔ program.Pairs opening closing := by
  have hInside := lt_size_of_instruction? hOpen
  have hScan := closeFrom_eq_some_iff program (program.size - (opening + 1)) 0 (opening + 1)
    closing (by omega)
  have hMatching : program.matchingClose opening = .ok closing ↔
      program.closeFrom (program.size - (opening + 1)) 0 (opening + 1) = some closing := by
    unfold matchingClose
    split <;> simp_all
  rw [hMatching, hScan]
  constructor
  · intro h
    obtain ⟨hLower, -, hClose, hBalanced⟩ := h
    exact ⟨hLower, hOpen, hClose, hBalanced⟩
  · intro h
    obtain ⟨hLt, -, hClose, hBalanced⟩ := h
    have hUpper := lt_size_of_instruction? hClose
    exact ⟨hLt, by omega, hClose, hBalanced⟩

/-- The bracket scan fails exactly when no bracket pairs with the opening one. -/
theorem matchingClose_eq_error_iff {program : Program} {opening : Nat} (fault : Fault)
    (hOpen : program.instruction? opening = some .loopOpen) :
    program.matchingClose opening = .error fault ↔
      Fault.ofCause .unbalancedLoop = fault ∧ ∀ closing, ¬ program.Pairs opening closing := by
  have hOk := fun closing => matchingClose_eq_ok_iff closing hOpen
  unfold matchingClose at hOk ⊢
  split at hOk
  · rename_i closing _
    simp only [reduceCtorEq, false_iff, not_and, not_forall, not_not]
    exact fun _ => ⟨closing, (hOk closing).1 rfl⟩
  · simp only [Except.error.injEq, iff_self_and]
    intro _ closing hPairs
    have hContradiction := (hOk closing).2 hPairs
    contradiction

end Program

end ByteTape
