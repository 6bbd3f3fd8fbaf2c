import ByteTape.Proofs.Bracket.Balance

/-!
# Nested blocks

A balanced text is a sequence of plain symbols and of loops around balanced texts. Code is that
structure, and its symbols are the text it is written as. Reading a text from its right end builds
the code without looking ahead: a closing bracket begins the body of a loop, the opening bracket
puts the loop in front of what was read before. A text can be read in this way exactly when it is
balanced, and then it is the text of one code only. Where a program holds the text of a code, the
brackets of its loops pair.
-/

namespace ByteTape

open ByteTape.Bracket

/-- A symbol that is no bracket. -/
structure PlainSymbol where
  /-- The symbol as it is written. -/
  symbol : Char
  /-- It opens no loop. -/
  notOpen : Instruction.ofChar symbol ≠ .loopOpen
  /-- It closes no loop. -/
  notClose : Instruction.ofChar symbol ≠ .loopClose

/-- Nested blocks of a program. -/
inductive Code where
  /-- Nothing is left. -/
  | done
  /-- A plain symbol and what follows it. -/
  | plain (symbol : PlainSymbol) (rest : Code)
  /-- A loop and what follows it. -/
  | loop (body rest : Code)

namespace Code

/-- The text of a code. -/
def symbols : Code → List Char
  | done => []
  | plain symbol rest => symbol.symbol :: rest.symbols
  | loop body rest => '[' :: (body.symbols ++ ']' :: rest.symbols)

/-- The number of symbols of a code. -/
def size : Code → Nat
  | done => 0
  | plain _ rest => rest.size + 1
  | loop body rest => body.size + rest.size + 2

/-- One code after the other. -/
def append : Code → Code → Code
  | done, second => second
  | plain symbol rest, second => plain symbol (rest.append second)
  | loop body rest, second => loop body (rest.append second)

/-- Read a text from its right end: the code in front, and behind it the codes that follow the
loops whose opening bracket has not been reached. -/
def readBack : List Char → Option (Code × List Code)
  | [] => some (done, [])
  | symbol :: rest =>
    match readBack rest with
    | none => none
    | some (code, pending) =>
      if hOpen : Instruction.ofChar symbol = .loopOpen then
        match pending with
        | [] => none
        | next :: outer => some (loop code next, outer)
      else if hClose : Instruction.ofChar symbol = .loopClose then
        some (done, code :: pending)
      else
        some (plain ⟨symbol, hOpen, hClose⟩ code, pending)

/-- The code of a text, if its brackets belong together. -/
def parse? (symbols : List Char) : Option Code :=
  match readBack symbols with
  | some (code, []) => some code
  | _ => none

/-- The text of a code is as long as the code is large. -/
@[simp]
theorem length_symbols (code : Code) : code.symbols.length = code.size := by
  induction code with
  | done => rfl
  | plain symbol rest ih => simp [symbols, size, ih]
  | loop body rest ihBody ihRest =>
    simp only [symbols, size, List.length_cons, List.length_append, ihBody, ihRest]
    omega

/-- Nothing after a code leaves it as it is. -/
theorem append_done (code : Code) : code.append done = code := by
  induction code with
  | done => rfl
  | plain symbol rest ih => rw [append, ih]
  | loop body rest ihBody ihRest => rw [append, ihRest]

/-- The text of a code is balanced. -/
theorem balanced_symbols (code : Code) : Balanced code.symbols := by
  induction code with
  | done => exact balanced_nil
  | plain symbol rest ih => exact (balanced_singleton symbol.notOpen symbol.notClose).append ih
  | loop body rest ihBody ihRest =>
    have hLoop : Balanced ('[' :: body.symbols ++ [']']) := ihBody.bracketed rfl rfl
    have hAll := hLoop.append ihRest
    rwa [List.append_assoc, List.cons_append, List.singleton_append] at hAll

/-- Reading back the text of a code in front of a text puts the code in front of its code. -/
theorem readBack_symbols_append (code : Code) {rest : List Char} {next : Code}
    {pending : List Code} (h : readBack rest = some (next, pending)) :
    readBack (code.symbols ++ rest) = some (code.append next, pending) := by
  induction code generalizing rest next pending with
  | done => exact h
  | plain symbol tail ih =>
    rw [symbols, List.cons_append, readBack, ih h]
    dsimp only
    rw [dif_neg symbol.notOpen, dif_neg symbol.notClose]
    rfl
  | loop body tail ihBody ihTail =>
    have hClose : readBack (']' :: (tail.symbols ++ rest)) =
        some (done, tail.append next :: pending) := by
      rw [readBack, ihTail h]
      rfl
    have hBody := ihBody hClose
    rw [append_done] at hBody
    rw [symbols, List.cons_append, List.append_assoc, List.cons_append, readBack, hBody]
    rfl

/-- The text of a code is read back as that code. -/
theorem parse?_symbols (code : Code) : parse? code.symbols = some code := by
  have hRead : readBack [] = some (done, []) := rfl
  have hCode := readBack_symbols_append code hRead
  rw [List.append_nil, append_done] at hCode
  rw [parse?, hCode]

/-- Only one character opens a loop. -/
theorem eq_of_ofChar_loopOpen {symbol : Char} (h : Instruction.ofChar symbol = .loopOpen) :
    symbol = '[' :=
  Instruction.ofChar_injective h

/-- Only one character closes a loop. -/
theorem eq_of_ofChar_loopClose {symbol : Char} (h : Instruction.ofChar symbol = .loopClose) :
    symbol = ']' :=
  Instruction.ofChar_injective h

/-- A text is made up of the codes it is read back as, with closing brackets between them. -/
theorem symbols_of_readBack {text : List Char} {code : Code} {pending : List Code}
    (h : readBack text = some (code, pending)) :
    code.symbols ++ pending.flatMap (fun next => ']' :: next.symbols) = text := by
  induction text generalizing code pending with
  | nil =>
    rw [readBack, Option.some.injEq, Prod.mk.injEq] at h
    obtain ⟨rfl, rfl⟩ := h
    rfl
  | cons symbol text ih =>
    rw [readBack] at h
    cases hRead : readBack text with
    | none =>
      rw [hRead] at h
      contradiction
    | some found =>
      obtain ⟨front, behind⟩ := found
      have hText := ih hRead
      rw [hRead] at h
      dsimp only at h
      split at h
      · rename_i hOpen
        cases behind with
        | nil => contradiction
        | cons next outer =>
          rw [Option.some.injEq, Prod.mk.injEq] at h
          obtain ⟨rfl, rfl⟩ := h
          rw [eq_of_ofChar_loopOpen hOpen, ← hText, symbols]
          simp only [List.flatMap_cons, List.cons_append, List.append_assoc]
      · split at h
        · rename_i hClose
          rw [Option.some.injEq, Prod.mk.injEq] at h
          obtain ⟨rfl, rfl⟩ := h
          rw [eq_of_ofChar_loopClose hClose, ← hText, symbols, List.nil_append,
            List.flatMap_cons, List.cons_append]
        · rw [Option.some.injEq, Prod.mk.injEq] at h
          obtain ⟨rfl, rfl⟩ := h
          rw [← hText, symbols, List.cons_append]

/-- A text is read as a code exactly when it is the text of that code. -/
theorem parse?_eq_some_iff (text : List Char) (code : Code) :
    parse? text = some code ↔ code.symbols = text := by
  constructor
  · intro h
    unfold parse? at h
    split at h
    · rename_i found hRead
      rw [Option.some.injEq] at h
      subst h
      have hText := symbols_of_readBack hRead
      rwa [List.flatMap_nil, List.append_nil] at hText
    · contradiction
  · intro h
    rw [← h]
    exact parse?_symbols code

/-- A text that closes what is open before it is read back with as many codes behind it. -/
theorem exists_readBack {text : List Char} {depth : Nat} (h : nesting text depth = some 0) :
    ∃ code pending, readBack text = some (code, pending) ∧ pending.length = depth := by
  induction text generalizing depth with
  | nil =>
    rw [nesting_nil, Option.some.injEq] at h
    exact ⟨done, [], rfl, h.symm⟩
  | cons symbol text ih =>
    rw [nesting_cons] at h
    by_cases hOpen : Instruction.ofChar symbol = .loopOpen
    · rw [countSymbol_of_loopOpen hOpen, Option.bind_some] at h
      obtain ⟨code, pending, hRead, hLength⟩ := ih h
      obtain ⟨next, outer, rfl⟩ := List.exists_cons_of_length_eq_add_one hLength
      refine ⟨loop code next, outer, ?_, Nat.succ.inj hLength⟩
      rw [readBack, hRead]
      exact dif_pos hOpen
    · by_cases hClose : Instruction.ofChar symbol = .loopClose
      · cases depth with
        | zero =>
          rw [countSymbol_zero_of_loopClose hClose] at h
          contradiction
        | succ depth =>
          rw [countSymbol_of_loopClose hClose, Option.bind_some] at h
          obtain ⟨code, pending, hRead, hLength⟩ := ih h
          refine ⟨done, code :: pending, ?_, congrArg Nat.succ hLength⟩
          rw [readBack, hRead]
          exact (dif_neg hOpen).trans (dif_pos hClose)
      · rw [countSymbol_of_plain hOpen hClose, Option.bind_some] at h
        obtain ⟨code, pending, hRead, hLength⟩ := ih h
        refine ⟨plain ⟨symbol, hOpen, hClose⟩ code, pending, ?_, hLength⟩
        rw [readBack, hRead]
        exact (dif_neg hOpen).trans (dif_neg hClose)

/-- A balanced text is the text of some code. -/
theorem exists_parse?_of_balanced {text : List Char} (h : Balanced text) :
    ∃ code, parse? text = some code := by
  obtain ⟨code, pending, hRead, hLength⟩ := exists_readBack h
  have hNone := List.eq_nil_of_length_eq_zero hLength
  refine ⟨code, ?_⟩
  rw [parse?, hRead, hNone]

end Code

/-- The text of a code stands in a program at a position. -/
def Program.HoldsAt (program : Program) (position : Nat) (code : Code) : Prop :=
  ∃ front back, program.symbols.toList = front ++ code.symbols ++ back ∧ front.length = position

namespace Program

variable {program : Program} {position : Nat}

/-- A program holds a code whose text it is. -/
theorem holdsAt_zero {code : Code} (h : code.symbols = program.symbols.toList) :
    program.HoldsAt 0 code :=
  ⟨[], [], by rw [h, List.nil_append, List.append_nil], rfl⟩

/-- The symbol that follows the front of a text stands at the end of the front. -/
theorem instruction?_of_append {front back : List Char} {symbol : Char}
    (h : program.symbols.toList = front ++ symbol :: back) (hLength : front.length = position) :
    program.instruction? position = some (Instruction.ofChar symbol) := by
  refine (instruction?_eq_some_iff program position _).2 ⟨symbol, ?_, rfl⟩
  rw [h, ← hLength, List.getElem?_append_right (Nat.le_refl _), Nat.sub_self,
    List.getElem?_cons_zero]

/-- A plain symbol is an instruction, and the rest of the code stands behind it. -/
theorem HoldsAt.of_plain {symbol : PlainSymbol} {rest : Code}
    (h : program.HoldsAt position (.plain symbol rest)) :
    program.instruction? position = some (Instruction.ofChar symbol.symbol) ∧
      program.HoldsAt (position + 1) rest := by
  obtain ⟨front, back, hText, hLength⟩ := h
  rw [Code.symbols, List.append_assoc, List.cons_append] at hText
  refine ⟨instruction?_of_append hText hLength, front ++ [symbol.symbol], back, ?_, ?_⟩
  · rw [hText, List.append_assoc, List.append_assoc, List.singleton_append]
  · rw [List.length_append, List.length_singleton, hLength]

/-- The body of a loop stands between its brackets, which pair, and the rest of the code behind
them. -/
theorem HoldsAt.of_loop {body rest : Code} (h : program.HoldsAt position (.loop body rest)) :
    program.HoldsAt (position + 1) body ∧
      program.HoldsAt (position + body.size + 2) rest ∧
      program.Pairs position (position + body.size + 1) := by
  obtain ⟨front, back, hText, hLength⟩ := h
  rw [Code.symbols, List.append_assoc, List.cons_append, List.append_assoc, List.cons_append]
    at hText
  have hInner : program.symbols.toList =
      (front ++ ['[']) ++ (body.symbols ++ ']' :: (rest.symbols ++ back)) := by
    rw [hText, List.append_assoc, List.singleton_append]
  have hInnerLength : (front ++ ['[']).length = position + 1 := by
    rw [List.length_append, List.length_singleton, hLength]
  have hBehind : program.symbols.toList =
      (front ++ '[' :: body.symbols) ++ ']' :: (rest.symbols ++ back) := by
    rw [hText, List.append_assoc, List.cons_append]
  have hBehindLength : (front ++ '[' :: body.symbols).length = position + body.size + 1 := by
    rw [List.length_append, List.length_cons, Code.length_symbols, hLength]
    omega
  refine ⟨⟨front ++ ['['], ']' :: (rest.symbols ++ back), ?_, hInnerLength⟩,
    ⟨front ++ '[' :: body.symbols ++ [']'], back, ?_, ?_⟩, ?_⟩
  · rw [hInner, ← List.append_assoc]
  · rw [hBehind]
    simp only [List.append_assoc, List.cons_append, List.nil_append]
  · rw [List.length_append, List.length_singleton, hBehindLength]
  · refine ⟨by omega, instruction?_of_append hText hLength,
      instruction?_of_append hBehind hBehindLength, ?_⟩
    have hBetween : program.between (position + 1) (position + body.size + 1) = body.symbols := by
      have hCount : position + body.size + 1 - (position + 1) = body.symbols.length := by
        rw [Code.length_symbols]
        omega
      rw [between, hInner, ← hInnerLength, List.drop_left, hInnerLength, hCount, List.take_left]
    rw [hBetween]
    exact body.balanced_symbols

/-- The brackets around a balanced text belong together, wherever it stands. -/
theorem pairs_of_text {front body back : List Char}
    (hText : program.symbols.toList = front ++ ('[' :: body ++ [']']) ++ back)
    (hBalanced : Balanced body) :
    program.Pairs front.length (front.length + body.length + 1) := by
  obtain ⟨code, hParse⟩ := Code.exists_parse?_of_balanced hBalanced
  have hSymbols := (Code.parse?_eq_some_iff body code).1 hParse
  have hHolds : program.HoldsAt front.length (.loop code .done) := by
    refine ⟨front, back, ?_, rfl⟩
    rw [hText, Code.symbols, hSymbols]
    rfl
  have hPairs := hHolds.of_loop.2.2
  rwa [← Code.length_symbols, hSymbols] at hPairs

end Program

end ByteTape
