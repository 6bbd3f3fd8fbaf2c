import ByteTape.Proofs.Guarded.Safety

/-!
# The bracket that closes a loop

A closing bracket closes a loop when the text strictly between the two brackets is balanced. A loop
has at most one such bracket, the scan from its opening bracket finds it whenever it is there, and
two loops that are closed lie one behind the other or one inside the other.
-/

namespace ByteTape

namespace Program

open ByteTape.Bracket

/-- A closing bracket further on, with balanced text strictly in between. -/
structure Closes (program : Program) (opening closing : Nat) : Prop where
  /-- It stands behind the opening bracket. -/
  lt : opening < closing
  /-- It is a closing bracket. -/
  symbol_eq : program.symbols[closing]? = some ']'
  /-- Every bracket in between has its partner in between. -/
  balanced : Bracket.Balanced (program.between (opening + 1) closing)

variable {program : Program} {opening closing : Nat}

/-- The instruction of a character stands exactly where the character does. -/
theorem instruction?_eq_some_ofChar_iff (program : Program) (address : Nat) (symbol : Char) :
    program.instruction? address = some (Instruction.ofChar symbol) ↔
      program.symbols[address]? = some symbol := by
  rw [instruction?, Option.map_eq_some_iff]
  constructor
  · intro h
    obtain ⟨other, hOther, hSame⟩ := h
    rw [hOther, Instruction.ofChar_injective hSame]
  · intro h
    exact ⟨symbol, h, rfl⟩

/-- An opening bracket and one that closes its loop are a pair. -/
theorem closes_iff_pairs (hOpen : program.symbols[opening]? = some '[') :
    program.Closes opening closing ↔ program.Pairs opening closing := by
  constructor
  · intro h
    exact ⟨h.lt, (instruction?_eq_some_ofChar_iff program opening '[').2 hOpen,
      (instruction?_eq_some_ofChar_iff program closing ']').2 h.symbol_eq, h.balanced⟩
  · intro h
    exact ⟨h.lt, (instruction?_eq_some_ofChar_iff program closing ']').1 h.closes, h.balanced⟩

/-- A text that closes no bracket opened before it counts on from one bracket more to at least
one. -/
theorem nesting_ne_zero_of_inside {symbols : List Char} {depth : Nat}
    (h : nesting symbols 0 = some depth) (outer : Nat) :
    nesting symbols (outer + 1) ≠ some 0 := by
  have hOuter := nesting_add (outer + 1) h
  rw [Nat.zero_add] at hOuter
  rw [hOuter, ne_eq, Option.some.injEq]
  omega

/-- As long as a loop is not closed, its text closes no bracket opened before it. -/
theorem Pairs.exists_nesting (h : program.Pairs opening closing) {address : Nat}
    (hLower : opening + 1 ≤ address) (hUpper : address ≤ closing) :
    ∃ depth, nesting (program.between (opening + 1) address) 0 = some depth := by
  have hBalanced := h.balanced
  rw [Bracket.Balanced, ← between_append program hLower hUpper, nesting_append,
    Option.bind_eq_some_iff] at hBalanced
  obtain ⟨depth, hDepth, -⟩ := hBalanced
  exact ⟨depth, hDepth⟩

/-- A loop that opens inside another one is closed before it. -/
theorem Pairs.closing_lt {inner innerClosing : Nat} (h : program.Pairs opening closing)
    (hInner : program.Pairs inner innerClosing) (hLower : opening < inner)
    (hUpper : inner < closing) : innerClosing < closing := by
  by_contra hBeyond
  obtain ⟨symbol, hSymbol, hOpens⟩ := (instruction?_eq_some_iff program inner _).1 hInner.opens
  obtain ⟨before, hBefore⟩ := h.exists_nesting hLower (Nat.le_of_lt hUpper)
  obtain ⟨inside, hInside⟩ := hInner.exists_nesting hUpper (Nat.le_of_not_lt hBeyond)
  -- The outer loop counts the inner opening bracket, and nothing up to its end takes it away.
  have hOuter := h.balanced
  rw [Bracket.Balanced, ← between_append program hLower (Nat.le_of_lt hUpper), nesting_append,
    hBefore, Option.bind_some, between_eq_cons hSymbol hUpper, nesting_cons,
    countSymbol_of_loopOpen hOpens, Option.bind_some] at hOuter
  exact nesting_ne_zero_of_inside hInside before hOuter

/-- Two loops never cross: the one that opens later is behind the other or inside it. -/
theorem Pairs.behind_or_inside {later laterClosing : Nat} (h : program.Pairs opening closing)
    (hLater : program.Pairs later laterClosing) (hLt : opening < later) :
    closing < later ∨ laterClosing < closing := by
  have hNe : closing ≠ later := by
    intro hSame
    have hCloses := h.closes
    rw [hSame, hLater.opens] at hCloses
    contradiction
  rcases Nat.lt_or_gt_of_ne hNe with hBehind | hInside
  · exact .inl hBehind
  · exact .inr (h.closing_lt hLater hLt hInside)

/-- The bracket scan is right. From an opening bracket it succeeds with a closing bracket exactly
when that bracket closes the loop, it fails exactly when no bracket does, no other bracket closes
the loop, and it takes no more steps than there are symbols from the opening bracket on. Loops that
are closed do not cross. -/
theorem matchingClose_correct (program : Program) :
    (∀ opening, program.symbols[opening]? = some '[' →
      (∀ closing, program.matchingClose opening = .ok closing ↔ program.Closes opening closing) ∧
        (∀ fault, program.matchingClose opening = .error fault ↔
          fault = Fault.ofCause .unbalancedLoop ∧ ¬ ∃ closing, program.Closes opening closing) ∧
        (∀ closing other, program.Closes opening closing → program.Closes opening other →
          closing = other) ∧
        program.scanClose? (program.size - opening) 1 opening =
          some (program.matchingClose opening)) ∧
      ∀ opening later closing laterClosing, program.symbols[opening]? = some '[' →
        program.symbols[later]? = some '[' → opening < later →
        program.matchingClose opening = .ok closing →
        program.matchingClose later = .ok laterClosing →
        closing < later ∨ laterClosing < closing := by
  have hDecoded : ∀ opening, program.symbols[opening]? = some '[' →
      program.instruction? opening = some .loopOpen := fun opening =>
    (instruction?_eq_some_ofChar_iff program opening '[').2
  have hFound : ∀ opening, program.symbols[opening]? = some '[' → ∀ closing,
      program.matchingClose opening = .ok closing ↔ program.Closes opening closing := by
    intro opening hOpen closing
    rw [matchingClose_eq_ok_iff closing (hDecoded opening hOpen), closes_iff_pairs hOpen]
  constructor
  · intro opening hOpen
    refine ⟨hFound opening hOpen, ?_, ?_, ?_⟩
    · intro fault
      rw [matchingClose_eq_error_iff fault (hDecoded opening hOpen), not_exists, eq_comm]
      simp only [closes_iff_pairs hOpen]
    · intro closing other hClosing hOther
      have hScan := (hFound opening hOpen closing).2 hClosing
      rw [(hFound opening hOpen other).2 hOther, Except.ok.injEq] at hScan
      exact hScan.symm
    · have hGuarded := guardedClose?_eq_some (hDecoded opening hOpen)
      rwa [guardedClose?, if_pos (hDecoded opening hOpen)] at hGuarded
  · intro opening later closing laterClosing hOpen hLater hLt hScan hLaterScan
    rw [matchingClose_eq_ok_iff closing (hDecoded opening hOpen)] at hScan
    rw [matchingClose_eq_ok_iff laterClosing (hDecoded later hLater)] at hLaterScan
    exact hScan.behind_or_inside hLaterScan hLt

/-- A loop inside a loop is closed before it, and a loop with too few closing brackets is not
closed. -/
theorem matchingClose_correct_nested :
    let nested := ofString "[+[-]>[]]<"
    let unclosed := ofString "+[[]"
    nested.matchingClose 0 = .ok 8 ∧ nested.Closes 0 8 ∧ nested.matchingClose 6 = .ok 7 ∧
      (8 < 6 ∨ 7 < 8) ∧ nested.scanClose? 10 1 0 = some (.ok 8) ∧
      ¬ ∃ closing, unclosed.Closes 1 closing := by
  intro nested unclosed
  have hOpen : nested.symbols[0]? = some '[' := by decide +kernel
  have hInner : nested.symbols[6]? = some '[' := by decide +kernel
  have hUnclosed : unclosed.symbols[1]? = some '[' := by decide +kernel
  have hScan : nested.matchingClose 0 = .ok 8 := by decide +kernel
  have hInnerScan : nested.matchingClose 6 = .ok 7 := by decide +kernel
  have hFailed : unclosed.matchingClose 1 = .error (Fault.ofCause .unbalancedLoop) := by
    decide +kernel
  obtain ⟨hNested, hApart⟩ := matchingClose_correct nested
  obtain ⟨hFound, -, -, hSteps⟩ := hNested 0 hOpen
  have hNone := (((matchingClose_correct unclosed).1 1 hUnclosed).2.1 _).1 hFailed
  exact ⟨hScan, (hFound 8).1 hScan, hInnerScan,
    hApart 0 6 8 7 hOpen hInner (by decide) hScan hInnerScan, hScan ▸ hSteps,
    hNone.2⟩

end Program

end ByteTape
