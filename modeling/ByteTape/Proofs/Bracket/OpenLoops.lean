import ByteTape.Proofs.Bracket.Balance
import Mathlib.Data.List.Sort
import Mathlib.Data.Nat.Init

/-!
# The loops open at an address

Reading a program from the left, the address of every opening bracket is put on a stack and every
closing bracket takes one off. What is on the stack at an address depends on the text before it
and on nothing else. The bracket on top is the one the next closing bracket pairs with, so the
stack and the forward scan see the same pairs, also in a program with stray brackets.
-/

namespace ByteTape

namespace Program

open ByteTape.Bracket

/-- The addresses of the brackets open before an address, the innermost first; none if a bracket
before it closes nothing. -/
def openLoops (program : Program) : (address : Nat) → Option (List Nat)
  | 0 => some []
  | address + 1 =>
    match program.openLoops address, program.instruction? address with
    | none, _ => none
    | some opened, some .loopOpen => some (address :: opened)
    | some [], some .loopClose => none
    | some (_ :: outer), some .loopClose => some outer
    | some opened, _ => some opened

variable {program : Program} {address : Nat} {opened : List Nat}

/-- An opening bracket is put on top. -/
theorem openLoops_succ_of_loopOpen (h : program.openLoops address = some opened)
    (hHere : program.instruction? address = some .loopOpen) :
    program.openLoops (address + 1) = some (address :: opened) := by
  simp [openLoops, h, hHere]

/-- A closing bracket takes the innermost one off. -/
theorem openLoops_succ_of_loopClose {opening : Nat}
    (h : program.openLoops address = some (opening :: opened))
    (hHere : program.instruction? address = some .loopClose) :
    program.openLoops (address + 1) = some opened := by
  simp [openLoops, h, hHere]

/-- Everything else changes nothing. -/
theorem openLoops_succ_of_plain (h : program.openLoops address = some opened)
    (hOpen : program.instruction? address ≠ some .loopOpen)
    (hClose : program.instruction? address ≠ some .loopClose) :
    program.openLoops (address + 1) = some opened := by
  rw [openLoops, h]
  split <;> simp_all

/-- What was open one symbol earlier, told from what is open now. -/
theorem openLoops_succ_cases (h : program.openLoops (address + 1) = some opened) :
    (program.instruction? address = some .loopOpen ∧
      ∃ outer, program.openLoops address = some outer ∧ opened = address :: outer) ∨
    (program.instruction? address = some .loopClose ∧
      ∃ opening, program.openLoops address = some (opening :: opened)) ∨
    (program.instruction? address ≠ some .loopOpen ∧
      program.instruction? address ≠ some .loopClose ∧
      program.openLoops address = some opened) := by
  cases hBefore : program.openLoops address with
  | none => simp [openLoops, hBefore] at h
  | some before =>
    by_cases hOpen : program.instruction? address = some .loopOpen
    · rw [openLoops_succ_of_loopOpen hBefore hOpen, Option.some.injEq] at h
      exact .inl ⟨hOpen, before, rfl, h.symm⟩
    · by_cases hClose : program.instruction? address = some .loopClose
      · cases before with
        | nil => simp [openLoops, hBefore, hClose] at h
        | cons opening outer =>
          rw [openLoops_succ_of_loopClose hBefore hClose, Option.some.injEq] at h
          exact .inr (.inl ⟨hClose, opening, by rw [h]⟩)
      · rw [openLoops_succ_of_plain hBefore hOpen hClose] at h
        exact .inr (.inr ⟨hOpen, hClose, h⟩)

/-- If the brackets can be read up to an address, they can be read up to every earlier one. -/
theorem exists_openLoops_of_le (h : program.openLoops address = some opened) {earlier : Nat}
    (hLe : earlier ≤ address) : ∃ before, program.openLoops earlier = some before := by
  induction address generalizing opened with
  | zero =>
    rw [Nat.le_zero.1 hLe]
    exact ⟨opened, h⟩
  | succ address ih =>
    rcases Nat.lt_or_eq_of_le hLe with hLt | rfl
    · have hBefore : ∃ before, program.openLoops address = some before := by
        rcases openLoops_succ_cases h with ⟨-, outer, hOuter, -⟩ | ⟨-, opening, hOpening⟩ |
          ⟨-, -, hSame⟩
        · exact ⟨outer, hOuter⟩
        · exact ⟨opening :: opened, hOpening⟩
        · exact ⟨opened, hSame⟩
      obtain ⟨before, hBefore⟩ := hBefore
      exact ih hBefore (Nat.le_of_lt_succ hLt)
    · exact ⟨opened, h⟩

/-- The open brackets lie before the address. -/
theorem lt_of_mem_openLoops (h : program.openLoops address = some opened) :
    ∀ opening ∈ opened, opening < address := by
  induction address generalizing opened with
  | zero =>
    cases h
    simp
  | succ address ih =>
    intro opening hMem
    rcases openLoops_succ_cases h with ⟨-, outer, hOuter, rfl⟩ | ⟨-, top, hTop⟩ | ⟨-, -, hSame⟩
    · rcases List.mem_cons.1 hMem with rfl | hMem
      · exact Nat.lt_succ_self _
      · exact Nat.lt_succ_of_lt (ih hOuter opening hMem)
    · exact Nat.lt_succ_of_lt (ih hTop opening (List.mem_cons_of_mem top hMem))
    · exact Nat.lt_succ_of_lt (ih hSame opening hMem)

/-- Further in means further on. -/
theorem pairwise_openLoops (h : program.openLoops address = some opened) :
    opened.Pairwise (· > ·) := by
  induction address generalizing opened with
  | zero =>
    cases h
    exact List.Pairwise.nil
  | succ address ih =>
    rcases openLoops_succ_cases h with ⟨-, outer, hOuter, rfl⟩ | ⟨-, top, hTop⟩ | ⟨-, -, hSame⟩
    · exact List.pairwise_cons.2 ⟨lt_of_mem_openLoops hOuter, ih hOuter⟩
    · exact (List.pairwise_cons.1 (ih hTop)).2
    · exact ih hSame

/-- The number of open brackets is the static nesting depth of the text before the address. -/
theorem nesting_between_zero (h : program.openLoops address = some opened)
    (hInside : address ≤ program.size) :
    nesting (program.between 0 address) 0 = some opened.length := by
  induction address generalizing opened with
  | zero =>
    cases h
    rfl
  | succ address ih =>
    obtain ⟨symbol, hSymbol, hHere⟩ := exists_symbol hInside
    rw [between_succ hSymbol (Nat.zero_le address), nesting_append]
    rcases openLoops_succ_cases h with ⟨hOpen, outer, hOuter, rfl⟩ | ⟨hClose, top, hTop⟩ |
      ⟨hOpen, hClose, hSame⟩
    · rw [ih hOuter (Nat.le_of_succ_le hInside), Option.bind_some, nesting_cons,
        countSymbol_of_loopOpen ((hHere _).1 hOpen)]
      rfl
    · rw [ih hTop (Nat.le_of_succ_le hInside), Option.bind_some, nesting_cons, List.length_cons,
        countSymbol_of_loopClose ((hHere _).1 hClose)]
      rfl
    · rw [ih hSame (Nat.le_of_succ_le hInside), Option.bind_some, nesting_cons,
        countSymbol_of_plain (mt (hHere _).2 hOpen) (mt (hHere _).2 hClose)]
      rfl

/-- Over a text that closes nothing opened before it, the brackets opened before it stay below
those opened in it. -/
theorem openLoops_of_nesting {start : Nat} (inner : List Nat) {outer : List Nat} {depth : Nat}
    (h : program.openLoops start = some (inner ++ outer)) (hLe : start ≤ address)
    (hInside : address ≤ program.size)
    (hNesting : nesting (program.between start address) inner.length = some depth) :
    ∃ above, above.length = depth ∧ program.openLoops address = some (above ++ outer) := by
  induction address, hLe using Nat.le_induction generalizing depth with
  | base =>
    rw [between_self, nesting_nil, Option.some.injEq] at hNesting
    exact ⟨inner, hNesting, h⟩
  | succ address hLe ih =>
    obtain ⟨symbol, hSymbol, hHere⟩ := exists_symbol hInside
    rw [between_succ hSymbol hLe, nesting_append, Option.bind_eq_some_iff] at hNesting
    obtain ⟨middle, hMiddle, hLast⟩ := hNesting
    rw [nesting_cons, Option.bind_eq_some_iff] at hLast
    obtain ⟨last, hLast, hDepth⟩ := hLast
    rw [nesting_nil, Option.some.injEq] at hDepth
    subst hDepth
    obtain ⟨above, rfl, hAbove⟩ := ih (Nat.le_of_succ_le hInside) hMiddle
    by_cases hOpen : Instruction.ofChar symbol = .loopOpen
    · rw [countSymbol_of_loopOpen hOpen, Option.some.injEq] at hLast
      exact ⟨address :: above, hLast, openLoops_succ_of_loopOpen hAbove ((hHere _).2 hOpen)⟩
    · by_cases hClose : Instruction.ofChar symbol = .loopClose
      · cases above with
        | nil =>
          rw [List.length_nil, countSymbol_zero_of_loopClose hClose] at hLast
          contradiction
        | cons top above =>
          rw [List.length_cons, countSymbol_of_loopClose hClose, Option.some.injEq] at hLast
          exact ⟨above, hLast, openLoops_succ_of_loopClose hAbove ((hHere _).2 hClose)⟩
      · rw [countSymbol_of_plain hOpen hClose, Option.some.injEq] at hLast
        exact ⟨above, hLast,
          openLoops_succ_of_plain hAbove (mt (hHere _).1 hOpen) (mt (hHere _).1 hClose)⟩

/-- A balanced text leaves the open brackets as they were. -/
theorem openLoops_of_balanced {start : Nat} (h : program.openLoops start = some opened)
    (hLe : start ≤ address) (hInside : address ≤ program.size)
    (hBalanced : Balanced (program.between start address)) :
    program.openLoops address = some opened := by
  obtain ⟨above, hLength, hAbove⟩ := openLoops_of_nesting [] h hLe hInside hBalanced
  rwa [List.eq_nil_of_length_eq_zero hLength] at hAbove

/-- Where the innermost open bracket stands and what was open before it. -/
structure Innermost (program : Program) (address opening : Nat) (outer : List Nat) : Prop where
  /-- It stands before the address. -/
  lt : opening < address
  /-- It opens a loop. -/
  opens : program.instruction? opening = some .loopOpen
  /-- The brackets below it are those that were open before it. -/
  outside : program.openLoops opening = some outer
  /-- Whatever was opened after it has been closed. -/
  balanced : Balanced (program.between (opening + 1) address)

/-- A balanced text further on does not change the innermost open bracket. -/
theorem Innermost.extend {opening stop : Nat} {outer : List Nat}
    (h : program.Innermost address opening outer) (hLe : address ≤ stop)
    (hBalanced : Balanced (program.between address stop)) :
    program.Innermost stop opening outer := by
  refine ⟨Nat.lt_of_lt_of_le h.lt hLe, h.opens, h.outside, ?_⟩
  rw [← between_append program h.lt hLe]
  exact h.balanced.append hBalanced

/-- The top of the stack is the innermost open bracket. -/
theorem innermost_of_openLoops {opening : Nat} {outer : List Nat}
    (h : program.openLoops address = some (opening :: outer)) (hInside : address ≤ program.size) :
    program.Innermost address opening outer := by
  -- A closing bracket uncovers a bracket opened before its partner, so all earlier addresses
  -- are needed and not only the one before.
  induction address using Nat.strong_induction_on generalizing opening outer with
  | _ address ih =>
    cases address with
    | zero => simp [openLoops] at h
    | succ address =>
      obtain ⟨symbol, hSymbol, hHere⟩ := exists_symbol hInside
      have hLast : program.between address (address + 1) = [symbol] := by
        rw [between_succ hSymbol (Nat.le_refl address), between_self, List.nil_append]
      rcases openLoops_succ_cases h with ⟨hOpen, before, hBefore, hEq⟩ | ⟨hClose, top, hTop⟩ |
        ⟨hOpen, hClose, hSame⟩
      · obtain ⟨rfl, rfl⟩ := List.cons.inj hEq
        refine ⟨Nat.lt_succ_self _, hOpen, hBefore, ?_⟩
        rw [between_self]
        exact balanced_nil
      · have hInner := ih address (Nat.lt_succ_self _) hTop (Nat.le_of_succ_le hInside)
        have hOuter := ih top (Nat.lt_succ_of_lt hInner.lt) hInner.outside
          (Nat.le_of_lt (lt_size_of_instruction? hInner.opens))
        obtain ⟨bracket, hBracket, hOpening⟩ :=
          (instruction?_eq_some_iff program top _).1 hInner.opens
        refine hOuter.extend (Nat.le_of_lt (Nat.lt_succ_of_lt hInner.lt)) ?_
        rw [between_succ hSymbol (Nat.le_of_lt hInner.lt), between_eq_cons hBracket hInner.lt]
        exact hInner.balanced.bracketed hOpening ((hHere _).1 hClose)
      · have hInner := ih address (Nat.lt_succ_self _) hSame (Nat.le_of_succ_le hInside)
        refine hInner.extend (Nat.le_succ address) ?_
        rw [hLast]
        exact balanced_singleton (mt (hHere _).2 hOpen) (mt (hHere _).2 hClose)

/-- A loop that is passed over leaves the open brackets as they were before it. -/
theorem openLoops_after_pair {opening closing : Nat} (hPairs : program.Pairs opening closing)
    (h : program.openLoops opening = some opened) :
    program.openLoops closing = some (opening :: opened) ∧
      program.openLoops (closing + 1) = some opened := by
  have hInside := Nat.le_of_lt (lt_size_of_instruction? hPairs.closes)
  have hEntered := openLoops_succ_of_loopOpen h hPairs.opens
  have hClosing := openLoops_of_balanced hEntered hPairs.lt hInside hPairs.balanced
  exact ⟨hClosing, openLoops_succ_of_loopClose hClosing hPairs.closes⟩

/-- A closing bracket pairs with the innermost open bracket and with no other. -/
theorem pairs_iff_head? (h : program.openLoops address = some opened)
    (hClose : program.instruction? address = some .loopClose) (opening : Nat) :
    program.Pairs opening address ↔ opened.head? = some opening := by
  have hInside := Nat.le_of_lt (lt_size_of_instruction? hClose)
  constructor
  · intro hPairs
    obtain ⟨before, hBefore⟩ := exists_openLoops_of_le h (Nat.le_of_lt hPairs.lt)
    have hTop := (openLoops_after_pair hPairs hBefore).1
    rw [h, Option.some.injEq] at hTop
    rw [hTop, List.head?_cons]
  · intro hHead
    obtain ⟨outer, rfl⟩ := List.head?_eq_some_iff.1 hHead
    have hInner := innermost_of_openLoops h hInside
    exact ⟨hInner.lt, hInner.opens, hClose, hInner.balanced⟩

/-- Open at an address are the opening brackets before it that pair with no bracket before it. -/
theorem mem_openLoops_iff (h : program.openLoops address = some opened) (opening : Nat) :
    opening ∈ opened ↔ opening < address ∧ program.instruction? opening = some .loopOpen ∧
      ∀ closing < address, ¬ program.Pairs opening closing := by
  induction address generalizing opened with
  | zero =>
    cases h
    simp
  | succ address ih =>
    rw [Nat.forall_lt_succ_right, Nat.lt_succ_iff_lt_or_eq]
    rcases openLoops_succ_cases h with ⟨hOpen, outer, hOuter, rfl⟩ | ⟨hClose, top, hTop⟩ |
      ⟨hOpen, hClose, hSame⟩
    · have hNoPair : ¬ program.Pairs opening address := fun hPairs => by
        rw [hPairs.closes] at hOpen
        contradiction
      have hSelf : ∀ closing < address, ¬ program.Pairs address closing := fun closing hLt hPairs =>
        Nat.lt_asymm hLt hPairs.lt
      rw [List.mem_cons, ih hOuter]
      constructor
      · intro hMember
        rcases hMember with rfl | ⟨hLt, hOpens, hFree⟩
        · exact ⟨.inr rfl, hOpen, hSelf, hNoPair⟩
        · exact ⟨.inl hLt, hOpens, hFree, hNoPair⟩
      · intro hFound
        obtain ⟨hLt | rfl, hOpens, hFree, -⟩ := hFound
        · exact .inr ⟨hLt, hOpens, hFree⟩
        · exact .inl rfl
    · -- The bracket on top is closed here, and it occurs only once on the stack.
      have hNotTop : top ∉ opened := fun hMem =>
        Nat.lt_irrefl top ((List.pairwise_cons.1 (pairwise_openLoops hTop)).1 top hMem)
      have hPairs := pairs_iff_head? hTop hClose opening
      rw [List.head?_cons, Option.some.injEq] at hPairs
      have hBefore := ih hTop
      rw [List.mem_cons] at hBefore
      constructor
      · intro hMem
        obtain ⟨hLt, hOpens, hFree⟩ := hBefore.1 (.inr hMem)
        refine ⟨.inl hLt, hOpens, hFree, fun hPair => ?_⟩
        rw [hPairs.1 hPair] at hNotTop
        exact hNotTop hMem
      · intro hFound
        obtain ⟨hLt | rfl, hOpens, hFree, hNoPair⟩ := hFound
        · rcases hBefore.2 ⟨hLt, hOpens, hFree⟩ with hTopEq | hMem
          · exact absurd (hPairs.2 hTopEq.symm) hNoPair
          · exact hMem
        · rw [hClose] at hOpens
          contradiction
    · have hNoPair : ¬ program.Pairs opening address := fun hPairs => hClose hPairs.closes
      rw [ih hSame]
      constructor
      · intro hFound
        obtain ⟨hLt, hOpens, hFree⟩ := hFound
        exact ⟨.inl hLt, hOpens, hFree, hNoPair⟩
      · intro hFound
        obtain ⟨hLt | rfl, hOpens, hFree, -⟩ := hFound
        · exact ⟨hLt, hOpens, hFree⟩
        · exact absurd hOpens hOpen

/-- The opening brackets of a program that the forward scan cannot close, in the order of the
text. -/
def neverClosed (program : Program) : List Nat :=
  (List.range program.size).filter fun opening =>
    program.instruction? opening = some .loopOpen &&
      !(program.matchingClose opening).isOk

/-- Never closed are the opening brackets that pair with nothing. -/
theorem mem_neverClosed_iff (opening : Nat) :
    opening ∈ program.neverClosed ↔ program.instruction? opening = some .loopOpen ∧
      ∀ closing, ¬ program.Pairs opening closing := by
  simp only [neverClosed, List.mem_filter, List.mem_range, Bool.and_eq_true, decide_eq_true_eq,
    Bool.not_eq_true']
  constructor
  · intro h
    obtain ⟨-, hOpen, hScan⟩ := h
    refine ⟨hOpen, fun closing hPairs => ?_⟩
    rw [(matchingClose_eq_ok_iff closing hOpen).2 hPairs] at hScan
    contradiction
  · intro h
    obtain ⟨hOpen, hFree⟩ := h
    have hScan := (matchingClose_eq_error_iff _ hOpen).2 ⟨rfl, hFree⟩
    refine ⟨lt_size_of_instruction? hOpen, hOpen, ?_⟩
    rw [hScan]
    rfl

/-- The brackets open at the end of a program are those never closed, the innermost first. -/
theorem reverse_openLoops_size (h : program.openLoops program.size = some opened) :
    opened.reverse = program.neverClosed := by
  have hStack : opened.reverse.Pairwise (· < ·) :=
    List.pairwise_reverse.2 (pairwise_openLoops h)
  have hNever : program.neverClosed.Pairwise (· < ·) := List.pairwise_lt_range.filter _
  refine hStack.eq_of_mem_iff hNever fun opening => ?_
  rw [List.mem_reverse, mem_openLoops_iff h, mem_neverClosed_iff]
  constructor
  · intro hOpened
    obtain ⟨-, hOpen, hFree⟩ := hOpened
    exact ⟨hOpen, fun closing hPairs =>
      hFree closing (lt_size_of_instruction? hPairs.closes) hPairs⟩
  · intro hUnclosed
    obtain ⟨hOpen, hFree⟩ := hUnclosed
    exact ⟨lt_size_of_instruction? hOpen, hOpen, fun closing _ => hFree closing⟩

end Program

end ByteTape
