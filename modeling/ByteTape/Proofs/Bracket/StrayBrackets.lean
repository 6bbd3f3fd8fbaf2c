import ByteTape.Proofs.Bracket.OpenLoops

/-!
# Stray brackets

A text need not be balanced. Scanned from the left, a closing bracket with nothing open before it is
stray, and an opening bracket that is still open at the end is never closed. The scan here passes
over stray brackets and so goes on to the end of every text; up to the first stray bracket it agrees
with the reading that gives up there. An opening bracket without a partner stays open from its
address to the end.
-/

namespace ByteTape

namespace Program

open ByteTape.Bracket

/-- The addresses of the brackets that a scan of the text before an address leaves open, the
innermost first. A closing bracket that closes nothing is passed over. -/
def leftOpen (program : Program) : (address : Nat) → List Nat
  | 0 => []
  | address + 1 =>
    match program.instruction? address with
    | some .loopOpen => address :: program.leftOpen address
    | some .loopClose => (program.leftOpen address).tail
    | _ => program.leftOpen address

/-- A closing bracket at an address where nothing is open. -/
def Stray (program : Program) (address : Nat) : Prop :=
  program.instruction? address = some .loopClose ∧ program.leftOpen address = []

/-- Whether a bracket is stray can be computed. -/
instance (program : Program) (address : Nat) : Decidable (program.Stray address) :=
  inferInstanceAs (Decidable (_ ∧ _))

/-- The first of the stray brackets of a program. -/
structure FirstStray (program : Program) (address : Nat) : Prop where
  /-- The bracket there is stray. -/
  stray : program.Stray address
  /-- No bracket before it is. -/
  none_before : ∀ earlier < address, ¬ program.Stray earlier

variable {program : Program} {address : Nat} {opened : List Nat}

/-- An opening bracket is left open at first. -/
theorem leftOpen_succ_of_loopOpen (h : program.instruction? address = some .loopOpen) :
    program.leftOpen (address + 1) = address :: program.leftOpen address := by
  simp [leftOpen, h]

/-- A closing bracket closes the innermost one, if there is one. -/
theorem leftOpen_succ_of_loopClose (h : program.instruction? address = some .loopClose) :
    program.leftOpen (address + 1) = (program.leftOpen address).tail := by
  simp [leftOpen, h]

/-- Everything else opens and closes nothing. -/
theorem leftOpen_succ_of_plain (hOpen : program.instruction? address ≠ some .loopOpen)
    (hClose : program.instruction? address ≠ some .loopClose) :
    program.leftOpen (address + 1) = program.leftOpen address := by
  rw [leftOpen]
  split <;> simp_all

/-- Where a program can be read without meeting a stray bracket, the scan leaves the same brackets
open. -/
theorem leftOpen_of_openLoops (h : program.openLoops address = some opened) :
    program.leftOpen address = opened := by
  induction address generalizing opened with
  | zero =>
    cases h
    rfl
  | succ address ih =>
    rcases openLoops_succ_cases h with ⟨hOpen, outer, hOuter, rfl⟩ | ⟨hClose, top, hTop⟩ |
      ⟨hOpen, hClose, hSame⟩
    · rw [leftOpen_succ_of_loopOpen hOpen, ih hOuter]
    · rw [leftOpen_succ_of_loopClose hClose, ih hTop, List.tail_cons]
    · rw [leftOpen_succ_of_plain hOpen hClose, ih hSame]

/-- A program can be read up to a stray bracket and no further. -/
theorem le_of_stray (h : program.openLoops address = some opened) {stray : Nat}
    (hStray : program.Stray stray) : address ≤ stray := by
  by_contra hBeyond
  have hLe : stray + 1 ≤ address := by omega
  obtain ⟨hClose, hNothing⟩ := hStray
  obtain ⟨after, hAfter⟩ := exists_openLoops_of_le h hLe
  rcases openLoops_succ_cases hAfter with ⟨hOpen, -⟩ | ⟨-, top, hTop⟩ | ⟨-, hOther, -⟩
  · rw [hClose] at hOpen
    contradiction
  · have hSome := leftOpen_of_openLoops hTop
    rw [hNothing] at hSome
    contradiction
  · exact hOther hClose

/-- A bracket that is open at an address was open ever since it was opened. -/
theorem mem_leftOpen_of_le {opening later : Nat} (hMem : opening ∈ program.leftOpen later)
    (hLt : opening < address) (hLe : address ≤ later) : opening ∈ program.leftOpen address := by
  induction later, hLe using Nat.le_induction with
  | base => exact hMem
  | succ later hLe ih =>
    refine ih ?_
    by_cases hOpen : program.instruction? later = some .loopOpen
    · rw [leftOpen_succ_of_loopOpen hOpen] at hMem
      rcases List.mem_cons.1 hMem with rfl | hMem
      · exact absurd hLt (Nat.not_lt_of_le hLe)
      · exact hMem
    · by_cases hClose : program.instruction? later = some .loopClose
      · rw [leftOpen_succ_of_loopClose hClose] at hMem
        exact List.mem_of_mem_tail hMem
      · rwa [leftOpen_succ_of_plain hOpen hClose] at hMem

/-- An opening bracket without a partner stays open, below the brackets opened after it. -/
theorem leftOpen_of_unpaired {opening : Nat}
    (hOpen : program.instruction? opening = some .loopOpen)
    (hFree : ∀ closing, ¬ program.Pairs opening closing) (hLt : opening + 1 ≤ address)
    (hInside : address ≤ program.size) :
    ∃ inner, program.leftOpen address = inner ++ opening :: program.leftOpen opening ∧
      nesting (program.between (opening + 1) address) 0 = some inner.length := by
  induction address, hLt using Nat.le_induction with
  | base =>
    refine ⟨[], leftOpen_succ_of_loopOpen hOpen, ?_⟩
    rw [between_self]
    rfl
  | succ address hLe ih =>
    obtain ⟨inner, hInner, hNesting⟩ := ih (Nat.le_of_succ_le hInside)
    obtain ⟨symbol, hSymbol, hHere⟩ := exists_symbol hInside
    rw [between_succ hSymbol hLe, nesting_append, hNesting, Option.bind_some, nesting_cons]
    by_cases hOpens : Instruction.ofChar symbol = .loopOpen
    · refine ⟨address :: inner, ?_, ?_⟩
      · rw [leftOpen_succ_of_loopOpen ((hHere _).2 hOpens), hInner, List.cons_append]
      · rw [countSymbol_of_loopOpen hOpens]
        rfl
    · by_cases hCloses : Instruction.ofChar symbol = .loopClose
      · cases inner with
        | nil =>
          -- Nothing is open inside, so this bracket would be the missing partner.
          have hPairs : program.Pairs opening address :=
            ⟨hLe, hOpen, (hHere _).2 hCloses, hNesting⟩
          exact absurd hPairs (hFree address)
        | cons top inner =>
          refine ⟨inner, ?_, ?_⟩
          · rw [leftOpen_succ_of_loopClose ((hHere _).2 hCloses), hInner, List.cons_append,
              List.tail_cons]
          · rw [List.length_cons, countSymbol_of_loopClose hCloses]
            rfl
      · refine ⟨inner, ?_, ?_⟩
        · rw [leftOpen_succ_of_plain (mt (hHere _).1 hOpens) (mt (hHere _).1 hCloses), hInner]
        · rw [countSymbol_of_plain hOpens hCloses]
          rfl

/-- An opening bracket without a partner is still open at the end. -/
theorem mem_leftOpen_size_of_unpaired {opening : Nat}
    (hOpen : program.instruction? opening = some .loopOpen)
    (hFree : ∀ closing, ¬ program.Pairs opening closing) :
    opening ∈ program.leftOpen program.size := by
  have hInside := lt_size_of_instruction? hOpen
  obtain ⟨inner, hInner, -⟩ := leftOpen_of_unpaired hOpen hFree hInside (Nat.le_refl _)
  rw [hInner]
  exact List.mem_append_right inner List.mem_cons_self

end Program

end ByteTape
