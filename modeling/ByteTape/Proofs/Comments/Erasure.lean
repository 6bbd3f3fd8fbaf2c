import ByteTape.Proofs.Core.Renumber

/-!
# Erasing comments

A program without its comments has the same instructions in the same order, at addresses of its own:
the address of an instruction is the number of instructions before it that are no comments. Brackets
are no comments and comments are no brackets, so two brackets belong together with comments between
them exactly if they do without. Every instruction that is no comment is therefore copied by
erasure, the bracket scan included.
-/

namespace ByteTape

/-- Whether a symbol is more than a comment. -/
def Instruction.acts (symbol : Char) : Bool :=
  (Instruction.ofChar symbol).isEffectful

/-- A symbol is a comment exactly if it does not act. -/
theorem Instruction.acts_eq_false_iff (symbol : Char) :
    acts symbol = false ↔ ∃ character, ofChar symbol = comment character :=
  isEffectful_eq_false_iff _

/-- A text without its comments. -/
def uncommented (source : String) : String :=
  String.ofList (source.toList.filter Instruction.acts)

namespace Bracket

open Instruction

/-- Comments are not counted as brackets. -/
theorem nesting_filter_acts (symbols : List Char) (depth : Nat) :
    nesting (symbols.filter acts) depth = nesting symbols depth := by
  induction symbols generalizing depth with
  | nil => rfl
  | cons symbol rest ih =>
    cases hActs : acts symbol with
    | true =>
      have hKept : (symbol :: rest).filter acts = symbol :: rest.filter acts :=
        List.filter_cons_of_pos hActs
      rw [hKept, nesting_cons, nesting_cons]
      exact congrArg (countSymbol depth symbol).bind (funext ih)
    | false =>
      have hErased : (symbol :: rest).filter acts = rest.filter acts :=
        List.filter_cons_of_neg (by simp [hActs])
      obtain ⟨character, hComment⟩ := (acts_eq_false_iff symbol).1 hActs
      have hPlain : countSymbol depth symbol = some depth :=
        countSymbol_of_plain (by simp [hComment]) (by simp [hComment]) depth
      rw [hErased, nesting_cons, hPlain]
      exact ih depth

end Bracket

namespace Program

open Instruction ByteTape.Bracket

variable {program : Program} {address : Nat}

/-- A program without its comments. -/
def uncommented (program : Program) : Program :=
  ⟨(program.symbols.toList.filter acts).toArray⟩

/-- The number of instructions before an address that are no comments. -/
def place (program : Program) (address : Nat) : Nat :=
  (program.symbols.toList.take address).countP acts

/-- Erasing the comments of a text erases those of its program. -/
theorem ofString_uncommented (source : String) :
    ofString (ByteTape.uncommented source) = (ofString source).uncommented := by
  simp [ofString, ByteTape.uncommented, uncommented]

/-- The place of an address is counted symbol by symbol. -/
theorem place_succ {symbol : Char} (hSymbol : program.symbols.toList[address]? = some symbol) :
    program.place (address + 1) = program.place address + if acts symbol then 1 else 0 := by
  rw [place, List.take_add_one, hSymbol, List.countP_append]
  exact congrArg (program.place address + ·) List.countP_singleton

/-- Past the end of the program nothing is counted. -/
theorem place_of_size_le (h : program.size ≤ address) :
    program.place address = program.uncommented.size := by
  have hAll : program.symbols.toList.take address = program.symbols.toList :=
    List.take_of_length_le h
  rw [place, hAll, List.countP_eq_length_filter]
  rfl

/-- A later address has no earlier place. -/
theorem place_mono (program : Program) {address later : Nat} (h : address ≤ later) :
    program.place address ≤ program.place later := by
  have hPrefix : program.symbols.toList.take address <+: program.symbols.toList.take later :=
    List.take_prefix_take_left h
  exact hPrefix.sublist.countP_le

/-- What follows the place of an address is what follows the address, without its comments. -/
theorem drop_place (program : Program) (address : Nat) :
    program.uncommented.symbols.toList.drop (program.place address) =
      (program.symbols.toList.drop address).filter acts := by
  have hSplit : program.uncommented.symbols.toList =
      (program.symbols.toList.take address).filter acts ++
        (program.symbols.toList.drop address).filter acts := by
    rw [← List.filter_append, List.take_append_drop]
    rfl
  rw [hSplit, place, List.countP_eq_length_filter]
  exact List.drop_left

/-- The text between the places of two addresses is the text between them, without its
comments. -/
theorem between_place {later : Nat} (h : address ≤ later) :
    program.uncommented.between (program.place address) (program.place later) =
      (program.between address later).filter acts := by
  have hCut : program.symbols.toList.drop address =
      program.between address later ++
        (program.symbols.toList.drop address).drop (later - address) :=
    (List.take_append_drop _ _).symm
  have hLater : program.place later =
      program.place address + ((program.between address later).filter acts).length := by
    rw [← List.countP_eq_length_filter, place, place, ← List.countP_append, between,
      ← List.take_add, Nat.add_sub_cancel' h]
  rw [between, drop_place, hCut, List.filter_append, hLater, Nat.add_sub_cancel_left]
  exact List.take_left

/-- An instruction that is no comment stands at its place. -/
theorem symbol_place {symbol : Char} (hSymbol : program.symbols.toList[address]? = some symbol)
    (hActs : acts symbol = true) :
    program.uncommented.symbols.toList[program.place address]? = some symbol := by
  obtain ⟨hInside, hHere⟩ := List.getElem?_eq_some_iff.1 hSymbol
  have hDrop := drop_place program address
  rw [List.drop_eq_getElem_cons hInside, hHere, List.filter_cons_of_pos hActs] at hDrop
  have hHead := congrArg List.head? hDrop
  rwa [List.head?_drop, List.head?_cons] at hHead

/-- Every place of the program without its comments is that of an instruction that is none. -/
theorem exists_place_eq {target : Nat} (h : target < program.place address) :
    ∃ earlier < address, ∃ symbol, program.symbols.toList[earlier]? = some symbol ∧
      acts symbol = true ∧ program.place earlier = target := by
  induction address with
  | zero => exact absurd h (by simp [place])
  | succ address ih =>
    by_cases hEarlier : target < program.place address
    · obtain ⟨earlier, hLt, hFound⟩ := ih hEarlier
      exact ⟨earlier, Nat.lt_succ_of_lt hLt, hFound⟩
    · -- The count passes the target here, so the symbol here is counted.
      cases hSymbol : program.symbols.toList[address]? with
      | none =>
        have hEnd : program.size ≤ address := List.getElem?_eq_none_iff.1 hSymbol
        rw [place_of_size_le (Nat.le_succ_of_le hEnd), ← place_of_size_le hEnd] at h
        exact absurd h hEarlier
      | some symbol =>
        rw [place_succ hSymbol] at h
        cases hActs : acts symbol with
        | true =>
          rw [hActs, if_pos rfl] at h
          exact ⟨address, Nat.lt_succ_self _, symbol, hSymbol, hActs, by omega⟩
        | false =>
          rw [hActs] at h
          exact absurd h hEarlier

/-- An instruction with an effect is decoded from a symbol that acts. -/
theorem acts_of_instruction? {instruction : Instruction}
    (hHere : program.instruction? address = some instruction)
    (hEffect : instruction.isEffectful = true) :
    ∃ symbol, program.symbols.toList[address]? = some symbol ∧ acts symbol = true := by
  obtain ⟨symbol, hSymbol, rfl⟩ := (instruction?_eq_some_iff program address instruction).1 hHere
  exact ⟨symbol, hSymbol, hEffect⟩

/-- The address after an instruction with an effect has the next place. -/
theorem place_succ_of_isEffectful {instruction : Instruction}
    (hHere : program.instruction? address = some instruction)
    (hEffect : instruction.isEffectful = true) :
    program.place (address + 1) = program.place address + 1 := by
  obtain ⟨symbol, hSymbol, hActs⟩ := acts_of_instruction? hHere hEffect
  rw [place_succ hSymbol, hActs, if_pos rfl]

/-- The address after a comment has the place of the comment. -/
theorem place_succ_of_comment {character : Char}
    (hHere : program.instruction? address = some (.comment character)) :
    program.place (address + 1) = program.place address := by
  obtain ⟨symbol, hSymbol, hComment⟩ :=
    (instruction?_eq_some_iff program address (.comment character)).1 hHere
  have hErased : acts symbol = false := (acts_eq_false_iff symbol).2 ⟨character, hComment⟩
  rw [place_succ hSymbol, hErased]
  rfl

/-- An instruction with an effect stands at its place in the program without comments. -/
theorem instruction?_place {instruction : Instruction}
    (hHere : program.instruction? address = some instruction)
    (hEffect : instruction.isEffectful = true) :
    program.uncommented.instruction? (program.place address) = some instruction := by
  obtain ⟨symbol, hSymbol, rfl⟩ := (instruction?_eq_some_iff program address instruction).1 hHere
  exact (instruction?_eq_some_iff _ _ _).2 ⟨symbol, symbol_place hSymbol hEffect, rfl⟩

/-- Brackets that belong together do so without the comments. -/
theorem Pairs.uncommented {opening closing : Nat} (h : program.Pairs opening closing) :
    program.uncommented.Pairs (program.place opening) (program.place closing) := by
  have hNext := place_succ_of_isEffectful h.opens rfl
  have hLe : program.place (opening + 1) ≤ program.place closing := place_mono program h.lt
  refine ⟨by omega, instruction?_place h.opens rfl, instruction?_place h.closes rfl, ?_⟩
  rw [Bracket.Balanced, ← hNext, between_place h.lt, nesting_filter_acts]
  exact h.balanced

/-- Brackets that belong together without the comments do so with them. -/
theorem exists_pairs_of_uncommented {opening target : Nat}
    (hOpen : program.instruction? opening = some .loopOpen)
    (h : program.uncommented.Pairs (program.place opening) target) :
    ∃ closing, program.Pairs opening closing ∧ program.place closing = target := by
  have hInside := lt_size_of_instruction? h.closes
  rw [← place_of_size_le (Nat.le_refl program.size)] at hInside
  obtain ⟨closing, -, symbol, hSymbol, hActs, rfl⟩ := exists_place_eq hInside
  have hThere : program.instruction? closing = some (ofChar symbol) :=
    (instruction?_eq_some_iff _ _ _).2 ⟨symbol, hSymbol, rfl⟩
  have hClose : program.instruction? closing = some .loopClose := by
    rw [hThere, ← instruction?_place hThere hActs, h.closes]
  have hLt : opening < closing := by
    by_contra hNot
    have hBack := place_mono program (Nat.le_of_not_lt hNot)
    have hForth := h.lt
    omega
  refine ⟨closing, ⟨hLt, hOpen, hClose, ?_⟩, rfl⟩
  have hBalanced := h.balanced
  rwa [Bracket.Balanced, ← place_succ_of_isEffectful hOpen rfl, between_place hLt,
    nesting_filter_acts] at hBalanced

/-- The bracket scan without the comments ends at the place where the scan with them ends. -/
theorem matchingClose_place {opening : Nat}
    (hOpen : program.instruction? opening = some .loopOpen) :
    program.uncommented.matchingClose (program.place opening) =
      (program.matchingClose opening).map program.place := by
  have hThere := instruction?_place hOpen rfl
  cases hClose : program.matchingClose opening with
  | ok closing =>
    have hPairs := (matchingClose_eq_ok_iff closing hOpen).1 hClose
    exact (matchingClose_eq_ok_iff _ hThere).2 hPairs.uncommented
  | error fault =>
    obtain ⟨hFault, hNone⟩ := (matchingClose_eq_error_iff fault hOpen).1 hClose
    refine (matchingClose_eq_error_iff fault hThere).2 ⟨hFault, ?_⟩
    intro target hPairs
    obtain ⟨closing, hFound, -⟩ := exists_pairs_of_uncommented hOpen hPairs
    exact hNone closing hFound

/-- Erasing the comments copies every instruction that is no comment, and the end of the program. -/
theorem copiedAt_place (h : ∀ character, program.instruction? address ≠ some (.comment character)) :
    program.CopiedAt program.place program.uncommented address := by
  cases hHere : program.instruction? address with
  | none =>
    have hEnd := (instruction?_eq_none_iff program address).1 hHere
    have hNone : program.uncommented.instruction? (program.place address) = none :=
      (instruction?_eq_none_iff _ _).2 (Nat.le_of_eq (place_of_size_le hEnd).symm)
    refine ⟨hNone.trans hHere.symm, fun hInside => absurd hEnd (Nat.not_le_of_lt hInside), ?_, ?_⟩
    · intro hOpen
      rw [hHere] at hOpen
      contradiction
    · intro closing hOpen
      rw [hHere] at hOpen
      contradiction
  | some instruction =>
    have hEffect : instruction.isEffectful = true := by
      by_contra hNot
      obtain ⟨character, rfl⟩ :=
        (isEffectful_eq_false_iff instruction).1 (Bool.eq_false_iff.2 hNot)
      exact h character hHere
    refine ⟨(instruction?_place hHere hEffect).trans hHere.symm,
      fun _ => place_succ_of_isEffectful hHere hEffect, matchingClose_place, ?_⟩
    intro closing hOpen hClose
    have hPairs := (matchingClose_eq_ok_iff closing hOpen).1 hClose
    exact place_succ_of_isEffectful hPairs.closes rfl

end Program

end ByteTape
