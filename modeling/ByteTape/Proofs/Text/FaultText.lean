import ByteTape.Fault
import ByteTape.Proofs.Text.Delimited

/-!
# The text of a fault tells the fault

The title of a cause is known by its first letter. Behind it comes a blank if there is a position, a
semicolon if there is a note and no position, and nothing if there is neither. A position is written
in digits, so it goes as far as the semicolon before a note, or to the end. Behind that semicolon
everything is the note, whatever stands in it. So no two faults have the same text, and none have the
same report.
-/

namespace ByteTape

open Text

/-- A title shows where it ends and tells the cause. -/
theorem Cause.selfDelimiting_title :
    SelfDelimiting (fun _ => True) fun cause : Cause => cause.title.toList := by
  intro first second _ _ rest others h
  have hSame : first = second := by
    have hHead := congrArg List.head? h
    cases first <;> cases second <;> first
      | rfl
      | simp [title] at hHead
  subst hSame
  exact ⟨rfl, List.append_cancel_left h⟩

namespace Fault

/-- What can follow a position: nothing, or something after a semicolon. -/
def EndsOrNotes (rest : List Char) : Prop :=
  rest = [] ∨ ∃ tail, rest = ';' :: tail

/-- With a semicolon behind it, what follows a position begins with a semicolon. -/
theorem EndsOrNotes.exists_tail {rest : List Char} (h : EndsOrNotes rest) :
    ∃ tail, rest ++ [';'] = ';' :: tail := by
  rcases h with rfl | ⟨tail, rfl⟩
  · exact ⟨[], rfl⟩
  · exact ⟨tail ++ [';'], rfl⟩

/-- A note follows a position in the way a note can. -/
theorem endsOrNotes_noteText (note : String) : EndsOrNotes (noteText note).toList := by
  rw [noteText]
  split
  · exact .inl rfl
  · exact .inr ⟨' ' :: note.toList, by simp⟩

/-- The part that tells the note tells it. -/
theorem noteText_injective : Function.Injective noteText := by
  intro note other h
  have hEmpty : ∀ text : String, text.isEmpty = true → text = "" := fun text => by simp
  unfold noteText at h
  split at h
  · rename_i hNote
    split at h
    · rename_i hOther
      rw [hEmpty note hNote, hEmpty other hOther]
    · exact absurd (congrArg String.toList h) (by simp)
  · split at h
    · exact absurd (congrArg String.toList h) (by simp)
    · exact (String.append_right_inj "; ").1 h

/-- Two numbers whose digits stand before nothing or before a semicolon are told apart. -/
theorem repr_append_unique {number other : Nat} {rest others : List Char}
    (hRest : EndsOrNotes rest) (hOthers : EndsOrNotes others)
    (h : number.repr.toList ++ rest = other.repr.toList ++ others) :
    number = other ∧ rest = others := by
  obtain ⟨tail, hTail⟩ := hRest.exists_tail
  obtain ⟨ending, hEnding⟩ := hOthers.exists_tail
  have hDigits : ∀ value : Nat, ∀ symbol ∈ value.repr.toList, ¬ symbol = ';' := by
    intro value symbol hMem hSymbol
    have hWord : IsWord ';' ';' value.repr.toList := isWord_repr rfl rfl value
    exact hWord.stop_notMem (hSymbol ▸ hMem)
  have hMarked := congrArg (· ++ [';']) h
  simp only [List.append_assoc, hTail, hEnding] at hMarked
  obtain ⟨hSame, -, hTails⟩ := cut_unique (hDigits number) (hDigits other) rfl rfl hMarked
  rw [← List.cons_inj_right ';', ← hTail, ← hEnding] at hTails
  exact ⟨toList_repr_injective hSame, List.append_cancel_right hTails⟩

/-- The part that tells the position, before nothing or before a semicolon, tells whether there is one
and which. -/
theorem positionText_append_unique {position other : Option Nat} {rest others : List Char}
    (hRest : EndsOrNotes rest) (hOthers : EndsOrNotes others)
    (h : (positionText position).toList ++ rest = (positionText other).toList ++ others) :
    position = other ∧ rest = others := by
  have hApart : ∀ (number : Nat) (following : List Char) {missing : List Char},
      EndsOrNotes missing → missing ≠ (positionText (some number)).toList ++ following := by
    intro number following missing hMissing hSame
    subst hSame
    rcases hMissing with hNil | ⟨tail, hTail⟩
    · simp [positionText] at hNil
    · simp [positionText] at hTail
  cases position with
  | none =>
    cases other with
    | none => exact ⟨rfl, h⟩
    | some number => exact absurd h (hApart number others hRest)
  | some number =>
    cases other with
    | none => exact absurd h.symm (hApart number rest hOthers)
    | some another =>
      simp only [positionText, String.toList_append, List.append_assoc,
        List.append_cancel_left_eq] at h
      obtain ⟨rfl, hSame⟩ := repr_append_unique hRest hOthers h
      exact ⟨rfl, hSame⟩

/-- Faults with the same cause, position and note are the same. -/
theorem eq_iff_fields (first second : Fault) :
    first = second ↔ first.cause = second.cause ∧ first.position = second.position ∧
      first.note = second.note := by
  obtain ⟨cause, position, note⟩ := first
  obtain ⟨other, place, remark⟩ := second
  rw [Fault.mk.injEq]

/-- A fault is known by its text. -/
theorem text_injective : Function.Injective text := by
  intro first second h
  have hText := congrArg String.toList h
  simp only [text, String.toList_append, List.append_assoc] at hText
  obtain ⟨hCause, hBehind⟩ := Cause.selfDelimiting_title _ _ trivial trivial _ _ hText
  obtain ⟨hPosition, hNotes⟩ := positionText_append_unique (endsOrNotes_noteText first.note)
    (endsOrNotes_noteText second.note) hBehind
  have hNote := noteText_injective (String.toList_inj.1 hNotes)
  exact (eq_iff_fields first second).2 ⟨hCause, hPosition, hNote⟩

/-- A fault is known by its report. -/
theorem report_injective : Function.Injective report := by
  intro first second h
  rw [report, report, String.append_left_inj, String.append_right_inj] at h
  exact text_injective h

/-- Whatever position and note faults were given, two of them have the same text only if they have
the same cause, position and note, and the same report only then. -/
theorem texts_unambiguous (first second : Fault) :
    (first.text = second.text ↔ first.cause = second.cause ∧ first.position = second.position ∧
        first.note = second.note) ∧
      (first.report = second.report ↔ first.cause = second.cause ∧
        first.position = second.position ∧ first.note = second.note) := by
  have hFields := eq_iff_fields first second
  exact ⟨text_injective.eq_iff.trans hFields, report_injective.eq_iff.trans hFields⟩

end Fault

end ByteTape
