import Mathlib.Data.List.Basic

/-!
# Texts that show where they end

A way of writing values is self-delimiting when the text of a value can be told from whatever
follows it, so that texts of several kinds can be written one after the other and still be told
apart. Words divided by a mark and ended by another one are written in such a way.
-/

namespace ByteTape

namespace Text

/-- Two values of a kind with texts that agree, whatever follows them, are the same value, and what
follows is the same. -/
def SelfDelimiting {α : Type} (valid : α → Prop) (write : α → List Char) : Prop :=
  ∀ first second, valid first → valid second → ∀ rest others,
    write first ++ rest = write second ++ others → first = second ∧ rest = others

/-- A text is cut in one way before the first symbol of a kind. -/
theorem cut_unique {ends : Char → Prop} {first second rest others : List Char} {mark other : Char}
    (hFirst : ∀ symbol ∈ first, ¬ ends symbol) (hSecond : ∀ symbol ∈ second, ¬ ends symbol)
    (hMark : ends mark) (hOther : ends other)
    (h : first ++ mark :: rest = second ++ other :: others) :
    first = second ∧ mark = other ∧ rest = others := by
  induction first generalizing second with
  | nil =>
    cases second with
    | nil => exact ⟨rfl, List.cons.inj h⟩
    | cons symbol second =>
      obtain ⟨rfl, -⟩ := List.cons.inj h
      exact absurd hMark (hSecond mark List.mem_cons_self)
  | cons symbol first ih =>
    cases second with
    | nil =>
      obtain ⟨rfl, -⟩ := List.cons.inj h
      exact absurd hOther (hFirst symbol List.mem_cons_self)
    | cons head second =>
      obtain ⟨rfl, hTail⟩ := List.cons.inj h
      obtain ⟨rfl, hMarks⟩ := ih
        (fun symbol hMem => hFirst symbol (List.mem_cons_of_mem _ hMem))
        (fun symbol hMem => hSecond symbol (List.mem_cons_of_mem _ hMem)) hTail
      exact ⟨rfl, hMarks⟩

namespace SelfDelimiting

variable {α β : Type} {valid : α → Prop} {write : α → List Char}

/-- A text with an end mark that it does not contain shows where it ends. -/
theorem of_mark {mark : Char} (hInjective : ∀ first second, valid first → valid second →
      write first = write second → first = second)
    (hMark : ∀ value, valid value → mark ∉ write value) :
    SelfDelimiting valid fun value => write value ++ [mark] := by
  intro first second hFirst hSecond rest others h
  rw [List.append_assoc, List.append_assoc] at h
  obtain ⟨hSame, -, hRest⟩ := cut_unique (fun symbol hMem (hEnds : symbol = mark) =>
      hMark first hFirst (hEnds ▸ hMem))
    (fun symbol hMem hEnds => hMark second hSecond (hEnds ▸ hMem)) rfl rfl h
  exact ⟨hInjective first second hFirst hSecond hSame, hRest⟩

/-- A fixed text before and a fixed text after do no harm. -/
theorem between (h : SelfDelimiting valid write) (before after : List Char) :
    SelfDelimiting valid fun value => before ++ write value ++ after := by
  intro first second hFirst hSecond rest others hText
  simp only [List.append_assoc, List.append_cancel_left_eq] at hText
  obtain ⟨hSame, hRest⟩ := h first second hFirst hSecond _ _ hText
  exact ⟨hSame, List.append_cancel_left hRest⟩

/-- Values that determine the values written are told apart with them. -/
theorem comap (h : SelfDelimiting valid write) {convert : β → α} {accepted : β → Prop}
    (hInjective : Function.Injective convert)
    (hValid : ∀ value, accepted value → valid (convert value)) :
    SelfDelimiting accepted fun value => write (convert value) := by
  intro first second hFirst hSecond rest others hText
  obtain ⟨hSame, hRest⟩ := h _ _ (hValid first hFirst) (hValid second hSecond) _ _ hText
  exact ⟨hInjective hSame, hRest⟩

/-- The texts of a list of values, none of them empty, tell the list. -/
theorem flatMap_injective (h : SelfDelimiting valid write)
    (hNonempty : ∀ value, valid value → write value ≠ []) {values others : List α}
    (hValues : ∀ value ∈ values, valid value) (hOthers : ∀ value ∈ others, valid value)
    (hText : values.flatMap write = others.flatMap write) : values = others := by
  induction values generalizing others with
  | nil =>
    cases others with
    | nil => rfl
    | cons other others =>
      rw [List.flatMap_nil, List.flatMap_cons, eq_comm, List.append_eq_nil_iff] at hText
      exact absurd hText.1 (hNonempty other (hOthers other List.mem_cons_self))
  | cons value values ih =>
    cases others with
    | nil =>
      rw [List.flatMap_nil, List.flatMap_cons, List.append_eq_nil_iff] at hText
      exact absurd hText.1 (hNonempty value (hValues value List.mem_cons_self))
    | cons other others =>
      rw [List.flatMap_cons, List.flatMap_cons] at hText
      obtain ⟨rfl, hRest⟩ := h value other (hValues value List.mem_cons_self)
        (hOthers other List.mem_cons_self) _ _ hText
      rw [ih (fun value hMem => hValues value (List.mem_cons_of_mem _ hMem))
        (fun other hMem => hOthers other (List.mem_cons_of_mem _ hMem)) hRest]

end SelfDelimiting

/-- A word that can stand in a listing: not empty, and without the marks that end a word. -/
structure IsWord (divider stop : Char) (word : List Char) : Prop where
  /-- There is something to see. -/
  ne_nil : word ≠ []
  /-- It does not contain the mark between words. -/
  divider_notMem : divider ∉ word
  /-- It does not contain the mark behind the last word. -/
  stop_notMem : stop ∉ word

/-- A number is written in decimal digits. -/
theorem toList_repr (number : Nat) : number.repr.toList = Nat.toDigits 10 number := by
  rw [Nat.repr_eq_ofList_toDigits, String.toList_ofList]

/-- The digits tell the number. -/
theorem toList_repr_injective : Function.Injective fun number : Nat => number.repr.toList := by
  intro number other h
  simp only [toList_repr] at h
  rw [← Nat.ofDigitChars_ten_toDigits (n := number), h, Nat.ofDigitChars_ten_toDigits]

/-- A number can stand between marks that are no digits. -/
theorem isWord_repr {divider stop : Char} (hDivider : divider.isDigit = false)
    (hStop : stop.isDigit = false) (number : Nat) :
    IsWord divider stop number.repr.toList := by
  rw [toList_repr]
  have hDigits : ∀ symbol ∈ Nat.toDigits 10 number, symbol.isDigit = true := fun symbol =>
    Nat.isDigit_of_mem_toDigits (by decide) (by decide)
  refine ⟨Nat.toDigits_ne_nil, ?_, ?_⟩
  · intro hMem
    rw [hDigits divider hMem] at hDivider
    contradiction
  · intro hMem
    rw [hDigits stop hMem] at hStop
    contradiction

variable {divider stop : Char} {gap : List Char}

/-- A word contains no mark. -/
theorem IsWord.no_mark {word : List Char} (h : IsWord divider stop word) :
    ∀ symbol ∈ word, ¬ (symbol = divider ∨ symbol = stop) := by
  rintro symbol hMem (rfl | rfl)
  · exact h.divider_notMem hMem
  · exact h.stop_notMem hMem

/-- The first word of a listing is followed by one of the marks: by the mark between words if there
are more of them, and else by the mark at the end. -/
theorem intercalate_cons_append (word : List Char) (words : List (List Char)) (rest : List Char) :
    (divider :: gap).intercalate (word :: words) ++ stop :: rest =
      match words with
      | [] => word ++ stop :: rest
      | _ :: _ =>
        word ++ divider :: (gap ++ ((divider :: gap).intercalate words ++ stop :: rest)) := by
  cases words with
  | nil => rw [List.intercalate_singleton]
  | cons next words =>
    rw [List.intercalate_cons_cons]
    simp only [List.append_assoc, List.cons_append]

/-- A listing with a word in it does not begin with the mark at the end. -/
theorem IsWord.intercalate_ne {word : List Char} (h : IsWord divider stop word)
    (words : List (List Char)) (rest others : List Char) :
    (divider :: gap).intercalate (word :: words) ++ stop :: rest ≠ stop :: others := by
  cases word with
  | nil => exact absurd rfl h.ne_nil
  | cons symbol word =>
    have hStop : symbol ≠ stop := fun hSame => h.stop_notMem (hSame ▸ List.mem_cons_self)
    rw [intercalate_cons_append]
    split
    · exact fun hText => hStop (List.cons.inj hText).1
    · exact fun hText => hStop (List.cons.inj hText).1

/-- Words divided by one mark and ended by another show where they end. -/
theorem selfDelimiting_listing (hMarks : divider ≠ stop) :
    SelfDelimiting (fun words => ∀ word ∈ words, IsWord divider stop word)
      fun words => (divider :: gap).intercalate words ++ [stop] := by
  intro words others hWords hOthers rest following h
  rw [List.append_assoc, List.append_assoc, List.singleton_append, List.singleton_append] at h
  induction words generalizing others with
  | nil =>
    cases others with
    | nil => exact ⟨rfl, (List.cons.inj h).2⟩
    | cons other others =>
      exact absurd h.symm ((hOthers other List.mem_cons_self).intercalate_ne others following rest)
  | cons word words ih =>
    cases others with
    | nil =>
      exact absurd h ((hWords word List.mem_cons_self).intercalate_ne words rest following)
    | cons other others =>
      have hWord := (hWords word List.mem_cons_self).no_mark
      have hOther := (hOthers other List.mem_cons_self).no_mark
      have hNext := ih others (fun word hMem => hWords word (List.mem_cons_of_mem _ hMem))
        fun word hMem => hOthers word (List.mem_cons_of_mem _ hMem)
      rw [intercalate_cons_append, intercalate_cons_append] at h
      -- The mark behind the first word tells whether there are more.
      split at h <;> split at h
      · obtain ⟨rfl, -, hRest⟩ := cut_unique hWord hOther (.inr rfl) (.inr rfl) h
        exact ⟨rfl, hRest⟩
      · exact absurd (cut_unique hWord hOther (.inr rfl) (.inl rfl) h).2.1.symm hMarks
      · exact absurd (cut_unique hWord hOther (.inl rfl) (.inr rfl) h).2.1 hMarks
      · obtain ⟨rfl, -, hTail⟩ := cut_unique hWord hOther (.inl rfl) (.inl rfl) h
        obtain ⟨hWords, hRest⟩ := hNext (List.append_cancel_left hTail)
        exact ⟨congrArg (word :: ·) hWords, hRest⟩

end Text

end ByteTape
