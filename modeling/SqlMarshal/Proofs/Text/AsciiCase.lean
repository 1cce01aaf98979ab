import Mathlib
import SqlMarshal.Row.Columns
import SqlMarshal.Text.Lowercase

/-! # Names of ASCII characters

The two foldings of case agree on ASCII characters. Folding moves only letters, so it neither makes
nor removes the quotes around a label: a name without such quotes is, once folded, its own normal
form.
-/

namespace SqlMarshal

theorem toLower_of_not_isAlpha {c : Char} (noLetter : c.isAlpha = false) : c.toLower = c := by
  refine Char.toLower_eq_of_not_isUpper fun capital => ?_
  simp [Char.isAlpha, capital] at noLetter

theorem toLower_eq_iff {c q : Char} (noLetter : q.isAlpha = false) : c.toLower = q ↔ c = q := by
  constructor
  · rintro rfl
    exact (toLower_of_not_isAlpha (by simpa using noLetter)).symm
  · rintro rfl
    exact toLower_of_not_isAlpha noLetter

theorem closingQuote?_of_isAlpha {c : Char} (letter : c.isAlpha) : closingQuote? c = none := by
  unfold closingQuote?
  split <;> first | rfl | exact absurd letter (by decide)

theorem closingQuote?_toLower (c : Char) : closingQuote? c.toLower = closingQuote? c := by
  cases letter : c.isAlpha with
  | true => rw [closingQuote?_of_isAlpha letter, closingQuote?_of_isAlpha (by simpa using letter)]
  | false => rw [toLower_of_not_isAlpha letter]

theorem not_isAlpha_closingQuote {first last : Char} (closes : closingQuote? first = some last) :
    last.isAlpha = false := by
  unfold closingQuote? at closes
  split at closes <;> first | (obtain rfl := Option.some.inj closes; decide) | simp at closes

theorem unquoteLabel_toLower (label : List Char) :
    unquoteLabel (label.map Char.toLower) = (unquoteLabel label).map Char.toLower := by
  cases label with
  | nil => rfl
  | cons first rest =>
      have quoted : (rest.map Char.toLower ≠ [] ∧
            closingQuote? first.toLower = (rest.map Char.toLower).getLast?) ↔
          (rest ≠ [] ∧ closingQuote? first = rest.getLast?) := by
        rw [closingQuote?_toLower, List.getLast?_map]
        refine and_congr (by simp) ?_
        cases closes : closingQuote? first with
        | none => simp [eq_comm]
        | some last =>
            cases rest.getLast? with
            | none => simp
            | some c =>
                simp only [Option.map_some, Option.some.injEq]
                rw [eq_comm, toLower_eq_iff (not_isAlpha_closingQuote closes), eq_comm]
      simp only [List.map_cons, unquoteLabel, quoted]
      split
      · exact List.map_dropLast.symm
      · rfl

theorem normalizeLabel_lowerAscii {name : String}
    (unquoted : unquoteLabel name.toList = name.toList) :
    normalizeLabel (lowerAscii name) = lowerAscii name := by
  simp only [normalizeLabel, lowerAscii, String.toList_ofList, unquoteLabel_toLower, unquoted,
    List.map_map]
  congr 2
  funext c
  exact Char.toLower_toLower_eq_toLower c

theorem lowerFrom_ascii {text : List Char} (ascii : ∀ c ∈ text, c.toNat < 128)
    (before : List Char) : lowerFrom before text = text.map Char.toLower := by
  induction text generalizing before with
  | nil => rfl
  | cons c rest ih =>
      obtain ⟨here, later⟩ := List.forall_mem_cons.1 ascii
      unfold lowerFrom
      split
      · contradiction
      · rename_i same
        obtain ⟨rfl, rfl⟩ := List.cons.inj same
        exact absurd here (by decide)
      · rename_i same
        obtain ⟨rfl, rfl⟩ := List.cons.inj same
        simp [lowerChar, here, ih later]

/-- On ASCII characters the full folding of case is that of ASCII. -/
theorem lower_ascii {text : String} (ascii : ∀ c ∈ text.toList, c.toNat < 128) :
    lower text = lowerAscii text := by
  rw [lower, lowerFrom_ascii ascii, lowerAscii]

end SqlMarshal
