import Mathlib
import SqlMarshal.Proofs.Query.Segments
import SqlMarshal.Query.Markers

/-! # Marked text

When the placeholders of a text are written for a dialect, the regions of the text stay what they
were, and the markers are bare. So no placeholder is left to be written, and writing the text again,
for whatever dialect, changes nothing.

There is one exception. The marker of an argument can begin with a dollar, and behind a dollar and a
tag this one completes the marker of a dollar-quoted text that was not there before. By itself it
opens nothing, because its number is no tag.
-/

namespace SqlMarshal

/-- Whether somewhere a placeholder stands directly behind a bare dollar and a tag: a word, also an
    empty one, that does not begin with an ASCII digit. -/
def taggedPlaceholder : List Piece → Bool
  | [] => false
  | .bare '$' :: rest =>
      let word := leadingWord rest
      (rest.drop word.length).head? == some (.bare '?') && !word.head?.any Char.isDigit ||
        taggedPlaceholder rest
  | _ :: rest => taggedPlaceholder rest

/-- Whether a text ends with a dollar and a tag. -/
def endsInTag (text : List Char) : Bool :=
  let word := (text.reverse.takeWhile isWordChar).reverse
  (text.reverse.dropWhile isWordChar).head? == some '$' && !word.head?.any Char.isDigit

/-- The pieces of a text with the markers of a dialect in place of its placeholders. -/
def placeMarkers (dialect : Dialect) : (number : Nat) → List Piece → List Piece
  | _, [] => []
  | number, .bare '?' :: rest =>
      (dialect.marker number).map .bare ++ placeMarkers dialect (number + 1) rest
  | number, piece :: rest => piece :: placeMarkers dialect number rest

def Piece.region? : Piece → Option (List Char)
  | .region text => some text
  | .bare _ => none

/-- The texts of the regions among pieces, from left to right. -/
def regionTexts (found : List Piece) : List (List Char) :=
  found.filterMap Piece.region?

/-! ## Markers -/

namespace Dialect

variable {dialect : Dialect}

/-- A marker is a sign and, unless it is a bare question mark, a number behind it. The sign belongs
    to no word and ends or begins no region, but for a dollar. -/
theorem marker_eq (dialect : Dialect) (number : Nat) :
    ∃ sign tail, dialect.marker number = sign :: tail ∧ isWordChar sign = false ∧
      sign ∉ '-' :: '*' :: Region.quotes ∧ (sign ∈ Region.openers → dialect = .dollar) ∧
      ∀ c ∈ tail, c = 'p' ∨ c.isDigit := by
  have digits : ∀ c ∈ Decimal.writeNat number, c = 'p' ∨ c.isDigit := fun c member =>
    .inr (Nat.isDigit_of_mem_toDigits (by decide) (by decide) member)
  cases dialect with
  | question => exact ⟨'?', [], rfl, by decide, by decide, by decide, by simp⟩
  | dollar => exact ⟨'$', _, rfl, by decide, by decide, fun _ => rfl, digits⟩
  | atP =>
      exact ⟨'@', _, rfl, by decide, by decide, by decide,
        List.forall_mem_cons.2 ⟨.inl rfl, digits⟩⟩
  | colon => exact ⟨':', _, rfl, by decide, by decide, by decide, digits⟩

theorem not_opener_of_number {c : Char} (inNumber : c = 'p' ∨ c.isDigit) :
    c ∉ Region.openers := by
  rcases inNumber with rfl | digit
  · decide
  · intro opener
    simp only [Region.openers, Region.quotes, List.mem_cons, List.not_mem_nil, or_false] at opener
    rcases opener with rfl | rfl | rfl | rfl | rfl | rfl <;> exact absurd digit (by decide)

theorem not_mem_marker (numbered : dialect ≠ .question) (number : Nat) :
    '?' ∉ dialect.marker number := by
  have digits : '?' ∉ Decimal.writeNat number := fun member =>
    absurd (Nat.isDigit_of_mem_toDigits (by decide) (by decide) member) (by decide)
  cases dialect with
  | question => contradiction
  | dollar | atP | colon => simp [marker, digits]

end Dialect

theorem dollarMarker?_of_number (number : Nat) (text : List Char) :
    Region.dollarMarker? (Decimal.writeNat number ++ text) = none := by
  obtain ⟨digit, rest, written⟩ := List.exists_cons_of_ne_nil
    (Nat.toDigits_ne_nil : Nat.toDigits 10 number ≠ [])
  have isDigit : digit.isDigit :=
    Nat.isDigit_of_mem_toDigits (by decide) (by decide) (written ▸ List.mem_cons_self)
  rw [Option.eq_none_iff_forall_ne_some]
  intro marker marked
  obtain ⟨word, body, whole, -, isWord, noDigit⟩ := Region.dollarMarker?_eq_some marked
  rw [Decimal.writeNat, written] at whole
  cases word with
  | nil =>
      obtain rfl : digit = '$' := (List.cons.inj whole).1
      exact absurd isDigit (by decide)
  | cons c word =>
      obtain rfl : digit = c := (List.cons.inj whole).1
      simp [isDigit] at noDigit

theorem Splits.marker_append {text : List Char} {found : List Piece} (splits : Splits text found)
    (dialect : Dialect) (number : Nat) :
    Splits (dialect.marker number ++ text) ((dialect.marker number).map .bare ++ found) := by
  obtain ⟨sign, tail, written, -, -, opens, inNumber⟩ := dialect.marker_eq number
  have behind : Splits (tail ++ text) (tail.map .bare ++ found) :=
    splits.bare_append fun c member => Dialect.not_opener_of_number (inNumber c member)
  rw [written]
  refine .bare (Region.cut?_of_plain ?_) behind
  by_cases opener : sign ∈ Region.openers
  · obtain rfl := opens opener
    obtain ⟨rfl, rfl⟩ := List.cons.inj written
    exact ⟨by decide, by simp, by simp, fun _ => dollarMarker?_of_number number text⟩
  · exact Region.plain_of_noOpener _ opener

/-! ## The pieces of marked text -/

section Place

variable {dialect : Dialect} {number : Nat} {text : List Char} {piece : Piece} {found : List Piece}

@[simp] theorem placeMarkers_placeholder :
    placeMarkers dialect number (.bare '?' :: found) =
      (dialect.marker number).map .bare ++ placeMarkers dialect (number + 1) found := rfl

theorem placeMarkers_other (other : piece ≠ .bare '?') :
    placeMarkers dialect number (piece :: found) = piece :: placeMarkers dialect number found := by
  rw [placeMarkers]
  exact other

theorem writeMarkers_eq :
    writeMarkers dialect number found = piecesText (placeMarkers dialect number found) := by
  fun_induction writeMarkers dialect number found with
  | case1 => rfl
  | case2 number rest ih => simp [ih]
  | case3 number rest piece other ih => simp [placeMarkers_other other, ih]

theorem placeMarkers_question : placeMarkers .question number found = found := by
  fun_induction placeMarkers .question number found with
  | case1 => rfl
  | case2 number rest ih => simp [ih, Dialect.marker]
  | case3 number rest piece other ih => rw [ih]

theorem not_mem_placeMarkers (numbered : dialect ≠ .question) :
    .bare '?' ∉ placeMarkers dialect number found := by
  fun_induction placeMarkers dialect number found with
  | case1 => simp
  | case2 number rest ih => simp [ih, Dialect.not_mem_marker numbered]
  | case3 number rest piece other ih => 
      exact fun member => (List.mem_cons.1 member).elim (fun same => other same.symm) ih

theorem writeMarkers_of_not_mem (none : .bare '?' ∉ found) :
    writeMarkers dialect number found = piecesText found := by
  fun_induction writeMarkers dialect number found with
  | case1 => rfl
  | case2 => simp at none
  | case3 number rest piece other ih => simp [ih (List.not_mem_of_not_mem_cons none)]

theorem texts_regionsFrom (offset : Nat) :
    ((regionsFrom offset found).map fun (_, _, text) => text) = regionTexts found := by
  induction found generalizing offset with
  | nil => rfl
  | cons piece rest ih =>
      cases piece with
      | region text => exact congrArg (text :: ·) (ih _)
      | bare c => exact ih _

theorem regionTexts_placeMarkers :
    regionTexts (placeMarkers dialect number found) = regionTexts found := by
  have bare : ∀ new : List Char, regionTexts (new.map .bare) = [] := fun new => by
    simp [regionTexts, Piece.region?]
  fun_induction placeMarkers dialect number found with
  | case1 => rfl
  | case2 number rest ih =>
      rw [regionTexts, List.filterMap_append]
      exact congrArg₂ _ (bare _) ih
  | case3 number rest piece other ih =>
      simp only [regionTexts, List.filterMap_cons] at ih ⊢
      rw [ih]

/-! ## The regions stay -/

theorem Splits.region_cons {inside rest : List Char} {others : List Piece}
    (splits : Splits (inside ++ rest) (.region inside :: others)) :
    ∃ c d tail, inside = c :: d :: tail ∧ c ∈ Region.openers := by
  obtain ⟨behind, ends⟩ := splits.ends_of_mem List.mem_cons_self
  exact ends.two_characters

theorem standsFor_placeMarkers (splits : Splits text found) :
    Region.StandsFor (piecesText (placeMarkers dialect number found)) text := by
  cases splits with
  | done => exact ⟨fun _ => rfl, by simp [placeMarkers]⟩
  | @bare c rest others none later =>
      refine ⟨by simp, fun d first => ?_⟩
      by_cases placeholder : c = '?'
      · obtain ⟨sign, tail, written, -, ends, -⟩ := dialect.marker_eq number
        subst placeholder
        obtain rfl : sign = d := by simpa [written, Piece.text] using first
        exact .inr ends
      · rw [placeMarkers_other (by simpa using placeholder)] at first
        exact .inl (by simpa [Piece.text] using first)
  | @region inside rest others opens later =>
      obtain ⟨c, d, tail, rfl, -⟩ := (Splits.region opens later).region_cons
      refine ⟨by simp, fun e first => .inl ?_⟩
      rw [placeMarkers_other (by simp)] at first
      simpa [Piece.text] using first

/-- What stands before a dollar in marked text stood before one already, unless the dollar is that
    of a marker. -/
theorem dollar_of_placeMarkers (splits : Splits text found) {word body : List Char}
    (isWord : ∀ c ∈ word, isWordChar c)
    (marked : piecesText (placeMarkers dialect number found) = word ++ '$' :: body) :
    (∃ body', text = word ++ '$' :: body') ∨
      dialect = .dollar ∧ ∃ after, found = word.map .bare ++ .bare '?' :: after := by
  induction splits generalizing number word with
  | done => simp [placeMarkers] at marked
  | @bare c rest others none later ih =>
      by_cases placeholder : c = '?'
      · obtain ⟨sign, tail, written, noWord, -, opens, -⟩ := dialect.marker_eq number
        subst placeholder
        simp only [placeMarkers_placeholder, piecesText_append, piecesText_bare, written,
          List.cons_append] at marked
        cases word with
        | nil =>
            obtain rfl : sign = '$' := (List.cons.inj marked).1
            exact .inr ⟨opens (by decide), others, rfl⟩
        | cons first word =>
            obtain rfl : sign = first := (List.cons.inj marked).1
            have inWord := isWord sign List.mem_cons_self
            simp [noWord] at inWord
      · rw [placeMarkers_other (by simpa using placeholder)] at marked
        simp only [piecesText_cons, Piece.text, List.cons_append, List.nil_append] at marked
        cases word with
        | nil =>
            obtain rfl : c = '$' := (List.cons.inj marked).1
            exact .inl ⟨rest, rfl⟩
        | cons first word =>
            obtain ⟨rfl, behind⟩ := List.cons.inj marked
            rcases ih (List.forall_mem_cons.1 isWord).2 behind with
              ⟨body', before⟩ | ⟨same, after, before⟩
            · exact .inl ⟨body', by simp [before]⟩
            · exact .inr ⟨same, after, by simp [before]⟩
  | @region inside rest others opens later ih =>
      obtain ⟨c, d, tail, rfl, opener⟩ := (Splits.region opens later).region_cons
      rw [placeMarkers_other (by simp)] at marked
      simp only [piecesText_cons, Piece.text, List.cons_append] at marked
      cases word with
      | nil =>
          obtain rfl : c = '$' := (List.cons.inj marked).1
          exact .inl ⟨_, rfl⟩
      | cons first word =>
          obtain rfl : c = first := (List.cons.inj marked).1
          have inWord := isWord c List.mem_cons_self
          simp [Region.isWordChar_opener opener] at inWord

theorem leadingWord_bare {word : List Char} (isWord : ∀ c ∈ word, isWordChar c)
    (next : leadingWord found = []) : leadingWord (word.map .bare ++ found) = word := by
  induction word with
  | nil => exact next
  | cons c rest ih =>
      obtain ⟨here, later⟩ := List.forall_mem_cons.1 isWord
      simp [leadingWord, here, ih later]

theorem taggedPlaceholder_dollar {word : List Char} (isWord : ∀ c ∈ word, isWordChar c)
    (noDigit : word.head?.any Char.isDigit = false) :
    taggedPlaceholder (.bare '$' :: (word.map .bare ++ .bare '?' :: found)) = true := by
  have placeholder : leadingWord (.bare '?' :: found) = [] := by
    simp [leadingWord, (by decide : isWordChar '?' = false)]
  have dropped : (word.map Piece.bare ++ .bare '?' :: found).drop word.length =
      .bare '?' :: found := List.drop_left' (by simp)
  simp [taggedPlaceholder, leadingWord_bare isWord placeholder, dropped, noDigit]

theorem taggedPlaceholder_tail (untagged : taggedPlaceholder (piece :: found) = false) :
    taggedPlaceholder found = false := by
  unfold taggedPlaceholder at untagged
  split at untagged
  · contradiction
  · rename_i same
    obtain ⟨-, rfl⟩ := List.cons.inj same
    exact (Bool.or_eq_false_iff.1 untagged).2
  · rename_i same
    obtain ⟨-, rfl⟩ := List.cons.inj same
    exact untagged

/-- Marked text falls into the pieces of the text before, with markers in place of placeholders. -/
theorem splits_placeMarkers (splits : Splits text found)
    (untagged : dialect = .dollar → taggedPlaceholder found = false) :
    Splits (piecesText (placeMarkers dialect number found))
      (placeMarkers dialect number found) := by
  induction splits generalizing number with
  | done => exact .done
  | @bare c rest others none later ih =>
      have behind := fun number => @ih number fun same => taggedPlaceholder_tail (untagged same)
      by_cases placeholder : c = '?'
      · subst placeholder
        simpa using (behind (number + 1)).marker_append dialect number
      · rw [placeMarkers_other (by simpa using placeholder)]
        have plain := Region.plain_of_cut? none
        refine .bare (Region.cut?_of_plain (plain.behind (standsFor_placeMarkers later) ?_))
          (behind number)
        rintro rfl
        rw [Option.eq_none_iff_forall_ne_some]
        intro marker marked
        obtain ⟨word, body, whole, -, isWord, noDigit⟩ := Region.dollarMarker?_eq_some marked
        rcases dollar_of_placeMarkers later isWord whole with
          ⟨body', rfl⟩ | ⟨same, after, rfl⟩
        · have noMarker := plain.noDollar rfl
          simp [Region.dollarMarker?_of_word body' isWord noDigit] at noMarker
        · have tagged := untagged same
          simp [taggedPlaceholder_dollar isWord noDigit] at tagged
  | @region inside rest others opens later ih =>
      rw [placeMarkers_other (by simp)]
      have ends := Region.ends_of_cut? opens
      exact .region (Region.cut?_of_ends (ends.behind (standsFor_placeMarkers later)))
        (ih fun same => taggedPlaceholder_tail (untagged same))

end Place

/-! ## Tags in front of placeholders -/

theorem endsInTag_iff {text : List Char} :
    endsInTag text = true ↔
      ∃ front word, text = front ++ '$' :: word ∧ (∀ c ∈ word, isWordChar c) ∧
        word.head?.any Char.isDigit = false := by
  constructor
  · intro ends
    simp only [endsInTag, Bool.and_eq_true, beq_iff_eq, Bool.not_eq_true'] at ends
    obtain ⟨dollar, noDigit⟩ := ends
    obtain ⟨front, before⟩ := List.head?_eq_some_iff.1 dollar
    refine ⟨front.reverse, (text.reverse.takeWhile isWordChar).reverse, ?_, ?_, noDigit⟩
    · have split := List.takeWhile_append_dropWhile (p := isWordChar) (l := text.reverse)
      rw [before] at split
      simpa using (congrArg List.reverse split).symm
    · intro c member
      exact List.mem_takeWhile_imp (List.mem_reverse.1 member)
  · rintro ⟨front, word, rfl, isWord, noDigit⟩
    have isWord' : ∀ c ∈ word.reverse, isWordChar c := fun c member =>
      isWord c (List.mem_reverse.1 member)
    simp [endsInTag, List.takeWhile_append_of_pos isWord',
      List.dropWhile_append_of_pos isWord', Region.not_isWordChar_dollar, noDigit]

theorem endsInTag_append {text : List Char} (front : List Char) (ends : endsInTag text = true) :
    endsInTag (front ++ text) = true := by
  obtain ⟨front', word, rfl, isWord, noDigit⟩ := endsInTag_iff.1 ends
  exact endsInTag_iff.2 ⟨front ++ front', word, by simp, isWord, noDigit⟩

theorem exists_endsInTag {found : List Piece} (tagged : taggedPlaceholder found = true) :
    ∃ i, found[i]? = some (.bare '?') ∧ endsInTag (piecesText (found.take i)) = true := by
  have longer : ∀ (piece : Piece) {rest : List Piece},
      (∃ i, rest[i]? = some (.bare '?') ∧ endsInTag (piecesText (rest.take i)) = true) →
      ∃ i, (piece :: rest)[i]? = some (.bare '?') ∧
        endsInTag (piecesText ((piece :: rest).take i)) = true := by
    rintro piece rest ⟨i, here, ends⟩
    exact ⟨i + 1, here, endsInTag_append piece.text ends⟩
  fun_induction taggedPlaceholder found with
  | case1 => contradiction
  | case2 rest word ih =>
      rcases Bool.or_eq_true_iff.1 tagged with here | later
      · simp only [Bool.and_eq_true, beq_iff_eq, Bool.not_eq_true'] at here
        obtain ⟨next, noDigit⟩ := here
        have split := congrArg (List.take word.length) (leadingWord_split rest)
        rw [List.take_left' (by simp [word])] at split
        refine ⟨word.length + 1, by simpa using next, ?_⟩
        rw [List.take_succ_cons, ← split]
        exact endsInTag_iff.2
          ⟨[], word, by simp [Piece.text, word], leadingWord_isWord rest, noDigit⟩
      · exact longer _ (ih later)
  | case3 piece rest other ih => exact longer _ (ih tagged)

/-! ## Writing again -/

section Write

variable {query out : String} {dialect : Dialect} {found : List Piece}

theorem markPlaceholders_eq (split : piecesOf query.toList = .ok found) :
    markPlaceholders query dialect =
      .ok (String.ofList (piecesText (placeMarkers dialect 1 found))) := by
  rw [markPlaceholders, markText, split, ← writeMarkers_eq]
  rfl

theorem markPlaceholders_of_not_mem (split : piecesOf query.toList = .ok found)
    (none : .bare '?' ∉ found) : markPlaceholders query dialect = .ok query := by
  rw [markPlaceholders_eq split, ← writeMarkers_eq, writeMarkers_of_not_mem none,
    (piecesOf_iff.1 split).text, String.ofList_toList]

theorem markPlaceholders_question (split : piecesOf query.toList = .ok found) :
    markPlaceholders query .question = .ok query := by
  rw [markPlaceholders_eq split, placeMarkers_question, (piecesOf_iff.1 split).text,
    String.ofList_toList]

theorem piecesOf_marked (split : piecesOf query.toList = .ok found)
    (marked : markPlaceholders query dialect = .ok out)
    (untagged : dialect = .dollar → taggedPlaceholder found = false) :
    piecesOf out.toList = .ok (placeMarkers dialect 1 found) := by
  obtain rfl := Except.ok.inj ((markPlaceholders_eq split).symm.trans marked)
  rw [String.toList_ofList]
  exact piecesOf_iff.2 (splits_placeMarkers (piecesOf_iff.1 split) untagged)

/-- A text that is written for a dialect is written again as it is, unless the dialect marks with
    dollars and the text had a placeholder behind a dollar and a tag. -/
theorem markPlaceholders_twice (marked : markPlaceholders query dialect = .ok out)
    (untagged : dialect = .dollar →
      ∀ found, piecesOf query.toList = .ok found → taggedPlaceholder found = false) :
    markPlaceholders out dialect = .ok out := by
  cases split : piecesOf query.toList with
  | error error => simp [markPlaceholders, markText, split, Except.map] at marked
  | ok found =>
      have written := piecesOf_marked split marked fun same => untagged same found split
      by_cases question : dialect = .question
      · subst question
        exact markPlaceholders_question written
      · exact markPlaceholders_of_not_mem written (not_mem_placeMarkers question)

theorem markPlaceholders_twice_adjacent :
    let query := "a = ?? AND $1? < $t$ ? $t$?"
    let out := "a = $1$2 AND $1$3 < $t$ ? $t$$4"
    markPlaceholders query .dollar = .ok out ∧ markPlaceholders out .dollar = .ok out := by
  intro query out
  have marked : markPlaceholders query .dollar = .ok out := by cbv
  have untagged : (piecesOf query.toList).map taggedPlaceholder = .ok false := by cbv
  refine ⟨marked, markPlaceholders_twice marked fun _ found split => ?_⟩
  rw [split] at untagged
  exact Except.ok.inj untagged

/-- A placeholder behind a dollar makes a second pass fail, or write into what was a region. -/
theorem markPlaceholders_twice_tagged :
    (markPlaceholders "$?" .dollar = .ok "$$1" ∧
      markPlaceholders "$$1" .dollar = .error (.unclosed (.dollar "$$") 0)) ∧
    markPlaceholders "$?/*$$?*/" .dollar = .ok "$$1/*$$?*/" ∧
      markPlaceholders "$$1/*$$?*/" .dollar = .ok "$$1/*$$$1*/" := by
  refine ⟨⟨?_, ?_⟩, ?_, ?_⟩ <;> cbv

/-- A text that is written for a dialect has the regions of the text before, and no placeholder is
    left in it, unless one stood behind a dollar and a tag. -/
theorem regions_of_marked (split : piecesOf query.toList = .ok found)
    (marked : markPlaceholders query dialect = .ok out)
    (untagged : dialect = .dollar →
      ∀ i, found[i]? = some (.bare '?') → endsInTag (piecesText (found.take i)) = false) :
    ∃ written, piecesOf out.toList = .ok written ∧
      (regionsFrom 0 written).map (fun (_, _, text) => text) =
        (regionsFrom 0 found).map (fun (_, _, text) => text) ∧
      (dialect ≠ .question →
        .bare '?' ∉ written ∧ ∀ other, markPlaceholders out other = .ok out) := by
  have written := piecesOf_marked split marked fun same => by
    by_contra tagged
    obtain ⟨i, placeholder, ends⟩ := exists_endsInTag (by simpa using tagged)
    simp [untagged same i placeholder] at ends
  refine ⟨_, written, ?_, fun numbered => ?_⟩
  · rw [texts_regionsFrom, texts_regionsFrom, regionTexts_placeMarkers]
  · have none : .bare '?' ∉ placeMarkers dialect 1 found := not_mem_placeMarkers numbered
    exact ⟨none, fun other => markPlaceholders_of_not_mem written none⟩

theorem regions_of_marked_comment :
    let query := "a=? AND '$b?'=$1?--$c$?"
    let out := "a=$1 AND '$b?'=$1$2--$c$?"
    ∃ found written, piecesOf query.toList = .ok found ∧
      markPlaceholders query .dollar = .ok out ∧
      (∀ i, found[i]? = some (.bare '?') → endsInTag (piecesText (found.take i)) = false) ∧
      piecesOf out.toList = .ok written ∧
      (regionsFrom 0 written).map (fun (_, _, text) => text) =
        ["'$b?'".toList, "--$c$?".toList] ∧
      .bare '?' ∉ written ∧ ∀ other, markPlaceholders out other = .ok out := by
  intro query out
  let found : List Piece := "a=? AND ".toList.map .bare ++ .region "'$b?'".toList ::
    "=$1?".toList.map .bare ++ [.region "--$c$?".toList]
  have split : piecesOf query.toList = .ok found := by cbv
  have marked : markPlaceholders query .dollar = .ok out := by cbv
  have within : ∀ i < found.length, found[i]? = some (.bare '?') →
      endsInTag (piecesText (found.take i)) = false := by decide
  have untagged : ∀ i, found[i]? = some (.bare '?') →
      endsInTag (piecesText (found.take i)) = false := fun i placeholder =>
    within i (List.getElem?_eq_some_iff.1 placeholder).1 placeholder
  obtain ⟨written, splitAgain, regions, bare⟩ :=
    regions_of_marked split marked fun _ => untagged
  exact ⟨found, written, split, marked, untagged, splitAgain, regions, bare (by decide)⟩

end Write

end SqlMarshal
