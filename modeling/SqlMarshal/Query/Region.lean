import SqlMarshal.Query.Error
import SqlMarshal.Text.Word

/-! # Regions of a query

Some parts of a query are not searched for placeholders: quoted texts and identifiers, comments, and
dollar-quoted texts. Such a region is recognised at the front of a text, and the text is cut behind
it. A quoted region goes to its first quote that is not doubled, a line comment through the end of the
line, a block comment through the first `*/`, and a dollar-quoted text through the first repetition of
its opening marker.
-/

namespace SqlMarshal

/-- A text cut in two: the region at its front and the rest. -/
abbrev Cut := List Char × List Char

def Cut.cons (c : Char) (cut : Cut) : Cut :=
  (c :: cut.1, cut.2)

def Cut.prepend (front : List Char) (cut : Cut) : Cut :=
  (front ++ cut.1, cut.2)

namespace Region

/-- Cuts behind the closing quote of a region whose opening quote is already taken. A doubled quote
does not close. -/
def closeQuote? (quote : Char) : List Char → Option Cut
  | [] => none
  | [c] => if c = quote then some ([c], []) else none
  | c :: d :: rest =>
      if c = quote then
        if d = quote then (closeQuote? quote rest).map fun cut => (cut.cons d).cons c
        else some ([c], d :: rest)
      else
        (closeQuote? quote (d :: rest)).map (·.cons c)

/-- Cuts behind the first line end, or at the end of the text. -/
def closeLine : List Char → Cut
  | [] => ([], [])
  | c :: rest => if c = '\n' then ([c], rest) else (closeLine rest).cons c

/-- Cuts behind the first occurrence of a mark. -/
def closeMark? (mark : List Char) : List Char → Option Cut
  | [] => if mark = [] then some ([], []) else none
  | c :: rest =>
      if mark.isPrefixOf (c :: rest) then some (mark, (c :: rest).drop mark.length)
      else (closeMark? mark rest).map (·.cons c)

/-- The marker of a dollar-quoted text that opens behind a dollar: the word up to the next dollar,
between two dollars. The word may be empty but does not begin with an ASCII digit. -/
def dollarMarker? (rest : List Char) : Option (List Char) :=
  let word := rest.takeWhile isWordChar
  match rest.dropWhile isWordChar with
  | '$' :: _ =>
      if word.head?.any Char.isDigit then none else some ('$' :: word ++ ['$'])
  | _ => none

/-- The region at the front of a text, if one opens there; it is an error if it has no end. -/
def cut? : List Char → Except Unclosed (Option Cut)
  | '\x27' :: rest =>
      match closeQuote? '\x27' rest with
      | some cut => .ok (some (cut.cons '\x27'))
      | none => .error .literal
  | '\x22' :: rest =>
      match closeQuote? '\x22' rest with
      | some cut => .ok (some (cut.cons '\x22'))
      | none => .error (.identifier '\x22')
  | '\x60' :: rest =>
      match closeQuote? '\x60' rest with
      | some cut => .ok (some (cut.cons '\x60'))
      | none => .error (.identifier '\x60')
  | '-' :: '-' :: rest => .ok (some ((closeLine rest).prepend ['-', '-']))
  | '/' :: '*' :: rest =>
      match closeMark? ['*', '/'] rest with
      | some cut => .ok (some (cut.prepend ['/', '*']))
      | none => .error .comment
  | '$' :: rest =>
      match dollarMarker? rest with
      | none => .ok none
      | some marker =>
          match closeMark? marker (rest.drop (marker.length - 1)) with
          | some cut => .ok (some (cut.prepend marker))
          | none => .error (.dollar (String.ofList marker))
  | _ => .ok none

/-! ## Cutting loses nothing -/

theorem closeQuote?_split {quote : Char} {text : List Char} {cut : Cut}
    (h : closeQuote? quote text = some cut) : cut.1 ++ cut.2 = text ∧ cut.1 ≠ [] := by
  fun_induction closeQuote? quote text generalizing cut with
  | case1 => simp at h
  | case2 =>
    obtain rfl := Option.some.inj h
    simp
  | case3 => simp at h
  | case4 rest ih =>
    obtain ⟨inner, hi, rfl⟩ := Option.map_eq_some_iff.1 h
    simp [Cut.cons, ih hi]
  | case5 =>
    obtain rfl := Option.some.inj h
    simp
  | case6 c d rest hc ih =>
    obtain ⟨inner, hi, rfl⟩ := Option.map_eq_some_iff.1 h
    simp [Cut.cons, ih hi]

theorem closeLine_split (text : List Char) : (closeLine text).1 ++ (closeLine text).2 = text := by
  fun_induction closeLine text with
  | case1 => rfl
  | case2 => simp
  | case3 c rest hc ih => simp [Cut.cons, ih]

theorem closeMark?_split {mark text : List Char} {cut : Cut}
    (h : closeMark? mark text = some cut) : cut.1 ++ cut.2 = text := by
  fun_induction closeMark? mark text generalizing cut with
  | case1 =>
    obtain rfl := Option.some.inj h
    rfl
  | case2 => simp at h
  | case3 c rest hp =>
    obtain rfl := Option.some.inj h
    obtain ⟨tail, ht⟩ := List.isPrefixOf_iff_prefix.1 hp
    simp [← ht]
  | case4 c rest hp ih =>
    obtain ⟨inner, hi, rfl⟩ := Option.map_eq_some_iff.1 h
    simp [Cut.cons, ih hi]

theorem dollarMarker?_split {rest marker : List Char} (h : dollarMarker? rest = some marker) :
    marker ++ rest.drop (marker.length - 1) = '$' :: rest ∧ marker ≠ [] := by
  simp only [dollarMarker?] at h
  split at h
  · rename_i tail hd
    split at h
    · simp at h
    · obtain rfl := Option.some.inj h
      have hr : rest = rest.takeWhile isWordChar ++ '$' :: tail := by
        rw [← hd]
        exact (List.takeWhile_append_dropWhile ..).symm
      refine ⟨?_, by simp⟩
      generalize rest.takeWhile isWordChar = word at hr ⊢
      subst hr
      simp [List.drop_append]
  · simp at h

/-- A region is not empty, and cutting behind it loses nothing. -/
theorem cut?_split {text : List Char} {cut : Cut} (h : cut? text = .ok (some cut)) :
    cut.1 ++ cut.2 = text ∧ cut.1 ≠ [] := by
  unfold cut? at h
  split at h
  iterate 3
    split at h
    · rename_i inner hi
      simp only [Except.ok.injEq, Option.some.injEq] at h
      subst h
      simp [Cut.cons, closeQuote?_split hi]
    · simp at h
  · simp only [Except.ok.injEq, Option.some.injEq] at h
    subst h
    simp [Cut.prepend, closeLine_split]
  · split at h
    · rename_i inner hi
      simp only [Except.ok.injEq, Option.some.injEq] at h
      subst h
      simp [Cut.prepend, closeMark?_split hi]
    · simp at h
  · split at h
    · simp at h
    · rename_i marker hm
      split at h
      · rename_i inner hi
        simp only [Except.ok.injEq, Option.some.injEq] at h
        subst h
        have split := dollarMarker?_split hm
        simp [Cut.prepend, closeMark?_split hi, split.1, split.2]
      · simp at h
  · simp at h

theorem length_rest_lt {text : List Char} {cut : Cut} (h : cut? text = .ok (some cut)) :
    cut.2.length < text.length := by
  have split := cut?_split h
  have length := congrArg List.length split.1
  have positive := List.length_pos_iff.2 split.2
  simp only [List.length_append] at length
  omega

end Region

end SqlMarshal
