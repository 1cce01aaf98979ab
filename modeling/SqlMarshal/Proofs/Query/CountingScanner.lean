import SqlMarshal.Proofs.Query.ScannedPieces
import SqlMarshal.Proofs.Text.BytePlaces

/-! # A scanner that counts

A scanner can do with one number. It keeps the query and counts the characters that it has passed, and
in a table it finds the byte at which a character begins. It goes over a region by looking at one
character after the other. Only the end of a dollar-quoted text is looked for in the bytes, and from
the byte that is found the scanner comes back to a count.

The count and the bytes stay in step with the text on the two sides of a scanner: what the counting
scanner answers, and where it stands afterwards, is the same, whether a region ends or not.
-/

namespace SqlMarshal

/-- A scanner that keeps the query and counts the characters before it. -/
structure CountingScanner where
  query : String
  position : Nat
  deriving DecidableEq, Repr

/-- What a dollar opens. -/
inductive DollarScan where
  /-- It is a character like any other. -/
  | ordinary
  /-- A text that ends before an offset. -/
  | block (stop : Nat)
  | unclosed (marker : String)
  deriving DecidableEq, Repr

namespace CountingScanner

def start (query : String) : CountingScanner :=
  ⟨query, 0⟩

def atEnd (s : CountingScanner) : Bool :=
  decide (s.query.length ≤ s.position)

def peek (s : CountingScanner) (ahead : Nat) : Char :=
  (s.query.toList[s.position + ahead]?).getD '\x00'

def current (s : CountingScanner) : Char :=
  s.peek 0

def jump (s : CountingScanner) (count : Nat) : CountingScanner :=
  { s with position := min (s.position + count) s.query.length }

def advance (s : CountingScanner) : CountingScanner :=
  if s.atEnd then s else { s with position := s.position + 1 }

/-- Where the character at a position begins, or the query ends. -/
def offsetAt (query : String) (position : Nat) : Nat :=
  ((Utf8.offsets 0 query.toList)[position]?).getD (Utf8.encode query).length

def offset (s : CountingScanner) : Nat :=
  offsetAt s.query s.position

/-- Goes to the first character that does not begin before an offset. -/
def seek (s : CountingScanner) (offset : Nat) : CountingScanner :=
  { s with position := ((Utf8.offsets 0 s.query.toList).takeWhile (· < offset)).length }

/-- The number of characters that are not yet passed. -/
def left (s : CountingScanner) : Nat :=
  s.query.length - s.position

theorem advance_of_not_atEnd {s : CountingScanner} (inside : ¬ s.atEnd) :
    s.advance = ⟨s.query, s.position + 1⟩ := by
  rw [advance, if_neg inside]

theorem left_advance {s : CountingScanner} (inside : ¬ s.atEnd) : s.advance.left < s.left := by
  have before : s.position < s.query.length := by simpa [atEnd] using inside
  rw [advance_of_not_atEnd inside]
  exact Nat.sub_lt_sub_left before (Nat.lt_succ_self _)

/-- Goes behind a closing quote that is not doubled, and tells whether there is one. -/
def passQuoted (quote : Char) (s : CountingScanner) : Bool × CountingScanner :=
  if _inside : s.atEnd then (false, s)
  else if s.current ≠ quote then passQuoted quote s.advance
  else if _doubled : s.advance.atEnd ∨ s.advance.current ≠ quote then (true, s.advance)
  else passQuoted quote s.advance.advance
termination_by s.left
decreasing_by
  · exact left_advance _inside
  · exact Nat.lt_trans (left_advance (not_or.1 _doubled).1) (left_advance _inside)

/-- Goes behind the end of the line. -/
def passLine (s : CountingScanner) : CountingScanner :=
  if _inside : s.atEnd then s
  else if s.current = '\n' then s.advance
  else passLine s.advance
termination_by s.left
decreasing_by exact left_advance _inside

/-- Goes behind the end of a comment, and tells whether there is one. -/
def passComment (s : CountingScanner) : Bool × CountingScanner :=
  if _inside : s.atEnd then (false, s)
  else if s.current = '*' ∧ s.peek 1 = '/' then (true, s.jump 2)
  else passComment s.advance
termination_by s.left
decreasing_by exact left_advance _inside

/-- What the dollar at the scanner opens. The marker goes up to the next dollar, and its repetition is
    looked for in the bytes behind it. -/
def scanDollar (s : CountingScanner) : DollarScan :=
  let ahead := ((s.query.toList.drop (s.position + 1)).takeWhile isWordChar).length + 1
  if (s.peek 1).isDigit ∨ s.peek ahead ≠ '$' then .ordinary
  else
    let body := offsetAt s.query (s.position + ahead + 1)
    let marker := Utf8.slice s.query s.offset body
    match Utf8.find? marker ((Utf8.encode s.query).drop body) with
    | some found => .block (body + found + marker.length)
    | none => .unclosed (Utf8.decodeReplacing marker)

/-- The answer after a region that begins at a scanner has been searched for its end. -/
def answer (s : CountingScanner) (region : Unclosed) (result : Bool × CountingScanner) :
    Except QueryError (Option (Nat × Nat)) × CountingScanner :=
  if result.1 then (.ok (some (s.offset, result.2.offset)), result.2)
  else (.error (.unclosed region s.offset), result.2)

/-- Goes over the region that opens at the scanner, if one does, and tells where in bytes it begins
    and ends. -/
def skip (s : CountingScanner) : Except QueryError (Option (Nat × Nat)) × CountingScanner :=
  match s.current, s.peek 1 with
  | '\x27', _ => s.answer .literal (passQuoted '\x27' s.advance)
  | '\x22', _ => s.answer (.identifier '\x22') (passQuoted '\x22' s.advance)
  | '\x60', _ => s.answer (.identifier '\x60') (passQuoted '\x60' s.advance)
  | '-', '-' =>
      let next := passLine (s.jump 2)
      (.ok (some (s.offset, next.offset)), next)
  | '/', '*' => s.answer .comment (passComment (s.jump 2))
  | '$', _ =>
      match scanDollar s with
      | .ordinary => (.ok none, s)
      | .block stop =>
          let next := s.seek stop
          (.ok (some (s.offset, next.offset)), next)
      | .unclosed marker => (.error (.unclosed (.dollar marker) s.offset), s)
  | _, _ => (.ok none, s)

/-! ## Behind some characters -/

section Behind

variable {query : String} {front after : List Char} (whole : query.toList = front ++ after)
include whole

theorem length_whole : query.length = front.length + after.length := by
  rw [← String.length_toList, whole, List.length_append]

theorem atEnd_behind : (⟨query, front.length⟩ : CountingScanner).atEnd = after.isEmpty := by
  cases after <;> simp [atEnd, length_whole whole]

theorem peek_behind (ahead : Nat) :
    (⟨query, front.length⟩ : CountingScanner).peek ahead = (after[ahead]?).getD '\x00' := by
  rw [peek, whole, List.getElem?_append_right (Nat.le_add_right ..), Nat.add_sub_cancel_left]

theorem jump_behind (count : Nat) :
    (⟨query, front.length⟩ : CountingScanner).jump count =
      ⟨query, front.length + (after.take count).length⟩ := by
  have size := length_whole whole
  simp only [jump, List.length_take, CountingScanner.mk.injEq, true_and]
  omega

theorem offsetAt_behind : offsetAt query front.length = Utf8.size front := by
  rw [offsetAt, Utf8.encode, Utf8.length_encodeChars, whole, Utf8.getD_offsets]

theorem seek_behind (position : Nat) :
    (⟨query, position⟩ : CountingScanner).seek (Utf8.size front) = ⟨query, front.length⟩ := by
  rw [seek, whole, Utf8.takeWhile_offsets]

end Behind

theorem ended_behind {query : String} {front : List Char} (whole : query.toList = front ++ []) :
    (⟨query, front.length⟩ : CountingScanner).atEnd :=
  atEnd_behind whole

section Inside

variable {query : String} {front rest : List Char} {c : Char}
  (whole : query.toList = front ++ c :: rest)
include whole

theorem inside_behind : ¬ (⟨query, front.length⟩ : CountingScanner).atEnd := by
  simp [atEnd_behind whole]

theorem advance_behind :
    (⟨query, front.length⟩ : CountingScanner).advance = ⟨query, (front ++ [c]).length⟩ := by
  rw [advance_of_not_atEnd (inside_behind whole), List.length_append, List.length_singleton]

theorem current_behind : (⟨query, front.length⟩ : CountingScanner).current = c := by
  rw [current, peek_behind whole]
  rfl

theorem whole_behind : query.toList = front ++ [c] ++ rest := by
  rw [whole, List.append_assoc, List.singleton_append]

theorem jump_two {d : Char} {others : List Char} (two : rest = d :: others) :
    (⟨query, front.length⟩ : CountingScanner).jump 2 = ⟨query, (front ++ [c, d]).length⟩ := by
  rw [jump_behind whole, two, List.length_append]
  rfl

end Inside

/-! ## Over a region -/

open Region

theorem passQuoted_behind (quote : Char) {query : String} {front after : List Char}
    (whole : query.toList = front ++ after) :
    passQuoted quote ⟨query, front.length⟩ =
      match closeQuote? quote after with
      | some cut => (true, ⟨query, (front ++ cut.1).length⟩)
      | none => (false, ⟨query, query.length⟩) := by
  fun_induction closeQuote? quote after generalizing front with
  | case1 =>
      rw [passQuoted, dif_pos (ended_behind whole)]
      simp [length_whole whole]
  | case2 =>
      rw [passQuoted, dif_neg (inside_behind whole), current_behind whole, if_neg (by simp),
        advance_behind whole, dif_pos (.inl (ended_behind (whole_behind whole)))]
  | case3 c other =>
      rw [passQuoted, dif_neg (inside_behind whole), current_behind whole, if_pos other,
        advance_behind whole, passQuoted, dif_pos (ended_behind (whole_behind whole))]
      simp [length_whole whole]
  | case4 rest ih =>
      have next := whole_behind whole
      rw [passQuoted, dif_neg (inside_behind whole), current_behind whole, if_neg (by simp),
        advance_behind whole,
        dif_neg (not_or.2 ⟨inside_behind next, not_not.2 (current_behind next)⟩),
        advance_behind next, ih (whole_behind next)]
      cases closeQuote? quote rest <;> simp [Cut.cons]
  | case5 d rest other =>
      have next := whole_behind whole
      rw [passQuoted, dif_neg (inside_behind whole), current_behind whole, if_neg (by simp),
        advance_behind whole, dif_pos (.inr (by rwa [current_behind next]))]
  | case6 c d rest other ih =>
      rw [passQuoted, dif_neg (inside_behind whole), current_behind whole, if_pos other,
        advance_behind whole, ih (whole_behind whole)]
      cases closeQuote? quote (d :: rest) <;> simp [Cut.cons]

theorem passLine_behind {query : String} {front after : List Char}
    (whole : query.toList = front ++ after) :
    passLine ⟨query, front.length⟩ = ⟨query, (front ++ (closeLine after).1).length⟩ := by
  fun_induction closeLine after generalizing front with
  | case1 =>
      rw [passLine, dif_pos (ended_behind whole), List.append_nil]
  | case2 rest =>
      rw [passLine, dif_neg (inside_behind whole), current_behind whole, if_pos rfl,
        advance_behind whole]
  | case3 c rest other ih =>
      rw [passLine, dif_neg (inside_behind whole), current_behind whole, if_neg other,
        advance_behind whole, ih (whole_behind whole)]
      simp [Cut.cons]

theorem passComment_behind {query : String} {front after : List Char}
    (whole : query.toList = front ++ after) :
    passComment ⟨query, front.length⟩ =
      match closeMark? ['*', '/'] after with
      | some cut => (true, ⟨query, (front ++ cut.1).length⟩)
      | none => (false, ⟨query, query.length⟩) := by
  fun_induction closeMark? ['*', '/'] after generalizing front with
  | case1 => contradiction
  | case2 =>
      rw [passComment, dif_pos (ended_behind whole)]
      simp [length_whole whole]
  | case3 c rest here =>
      obtain ⟨tail, same⟩ := List.isPrefixOf_iff_prefix.1 here
      obtain ⟨rfl, rfl⟩ : c = '*' ∧ rest = '/' :: tail := by simpa [eq_comm] using same
      rw [passComment, dif_neg (inside_behind whole), current_behind whole, peek_behind whole,
        if_pos (by simp), jump_behind whole]
      simp
  | case4 c rest elsewhere ih =>
      have ends : ¬ (c = '*' ∧ ((c :: rest)[1]?).getD '\x00' = '/') := by
        rintro ⟨rfl, slash⟩
        cases rest with
        | nil => simp at slash
        | cons d tail =>
            obtain rfl : d = '/' := by simpa using slash
            simp at elsewhere
      rw [passComment, dif_neg (inside_behind whole), current_behind whole, peek_behind whole,
        if_neg ends, advance_behind whole, ih (whole_behind whole)]
      cases closeMark? ['*', '/'] rest <;> simp [Cut.cons]

theorem dollarMarker?_eq (rest : List Char) :
    dollarMarker? rest =
      let word := rest.takeWhile isWordChar
      if ((rest[0]?).getD '\x00').isDigit ∨ (rest[word.length]?).getD '\x00' ≠ '$' then none
      else some ('$' :: word ++ ['$']) := by
  have whole := List.takeWhile_append_dropWhile (p := isWordChar) (l := rest)
  simp only [dollarMarker?]
  generalize rest.takeWhile isWordChar = word at whole ⊢
  generalize rest.dropWhile isWordChar = behind at whole ⊢
  subst whole
  rw [List.getElem?_append_right (Nat.le_refl _), Nat.sub_self]
  cases behind with
  | nil => simp
  | cons c body =>
      by_cases dollar : c = '$'
      · subst dollar
        cases word with
        | nil => simp
        | cons d word => by_cases digit : d.isDigit <;> simp [digit]
      · simp [dollar]

theorem scanDollar_behind {query : String} {front rest : List Char}
    (whole : query.toList = front ++ '$' :: rest) :
    scanDollar ⟨query, front.length⟩ =
      match dollarMarker? rest with
      | none => .ordinary
      | some marker =>
          match closeMark? marker (rest.drop (marker.length - 1)) with
          | some cut => .block (Utf8.size (front ++ marker ++ cut.1))
          | none => .unclosed (String.ofList marker) := by
  have behind : query.toList.drop (front.length + 1) = rest := by
    rw [whole, ← List.drop_drop, List.drop_left, List.drop_one, List.tail_cons]
  have marked := dollarMarker?_eq rest
  rw [scanDollar]
  simp only [behind, peek_behind whole, List.getElem?_cons_succ]
  split
  · rename_i shut
    rw [marked, if_pos shut]
  · rename_i opens
    rw [if_neg opens] at marked
    obtain ⟨word, body, rfl, same, -, -⟩ := dollarMarker?_eq_some marked
    have taken : (word ++ '$' :: body).takeWhile isWordChar = word := by simpa using same
    rw [marked, taken]
    generalize marks : '$' :: word ++ ['$'] = marker
    have long : marker.length = word.length + 2 := by simp [← marks]
    have apart : query.toList = front ++ marker ++ body := by simp [whole, ← marks]
    have place : front.length + (word.length + 1) + 1 = (front ++ marker).length := by
      simp only [List.length_append, long]
      omega
    have inside : Utf8.slice query (Utf8.size front) (Utf8.size (front ++ marker)) =
        marker.flatMap String.utf8EncodeChar := by
      rw [Utf8.size_append, Utf8.slice_inside apart, Utf8.encode, String.toList_ofList]
    have bytesBehind : (Utf8.encode query).drop (Utf8.size (front ++ marker)) =
        body.flatMap String.utf8EncodeChar := by
      rw [Utf8.encode, apart, List.flatMap_append, ← Utf8.length_encodeChars, List.drop_left]
    have rest : (word ++ '$' :: body).drop (marker.length - 1) = body := by
      simp [long]
    simp only [place, offset, offsetAt_behind whole, offsetAt_behind apart, inside, bytesBehind,
      rest]
    have found := Utf8.find?_encodeChars (by simp [← marks] : marker ≠ []) body
    rw [Utf8.length_encodeChars]
    generalize Utf8.find? (marker.flatMap String.utf8EncodeChar)
      (body.flatMap String.utf8EncodeChar) = place? at found ⊢
    cases closed : closeMark? marker body with
    | none =>
        obtain rfl := Option.map_eq_none_iff.1 (found.trans (congrArg _ closed))
        have marked : marker.flatMap String.utf8EncodeChar = Utf8.encode (String.ofList marker) := by
          rw [Utf8.encode, String.toList_ofList]
        simp only [marked, Utf8.decodeReplacing_encode]
    | some cut =>
        obtain ⟨place, rfl, ends⟩ := Option.map_eq_some_iff.1 (found.trans (congrArg _ closed))
        simp only [Utf8.size_append, ← ends, Nat.add_assoc]

/-- What skipping does in front of some characters. -/
def outcome (query : String) (front : List Char) :
    Except Unclosed (Option Cut) → Except QueryError (Option (Nat × Nat)) × CountingScanner
  | .ok none => (.ok none, ⟨query, front.length⟩)
  | .ok (some cut) =>
      (.ok (some (Utf8.size front, Utf8.size (front ++ cut.1))), ⟨query, (front ++ cut.1).length⟩)
  | .error (.dollar marker) =>
      (.error (.unclosed (.dollar marker) (Utf8.size front)), ⟨query, front.length⟩)
  | .error region => (.error (.unclosed region (Utf8.size front)), ⟨query, query.length⟩)

section Outcome

variable {query : String} {front rest : List Char}

theorem offset_behind {behind : List Char} (whole : query.toList = front ++ behind) :
    (⟨query, front.length⟩ : CountingScanner).offset = Utf8.size front :=
  offsetAt_behind whole

theorem outcome_of_end {inside behind : List Char} (whole : query.toList = front ++ inside ++ behind) :
    outcome query front (.ok (some (inside, behind))) =
      (.ok (some ((⟨query, front.length⟩ : CountingScanner).offset,
        (⟨query, (front ++ inside).length⟩ : CountingScanner).offset)),
        ⟨query, (front ++ inside).length⟩) := by
  rw [offset_behind whole, offset_behind (whole.trans (List.append_assoc ..)), outcome]

theorem answer_of_no_end {region : Unclosed} (searched : ∀ marker, region ≠ .dollar marker)
    (whole : query.toList = front ++ rest) :
    (⟨query, front.length⟩ : CountingScanner).answer region (false, ⟨query, query.length⟩) =
      outcome query front (.error region) := by
  rw [answer, if_neg Bool.false_ne_true, offset_behind whole]
  cases region with
  | dollar marker => exact absurd rfl (searched marker)
  | _ => rfl

theorem answer_quoted {quote : Char} {region : Unclosed}
    (searched : ∀ marker, region ≠ .dollar marker) (whole : query.toList = front ++ quote :: rest) :
    (⟨query, front.length⟩ : CountingScanner).answer region
        (passQuoted quote (⟨query, front.length⟩ : CountingScanner).advance) =
      outcome query front (match closeQuote? quote rest with
        | some cut => .ok (some (cut.cons quote))
        | none => .error region) := by
  rw [advance_behind whole, passQuoted_behind quote (whole_behind whole)]
  cases closed : closeQuote? quote rest with
  | none => exact answer_of_no_end searched whole
  | some cut =>
      have behind : query.toList = front ++ ([quote] ++ cut.1) ++ cut.2 := by
        simp [whole, ← (closeQuote?_split closed).1]
      simp only [List.append_assoc]
      exact (outcome_of_end behind).symm

theorem answer_comment (whole : query.toList = front ++ '/' :: '*' :: rest) :
    (⟨query, front.length⟩ : CountingScanner).answer .comment
        (passComment ((⟨query, front.length⟩ : CountingScanner).jump 2)) =
      outcome query front (match closeMark? ['*', '/'] rest with
        | some cut => .ok (some (cut.prepend ['/', '*']))
        | none => .error .comment) := by
  have opened : query.toList = front ++ ['/', '*'] ++ rest := by simp [whole]
  rw [jump_two whole rfl, passComment_behind opened]
  cases closed : closeMark? ['*', '/'] rest with
  | none => exact answer_of_no_end (fun _ => by simp) whole
  | some cut =>
      have behind : query.toList = front ++ (['/', '*'] ++ cut.1) ++ cut.2 := by
        simp [whole, ← closeMark?_split closed]
      simp only [List.append_assoc]
      exact (outcome_of_end behind).symm

theorem passLine_opened (whole : query.toList = front ++ '-' :: '-' :: rest) :
    passLine ((⟨query, front.length⟩ : CountingScanner).jump 2) =
      ⟨query, (front ++ (['-', '-'] ++ (closeLine rest).1)).length⟩ := by
  have opened : query.toList = front ++ ['-', '-'] ++ rest := by simp [whole]
  rw [jump_two whole rfl, passLine_behind opened, List.append_assoc]

end Outcome

/-- Skipping is decided by the cut of the text in front of the scanner. -/
theorem skip_behind {query : String} {front after : List Char}
    (whole : query.toList = front ++ after) :
    skip ⟨query, front.length⟩ = outcome query front (Region.cut? after) := by
  unfold Region.cut?
  split
  · rw [skip, current_behind whole]
    exact answer_quoted (fun _ => by simp) whole
  · rw [skip, current_behind whole]
    exact answer_quoted (fun _ => by simp) whole
  · rw [skip, current_behind whole]
    exact answer_quoted (fun _ => by simp) whole
  · rename_i rest
    have behind : query.toList =
        front ++ (['-', '-'] ++ (closeLine rest).1) ++ (closeLine rest).2 := by
      simp [whole, closeLine_split]
    rw [skip, current_behind whole, peek_behind whole]
    simp only [List.getElem?_cons_succ, List.getElem?_cons_zero, Option.getD_some,
      passLine_opened whole]
    exact (outcome_of_end behind).symm
  · rw [skip, current_behind whole, peek_behind whole]
    exact answer_comment whole
  · rename_i rest
    rw [skip, current_behind whole]
    simp only [scanDollar_behind whole]
    cases marked : dollarMarker? rest with
    | none => rfl
    | some marker =>
        cases closed : closeMark? marker (rest.drop (marker.length - 1)) with
        | none => simp only [closed, outcome, offset_behind whole]
        | some cut =>
            have behind : query.toList = front ++ (marker ++ cut.1) ++ cut.2 := by
              simp [whole, ← (dollarMarker?_split marked).1, ← closeMark?_split closed]
            simp only [closed, List.append_assoc, seek_behind behind]
            exact (outcome_of_end behind).symm
  · rename_i noQuote noIdentifier noTick noLine noComment noDollar
    rw [skip, current, peek_behind whole, peek_behind whole]
    cases after with
    | nil => rfl
    | cons c rest =>
        have second {d : Char} (other : d ≠ '\x00') (next : ((c :: rest)[1]?).getD '\x00' = d) :
            ∃ others, rest = d :: others := by
          cases rest with
          | nil => exact absurd next.symm other
          | cons e others => exact ⟨others, congrArg (· :: others) next⟩
        split
        · rename_i first
          exact (noQuote rest (congrArg (· :: rest) first)).elim
        · rename_i first
          exact (noIdentifier rest (congrArg (· :: rest) first)).elim
        · rename_i first
          exact (noTick rest (congrArg (· :: rest) first)).elim
        · rename_i first next
          obtain ⟨others, rfl⟩ := second (by decide) next
          exact (noLine others (congrArg (· :: '-' :: others) first)).elim
        · rename_i first next
          obtain ⟨others, rfl⟩ := second (by decide) next
          exact (noComment others (congrArg (· :: '*' :: others) first)).elim
        · rename_i first
          exact (noDollar rest (congrArg (· :: rest) first)).elim
        · rfl

end CountingScanner

/-! ## In step -/

namespace Scanner

/-- The count of a scanner in a query. -/
def counted (query : String) (s : Scanner) : CountingScanner :=
  ⟨query, s.position⟩

variable {query : String} {s : Scanner}

theorem counted_eq (query : String) (s : Scanner) :
    s.counted query = ⟨query, s.before.reverse.length⟩ := by
  rw [counted, position, List.length_reverse]

theorem StandsIn.jump (stands : s.StandsIn query) (count : Nat) : (s.jump count).StandsIn query :=
  stands.behind (List.take_append_drop count s.after).symm

theorem StandsIn.skip (stands : s.StandsIn query) : s.skip.2.StandsIn query := by
  rw [Scanner.skip]
  split
  · exact stands
  · exact stands.jump _
  · exact stands
  · exact stands.jump _

section Counted

variable (stands : s.StandsIn query)
include stands

theorem atEnd_counted : (s.counted query).atEnd = s.atEnd := by
  rw [counted_eq, CountingScanner.atEnd_behind stands, atEnd]

theorem peek_counted (ahead : Nat) : (s.counted query).peek ahead = s.peek ahead := by
  rw [counted_eq, CountingScanner.peek_behind stands, peek]

theorem offset_counted : (s.counted query).offset = s.offset := by
  rw [counted_eq, CountingScanner.offset, CountingScanner.offsetAt_behind stands, Utf8.size_reverse,
    offset]

theorem jump_counted (count : Nat) :
    (s.counted query).jump count = (s.jump count).counted query := by
  rw [counted_eq, CountingScanner.jump_behind stands, counted_eq, jump]
  simp

theorem advance_counted : (s.counted query).advance = s.advance.counted query := by
  cases after : s.after with
  | nil =>
      have ended : (s.counted query).atEnd := by rw [atEnd_counted stands, atEnd, after]; rfl
      rw [CountingScanner.advance, if_pos ended, advance, Scanner.jump, after]
      simp [counted, position]
  | cons c rest =>
      have whole : query.toList = s.before.reverse ++ c :: rest := by rw [← after]; exact stands
      rw [counted_eq, CountingScanner.advance_behind whole, advance_eq after, counted_eq]
      simp

theorem skip_counted : (s.counted query).skip = (s.skip.1, s.skip.2.counted query) := by
  have before : Utf8.size s.before.reverse = s.offset := Utf8.size_reverse s.before
  rw [counted_eq, CountingScanner.skip_behind stands]
  rcases found : Region.cut? s.after with region | _ | cut
  · have last : query.length = (s.jump s.after.length).position := by
      rw [CountingScanner.length_whole stands]
      simp [Scanner.jump, position, Nat.add_comm]
    cases region <;> simp only [skip, found, CountingScanner.outcome, before, last] <;>
      simp [counted, position]
  · simp [skip_of_bare found, CountingScanner.outcome, counted, position]
  · rw [skip_of_region found, CountingScanner.outcome, Utf8.size_append, before]
    simp [counted, position, Nat.add_comm]

end Counted

end Scanner

end SqlMarshal
