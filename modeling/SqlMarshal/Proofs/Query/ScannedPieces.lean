import SqlMarshal.Proofs.Query.MarkedText
import SqlMarshal.Proofs.Query.RegionGrammar

/-! # Taking a query apart with a scanner

A scanner takes a query apart from left to right: it goes over the region that opens in front of it and
tells between which bytes the region lies, or else it goes over one character. It comes to the end of
the query, or to a region without an end, and reports that one. What it has passed on the way are the
pieces of the query.

So what is written for a dialect can be read off a run of the scanner. Every piece comes out as it is
and where it was, but for the bare question marks: the first becomes the marker with the number one,
and each further one the marker with the next number.
-/

namespace SqlMarshal

/-- The bytes of a text between two offsets. -/
def Utf8.slice (text : String) (start stop : Nat) : List UInt8 :=
  ((Utf8.encode text).take stop).drop start

theorem Utf8.slice_inside {text : String} {front inside behind : List Char}
    (whole : text.toList = front ++ inside ++ behind) :
    slice text (size front) (size front + size inside) = encode (String.ofList inside) := by
  rw [slice, encode, whole, List.flatMap_append, ← size_append,
    ← length_encodeChars (front ++ inside), List.take_left, List.flatMap_append,
    ← length_encodeChars front, List.drop_left, encode, String.toList_ofList]

namespace Scanner

/-- The scanner passes one piece of a query. Of a region the bytes between the offsets that the scanner
    tells are the text. -/
inductive Passes (query : String) : Scanner → Piece → Scanner → Prop where
  | region {s next : Scanner} {start stop : Nat} {inside : List Char} :
      s.skip = (.ok (some (start, stop)), next) →
      Utf8.slice query start stop = Utf8.encode (String.ofList inside) →
        Passes query s (.region inside) next
  | bare {s next : Scanner} :
      s.atEnd = false → s.skip = (.ok none, next) →
        Passes query s (.bare next.current) next.advance

/-- The scanner passes pieces of a query one after the other. -/
inductive TakesApart (query : String) : Scanner → List Piece → Scanner → Prop where
  | here {s : Scanner} : TakesApart query s [] s
  | further {s next last : Scanner} {piece : Piece} {found : List Piece} :
      Passes query s piece next → TakesApart query next found last →
        TakesApart query s (piece :: found) last

/-- The scanner stands in a query. -/
def StandsIn (query : String) (s : Scanner) : Prop :=
  query.toList = s.before.reverse ++ s.after

/-! ## What is left in front of a scanner -/

theorem length_advance {s : Scanner} (inside : ¬ s.atEnd = true) :
    s.advance.after.length < s.after.length := by
  have some : s.after ≠ [] := by simpa [atEnd] using inside
  have positive := List.length_pos_iff.2 some
  simp only [advance, jump, List.length_drop]
  omega

theorem length_jump (s : Scanner) (count : Nat) : (s.jump count).after.length ≤ s.after.length := by
  simp [jump]

theorem length_skip {s next : Scanner} {range : Nat × Nat}
    (skipped : s.skip = (.ok (some range), next)) : next.after.length < s.after.length := by
  rcases s.skip_cases with ⟨cut, opens, goes⟩ | ⟨-, stays⟩ | ⟨region, -, failed⟩
  · obtain ⟨-, rfl⟩ := Prod.mk.inj (skipped.symm.trans goes)
    exact Region.length_rest_lt opens
  · simp [skipped] at stays
  · simp [skipped] at failed

section Run

variable {query : String} {s next last : Scanner} {piece : Piece} {found : List Piece}

theorem advance_eq {c : Char} {rest : List Char} (after : s.after = c :: rest) :
    s.advance = ⟨c :: s.before, rest⟩ := by
  simp [advance, jump, after]

theorem current_eq {c : Char} {rest : List Char} (after : s.after = c :: rest) : s.current = c := by
  simp [current, peek, after]

theorem region_bytes {cut : Cut} (stands : s.StandsIn query)
    (opens : Region.cut? s.after = .ok (some cut)) :
    Utf8.slice query s.offset (s.offset + Utf8.size cut.1) = Utf8.encode (String.ofList cut.1) := by
  have whole : query.toList = s.before.reverse ++ cut.1 ++ cut.2 := by
    rw [stands, List.append_assoc, (Region.cut?_split opens).1]
  rw [offset, ← Utf8.size_reverse]
  exact Utf8.slice_inside whole

theorem StandsIn.behind {inside behind : List Char} (stands : s.StandsIn query)
    (after : s.after = inside ++ behind) :
    StandsIn query ⟨inside.reverse ++ s.before, behind⟩ := by
  rw [StandsIn] at stands
  simp [StandsIn, stands, after]

theorem Passes.splitFrom (passes : Passes query s piece next) (stands : s.StandsIn query) :
    next.StandsIn query ∧ splitFrom s.offset s.after =
      (piece :: (splitFrom next.offset next.after).1, (splitFrom next.offset next.after).2) := by
  cases passes with
  | @region _ start stop inside goes bytes =>
      rcases s.skip_cases with ⟨cut, opens, skipped⟩ | ⟨-, stays⟩ | ⟨region, -, failed⟩
      · obtain ⟨range, rfl⟩ := Prod.mk.inj (goes.symm.trans skipped)
        obtain ⟨rfl, rfl⟩ : start = s.offset ∧ stop = s.offset + Utf8.size cut.1 := by
          simpa using range
        have same := Utf8.encode_injective (bytes.symm.trans (region_bytes stands opens))
        obtain rfl : inside = cut.1 := by simpa using congrArg String.toList same
        refine ⟨stands.behind (Region.cut?_split opens).1.symm, ?_⟩
        rw [splitFrom_region _ opens, offset_behind]
      · simp [stays] at goes
      · simp [goes] at failed
  | @bare next inside goes =>
      rcases s.skip_cases with ⟨cut, -, skipped⟩ | ⟨bare, stays⟩ | ⟨region, -, failed⟩
      · simp [skipped] at goes
      · obtain ⟨-, rfl⟩ := Prod.mk.inj (stays.symm.trans goes)
        obtain ⟨c, rest, after⟩ := List.exists_cons_of_ne_nil (by simpa [atEnd] using inside)
        rw [advance_eq after, current_eq after]
        have forward : (⟨c :: s.before, rest⟩ : Scanner).offset = s.offset + c.utf8Size :=
          Nat.add_comm ..
        have apart : s.after = [c] ++ rest := after
        refine ⟨stands.behind apart, ?_⟩
        rw [after] at bare ⊢
        rw [splitFrom_bare _ bare, forward]
      · simp [goes] at failed

theorem TakesApart.splitFrom (apart : TakesApart query s found last) (stands : s.StandsIn query) :
    splitFrom s.offset s.after =
      (found ++ (splitFrom last.offset last.after).1, (splitFrom last.offset last.after).2) := by
  induction apart with
  | here => rfl
  | further passes _ ih =>
      obtain ⟨standsOn, here⟩ := passes.splitFrom stands
      rw [here, ih standsOn]
      rfl

/-- The scanner comes to the end of the query, or to a region without an end. -/
theorem exists_takesApart (stands : s.StandsIn query) :
    ∃ found last, TakesApart query s found last ∧
      (last.atEnd ∨ ∃ error, last.skip.1 = .error error) := by
  induction length : s.after.length using Nat.strong_induction_on generalizing s with
  | h bound ih =>
      rcases s.skip_cases with ⟨cut, opens, skipped⟩ | ⟨bare, stays⟩ | ⟨region, -, failed⟩
      · have passes := Passes.region skipped (region_bytes stands opens)
        have shorter := Region.length_rest_lt opens
        obtain ⟨found, last, apart, ends⟩ :=
          ih cut.2.length (by omega) (passes.splitFrom stands).1 rfl
        exact ⟨_, last, .further passes apart, ends⟩
      · cases after : s.after with
        | nil => exact ⟨[], s, .here, .inl (by simp [atEnd, after])⟩
        | cons c rest =>
            have passes : Passes query s (.bare s.current) s.advance :=
              .bare (by simp [atEnd, after]) stays
            have shorter : s.advance.after.length < bound := by
              simp [advance_eq after, ← length, after]
            obtain ⟨found, last, apart, ends⟩ :=
              ih _ shorter (passes.splitFrom stands).1 rfl
            exact ⟨_, last, .further passes apart, ends⟩
      · exact ⟨[], s, .here, .inr ⟨_, failed⟩⟩

theorem start_standsIn (query : String) : (start query).StandsIn query := by
  simp [StandsIn, start]

theorem piecesOf_of_atEnd (apart : TakesApart query (start query) found last)
    (ended : last.atEnd) : piecesOf query.toList = .ok found := by
  have empty : last.after = [] := by simpa [atEnd] using ended
  have split := apart.splitFrom (start_standsIn query)
  rw [empty, SqlMarshal.splitFrom, List.append_nil] at split
  exact piecesOf_iff.2 (splits_of_splitFrom _ _ split)

theorem piecesOf_of_error {error : QueryError}
    (apart : TakesApart query (start query) found last) (failed : last.skip.1 = .error error) :
    piecesOf query.toList = .error error := by
  have split := apart.splitFrom (start_standsIn query)
  rcases last.skip_cases with ⟨cut, -, skipped⟩ | ⟨-, stays⟩ | ⟨region, unclosed, failed'⟩
  · simp [skipped] at failed
  · simp [stays] at failed
  · rw [failed'] at failed
    obtain rfl := Except.error.inj failed
    rw [splitFrom_unclosed _ unclosed] at split
    have whole : SqlMarshal.splitFrom 0 query.toList =
        (found ++ [], some (.unclosed region last.offset)) := split
    simp only [piecesOf, whole]

end Run

end Scanner

/-! ## What is written -/

/-- The number of the placeholder at an index, counted from the left: the first has the number one. -/
def placeholderNumber (found : List Piece) (index : Nat) : Nat :=
  (found.take index).count (.bare '?') + 1

/-- What stands in the text for a dialect in place of the piece at an index. -/
def writtenPiece (dialect : Dialect) (found : List Piece) (index : Nat) (piece : Piece) :
    List Char :=
  if piece = .bare '?' then dialect.marker (placeholderNumber found index) else piece.text

theorem writeMarkers_flatten (dialect : Dialect) (number : Nat) (found : List Piece) :
    writeMarkers dialect number found =
      (found.mapIdx fun index piece =>
        if piece = .bare '?' then dialect.marker ((found.take index).count (.bare '?') + number)
        else piece.text).flatten := by
  fun_induction writeMarkers dialect number found with
  | case1 => rfl
  | case2 number rest ih =>
      simp [List.mapIdx_cons, ih, Nat.add_assoc, Nat.add_comm 1]
  | case3 number piece rest other ih =>
      have other : piece ≠ .bare '?' := other
      simp [List.mapIdx_cons, ih, other]

open Scanner

/-- A scanner takes every query apart up to its end or to a region without one. In the second case the
    error is the answer for every dialect. In the first the pieces put together are the query, and they
    are written one by one: a placeholder as the marker of its number, any other piece as it is. -/
theorem markPlaceholders_of_takesApart (query : String) :
    (∃ found last, TakesApart query (start query) found last ∧
      (last.atEnd ∨ ∃ error, last.skip.1 = .error error)) ∧
    ∀ found last, TakesApart query (start query) found last →
      (∀ error, last.skip.1 = .error error →
        ∀ dialect, markPlaceholders query dialect = .error error) ∧
      (last.atEnd →
        String.ofList (found.map Piece.text).flatten = query ∧
        (∀ dialect, markPlaceholders query dialect =
          .ok (String.ofList (found.mapIdx (writtenPiece dialect found)).flatten)) ∧
        markPlaceholders query .question = .ok query) := by
  refine ⟨exists_takesApart (start_standsIn query), fun found last apart => ⟨?_, ?_⟩⟩
  · intro error failed dialect
    rw [markPlaceholders, markText, piecesOf_of_error apart failed]
    rfl
  · intro ended
    have split := piecesOf_of_atEnd apart ended
    refine ⟨?_, fun dialect => ?_, markPlaceholders_question split⟩
    · rw [← List.flatMap_def, ← piecesText, (piecesOf_iff.1 split).text, String.ofList_toList]
    · rw [markPlaceholders_eq split, ← writeMarkers_eq, writeMarkers_flatten]
      rfl

end SqlMarshal
