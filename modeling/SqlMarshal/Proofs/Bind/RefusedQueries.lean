import SqlMarshal.Proofs.Bind.Substitution
import SqlMarshal.Proofs.Query.NamingColons

/-! # Which queries are refused

Named parameters are found, and placeholders written, by a scanner that goes over the query once.
The two go differently: for placeholders the scanner asks at every character whether a region opens
there, for names it jumps over two colons, and over the word behind a colon, without asking. Neither
a colon nor a word character opens a region, so both see the same pieces and refuse the same queries
with the same error.
-/

namespace SqlMarshal

namespace Scanner

/-- The named parameters from the scanner on. Two colons, and the word behind a colon, are passed
    without a look for regions. -/
def findNames (s : Scanner) : Except QueryError (List NamedParameter) :=
  if _inside : s.atEnd then .ok []
  else
    match _skipped : s.skip with
    | (.error error, _) => .error error
    | (.ok (some _), next) => next.findNames
    | (.ok none, _) =>
        if s.current ≠ ':' then s.advance.findNames
        else if s.peek 1 = ':' then (s.jump 2).findNames
        else
          let word := s.advance.after.takeWhile isWordChar
          let next := s.advance.jump word.length
          if word = [] then next.findNames
          else next.findNames.map (⟨String.ofList word, s.offset, next.offset⟩ :: ·)
termination_by s.after.length
decreasing_by
  · exact length_skip _skipped
  · exact length_advance _inside
  · have shorter := length_advance _inside
    simp only [advance, jump, List.length_drop] at shorter ⊢
    omega
  · exact (length_jump _ _).trans_lt (length_advance _inside)
  · exact (length_jump _ _).trans_lt (length_advance _inside)

/-- The text from the scanner on with its placeholders written for a dialect, the next of them
    having a number. The scanner looks for a region at every character. -/
def copyMarked (dialect : Dialect) (number : Nat) (s : Scanner) : Except QueryError (List Char) :=
  if _inside : s.atEnd then .ok []
  else
    match _skipped : s.skip with
    | (.error error, _) => .error error
    | (.ok (some _), next) =>
        (next.copyMarked dialect number).map (s.after.take (next.position - s.position) ++ ·)
    | (.ok none, _) =>
        if s.current = '?' then
          (s.advance.copyMarked dialect (number + 1)).map (dialect.marker number ++ ·)
        else (s.advance.copyMarked dialect number).map (s.current :: ·)
termination_by s.after.length
decreasing_by
  · exact length_skip _skipped
  · exact length_advance _inside
  · exact length_advance _inside

end Scanner

/-- The pieces of a text that begins at an offset, or the error about its first region without an
    end. -/
def piecesFrom (offset : Nat) (text : List Char) : Except QueryError (List Piece) :=
  match splitFrom offset text with
  | (found, none) => .ok found
  | (_, some error) => .error error

section Pieces

variable {offset : Nat} {c : Char} {text rest word : List Char} {found : List Piece}

theorem piecesFrom_nil : piecesFrom offset [] = .ok [] := by
  simp [piecesFrom, splitFrom]

theorem piecesFrom_bare (bare : Region.cut? (c :: rest) = .ok none) :
    piecesFrom offset (c :: rest) = (piecesFrom (offset + c.utf8Size) rest).map (.bare c :: ·) := by
  rw [piecesFrom, piecesFrom, splitFrom_bare offset bare]
  rcases splitFrom (offset + c.utf8Size) rest with ⟨found, _ | error⟩ <;> rfl

theorem piecesFrom_region {cut : Cut} (opens : Region.cut? text = .ok (some cut)) :
    piecesFrom offset text =
      (piecesFrom (offset + Utf8.size cut.1) cut.2).map (.region cut.1 :: ·) := by
  rw [piecesFrom, piecesFrom, splitFrom_region offset opens]
  rcases splitFrom (offset + Utf8.size cut.1) cut.2 with ⟨found, _ | error⟩ <;> rfl

theorem piecesFrom_unclosed {region : Unclosed} (unclosed : Region.cut? text = .error region) :
    piecesFrom offset text = .error (.unclosed region offset) := by
  rw [piecesFrom, splitFrom_unclosed offset unclosed]

theorem splits_of_piecesFrom (split : piecesFrom offset text = .ok found) : Splits text found := by
  unfold piecesFrom at split
  split at split
  · rename_i whole
    obtain rfl := Except.ok.inj split
    exact splits_of_splitFrom offset text whole
  · simp at split

theorem cut?_of_noOpener (ordinary : c ∉ Region.openers) : Region.cut? (c :: rest) = .ok none :=
  Region.cut?_of_plain (Region.plain_of_noOpener _ ordinary)

theorem piecesFrom_colon :
    piecesFrom offset (':' :: rest) = (piecesFrom (offset + 1) rest).map (.bare ':' :: ·) :=
  piecesFrom_bare (cut?_of_noOpener (by decide))

theorem piecesFrom_word (isWord : ∀ c ∈ word, isWordChar c) :
    piecesFrom offset (word ++ rest) =
      (piecesFrom (offset + Utf8.size word) rest).map (word.map Piece.bare ++ ·) := by
  induction word generalizing offset with
  | nil => cases same : piecesFrom offset rest <;> simp [Utf8.size, same, Except.map]
  | cons c word ih =>
      obtain ⟨here, later⟩ := List.forall_mem_cons.1 isWord
      have ordinary : c ∉ Region.openers := fun opener => by
        simp [Region.isWordChar_opener opener] at here
      have size : offset + c.utf8Size + Utf8.size word = offset + Utf8.size (c :: word) :=
        Nat.add_assoc ..
      rw [List.cons_append, piecesFrom_bare (cut?_of_noOpener ordinary), ih later, size]
      cases piecesFrom (offset + Utf8.size (c :: word)) rest <;> rfl

theorem Splits.head?_bare (splits : Splits text found) (first : found.head? = some (.bare c)) :
    text.head? = some c := by
  obtain ⟨others, rfl⟩ := List.head?_eq_some_iff.1 first
  obtain ⟨rest, rfl, -⟩ := splits.bare_inv
  rfl

/-! ## Segments -/

theorem segments_region {inside : List Char} :
    segments (.region inside :: found) = .copy inside :: segments found := by
  rw [segments] <;> simp [Piece.text]

theorem segments_other (other : c ≠ ':') :
    segments (.bare c :: found) = .copy [c] :: segments found := by
  rw [segments] <;> simp [Piece.text, other]

theorem segments_cast :
    segments (.bare ':' :: .bare ':' :: found) = .copy [':', ':'] :: segments found := by
  rw [segments]

theorem segments_word (isWord : ∀ c ∈ word, isWordChar c) (ends : leadingWord found = [])
    (single : ∀ others, word.map Piece.bare ++ found ≠ .bare ':' :: others) :
    segments (.bare ':' :: (word.map Piece.bare ++ found)) =
      (if word = [] then .copy [':'] else .parameter word) :: segments found := by
  rw [segments, leadingWord_bare isWord ends]
  · cases word <;> simp
  · exact single

end Pieces

namespace Scanner

variable {s next : Scanner}

/-! ## One step -/

theorem jump_append {inside behind : List Char} (after : s.after = inside ++ behind) :
    s.jump inside.length = ⟨inside.reverse ++ s.before, behind⟩ := by
  simp [jump, after]

theorem pieces_of_error {error : QueryError} (failed : s.skip = (.error error, next)) :
    piecesFrom s.offset s.after = .error error := by
  rcases s.skip_cases with ⟨cut, -, goes⟩ | ⟨-, stays⟩ | ⟨region, unclosed, same⟩
  · simp [failed] at goes
  · simp [failed] at stays
  · rw [failed] at same
    obtain rfl := Except.error.inj same
    exact piecesFrom_unclosed unclosed

theorem pieces_of_region {range : Nat × Nat} (skipped : s.skip = (.ok (some range), next)) :
    ∃ inside, s.after = inside ++ next.after ∧ next.before = inside.reverse ++ s.before ∧
      next.offset = s.offset + Utf8.size inside ∧
      piecesFrom s.offset s.after =
        (piecesFrom next.offset next.after).map (.region inside :: ·) := by
  rcases s.skip_cases with ⟨cut, opens, goes⟩ | ⟨-, stays⟩ | ⟨region, -, failed⟩
  · obtain ⟨-, rfl⟩ := Prod.mk.inj (skipped.symm.trans goes)
    refine ⟨cut.1, (Region.cut?_split opens).1.symm, rfl, offset_behind .., ?_⟩
    rw [offset_behind]
    exact piecesFrom_region opens
  · simp [skipped] at stays
  · simp [skipped] at failed

theorem pieces_of_bare (inside : ¬ s.atEnd = true) (stays : s.skip = (.ok none, next)) :
    s.advance.offset = s.offset + s.current.utf8Size ∧
      piecesFrom s.offset s.after =
        (piecesFrom s.advance.offset s.advance.after).map (.bare s.current :: ·) := by
  obtain ⟨c, rest, after⟩ := List.exists_cons_of_ne_nil (by simpa [atEnd] using inside)
  have forward : s.advance.offset = s.offset + c.utf8Size := by
    rw [advance_eq after]
    exact Nat.add_comm ..
  rcases s.skip_cases with ⟨cut, -, goes⟩ | ⟨bare, -⟩ | ⟨region, -, failed⟩
  · simp [stays] at goes
  · rw [current_eq after, forward]
    refine ⟨rfl, ?_⟩
    rw [after] at bare ⊢
    rw [advance_eq after]
    exact piecesFrom_bare bare
  · simp [stays] at failed

theorem pieces_of_word {rest word : List Char} (after : s.after = ':' :: rest)
    (single : rest.head? ≠ some ':') (taken : word = s.advance.after.takeWhile isWordChar)
    (passed : next = s.advance.jump word.length) :
    next.offset = s.offset + Utf8.size (':' :: word) ∧
      (piecesFrom s.offset s.after).map segments =
        (piecesFrom next.offset next.after).map fun found =>
          (if word = [] then .copy [':'] else .parameter word) :: segments found := by
  rw [advance_eq after] at taken passed
  let behind := rest.dropWhile isWordChar
  have split : rest = word ++ behind := by simp [taken, behind]
  have isWord : ∀ c ∈ word, isWordChar c := by
    rw [taken]
    exact fun c => List.mem_takeWhile_imp
  have moved : next = ⟨(':' :: word).reverse ++ s.before, behind⟩ := by
    rw [passed, jump_append split]
    simp
  have forward : next.offset = s.offset + Utf8.size (':' :: word) := by
    rw [moved, offset_behind]
  have size : s.offset + 1 + Utf8.size word = next.offset := by
    rw [forward, Nat.add_assoc]
    rfl
  have whole : piecesFrom s.offset s.after =
      (piecesFrom next.offset behind).map fun found => .bare ':' :: (word.map .bare ++ found) := by
    rw [after, piecesFrom_colon, split, piecesFrom_word isWord, size]
    cases piecesFrom next.offset behind <;> rfl
  have apart : next.after = behind := by rw [moved]
  refine ⟨forward, ?_⟩
  rw [whole, apart]
  cases others : piecesFrom next.offset behind with
  | error error => rfl
  | ok found =>
      have splits : Splits rest (word.map .bare ++ found) := by
        have text : piecesFrom (s.offset + 1) rest = .ok (word.map .bare ++ found) := by
          rw [split, piecesFrom_word isWord, size, others]
          rfl
        exact splits_of_piecesFrom text
      have ends : leadingWord found = [] := by
        refine leadingWord_of_ends fun c first => ?_
        have head := (splits_of_piecesFrom others).head?_bare first
        have stop := List.head?_dropWhile_not isWordChar rest
        rw [head] at stop
        simpa using stop
      have noColon : ∀ tail, word.map .bare ++ found ≠ .bare ':' :: tail := by
        intro tail same
        exact single (splits.head?_bare (by rw [same]; rfl))
      exact congrArg Except.ok (segments_word isWord ends noColon)

theorem after_colon (inside : ¬ s.atEnd = true) (colon : ¬ s.current ≠ ':') :
    ∃ rest, s.after = ':' :: rest ∧ (s.peek 1 = ':' ↔ rest.head? = some ':') := by
  obtain ⟨c, rest, after⟩ := List.exists_cons_of_ne_nil (by simpa [atEnd] using inside)
  obtain rfl : c = ':' := by simpa [current_eq after] using colon
  refine ⟨rest, after, ?_⟩
  cases rest with
  | nil => simp [peek, after]
  | cons d rest => simp [peek, after]

/-! ## Both loops -/

/-- What the scanner finds are the parameters among the segments of the text in front of it. -/
theorem findNames_eq (s : Scanner) :
    s.findNames =
      ((piecesFrom s.offset s.after).map segments).map (parametersFrom s.offset) := by
  fun_induction findNames s with
  | case1 s ended =>
      have empty : s.after = [] := by simpa [atEnd] using ended
      rw [empty, piecesFrom_nil]
      simp [Except.map, segments, parametersFrom]
  | case2 s _ error next failed =>
      rw [pieces_of_error failed]
      rfl
  | case3 s _ range next skipped ih =>
      obtain ⟨inside, -, -, forward, split⟩ := pieces_of_region skipped
      rw [ih, split, forward]
      cases piecesFrom (s.offset + Utf8.size inside) next.after <;>
        simp [Except.map, segments_region, parametersFrom]
  | case4 s inside next stays other ih =>
      obtain ⟨forward, split⟩ := pieces_of_bare inside stays
      rw [ih, split, forward]
      cases piecesFrom (s.offset + s.current.utf8Size) s.advance.after <;>
        simp [Except.map, segments_other other, parametersFrom, Utf8.size]
  | case5 s inside next stays colon cast ih =>
      obtain ⟨rest, after, second⟩ := after_colon inside colon
      obtain ⟨behind, rfl⟩ := List.head?_eq_some_iff.1 (second.1 cast)
      have text : s.after = [':', ':'] ++ behind := after
      have moved : s.jump 2 = ⟨[':', ':'].reverse ++ s.before, behind⟩ := jump_append text
      have forward : (s.jump 2).offset = s.offset + 1 + 1 := by
        rw [moved, offset_behind]
        rfl
      rw [ih, forward, moved, after, piecesFrom_colon, piecesFrom_colon]
      cases piecesFrom (s.offset + 1 + 1) behind with
      | error error => rfl
      | ok found => simp only [Except.map, segments_cast, parametersFrom]; rfl
  | case6 s inside next stays colon noCast word last empty ih =>
      obtain ⟨rest, after, second⟩ := after_colon inside colon
      obtain ⟨forward, split⟩ := pieces_of_word after (mt second.2 noCast)
        (show word = _ from rfl) (show last = _ from rfl)
      have alone : last.offset = s.offset + Utf8.size [':'] := by
        rw [← empty]
        exact forward
      rw [ih, split]
      cases piecesFrom last.offset last.after <;> simp [Except.map, parametersFrom, empty, alone]
  | case7 s inside next stays colon noCast word last some ih =>
      obtain ⟨rest, after, second⟩ := after_colon inside colon
      obtain ⟨forward, split⟩ := pieces_of_word after (mt second.2 noCast)
        (show word = _ from rfl) (show last = _ from rfl)
      rw [ih, split]
      cases piecesFrom last.offset last.after <;> simp [Except.map, parametersFrom, some, forward]

/-- What the scanner copies are the pieces of the text in front of it written for the dialect. -/
theorem copyMarked_eq (dialect : Dialect) (number : Nat) (s : Scanner) :
    s.copyMarked dialect number =
      (piecesFrom s.offset s.after).map (writeMarkers dialect number) := by
  fun_induction copyMarked dialect number s with
  | case1 number s ended =>
      have empty : s.after = [] := by simpa [atEnd] using ended
      rw [empty, piecesFrom_nil]
      rfl
  | case2 number s _ error next failed =>
      rw [pieces_of_error failed]
      rfl
  | case3 number s _ range next skipped ih =>
      obtain ⟨inside, after, before, -, split⟩ := pieces_of_region skipped
      have copied : s.after.take (next.position - s.position) = inside := by
        simp [position, after, before]
      rw [ih, split, copied]
      cases piecesFrom next.offset next.after <;> rfl
  | case4 number s inside next stays placeholder ih =>
      obtain ⟨-, split⟩ := pieces_of_bare inside stays
      rw [ih, split, placeholder]
      cases piecesFrom s.advance.offset s.advance.after <;> rfl
  | case5 number s inside next stays other ih =>
      obtain ⟨-, split⟩ := pieces_of_bare inside stays
      rw [ih, split]
      have other : Piece.bare s.current ≠ .bare '?' := by simpa using other
      cases piecesFrom s.advance.offset s.advance.after with
      | error error => rfl
      | ok found => simp [Except.map, writeMarkers_eq, placeMarkers_other other, Piece.text]

end Scanner

/-! ## Refusal -/

namespace Arguments

variable {Γ : Catalogue} {param : Param}

theorem ofDistinct_ne_unclosed (found entries : List (String × Param)) (region : Unclosed)
    (offset : Nat) : ofDistinct found entries ≠ .error (.unclosed region offset) := by
  fun_induction ofDistinct found entries with
  | case1 => simp
  | case2 => simp
  | case3 found key param rest _ ih => exact ih

theorem build_ne_unclosed (region : Unclosed) (offset : Nat) :
    build Γ param ≠ .error (.unclosed region offset) := by
  unfold build
  split
  · simp
  · split
    · unfold ofDatum
      split
      · exact ofDistinct_ne_unclosed _ _ region offset
      · simp
    · simp
  · simp

end Arguments

section Refusal

variable {Γ : Catalogue} {query : String} {dialect : Dialect} {error : QueryError}

theorem findNames_start (query : String) :
    (Scanner.start query).findNames = namedParameters query := by
  rw [Scanner.findNames_eq, namedParameters]
  change ((piecesOf query.toList).map segments).map _ = _
  cases piecesOf query.toList <;> rfl

theorem copyMarked_start (query : String) (dialect : Dialect) :
    ((Scanner.start query).copyMarked dialect 1).map String.ofList =
      markPlaceholders query dialect := by
  rw [Scanner.copyMarked_eq]
  rfl

theorem namedParameters_error_iff :
    namedParameters query = .error error ↔ piecesOf query.toList = .error error := by
  rw [namedParameters]
  cases piecesOf query.toList <;> simp [Except.map]

theorem markPlaceholders_error_iff :
    markPlaceholders query dialect = .error error ↔ piecesOf query.toList = .error error := by
  rw [markPlaceholders, markText]
  cases piecesOf query.toList <;> simp [Except.map]

namespace Statement

theorem bindNamed_of_no_parameter {param : Param} {pieces : List Piece}
    (accepted : piecesOf query.toList = .ok pieces)
    (unnamed : parametersFrom 0 (segments pieces) = []) :
    bindNamed Γ query dialect param = .ok ⟨query, []⟩ := by
  rw [parametersFrom_eq_nil] at unnamed
  unfold bindNamed
  rw [accepted]
  change (if (segments pieces).any Segment.isParameter = true then _ else _) = _
  rw [if_neg (by simp [unnamed])]
  rfl

theorem bindInOrder_error_iff {params : List Param} :
    bindInOrder query dialect params = .error error ↔ piecesOf query.toList = .error error := by
  rw [bindInOrder, markPlaceholders, markText]
  cases piecesOf query.toList <;> simp [Except.map]

theorem bind_of_refused (refused : piecesOf query.toList = .error error) (params : List Param) :
    bind Γ query dialect params = .error error := by
  unfold bind
  split
  · split
    · simp only [bindNamed, refused]
      rfl
    · exact bindInOrder_error_iff.2 refused
  · exact bindInOrder_error_iff.2 refused

/-- An accepted query has no region without an end on any path, unless new text in it completes the
    marker of one. -/
theorem newMarker_of_unclosed {pieces : List Piece} {params : List Param} {region : Unclosed}
    {offset : Nat} (accepted : piecesOf query.toList = .ok pieces)
    (refused : bind Γ query dialect params = .error (.unclosed region offset)) :
    ∃ (param : Param) (arguments : Arguments) (found : List Param),
      params = [param] ∧ Arguments.build Γ param = .ok arguments ∧
      (parametersFrom 0 (segments pieces)).map (fun token => arguments.get? token.name) =
        found.map some ∧
      ¬ NoNewMarker (segments pieces) (found.map Param.standIn) := by
  have inOrder : ¬ bindInOrder query dialect params = .error (.unclosed region offset) := by
    simp [bindInOrder_error_iff, accepted]
  unfold bind at refused
  split at refused
  · rename_i param
    split at refused
    · by_cases named : parametersFrom 0 (segments pieces) = []
      · rw [bindNamed_of_no_parameter accepted named] at refused
        simp at refused
      · rw [bindNamed_of_segments accepted named] at refused
        cases built : Arguments.build Γ param with
        | error error =>
            simp only [built, Except.bind, Except.error.injEq] at refused
            subst refused
            exact absurd built (Arguments.build_ne_unclosed region offset)
        | ok arguments =>
            simp only [built, Except.bind] at refused
            cases first : (parametersFrom 0 (segments pieces)).find?
                (fun token => (arguments.get? token.name).isNone) with
            | some token => simp [expandSegments_missing first] at refused
            | none =>
                obtain ⟨found, known⟩ := exists_found first
                refine ⟨param, arguments, found, rfl, built, known, fun noMarker => ?_⟩
                have again := piecesOf_iff.2 ((piecesOf_iff.1 accepted).replaced noMarker)
                simp [expandSegments_known known, markText, again, Except.map] at refused
    · exact absurd refused inOrder
  · exact absurd refused inOrder

end Statement

/-- The scanner that finds names and the one that writes placeholders do what they stand for, and
    refuse the same queries with the same error, whatever the dialect. Binding is refused with it
    too, in order and by name. -/
theorem refused_alike (query : String) (dialect : Dialect) (error : QueryError) :
    (Scanner.start query).findNames = namedParameters query ∧
    ((Scanner.start query).copyMarked dialect 1).map String.ofList =
      markPlaceholders query dialect ∧
    (namedParameters query = .error error ↔ markPlaceholders query dialect = .error error) ∧
    (∀ params, namedParameters query = .error error ↔
      Statement.bindInOrder query dialect params = .error error) ∧
    (namedParameters query = .error error ↔
      ∀ Γ params, Statement.bind Γ query dialect params = .error error) := by
  refine ⟨findNames_start query, copyMarked_start query dialect, ?_, fun params => ?_, ?_⟩
  · rw [namedParameters_error_iff, markPlaceholders_error_iff]
  · rw [namedParameters_error_iff, Statement.bindInOrder_error_iff]
  · rw [namedParameters_error_iff]
    exact ⟨fun refused Γ => Statement.bind_of_refused refused,
      fun refused => Statement.bindInOrder_error_iff.1 (refused {} [])⟩

end Refusal

end SqlMarshal
