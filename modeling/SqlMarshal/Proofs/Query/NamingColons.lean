import SqlMarshal.Proofs.Query.ScannedPieces
import SqlMarshal.Query.Names

/-! # Which colons name a parameter

Read from the left, adjacent colons pair off as casts, so a colon that is left over is the last of
an odd number of them. If a word stands behind such a colon, the colon begins a parameter, and the
whole word is its name. Colons and words are bare characters side by side: a region between them
keeps them apart.

The parameters of a query are these, all of them and no others, from left to right.
-/

namespace SqlMarshal

variable {found rest : List Piece} {offset : Nat} {token : NamedParameter}

/-- The pieces begin with a word of bare characters, which is not empty and ends where no word
    character follows. -/
def BeginsWith (word : List Char) (found : List Piece) : Prop :=
  word ≠ [] ∧ (∀ c ∈ word, isWordChar c) ∧ ∃ behind : List Piece,
    found = word.map Piece.bare ++ behind ∧
      ∀ c, behind.head? = some (.bare c) → isWordChar c = false

/-- The parameter of a name whose colon is at an offset. -/
def NamedParameter.ofWord (name : List Char) (start : Nat) : NamedParameter :=
  ⟨String.ofList name, start, start + Utf8.size (':' :: name)⟩

/-- Among pieces that begin at an offset there is a parameter: some colons pair off, one is left
    over and begins it, and the word behind that one is its name. There is no colon to the left of
    them. -/
def Names (offset : Nat) (found : List Piece) (token : NamedParameter) : Prop :=
  ∃ (before behind : List Piece) (pairs : Nat) (word : List Char),
    found = before ++ List.replicate (2 * pairs) (.bare ':') ++ .bare ':' :: behind ∧
    before.getLast? ≠ some (.bare ':') ∧ BeginsWith word behind ∧
    token = .ofWord word (offset + Utf8.size (piecesText before) + 2 * pairs)

/-! ## Words -/

theorem not_isWordChar_colon : isWordChar ':' = false := by decide

theorem leadingWord_of_ends (ends : ∀ c, found.head? = some (.bare c) → isWordChar c = false) :
    leadingWord found = [] := by
  rcases found with _ | ⟨inside | c, rest⟩
  · rfl
  · rfl
  · simp [leadingWord, ends c rfl]

theorem beginsWith_iff {word : List Char} :
    BeginsWith word found ↔ word = leadingWord found ∧ word ≠ [] := by
  constructor
  · rintro ⟨some, isWord, behind, rfl, ends⟩
    exact ⟨(leadingWord_bare isWord (leadingWord_of_ends ends)).symm, some⟩
  · rintro ⟨rfl, some⟩
    refine ⟨some, leadingWord_isWord found, _, (leadingWord_split found).symm, ?_⟩
    clear some
    fun_induction leadingWord found with
    | case1 c rest isWord ih => simpa using ih
    | case2 c rest noWord => simpa using noWord
    | case3 found other =>
        intro c first
        obtain ⟨tail, rfl⟩ := List.head?_eq_some_iff.1 first
        exact absurd rfl (other c tail)

/-! ## From left to right -/

theorem getLast?_cons_ne {piece last : Piece} {before : List Piece} (other : piece ≠ last) :
    (piece :: before).getLast? ≠ some last ↔ before.getLast? ≠ some last := by
  cases before with
  | nil => simpa using other
  | cons first before => simp

theorem names_cons {piece : Piece} (other : piece ≠ .bare ':') :
    Names offset (piece :: rest) token ↔ Names (offset + Utf8.size piece.text) rest token := by
  constructor
  · rintro ⟨before, behind, pairs, word, split, noColon, begins, same⟩
    cases before with
    | nil => cases pairs <;> exact absurd (List.cons.inj split).1 other
    | cons first before =>
        obtain ⟨rfl, rfl⟩ := List.cons.inj split
        refine ⟨before, behind, pairs, word, rfl, (getLast?_cons_ne other).1 noColon, begins, ?_⟩
        simpa [Utf8.size_append, Nat.add_assoc] using same
  · rintro ⟨before, behind, pairs, word, rfl, noColon, begins, same⟩
    refine ⟨piece :: before, behind, pairs, word, rfl, (getLast?_cons_ne other).2 noColon, begins,
      ?_⟩
    simpa [Utf8.size_append, Nat.add_assoc] using same

theorem names_word {word : List Char} (isWord : ∀ c ∈ word, isWordChar c) :
    Names offset (word.map Piece.bare ++ rest) token ↔
      Names (offset + Utf8.size word) rest token := by
  induction word generalizing offset with
  | nil => simp [Utf8.size]
  | cons c word ih =>
      obtain ⟨here, later⟩ := List.forall_mem_cons.1 isWord
      have other : Piece.bare c ≠ .bare ':' := by
        rintro ⟨⟩
        simp [not_isWordChar_colon] at here
      rw [List.map_cons, List.cons_append, names_cons other, ih later]
      simp [Piece.text, Utf8.size, Nat.add_assoc]

theorem size_piecesText_colon (rest : List Piece) :
    Utf8.size (piecesText (.bare ':' :: rest)) = Utf8.size (piecesText rest) + 1 :=
  Nat.add_comm 1 _

theorem not_beginsWith_colon {word : List Char} : ¬ BeginsWith word (.bare ':' :: rest) := by
  rw [beginsWith_iff]
  rintro ⟨rfl, some⟩
  exact some (by simp [leadingWord, not_isWordChar_colon])

theorem names_cast :
    Names offset (.bare ':' :: .bare ':' :: rest) token ↔ Names (offset + 2) rest token := by
  constructor
  · rintro ⟨before, behind, pairs, word, split, noColon, begins, rfl⟩
    rcases before with _ | ⟨first, _ | ⟨second, before⟩⟩
    · cases pairs with
      | zero =>
          obtain rfl : .bare ':' :: rest = behind := by simpa using split
          exact absurd begins not_beginsWith_colon
      | succ pairs =>
          obtain rfl : rest = List.replicate (2 * pairs) (.bare ':') ++ .bare ':' :: behind := by
            simpa [Nat.mul_succ, List.replicate_succ] using split
          refine ⟨[], behind, pairs, word, rfl, by simp, begins,
            congrArg (NamedParameter.ofWord word) ?_⟩
          simp only [Nat.mul_succ]
          omega
    · obtain ⟨rfl, -⟩ := List.cons.inj split
      simp at noColon
    · obtain ⟨rfl, rfl, rfl⟩ : .bare ':' = first ∧ .bare ':' = second ∧ rest = before ++ _ := by
        simpa using split
      refine ⟨before, behind, pairs, word, by simp, ?_, begins,
        congrArg (NamedParameter.ofWord word) ?_⟩
      · cases before with
        | nil => simp
        | cons third before => simpa using noColon
      · simp only [size_piecesText_colon]
        omega
  · rintro ⟨before, behind, pairs, word, rfl, noColon, begins, rfl⟩
    cases before with
    | nil =>
        refine ⟨[], behind, pairs + 1, word, ?_, by simp, begins,
          congrArg (NamedParameter.ofWord word) ?_⟩
        · simp [Nat.mul_succ, List.replicate_succ]
        · simp only [Nat.mul_succ]
          omega
    | cons first before =>
        refine ⟨.bare ':' :: .bare ':' :: first :: before, behind, pairs, word, by simp, ?_, begins,
          congrArg (NamedParameter.ofWord word) ?_⟩
        · simpa using noColon
        · simp only [size_piecesText_colon]
          omega

theorem names_colon (single : ∀ others, rest ≠ .bare ':' :: others) :
    Names offset (.bare ':' :: rest) token ↔
      (∃ word, BeginsWith word rest ∧ token = .ofWord word offset) ∨
        Names (offset + 1) rest token := by
  constructor
  · rintro ⟨before, behind, pairs, word, split, noColon, begins, rfl⟩
    rcases before with _ | ⟨first, before⟩
    · cases pairs with
      | zero =>
          obtain rfl : rest = behind := by simpa using split
          exact .inl ⟨word, begins, rfl⟩
      | succ pairs =>
          have pair := (List.cons.inj split).2
          exact absurd pair (single _)
    · obtain ⟨rfl, rfl⟩ := List.cons.inj split
      cases before with
      | nil => simp at noColon
      | cons second before =>
          refine .inr ⟨second :: before, behind, pairs, word, rfl, by simpa using noColon, begins,
            congrArg (NamedParameter.ofWord word) ?_⟩
          simp only [size_piecesText_colon]
          omega
  · rintro (⟨word, begins, rfl⟩ | ⟨before, behind, pairs, word, rfl, noColon, begins, rfl⟩)
    · exact ⟨[], rest, 0, word, rfl, by simp, begins, rfl⟩
    · cases before with
      | nil => cases pairs <;> exact absurd rfl (single _)
      | cons first before =>
          refine ⟨.bare ':' :: first :: before, behind, pairs, word, rfl, by simpa using noColon,
            begins, congrArg (NamedParameter.ofWord word) ?_⟩
          simp only [size_piecesText_colon]
          omega

/-- The parameters among the segments of some pieces are those that are named there. -/
theorem mem_parametersFrom_segments (offset : Nat) (found : List Piece) (token : NamedParameter) :
    token ∈ parametersFrom offset (segments found) ↔ Names offset found token := by
  fun_induction segments found generalizing offset with
  | case1 => simp [parametersFrom, Names]
  | case2 rest ih =>
      have colons : Utf8.size [':', ':'] = 2 := by decide
      rw [parametersFrom, ih, colons, names_cast]
  | case3 rest single none ih =>
      have colon : Utf8.size [':'] = 1 := by decide
      have unnamed : ¬ ∃ word, BeginsWith word rest ∧ token = .ofWord word offset := by
        rintro ⟨word, begins, -⟩
        obtain ⟨rfl, some⟩ := beginsWith_iff.1 begins
        exact some none
      rw [parametersFrom, ih, colon, names_colon single, or_iff_right unnamed]
  | case4 rest single c word named ih =>
      have here : (∃ word, BeginsWith word rest ∧ token = .ofWord word offset) ↔
          token = .ofWord (c :: word) offset := by
        simp only [beginsWith_iff, named]
        simp
      have behind := leadingWord_split rest
      have isWord := leadingWord_isWord rest
      rw [named] at behind isWord
      have later := @names_word (rest.drop (word.length + 1)) (offset + 1) token _ isWord
      rw [List.length_cons] at behind
      rw [behind] at later
      rw [parametersFrom, List.mem_cons, ih, names_colon single, here, later,
        Nat.add_assoc]
      rfl
  | case5 piece rest _ other ih =>
      rw [parametersFrom, ih, names_cons]
      exact other

/-! ## Where parameters lie -/

theorem regionsFrom_append (offset : Nat) (left right : List Piece) :
    regionsFrom offset (left ++ right) =
      regionsFrom offset left ++ regionsFrom (offset + Utf8.size (piecesText left)) right := by
  induction left generalizing offset with
  | nil => rfl
  | cons piece left ih =>
      cases piece with
      | region inside =>
          simp [regionsFrom, ih, Piece.text, Utf8.size_append, Nat.add_assoc]
      | bare c => simp [regionsFrom, ih, Piece.text, Utf8.size, Nat.add_assoc]

theorem regionsFrom_bare (offset : Nat) (text : List Char) :
    regionsFrom offset (text.map Piece.bare) = [] := by
  induction text generalizing offset with
  | nil => rfl
  | cons c rest ih => exact ih _

theorem regionsFrom_within {start stop : Nat} {inside : List Char}
    (member : (start, stop, inside) ∈ regionsFrom offset found) :
    offset ≤ start ∧ stop ≤ offset + Utf8.size (piecesText found) := by
  induction found generalizing offset with
  | nil => simp [regionsFrom] at member
  | cons piece rest ih =>
      rw [piecesText_cons, Utf8.size_append]
      cases piece with
      | region text =>
          rcases List.mem_cons.1 member with same | later
          · obtain ⟨rfl, rfl, rfl⟩ : start = offset ∧ stop = offset + Utf8.size text ∧
                inside = text := by
              simpa using same
            simp only [Piece.text]
            omega
          · have bounds := ih later
            simp only [Piece.text]
            omega
      | bare c =>
          have bounds := ih member
          simp only [Piece.text, Utf8.size]
          omega

theorem Names.parts (names : Names offset found token) :
    ∃ (before behind : List Piece) (word : List Char),
      found = before ++ (':' :: word).map Piece.bare ++ behind ∧
      token = .ofWord word (offset + Utf8.size (piecesText before)) := by
  obtain ⟨before, behind, pairs, word, rfl, -, ⟨-, -, behind', rfl, -⟩, rfl⟩ := names
  refine ⟨before ++ List.replicate (2 * pairs) (.bare ':'), behind', word, by simp,
    congrArg (NamedParameter.ofWord word) ?_⟩
  have colons : Utf8.size (piecesText (List.replicate (2 * pairs) (.bare ':'))) = 2 * pairs := by
    generalize 2 * pairs = number
    induction number with
    | zero => rfl
    | succ number ih => rw [List.replicate_succ, size_piecesText_colon, ih]
  rw [piecesText_append, Utf8.size_append, colons, Nat.add_assoc]

theorem Names.apart (names : Names offset found token) {start stop : Nat} {inside : List Char}
    (member : (start, stop, inside) ∈ regionsFrom offset found) :
    token.stop ≤ start ∨ stop ≤ token.start := by
  obtain ⟨before, behind, word, rfl, rfl⟩ := names.parts
  rw [List.append_assoc, regionsFrom_append, regionsFrom_append, regionsFrom_bare,
    List.nil_append, piecesText_bare] at member
  rcases List.mem_append.1 member with left | right
  · exact .inr (regionsFrom_within left).2
  · exact .inl (regionsFrom_within right).1

theorem Names.slice {query : String} (names : Names 0 found token)
    (whole : piecesText found = query.toList) :
    Utf8.slice query (token.start + 1) token.stop = Utf8.encode token.name := by
  obtain ⟨before, behind, word, rfl, rfl⟩ := names.parts
  have text : query.toList = (piecesText before ++ [':']) ++ word ++ piecesText behind := by
    simp only [← whole, piecesText_append, piecesText_bare, List.append_assoc, List.cons_append,
      List.nil_append]
  have front : Utf8.size (piecesText before ++ [':']) = Utf8.size (piecesText before) + 1 :=
    Utf8.size_append _ _
  have inside := Utf8.slice_inside text
  have colon : Utf8.size (':' :: word) = 1 + Utf8.size word := rfl
  simpa only [NamedParameter.ofWord, front, colon, Nat.zero_add, Nat.add_assoc] using inside

namespace Scanner

theorem takesApart_of_piecesOf {query : String} (split : piecesOf query.toList = .ok found) :
    ∃ last, TakesApart query (start query) found last ∧ last.atEnd := by
  obtain ⟨found', last, apart, ended | ⟨error, failed⟩⟩ := exists_takesApart (start_standsIn query)
  · have same := piecesOf_of_atEnd apart ended
    obtain rfl := Except.ok.inj (split.symm.trans same)
    exact ⟨last, apart, ended⟩
  · have refused := piecesOf_of_error apart failed
    simp [split] at refused

/-- Where a scanner takes a query apart up to its end, the named parameters are there: the words
    that stand behind a colon which is left over when colons pair off, in order, each once, none of
    them in a region, and each with the bytes of its name behind its colon. -/
theorem namedParameters_of_takesApart {query : String} {last : Scanner}
    (apart : TakesApart query (start query) found last) (ended : last.atEnd) :
    ∃ tokens, namedParameters query = .ok tokens ∧
      (∀ token, token ∈ tokens ↔ Names 0 found token) ∧
      tokens.Pairwise (fun left right => left.stop ≤ right.start) ∧
      ∀ token ∈ tokens, token.start < token.stop ∧
        Utf8.slice query (token.start + 1) token.stop = Utf8.encode token.name ∧
        ∀ start stop inside, (start, stop, inside) ∈ regionsFrom 0 found →
          token.stop ≤ start ∨ stop ≤ token.start := by
  have split := piecesOf_of_atEnd apart ended
  have whole := (piecesOf_iff.1 split).text
  obtain ⟨ordered, inside⟩ := parametersFrom_ordered 0 (segments found)
  refine ⟨parametersFrom 0 (segments found), by rw [namedParameters, split]; rfl,
    mem_parametersFrom_segments 0 found, ordered, fun token member => ?_⟩
  have names := (mem_parametersFrom_segments 0 found token).1 member
  exact ⟨(inside token member).2.1, names.slice whole, fun _ _ _ => names.apart⟩

/-- Of three colons the last one is left over and of two none, and none of those in a quoted text.
    -/
theorem namedParameters_of_colons :
    let query := "a::b=:::é_1':c'"
    let found := "a::b=:::é_1".toList.map Piece.bare ++ [.region "':c'".toList]
    let token : NamedParameter := ⟨"é_1", 7, 12⟩
    ∃ last, TakesApart query (start query) found last ∧ last.atEnd ∧
      ∃ tokens, namedParameters query = .ok tokens ∧ tokens = [token] ∧
        (∀ token, token ∈ tokens ↔ Names 0 found token) ∧
        Utf8.slice query 8 12 = Utf8.encode "é_1" := by
  intro query found token
  have split : piecesOf query.toList = .ok found := by cbv
  have listed : namedParameters query = .ok [token] := by cbv
  obtain ⟨last, apart, ended⟩ := takesApart_of_piecesOf split
  obtain ⟨tokens, named, exactly, -, each⟩ := namedParameters_of_takesApart apart ended
  obtain rfl := Except.ok.inj (listed.symm.trans named)
  exact ⟨last, apart, ended, _, named, rfl, exactly, (each token (by simp)).2.1⟩

end Scanner

end SqlMarshal
