import SqlMarshal.Proofs.Query.Locality
import SqlMarshal.Proofs.Text.Utf8RoundTrip
import SqlMarshal.Query.Scanner

/-! # The grammar of regions

What a region is can be said without cutting. A region has an opening, and the opening decides what
the rest of the region looks like: content with doubled quotes and a closing quote, a line, or content
before the first repetition of a mark. A scanner goes over just the regions of this grammar, wherever
it stands: it looks at nothing but the text in front of it, it goes over the one region that the
grammar allows there, it fails if a region opens that the grammar cannot end, and it stays where no
region opens.
-/

namespace SqlMarshal

namespace Region

/-- How a region opens. -/
inductive Opening where
  | quoted (quote : Char)
  | lineComment
  | blockComment
  | dollarQuoted (tag : List Char)
  deriving DecidableEq, Repr

/-- Content as it is written between two quotes. -/
def doubleQuotes (quote : Char) (content : List Char) : List Char :=
  content.flatMap fun c => if c = quote then [c, c] else [c]

/-- A body ends with a mark, and the mark stands nowhere before its end. -/
def EndsAtFirst (mark body behind : List Char) : Prop :=
  ∃ content, body = content ++ mark ∧
    ∀ earlier < content.length, ¬ mark <+: (body ++ behind).drop earlier

namespace Opening

/-- What stands at the front of the region. -/
def text : Opening → List Char
  | .quoted quote => [quote]
  | .lineComment => ['-', '-']
  | .blockComment => ['/', '*']
  | .dollarQuoted tag => '$' :: tag ++ ['$']

/-- There are three quotes, and a tag is a word, also an empty one, that does not begin with an ASCII
    digit. -/
def Proper : Opening → Prop
  | .quoted quote => quote ∈ quotes
  | .lineComment | .blockComment => True
  | .dollarQuoted tag => (∀ c ∈ tag, isWordChar c) ∧ tag.head?.any Char.isDigit = false

/-- The text begins with the opening, and the rest of it follows. -/
structure Opens (opening : Opening) (text rest : List Char) : Prop where
  proper : opening.Proper
  front : text = opening.text ++ rest

/-- The body that goes from the opening to the end of the region, and the text behind it. -/
def Closes : Opening → (body behind : List Char) → Prop
  | .quoted quote, body, behind =>
      (∃ content, body = doubleQuotes quote content ++ [quote]) ∧ behind.head? ≠ some quote
  | .lineComment, body, behind =>
      (∃ content, body = content ++ ['\n'] ∧ '\n' ∉ content) ∨ '\n' ∉ body ∧ behind = []
  | .blockComment, body, behind => EndsAtFirst ['*', '/'] body behind
  | .dollarQuoted tag, body, behind => EndsAtFirst ('$' :: tag ++ ['$']) body behind

/-- What is reported if the region has no end. A line always has one. -/
def unclosed? : Opening → Option Unclosed
  | .quoted quote => some (if quote = '\x27' then .literal else .identifier quote)
  | .lineComment => none
  | .blockComment => some .comment
  | .dollarQuoted tag => some (.dollar (String.ofList ('$' :: tag ++ ['$'])))

/-- The cut behind the end of the region whose opening is already taken. -/
def close? : Opening → List Char → Option Cut
  | .quoted quote => closeQuote? quote
  | .lineComment => fun rest => some (closeLine rest)
  | .blockComment => closeMark? ['*', '/']
  | .dollarQuoted tag => closeMark? ('$' :: tag ++ ['$'])

end Opening

/-! ## Bodies -/

theorem closeQuote?_sound {quote : Char} {rest : List Char} {cut : Cut}
    (closed : closeQuote? quote rest = some cut) :
    (∃ content, cut.1 = doubleQuotes quote content ++ [quote]) ∧ cut.2.head? ≠ some quote := by
  fun_induction closeQuote? quote rest generalizing cut with
  | case1 => simp at closed
  | case2 =>
      obtain rfl := Option.some.inj closed
      exact ⟨⟨[], rfl⟩, by simp⟩
  | case3 => simp at closed
  | case4 rest ih =>
      obtain ⟨inner, tail, rfl⟩ := Option.map_eq_some_iff.1 closed
      obtain ⟨⟨content, body⟩, next⟩ := ih tail
      exact ⟨⟨quote :: content, by simp [Cut.cons, body, doubleQuotes]⟩, next⟩
  | case5 d rest other =>
      obtain rfl := Option.some.inj closed
      exact ⟨⟨[], rfl⟩, by simpa using other⟩
  | case6 c d rest other ih =>
      obtain ⟨inner, tail, rfl⟩ := Option.map_eq_some_iff.1 closed
      obtain ⟨⟨content, body⟩, next⟩ := ih tail
      exact ⟨⟨c :: content, by simp [Cut.cons, body, doubleQuotes, other]⟩, next⟩

theorem closeQuote?_complete {quote : Char} (content : List Char) {behind : List Char}
    (next : behind.head? ≠ some quote) :
    closeQuote? quote (doubleQuotes quote content ++ quote :: behind) =
      some (doubleQuotes quote content ++ [quote], behind) := by
  induction content with
  | nil =>
      cases behind with
      | nil => simp [doubleQuotes, closeQuote?]
      | cons c rest =>
          have other : c ≠ quote := by simpa using next
          simp [doubleQuotes, closeQuote?, other]
  | cons c content ih =>
      rw [doubleQuotes] at ih ⊢
      by_cases same : c = quote
      · subst same
        simp [closeQuote?, ih, Cut.cons]
      · simp only [List.flatMap_cons, if_neg same, List.cons_append, List.nil_append]
        -- What follows is not empty, so the character is looked at together with the next one.
        generalize whole : (content.flatMap fun c => if c = quote then [c, c] else [c]) ++
          quote :: behind = text at ih ⊢
        cases text with
        | nil => simp at whole
        | cons d text => simp [closeQuote?, same, ih, Cut.cons]

theorem closeLine_sound (rest : List Char) :
    (∃ content, (closeLine rest).1 = content ++ ['\n'] ∧ '\n' ∉ content) ∨
      '\n' ∉ (closeLine rest).1 ∧ (closeLine rest).2 = [] := by
  fun_induction closeLine rest with
  | case1 => simp
  | case2 rest => exact .inl ⟨[], rfl, by simp⟩
  | case3 c rest other ih =>
      have other' : '\n' ≠ c := fun same => other same.symm
      rcases ih with ⟨content, body, free⟩ | ⟨free, last⟩
      · exact .inl ⟨c :: content, by simp [Cut.cons, body], by simp [other', free]⟩
      · exact .inr ⟨by simp [Cut.cons, other', free], last⟩

theorem closeLine_complete {content : List Char} (free : '\n' ∉ content) (behind : List Char) :
    closeLine (content ++ '\n' :: behind) = (content ++ ['\n'], behind) := by
  induction content with
  | nil => simp [closeLine]
  | cons c content ih =>
      have other : c ≠ '\n' := (List.ne_of_not_mem_cons free).symm
      simp [closeLine, other, ih (List.not_mem_of_not_mem_cons free), Cut.cons]

theorem closeLine_last {rest : List Char} (free : '\n' ∉ rest) : closeLine rest = (rest, []) := by
  induction rest with
  | nil => rfl
  | cons c rest ih =>
      have other : c ≠ '\n' := (List.ne_of_not_mem_cons free).symm
      simp [closeLine, other, ih (List.not_mem_of_not_mem_cons free), Cut.cons]

theorem closeMark?_sound {mark rest : List Char} {cut : Cut}
    (closed : closeMark? mark rest = some cut) : EndsAtFirst mark cut.1 cut.2 := by
  have whole := closeMark?_split closed
  rw [EndsAtFirst, whole]
  fun_induction closeMark? mark rest generalizing cut with
  | case1 empty =>
      obtain rfl := Option.some.inj closed
      exact ⟨[], by simp [empty], by simp⟩
  | case2 => simp at closed
  | case3 c rest here =>
      obtain rfl := Option.some.inj closed
      exact ⟨[], rfl, by simp⟩
  | case4 c rest elsewhere ih =>
      obtain ⟨inner, tail, rfl⟩ := Option.map_eq_some_iff.1 closed
      obtain ⟨content, body, later⟩ := ih tail (closeMark?_split tail)
      refine ⟨c :: content, by simp [Cut.cons, body], fun earlier before => ?_⟩
      cases earlier with
      | zero => simpa [List.isPrefixOf_iff_prefix] using elsewhere
      | succ earlier => exact later earlier (Nat.lt_of_succ_lt_succ before)

theorem closeMark?_complete {mark content behind : List Char}
    (first : ∀ earlier < content.length, ¬ mark <+: (content ++ mark ++ behind).drop earlier) :
    closeMark? mark (content ++ mark ++ behind) = some (content ++ mark, behind) := by
  induction content with
  | nil =>
      cases whole : [] ++ mark ++ behind with
      | nil =>
          obtain ⟨rfl, rfl⟩ : mark = [] ∧ behind = [] := by simpa using whole
          rfl
      | cons c rest =>
          have here : mark.isPrefixOf (c :: rest) := by
            rw [← whole, List.isPrefixOf_iff_prefix]
            exact List.prefix_append mark behind
          rw [closeMark?, if_pos here, ← whole]
          simp
  | cons c content ih =>
      have elsewhere : ¬ mark.isPrefixOf (c :: (content ++ mark ++ behind)) := by
        rw [List.isPrefixOf_iff_prefix]
        exact first 0 (Nat.succ_pos _)
      have tail := ih fun earlier before => first (earlier + 1) (Nat.succ_lt_succ before)
      rw [List.cons_append, List.cons_append, closeMark?, if_neg elsewhere, tail]
      rfl

namespace Opening

variable {opening : Opening} {text rest body behind : List Char}

theorem close?_split {cut : Cut} (closed : opening.close? rest = some cut) :
    cut.1 ++ cut.2 = rest := by
  cases opening with
  | quoted quote => exact (closeQuote?_split closed).1
  | lineComment =>
      obtain rfl := Option.some.inj closed
      exact closeLine_split rest
  | blockComment | dollarQuoted tag => exact closeMark?_split closed

theorem close?_sound {cut : Cut} (closed : opening.close? rest = some cut) :
    opening.Closes cut.1 cut.2 := by
  cases opening with
  | quoted quote => exact closeQuote?_sound closed
  | lineComment =>
      obtain rfl := Option.some.inj closed
      exact closeLine_sound rest
  | blockComment | dollarQuoted tag => exact closeMark?_sound closed

theorem close?_complete (closes : opening.Closes body behind) :
    opening.close? (body ++ behind) = some (body, behind) := by
  cases opening with
  | quoted quote =>
      obtain ⟨⟨content, rfl⟩, next⟩ := closes
      simpa [close?] using closeQuote?_complete content next
  | lineComment =>
      rcases closes with ⟨content, rfl, free⟩ | ⟨free, rfl⟩
      · simpa [close?] using closeLine_complete free behind
      · simpa [close?] using closeLine_last free
  | blockComment | dollarQuoted tag =>
      obtain ⟨content, rfl, first⟩ := closes
      exact closeMark?_complete first

/-- Cutting is by the grammar. -/
theorem close?_eq_some_iff :
    opening.close? rest = some (body, behind) ↔ rest = body ++ behind ∧ opening.Closes body behind := by
  constructor
  · intro closed
    exact ⟨(close?_split closed).symm, close?_sound closed⟩
  · rintro ⟨rfl, closes⟩
    exact close?_complete closes

/-! ## Openings -/

theorem Opens.cut? (opens : opening.Opens text rest) :
    (∃ cut, opening.close? rest = some cut ∧
      Region.cut? text = .ok (some (cut.prepend opening.text))) ∨
    opening.close? rest = none ∧
      ∃ region, opening.unclosed? = some region ∧ Region.cut? text = .error region := by
  obtain ⟨proper, rfl⟩ := opens
  cases opening with
  | quoted quote =>
      simp only [Proper, quotes, List.mem_cons, List.not_mem_nil, or_false] at proper
      rcases proper with rfl | rfl | rfl <;>
        simp only [Opening.text, List.cons_append, List.nil_append, Region.cut?, close?] <;>
        split <;> simp_all [unclosed?, Cut.cons, Cut.prepend]
  | lineComment => exact .inl ⟨_, rfl, rfl⟩
  | blockComment =>
      simp only [Opening.text, List.cons_append, List.nil_append, Region.cut?, close?]
      split <;> simp_all [unclosed?]
  | dollarQuoted tag =>
      have marked := dollarMarker?_of_word rest proper.1 proper.2
      have whole : (Opening.dollarQuoted tag).text ++ rest = '$' :: (tag ++ '$' :: rest) := by
        simp [Opening.text]
      have behind : (tag ++ '$' :: rest).drop (('$' :: tag ++ ['$']).length - 1) = rest := by simp
      rw [whole, Region.cut?, marked]
      simp only [behind, close?]
      split <;> simp_all [unclosed?, Opening.text]

theorem cut?_of_not_opens (closed : ∀ (opening : Opening) rest, ¬ opening.Opens text rest) :
    Region.cut? text = .ok none := by
  cases text with
  | nil => rfl
  | cons c behind =>
      refine cut?_of_plain ⟨fun isQuote => ?_, ?_, ?_, ?_⟩
      · exact closed (.quoted c) behind ⟨isQuote, rfl⟩
      · rintro rfl next
        obtain ⟨rest, rfl⟩ := List.head?_eq_some_iff.1 next
        exact closed .lineComment rest ⟨trivial, rfl⟩
      · rintro rfl next
        obtain ⟨rest, rfl⟩ := List.head?_eq_some_iff.1 next
        exact closed .blockComment rest ⟨trivial, rfl⟩
      · rintro rfl
        rw [Option.eq_none_iff_forall_ne_some]
        intro marker marked
        obtain ⟨tag, rest, rfl, -, isWord, noDigit⟩ := dollarMarker?_eq_some marked
        exact closed (.dollarQuoted tag) rest ⟨⟨isWord, noDigit⟩, by simp [Opening.text]⟩

end Opening

end Region

/-! ## Going over a region -/

namespace Scanner

variable {s : Scanner}

theorem offset_behind (inside behind : List Char) :
    (⟨inside.reverse ++ s.before, behind⟩ : Scanner).offset = s.offset + Utf8.size inside := by
  rw [offset, Utf8.size_append, Utf8.size_reverse, Nat.add_comm]
  rfl

theorem skip_of_region {cut : Cut} (opens : Region.cut? s.after = .ok (some cut)) :
    s.skip = (.ok (some (s.offset, s.offset + Utf8.size cut.1)),
      ⟨cut.1.reverse ++ s.before, cut.2⟩) := by
  have whole := (Region.cut?_split opens).1
  have jumped : s.jump cut.1.length = ⟨cut.1.reverse ++ s.before, cut.2⟩ := by
    simp [jump, ← whole]
  simp only [skip, opens, jumped, offset_behind]

theorem skip_of_bare (bare : Region.cut? s.after = .ok none) : s.skip = (.ok none, s) := by
  simp only [skip, bare]

theorem skip_of_unclosed {region : Unclosed} (unclosed : Region.cut? s.after = .error region) :
    s.skip.1 = .error (.unclosed region s.offset) := by
  cases region <;> simp only [skip, unclosed]

/-- What skipping does is a matter of the cut in front of the scanner. -/
theorem skip_cases (s : Scanner) :
    (∃ cut, Region.cut? s.after = .ok (some cut) ∧
      s.skip = (.ok (some (s.offset, s.offset + Utf8.size cut.1)),
        ⟨cut.1.reverse ++ s.before, cut.2⟩)) ∨
    Region.cut? s.after = .ok none ∧ s.skip = (.ok none, s) ∨
    ∃ region, Region.cut? s.after = .error region ∧
      s.skip.1 = .error (.unclosed region s.offset) := by
  rcases found : Region.cut? s.after with region | _ | cut
  · exact .inr (.inr ⟨region, rfl, skip_of_unclosed found⟩)
  · exact .inr (.inl ⟨rfl, skip_of_bare found⟩)
  · exact .inl ⟨cut, rfl, skip_of_region found⟩

open Region

/-- The scanner goes by the grammar. Where a region opens it goes over the body that closes it, and it
    fails just if there is no such body; it stays just where no region opens. -/
theorem skip_by_grammar (s : Scanner) :
    (∀ (opening : Opening) (rest : List Char), opening.Opens s.after rest →
      (∀ body behind, rest = body ++ behind ∧ opening.Closes body behind ↔
        s.skip = (.ok (some (s.offset, s.offset + Utf8.size (opening.text ++ body))),
          ⟨(opening.text ++ body).reverse ++ s.before, behind⟩)) ∧
      ((¬ ∃ body behind, rest = body ++ behind ∧ opening.Closes body behind) ↔
        ∃ region, opening.unclosed? = some region ∧
          s.skip.1 = .error (.unclosed region s.offset))) ∧
    (s.skip = (.ok none, s) ↔ ∀ (opening : Opening) rest, ¬ opening.Opens s.after rest) := by
  constructor
  · intro opening rest opens
    rcases opens.cut? with ⟨cut, closed, cutOff⟩ | ⟨unended, region, reported, failed⟩
    · have skipped := skip_of_region cutOff
      have closes := Opening.close?_eq_some_iff.1 closed
      refine ⟨fun body behind => ?_, fun unended => absurd ⟨_, _, closes⟩ unended, ?_⟩
      · rw [← Opening.close?_eq_some_iff, closed, skipped]
        constructor
        · rintro ⟨⟩
          rfl
        · intro same
          have reached := (Prod.mk.inj same).2
          simpa [Cut.prepend, Prod.ext_iff] using reached
      · rintro ⟨region, -, failed⟩
        simp [skipped] at failed
    · have failed := skip_of_unclosed failed
      have none : ¬ ∃ body behind, rest = body ++ behind ∧ opening.Closes body behind := by
        rintro ⟨body, behind, closes⟩
        simp [Opening.close?_eq_some_iff.2 closes] at unended
      refine ⟨fun body behind => ⟨fun closes => absurd ⟨_, _, closes⟩ none, fun skipped => ?_⟩,
        fun _ => ⟨region, reported, failed⟩, fun _ => none⟩
      simp [skipped] at failed
  · constructor
    · intro stays opening rest opens
      rcases opens.cut? with ⟨cut, -, cutOff⟩ | ⟨-, region, -, failed⟩
      · simp [skip_of_region cutOff] at stays
      · have failed := skip_of_unclosed failed
        simp [stays] at failed
    · intro closed
      exact skip_of_bare (Opening.cut?_of_not_opens closed)

end Scanner

end SqlMarshal
