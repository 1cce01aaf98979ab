import SqlMarshal.Proofs.Bind.MarkOrigins
import SqlMarshal.Proofs.Query.MarkedText

/-! # Substitution keeps what is quoted

The extractor of named parameters and the writer of markers split two different texts. They agree on
where every region lies, whatever is put in place of the parameters, unless `NULL` comes to stand
behind a dollar and a tag. A tag goes on only with word characters, and `NULL` is the only word that
is put in: a question mark ends the tag, and where nothing is put in the query had the marker before.

So what is carried along the segments is the part of the query in front of them, which tells the tags
that `NULL` would go on with.
-/

namespace SqlMarshal

/-- No parameter of a query that is replaced with `NULL` stands directly behind a dollar and a tag. -/
def NullsUntagged (query : List Char) (replaced : List (NamedParameter × List Char)) : Prop :=
  ∀ span ∈ replaced, span.2 = "NULL".toList →
    ∀ front ∈ query.inits, Utf8.size front = span.1.start → endsInTag front = false
  deriving Decidable

/-- No parameter among segments that is replaced with `NULL` stands directly behind a dollar and a
    tag, where `front` is the text in front of the segments. -/
def Untagged : (front : List Char) → List Segment → List (List Char) → Prop
  | _, [], _ => True
  | front, .copy text :: rest, texts => Untagged (front ++ text) rest texts
  | front, .parameter name :: rest, texts =>
      (texts.head? = some "NULL".toList → endsInTag front = false) ∧
        Untagged (front ++ ':' :: name) rest texts.tail

section Replace

variable {segs : List Segment} {texts : List (List Char)} {front : List Char}

theorem untagged_of_nulls
    (nulls : NullsUntagged (front ++ segs.flatMap Segment.text)
      ((parametersFrom (Utf8.size front) segs).zip texts)) : Untagged front segs texts := by
  induction segs generalizing front texts with
  | nil => trivial
  | cons segment rest ih =>
      cases segment with
      | copy text =>
          refine ih ?_
          simpa only [parametersFrom, ← Utf8.size_append, List.flatMap_cons, Segment.text,
            List.append_assoc] using nulls
      | parameter name =>
          cases texts with
          | nil => exact ⟨by simp, ih fun _ member => by simp at member⟩
          | cons new others =>
              refine ⟨fun null => ?_, ih fun span member => ?_⟩
              · exact nulls _ List.mem_cons_self (Option.some.inj null) front
                  ((List.mem_inits _ _).2 (List.prefix_append front _)) rfl
              · rw [Utf8.size_append] at member
                have later := nulls span (List.mem_cons_of_mem _ member)
                simpa [Segment.text] using later

/-- Behind a dollar and a tag no dollar is reached through words that the query does not have there:
    the tag ends at a question mark, and behind it no `NULL` goes on with it. -/
theorem dollar_of_replacePieces (solid : ∀ segment ∈ segs, segment.Solid)
    (standIns : ∀ new ∈ texts, IsStandIn new) {before tag word body : List Char}
    (untagged : Untagged (before ++ '$' :: tag) segs texts)
    (inTag : ∀ c ∈ tag, isWordChar c) (isWord : ∀ c ∈ word, isWordChar c)
    (noDigit : (tag ++ word).head?.any Char.isDigit = false)
    (marked : piecesText (replacePieces segs texts) = word ++ '$' :: body) :
    ∃ body', segs.flatMap Segment.text = word ++ '$' :: body' := by
  induction segs generalizing tag word with
  | nil => simp [replacePieces, piecesText] at marked
  | cons segment rest ih =>
      obtain ⟨here, later⟩ := List.forall_mem_cons.1 solid
      cases segment with
      | copy text =>
          obtain ⟨c, tail, rfl⟩ := List.exists_cons_of_ne_nil here.1
          simp only [replacePieces, piecesText_append, Segment.piecesText_pieces, Segment.text,
            List.cons_append] at marked
          simp only [List.flatMap_cons, Segment.text, List.cons_append]
          cases word with
          | nil =>
              obtain ⟨rfl, -⟩ := List.cons.inj marked
              exact ⟨_, rfl⟩
          | cons first word =>
              obtain ⟨rfl, rest_marked⟩ := List.cons.inj marked
              obtain ⟨inWord, restWord⟩ := List.forall_mem_cons.1 isWord
              cases tail with
              | nil =>
                  have longer : ∀ d ∈ tag ++ [c], isWordChar d := by
                    simpa [or_imp, forall_and] using ⟨inTag, inWord⟩
                  obtain ⟨body', found⟩ := ih later (by simpa [Untagged] using untagged) longer
                    restWord (by simpa using noDigit) rest_marked
                  exact ⟨body', by simpa using found⟩
              | cons d tail => simp [here.2 c d tail rfl] at inWord
      | parameter name =>
          cases texts with
          | nil =>
              rw [replacePieces_nil] at marked
              exact ⟨body, by rw [← marked, piecesText_flatMap_pieces]⟩
          | cons new others =>
              rcases (List.forall_mem_cons.1 standIns).1 with rfl | ⟨question, -⟩
              · have ends : endsInTag (before ++ '$' :: tag) = true :=
                  endsInTag_iff.2 ⟨before, tag, rfl, inTag, by cases tag <;> simp_all⟩
                simp [untagged.1 rfl] at ends
              · obtain ⟨tail, rfl⟩ := List.head?_eq_some_iff.1 question
                simp only [replacePieces, List.map_cons, List.cons_append, piecesText_cons,
                  Piece.text] at marked
                cases word with
                | nil => simp at marked
                | cons first word =>
                    obtain ⟨rfl, -⟩ := List.cons.inj marked
                    exact absurd (isWord '?' List.mem_cons_self) (by decide)

theorem noNewMarker_of_untagged (solid : ∀ segment ∈ segs, segment.Solid)
    (standIns : ∀ new ∈ texts, IsStandIn new) (untagged : Untagged front segs texts)
    (splits : Splits (segs.flatMap Segment.text) (segs.flatMap Segment.pieces)) :
    NoNewMarker segs texts := by
  induction segs generalizing front texts with
  | nil => trivial
  | cons segment rest ih =>
      obtain ⟨-, later⟩ := List.forall_mem_cons.1 solid
      rw [List.flatMap_cons, List.flatMap_cons] at splits
      have behind := splits.behind_segment
      cases segment with
      | copy text =>
          refine ⟨?_, ih later standIns untagged behind⟩
          rintro rfl
          obtain ⟨_, same, noRegion, -⟩ := Splits.bare_inv splits
          obtain rfl := (List.cons.inj same).2
          have noMarker : Region.dollarMarker? (rest.flatMap Segment.text) = none :=
            (Region.plain_of_cut? noRegion).noDollar rfl
          rw [Option.eq_none_iff_forall_ne_some]
          intro marker marked
          obtain ⟨word, body, whole, -, isWord, noDigit⟩ := Region.dollarMarker?_eq_some marked
          have noTag : ∀ c ∈ ([] : List Char), isWordChar c := by simp
          obtain ⟨body', had⟩ := dollar_of_replacePieces later standIns untagged noTag isWord
            noDigit whole
          rw [had, Region.dollarMarker?_of_word body' isWord noDigit] at noMarker
          simp at noMarker
      | parameter name =>
          exact ih later (fun new member => standIns new (List.mem_of_mem_tail member)) untagged.2
            behind

theorem regionTexts_replacePieces (solid : ∀ segment ∈ segs, segment.Solid) :
    regionTexts (replacePieces segs texts) = regionTexts (segs.flatMap Segment.pieces) := by
  have append : ∀ left right, regionTexts (left ++ right) = regionTexts left ++ regionTexts right :=
    fun _ _ => List.filterMap_append
  have bare : ∀ text : List Char, regionTexts (text.map .bare) = [] := fun text => by
    simp [regionTexts, Piece.region?]
  induction segs generalizing texts with
  | nil => rfl
  | cons segment rest ih =>
      have others := fun texts => @ih texts (List.forall_mem_cons.1 solid).2
      cases segment with
      | copy text => rw [replacePieces, List.flatMap_cons, append, append, others]
      | parameter name =>
          rw [List.flatMap_cons, append]
          cases texts with
          | nil => rw [replacePieces, append, others]
          | cons new more => rw [replacePieces, append, others, bare, Segment.pieces, bare]

end Replace

/-! ## Binding -/

namespace Statement

/-- Whatever the parameters of a query are replaced with, the text falls into the pieces of the query,
    with the new text bare: it has the regions of the query and no others, and its placeholders are
    those of the parameters and the query's own. So it is written for every dialect, and so is a query
    that is bound by name. No `NULL` may come to stand behind a dollar and a tag. -/
theorem replaced_regions {query : String} {tokens : List NamedParameter} {found : List Param}
    (extracted : namedParameters query = .ok tokens) (enough : tokens.length = found.length)
    (nulls : NullsUntagged query.toList (tokens.zip (found.map Param.standIn))) :
    ∃ (expanded : String) (pieces written : List Piece),
      Utf8.encode expanded =
        replaceSpans (Utf8.encode query) 0 (tokens.zip (found.map Param.standIn)) ∧
      piecesOf query.toList = .ok pieces ∧ piecesOf expanded.toList = .ok written ∧
      (segments pieces).flatMap Segment.pieces = pieces ∧
      written = replacePieces (segments pieces) (found.map Param.standIn) ∧
      (regionsFrom 0 written).map (fun (_, _, text) => text) =
        (regionsFrom 0 pieces).map (fun (_, _, text) => text) ∧
      (bareMarks 0 written = (marksFrom 0 0 (segments pieces) found).map (·.position) ∧
        (marksFrom 0 0 (segments pieces) found).filterMap (·.origin) = contributions tokens found ∧
        written.count (.bare '?') =
          (found.flatMap Param.contributed).length + pieces.count (.bare '?')) ∧
      ∀ dialect,
        regionTexts (placeMarkers dialect 1 written) = regionTexts pieces ∧
        markPlaceholders expanded dialect =
          .ok (String.ofList (piecesText (placeMarkers dialect 1 written))) ∧
        ∀ Γ param arguments, param.isBindable Γ → tokens ≠ [] →
          Arguments.build Γ param = .ok arguments →
          tokens.map (fun token => arguments.get? token.name) = found.map some →
          bind Γ query dialect [param] =
            .ok ⟨String.ofList (piecesText (placeMarkers dialect 1 written)),
              found.flatMap Param.contributed⟩ := by
  obtain ⟨pieces, split, rfl⟩ : ∃ pieces, piecesOf query.toList = .ok pieces ∧
      parametersFrom 0 (segments pieces) = tokens := by
    unfold namedParameters at extracted
    cases split : piecesOf query.toList with
    | error error => simp [split, Except.map] at extracted
    | ok pieces => exact ⟨pieces, rfl, by simpa [split, Except.map] using extracted⟩
  have splits := piecesOf_iff.1 split
  have solid := segments_solid splits.regionsOpen
  have whole := segments_pieces splits.regionsOpen
  have text : (segments pieces).flatMap Segment.text = query.toList := by
    rw [segments_text, splits.text]
  have standIns : ∀ new ∈ found.map Param.standIn, IsStandIn new := by
    intro new member
    obtain ⟨value, -, rfl⟩ := List.mem_map.1 member
    exact value.isStandIn_standIn
  let written := replacePieces (segments pieces) (found.map Param.standIn)
  let expanded := String.ofList (piecesText written)
  have bytes : Utf8.encode expanded = replaceSpans (Utf8.encode query) 0
      ((parametersFrom 0 (segments pieces)).zip (found.map Param.standIn)) := by
    have replaced := @replaceSpans_segments (segments pieces) _ [] []
      (enough.trans (List.length_map Param.standIn).symm)
    simpa [Utf8.encode, expanded, text, Utf8.size] using replaced.symm
  have splitAgain : piecesOf expanded.toList = .ok written := by
    have untagged : Untagged [] (segments pieces) (found.map Param.standIn) :=
      untagged_of_nulls (by simpa [text, Utf8.size] using nulls)
    have before : Splits ((segments pieces).flatMap Segment.text)
        ((segments pieces).flatMap Segment.pieces) := by
      rw [text, whole]
      exact splits
    rw [String.toList_ofList]
    exact piecesOf_iff.2 (splits_replacePieces solid standIns
      (noNewMarker_of_untagged solid standIns untagged before) before)
  have regions : regionTexts written = regionTexts pieces := by
    rw [regionTexts_replacePieces solid, whole]
  refine ⟨expanded, pieces, written, bytes, split, splitAgain, whole, rfl, ?_, ⟨?_, ?_, ?_⟩, ?_⟩
  · rw [texts_regionsFrom, texts_regionsFrom, regions]
  · exact bareMarks_replacePieces 0 0 enough
  · exact marksFrom_origin 0 0 enough
  · rw [count_replacePieces solid enough, whole]
  · intro dialect
    refine ⟨by rw [regionTexts_placeMarkers, regions], markPlaceholders_eq splitAgain, ?_⟩
    intro Γ param arguments bindable named built known
    rw [bind_of_isBindable bindable, bindNamed_of_segments split named, built]
    simp only [Except.bind, expandSegments_known known, markText]
    rw [← String.toList_ofList (l := piecesText _), splitAgain, ← writeMarkers_eq]
    rfl

/-- A dollar and a digit are no tag, so a `NULL` can stand behind them. -/
theorem replaced_regions_of_null :
    let x : Param := .datum (.int .w64) (.whole 9)
    let ids : Param := .array (.int .w64) [.whole 1, .whole 2]
    let none : Param := .array .text []
    let query := "$1:none$ '?:x' = :x OR ? IN (:ids)"
    ∃ expanded written,
      Utf8.encode expanded = Utf8.encode "$1NULL$ '?:x' = ? OR ? IN (?,?)" ∧
      piecesOf expanded.toList = .ok written ∧
      (regionsFrom 0 written).map (fun (_, _, text) => text) = ["'?:x'".toList] ∧
      bareMarks 0 written = [16, 21, 27, 29] ∧
      bind {} query .dollar [.map .ordered [("x", x), ("ids", ids), ("none", none)]] =
        .ok ⟨"$1NULL$ '?:x' = $1 OR $2 IN ($3,$4)",
          [x, .datum (.int .w64) (.whole 1), .datum (.int .w64) (.whole 2)]⟩ := by
  intro x ids none query
  have extracted : namedParameters query =
      .ok [⟨"none", 2, 7⟩, ⟨"x", 17, 19⟩, ⟨"ids", 29, 33⟩] := by cbv
  have nulls : NullsUntagged query.toList
      ([⟨"none", 2, 7⟩, ⟨"x", 17, 19⟩, ⟨"ids", 29, 33⟩].zip ([none, x, ids].map Param.standIn)) := by
    decide
  obtain ⟨expanded, pieces, written, bytes, split, splitAgain, -, rfl, regions, ⟨marks, -, -⟩, all⟩ :=
    replaced_regions extracted rfl nulls
  have known : (piecesOf query.toList).map (fun pieces => (regionTexts pieces,
      (marksFrom 0 0 (segments pieces) [none, x, ids]).map (·.position),
      String.ofList (piecesText (placeMarkers .dollar 1
        (replacePieces (segments pieces) ([none, x, ids].map Param.standIn)))))) =
      .ok (["'?:x'".toList], [16, 21, 27, 29], "$1NULL$ '?:x' = $1 OR $2 IN ($3,$4)") := by cbv
  rw [split] at known
  simp only [Except.map, Except.ok.injEq, Prod.mk.injEq] at known
  obtain ⟨texts, positions, marked⟩ := known
  refine ⟨expanded, _, bytes.trans (by cbv), splitAgain, ?_, marks.trans positions, ?_⟩
  · rw [regions, texts_regionsFrom, texts]
  · have built : Arguments.build {} (.map .ordered [("x", x), ("ids", ids), ("none", none)]) =
        .ok ⟨[("x", x), ("ids", ids), ("none", none)]⟩ := by cbv
    rw [(all .dollar).2.2 _ _ _ (by decide) (by decide) built (by cbv), marked]
    rfl

end Statement

end SqlMarshal
