import Mathlib
import SqlMarshal.Bind.Statement
import SqlMarshal.Proofs.Query.Segments
import SqlMarshal.Proofs.Query.Splitting
import SqlMarshal.Proofs.Text.Utf8RoundTrip

/-! # Binding by name replaces spans

Seen from outside, binding by name takes the bytes of a query, puts new text in place of the span of
every named parameter and leaves all other bytes where they are. The arguments come along in the
order of the spans.

The expansion goes over segments, and a span is where a segment lies. What carries the proof is a
text in three parts: what lies before the end of the last span, what is copied since, and the segments
that are left.
-/

namespace SqlMarshal

/-- The bytes of some characters. -/
abbrev bytesOf (text : List Char) : List UInt8 :=
  text.flatMap String.utf8EncodeChar

namespace Param

/-- What is put in place of a parameter: one placeholder, or one for each item of a sequence with
    commas between them, or `NULL` for a sequence without items. -/
def standIn (param : Param) : List Char :=
  match param.elements? with
  | none => ['?']
  | some [] => "NULL".toList
  | some items => [','].intercalate (items.map fun _ => ['?'])

/-- The arguments that a parameter contributes: itself, or the items of a sequence. -/
def contributed (param : Param) : List Param :=
  match param.elements? with
  | none => [param]
  | some items => items

end Param

/-- The pieces of segments with new text in place of the parameters, one after the other. A parameter
    for which there is no new text stays. -/
def replacePieces : List Segment → List (List Char) → List Piece
  | [], _ => []
  | .copy text :: rest, texts => (Segment.copy text).pieces ++ replacePieces rest texts
  | .parameter name :: rest, [] => (Segment.parameter name).pieces ++ replacePieces rest []
  | .parameter _ :: rest, new :: texts => new.map Piece.bare ++ replacePieces rest texts

/-- Puts new text in place of spans. The bytes from `last` on are not yet copied. -/
def replaceSpans (bytes : List UInt8) :
    (last : Nat) → List (NamedParameter × List Char) → List UInt8
  | last, [] => bytes.drop last
  | last, (token, new) :: rest =>
      (bytes.take token.start).drop last ++ bytesOf new ++ replaceSpans bytes token.stop rest

/-! ## One parameter -/

theorem Expansion.placeholders_eq (items : List Param) :
    placeholders items = [','].intercalate (items.map fun _ => ['?']) := by
  induction items with
  | nil => rfl
  | cons item rest ih =>
      cases rest with
      | nil => rfl
      | cons next others =>
          rw [placeholders, ih]
          · simp [List.intercalate]
          · simp

theorem Expansion.ofParam_eq (param : Param) :
    ofParam param = ⟨param.standIn, param.contributed⟩ := by
  unfold ofParam Param.standIn Param.contributed
  rcases param.elements? with _ | _ | ⟨item, items⟩
  · rfl
  · rfl
  · simp only [placeholders_eq]

/-! ## All parameters -/

section Segments

variable {arguments : Arguments}

theorem expandSegments_missing {segs : List Segment} {offset : Nat} {token : NamedParameter}
    (first : (parametersFrom offset segs).find? (fun token => (arguments.get? token.name).isNone) =
      some token) :
    expandSegments arguments segs = .error (.missingValue token.name) := by
  induction segs generalizing offset with
  | nil => simp [parametersFrom] at first
  | cons segment rest ih =>
      cases segment with
      | copy text =>
          rw [expandSegments, ih first]
          rfl
      | parameter name =>
          rw [parametersFrom, List.find?_cons] at first
          cases known : arguments.get? (String.ofList name) with
          | none =>
              simp only [known, Option.isNone_none, Option.some.injEq] at first
              subst first
              simp only [expandSegments, known]
          | some param =>
              simp only [known, Option.isNone_some] at first
              simp only [expandSegments, known, ih first]
              rfl

theorem expandSegments_known {segs : List Segment} {found : List Param} {offset : Nat}
    (known : (parametersFrom offset segs).map (fun token => arguments.get? token.name) =
      found.map some) :
    expandSegments arguments segs =
      .ok ⟨piecesText (replacePieces segs (found.map Param.standIn)),
        found.flatMap Param.contributed⟩ := by
  induction segs generalizing offset found with
  | nil =>
      obtain rfl : found = [] := by simpa [parametersFrom] using known.symm
      rfl
  | cons segment rest ih =>
      cases segment with
      | copy own =>
          simp only [expandSegments, ih known, replacePieces, piecesText_append,
            Segment.piecesText_pieces]
          rfl
      | parameter name =>
          cases found with
          | nil => simp [parametersFrom] at known
          | cons param others =>
              simp only [parametersFrom, List.map_cons, List.cons.injEq] at known
              simp only [expandSegments, known.1, ih known.2, Expansion.ofParam_eq, List.map_cons,
                replacePieces, piecesText_append, piecesText_bare]
              rfl

theorem exists_found {tokens : List NamedParameter}
    (all : tokens.find? (fun token => (arguments.get? token.name).isNone) = none) :
    ∃ found : List Param, tokens.map (fun token => arguments.get? token.name) = found.map some := by
  induction tokens with
  | nil => exact ⟨[], rfl⟩
  | cons token rest ih =>
      rw [List.find?_cons] at all
      cases known : arguments.get? token.name with
      | none => simp [known] at all
      | some param =>
          obtain ⟨found, later⟩ := ih (by simpa [known] using all)
          exact ⟨param :: found, by simp [known, later]⟩

end Segments

theorem drop_bytesOf (front rest : List Char) :
    (bytesOf (front ++ rest)).drop (Utf8.size front) = bytesOf rest := by
  rw [bytesOf, List.flatMap_append, ← Utf8.length_encodeChars, List.drop_left]

theorem take_bytesOf (front rest : List Char) :
    (bytesOf (front ++ rest)).take (Utf8.size front) = bytesOf front := by
  rw [bytesOf, List.flatMap_append, ← Utf8.length_encodeChars, List.take_left]

/-- To replace spans in a text is to replace the parameters among its segments. -/
theorem replaceSpans_segments {segs : List Segment} {texts : List (List Char)}
    (front copied : List Char)
    (enough : (parametersFrom (Utf8.size (front ++ copied)) segs).length = texts.length) :
    replaceSpans (bytesOf (front ++ copied ++ segs.flatMap Segment.text)) (Utf8.size front)
        ((parametersFrom (Utf8.size (front ++ copied)) segs).zip texts) =
      bytesOf (copied ++ piecesText (replacePieces segs texts)) := by
  induction segs generalizing front copied texts with
  | nil =>
      simp only [parametersFrom, List.zip_nil_left, replaceSpans, List.flatMap_nil, List.append_nil,
        drop_bytesOf, replacePieces]
      simp [piecesText]
  | cons segment rest ih =>
      cases segment with
      | copy own =>
          rw [parametersFrom, ← Utf8.size_append, List.append_assoc] at enough
          have replaced := ih front (copied ++ own) enough
          simpa only [parametersFrom, ← Utf8.size_append, List.flatMap_cons, Segment.text,
            List.append_assoc, replacePieces, piecesText_append, Segment.piecesText_pieces]
            using replaced
      | parameter name =>
          cases texts with
          | nil => simp [parametersFrom] at enough
          | cons new others =>
              simp only [parametersFrom, List.length_cons, Nat.add_right_cancel_iff,
                ← Utf8.size_append] at enough
              have replaced := ih (front ++ copied ++ ':' :: name) []
                (by simpa only [List.append_nil] using enough)
              have whole : front ++ copied ++ (Segment.parameter name :: rest).flatMap Segment.text =
                  front ++ copied ++ ':' :: name ++ rest.flatMap Segment.text := by
                simp [Segment.text]
              simp only [List.append_nil, List.nil_append] at replaced
              simp only [parametersFrom, List.zip_cons_cons, replaceSpans]
              rw [take_bytesOf, drop_bytesOf, ← Utf8.size_append, whole, replaced]
              simp [bytesOf, replacePieces]

theorem parametersFrom_eq_nil {offset : Nat} {segs : List Segment} :
    parametersFrom offset segs = [] ↔ segs.any Segment.isParameter = false := by
  induction segs generalizing offset with
  | nil => simp [parametersFrom]
  | cons segment rest ih =>
      cases segment with
      | copy text => simpa [parametersFrom, Segment.isParameter] using ih
      | parameter name => simp [parametersFrom, Segment.isParameter]

/-! ## Binding -/

namespace Statement

variable {Γ : Catalogue} {query : String} {dialect : Dialect} {param : Param}

theorem bind_of_isBindable (bindable : param.isBindable Γ) :
    bind Γ query dialect [param] = bindNamed Γ query dialect param := by
  simp [bind, bindable]

theorem bindNamed_of_segments {found : List Piece} (split : piecesOf query.toList = .ok found)
    (named : parametersFrom 0 (segments found) ≠ []) :
    bindNamed Γ query dialect param =
      (Arguments.build Γ param).bind fun arguments =>
        (expandSegments arguments (segments found)).bind fun expansion =>
          (markText dialect expansion.text).map fun text =>
            ⟨String.ofList text, expansion.arguments⟩ := by
  have present : (segments found).any Segment.isParameter = true := by
    rw [Ne, parametersFrom_eq_nil] at named
    simpa using named
  unfold bindNamed
  rw [split]
  change (if (segments found).any Segment.isParameter = true then _ else _) = _
  rw [if_pos present]
  cases Arguments.build Γ param with
  | error error => rfl
  | ok arguments =>
      change (expandSegments arguments (segments found)).bind _ =
        (expandSegments arguments (segments found)).bind _
      congr 1

/-- What binding a record or a map comes to: errors of the query come first, then those of the
    parameter, then a name without an argument; otherwise every span is replaced by what stands for
    its argument, and the text is written for the dialect. -/
theorem bind_of_spans (bindable : param.isBindable Γ) :
    (∀ error, namedParameters query = .error error →
      bind Γ query dialect [param] = .error error) ∧
    ∀ tokens, namedParameters query = .ok tokens → tokens ≠ [] →
      (tokens.Pairwise (fun left right => left.stop ≤ right.start) ∧
        ∀ token ∈ tokens, token.start < token.stop ∧ token.stop ≤ (Utf8.encode query).length) ∧
      (∀ error, Arguments.build Γ param = .error error →
        bind Γ query dialect [param] = .error error) ∧
      ∀ arguments, Arguments.build Γ param = .ok arguments →
        (∀ token, tokens.find? (fun token => (arguments.get? token.name).isNone) = some token →
          bind Γ query dialect [param] = .error (.missingValue token.name)) ∧
        (tokens.find? (fun token => (arguments.get? token.name).isNone) = none →
          ∃ (found : List Param) (expanded : String),
            tokens.map (fun token => arguments.get? token.name) = found.map some ∧
            Utf8.encode expanded = replaceSpans (Utf8.encode query) 0
              (tokens.zip (found.map Param.standIn)) ∧
            bind Γ query dialect [param] =
              (markPlaceholders expanded dialect).map (⟨·, found.flatMap Param.contributed⟩)) := by
  rw [bind_of_isBindable bindable]
  unfold namedParameters
  cases split : piecesOf query.toList with
  | error error =>
      simp only [Except.map, Except.error.injEq, reduceCtorEq, false_implies, implies_true, and_true]
      rintro _ rfl
      simp [bindNamed, split]
      rfl
  | ok pieces =>
      simp only [Except.map, Except.ok.injEq, reduceCtorEq, false_implies, implies_true, true_and]
      rintro _ rfl named
      have whole : (segments pieces).flatMap Segment.text = query.toList := by
        rw [segments_text, (piecesOf_iff.1 split).text]
      rw [bindNamed_of_segments split named]
      refine ⟨?_, ?_, ?_⟩
      · obtain ⟨ordered, inside⟩ := parametersFrom_ordered 0 (segments pieces)
        refine ⟨ordered, fun token member => ?_⟩
        have bounds := inside token member
        rw [whole, Nat.zero_add, ← Utf8.length_encodeChars] at bounds
        exact bounds.2
      · rintro error failed
        simp [failed, Except.bind]
      · rintro arguments built
        constructor
        · intro token first
          simp [built, Except.bind, expandSegments_missing first]
        · intro all
          obtain ⟨found, known⟩ := exists_found all
          have enough := congrArg List.length known
          rw [List.length_map, List.length_map, ← List.length_map Param.standIn] at enough
          have replaced := replaceSpans_segments [] [] enough
          refine ⟨found, String.ofList (piecesText (replacePieces (segments pieces)
            (found.map Param.standIn))), known, ?_, ?_⟩
          · simpa [Utf8.encode, whole, Utf8.size] using replaced.symm
          · simp only [built, Except.bind, expandSegments_known known, markPlaceholders,
              String.toList_ofList]
            cases markText dialect _ <;> rfl

theorem bind_of_three_spans :
    let x : Param := .datum (.int .w64) (.whole 9)
    let ids : Param := .array (.int .w64) [.whole 1, .whole 2]
    let none : Param := .array .text []
    let param : Param := .map .ordered [("x", x), ("ids", ids), ("none", none)]
    param.isBindable {} ∧
      bind {} "a=:X AND b IN (:ids) AND c IN (:none) AND ':x'=:x" .dollar [param] =
        .ok ⟨"a=$1 AND b IN ($2,$3) AND c IN (NULL) AND ':x'=$4",
          [x, .datum (.int .w64) (.whole 1), .datum (.int .w64) (.whole 2), x]⟩ := by
  intro x ids none param
  have bindable : param.isBindable {} := by decide
  have tokens : namedParameters "a=:X AND b IN (:ids) AND c IN (:none) AND ':x'=:x" =
      .ok [⟨"X", 2, 4⟩, ⟨"ids", 15, 19⟩, ⟨"none", 31, 36⟩, ⟨"x", 47, 49⟩] := by cbv
  have built : Arguments.build {} param = .ok ⟨[("x", x), ("ids", ids), ("none", none)]⟩ := by cbv
  have known : [⟨"X", 2, 4⟩, ⟨"ids", 15, 19⟩, ⟨"none", 31, 36⟩, ⟨"x", 47, 49⟩].map
      (fun token : NamedParameter =>
        (Arguments.mk [("x", x), ("ids", ids), ("none", none)]).get? token.name) =
      [x, ids, none, x].map some := by cbv
  obtain ⟨found, expanded, known', bytes, bound⟩ :=
    (((bind_of_spans bindable).2 _ tokens (by simp)).2.2 _ built).2 (by cbv)
  obtain rfl : [x, ids, none, x] = found :=
    List.map_injective_iff.2 (Option.some_injective _) (known.symm.trans known')
  obtain rfl : expanded = "a=? AND b IN (?,?) AND c IN (NULL) AND ':x'=?" :=
    Utf8.encode_injective (bytes.trans (by cbv))
  refine ⟨bindable, bound.trans ?_⟩
  have marked : markPlaceholders "a=? AND b IN (?,?) AND c IN (NULL) AND ':x'=?" .dollar =
      .ok "a=$1 AND b IN ($2,$3) AND c IN (NULL) AND ':x'=$4" := by cbv
  rw [marked]
  rfl

end Statement

end SqlMarshal
