import Mathlib.Data.List.TakeWhile
import SqlMarshal.Query.Region

/-! # Regions do not look far

Whether a region opens, and where it ends, is decided by the region itself and the one character
behind it. So what stands behind a region or a bare character can be changed without any effect on it,
as long as the new text does not begin with one of a few characters. A bare dollar alone looks
further: over a whole word to the next dollar.
-/

namespace SqlMarshal.Region

/-- The quotes that open and close regions. -/
abbrev quotes : List Char := ['\x27', '\x22', '\x60']

/-- The characters that regions begin with. -/
abbrev openers : List Char := '-' :: '/' :: '$' :: quotes

/-- A text can stand behind a region or a bare character in place of another one. -/
structure StandsFor (behind' behind : List Char) : Prop where
  ends : behind = [] → behind' = []
  begins : ∀ c, behind'.head? = some c → behind.head? = some c ∨ c ∉ '-' :: '*' :: quotes

/-- A region with what is behind it, by the form of the region. -/
inductive Ends : (inside behind : List Char) → Prop where
  | quoted {quote : Char} {body behind : List Char} :
      quote ∈ quotes → closeQuote? quote (body ++ behind) = some (body, behind) →
        Ends (quote :: body) behind
  | line {body behind : List Char} :
      closeLine (body ++ behind) = (body, behind) → Ends ('-' :: '-' :: body) behind
  | block {body behind : List Char} :
      closeMark? ['*', '/'] (body ++ behind) = some (body, behind) → Ends ('/' :: '*' :: body) behind
  | dollar {word body behind : List Char} :
      (∀ c ∈ word, isWordChar c) → word.head?.any Char.isDigit = false →
        closeMark? ('$' :: word ++ ['$']) (body ++ behind) = some (body, behind) →
          Ends ('$' :: word ++ '$' :: body) behind

/-- A character with what is behind it at which no region opens. -/
structure Plain (c : Char) (behind : List Char) : Prop where
  noQuote : c ∉ quotes
  noLine : c = '-' → behind.head? ≠ some '-'
  noBlock : c = '/' → behind.head? ≠ some '*'
  noDollar : c = '$' → dollarMarker? behind = none

/-! ## Cutting by form -/

theorem dollarMarker?_eq_some {rest marker : List Char} (marked : dollarMarker? rest = some marker) :
    ∃ word body, rest = word ++ '$' :: body ∧ marker = '$' :: word ++ ['$'] ∧
      (∀ c ∈ word, isWordChar c) ∧ word.head?.any Char.isDigit = false := by
  simp only [dollarMarker?] at marked
  split at marked
  · rename_i body behind
    split at marked
    · simp at marked
    · rename_i noDigit
      refine ⟨rest.takeWhile isWordChar, body, ?_, (Option.some.inj marked).symm, ?_,
        by simpa using noDigit⟩
      · rw [← behind, List.takeWhile_append_dropWhile]
      · intro c member
        exact (List.mem_takeWhile_imp member)
  · simp at marked

theorem not_isWordChar_dollar : isWordChar '$' = false := by decide

theorem dollarMarker?_of_word {word : List Char} (body : List Char)
    (isWord : ∀ c ∈ word, isWordChar c)
    (noDigit : word.head?.any Char.isDigit = false) :
    dollarMarker? (word ++ '$' :: body) = some ('$' :: word ++ ['$']) := by
  have taken : (word ++ '$' :: body).takeWhile isWordChar = word := by
    rw [List.takeWhile_append_of_pos isWord]
    simp [not_isWordChar_dollar]
  have dropped : (word ++ '$' :: body).dropWhile isWordChar = '$' :: body := by
    rw [List.dropWhile_append_of_pos isWord]
    simp [not_isWordChar_dollar]
  simp only [dollarMarker?, taken, dropped, noDigit]
  rfl

theorem ends_of_closeQuote? {quote : Char} {rest : List Char} {cut : Cut}
    (isQuote : quote ∈ quotes) (closed : closeQuote? quote rest = some cut) :
    Ends (quote :: cut.1) cut.2 :=
  .quoted isQuote (by rw [(closeQuote?_split closed).1, closed])

theorem ends_of_closeLine (rest : List Char) :
    Ends ('-' :: '-' :: (closeLine rest).1) (closeLine rest).2 :=
  .line (by rw [closeLine_split])

theorem ends_of_comment {rest : List Char} {cut : Cut}
    (closed : closeMark? ['*', '/'] rest = some cut) : Ends ('/' :: '*' :: cut.1) cut.2 :=
  .block (by rw [closeMark?_split closed, closed])

theorem ends_of_dollar {rest marker : List Char} {cut : Cut}
    (marked : dollarMarker? rest = some marker)
    (closed : closeMark? marker (rest.drop (marker.length - 1)) = some cut) :
    Ends (marker ++ cut.1) cut.2 := by
  obtain ⟨word, body, rfl, rfl, isWord, noDigit⟩ := dollarMarker?_eq_some marked
  have dropped : (word ++ '$' :: body).drop (('$' :: word ++ ['$']).length - 1) = body := by simp
  rw [dropped] at closed
  have ends : Ends ('$' :: word ++ '$' :: cut.1) cut.2 :=
    .dollar isWord noDigit (by rw [closeMark?_split closed, closed])
  simpa using ends

theorem ends_of_cut? {text : List Char} {cut : Cut} (opens : cut? text = .ok (some cut)) :
    Ends cut.1 cut.2 := by
  unfold cut? at opens
  split at opens
  iterate 3
    split at opens
    · rename_i closed
      obtain rfl := Option.some.inj (Except.ok.inj opens)
      exact ends_of_closeQuote? (by decide) closed
    · simp at opens
  · obtain rfl := Option.some.inj (Except.ok.inj opens)
    exact ends_of_closeLine _
  · split at opens
    · rename_i closed
      obtain rfl := Option.some.inj (Except.ok.inj opens)
      exact ends_of_comment closed
    · simp at opens
  · split at opens
    · simp at opens
    · rename_i marked
      split at opens
      · rename_i closed
        obtain rfl := Option.some.inj (Except.ok.inj opens)
        exact ends_of_dollar marked closed
      · simp at opens
  · simp at opens

theorem cut?_of_ends {inside behind : List Char} (ends : Ends inside behind) :
    cut? (inside ++ behind) = .ok (some (inside, behind)) := by
  cases ends with
  | quoted isQuote closed =>
      simp only [quotes, List.mem_cons, List.not_mem_nil, or_false] at isQuote
      rcases isQuote with rfl | rfl | rfl <;> simp [cut?, closed, Cut.cons]
  | line closed => simp [cut?, closed, Cut.prepend]
  | block closed => simp [cut?, closed, Cut.prepend]
  | @dollar word body _ isWord noDigit closed =>
      have marked := dollarMarker?_of_word (body ++ behind) isWord noDigit
      simp only [List.cons_append, List.append_assoc, cut?]
      simp only [List.cons_append] at marked closed
      simp [marked, closed, Cut.prepend]

theorem plain_of_cut? {c : Char} {behind : List Char} (none : cut? (c :: behind) = .ok none) :
    Plain c behind := by
  refine ⟨?_, ?_, ?_, ?_⟩
  · intro isQuote
    simp only [quotes, List.mem_cons, List.not_mem_nil, or_false] at isQuote
    rcases isQuote with rfl | rfl | rfl <;> simp only [cut?] at none <;> split at none <;>
      simp at none
  · rintro rfl next
    obtain ⟨rest, rfl⟩ := List.head?_eq_some_iff.1 next
    simp [cut?] at none
  · rintro rfl next
    obtain ⟨rest, rfl⟩ := List.head?_eq_some_iff.1 next
    simp only [cut?] at none
    split at none <;> simp at none
  · rintro rfl
    simp only [cut?] at none
    split at none
    · assumption
    · split at none <;> simp at none

theorem cut?_of_plain {c : Char} {behind : List Char} (plain : Plain c behind) :
    cut? (c :: behind) = .ok none := by
  obtain ⟨noQuote, noLine, noBlock, noDollar⟩ := plain
  unfold cut?
  split
  iterate 3
    rename_i same
    simp [(List.cons.inj same).1] at noQuote
  · rename_i same
    obtain ⟨rfl, rfl⟩ := List.cons.inj same
    exact absurd rfl (noLine rfl)
  · rename_i same
    obtain ⟨rfl, rfl⟩ := List.cons.inj same
    exact absurd rfl (noBlock rfl)
  · rename_i same
    obtain ⟨rfl, rfl⟩ := List.cons.inj same
    simp [noDollar rfl]
  · rfl

/-! ## Changing what stands behind -/

theorem closeQuote?_behind {quote : Char} {body behind behind' : List Char}
    (next : behind'.head? = some quote → behind.head? = some quote)
    (closed : closeQuote? quote (body ++ behind) = some (body, behind)) :
    closeQuote? quote (body ++ behind') = some (body, behind') := by
  generalize whole : body ++ behind = text at closed
  fun_induction closeQuote? quote text generalizing body with
  | case1 => simp at closed
  | case2 =>
      obtain ⟨rfl, rfl⟩ := Prod.mk.inj (Option.some.inj closed)
      cases behind' with
      | nil => simp [closeQuote?]
      | cons d rest =>
          have other : d ≠ quote := by
            rintro rfl
            simp at next
          simp [closeQuote?, other]
  | case3 => simp at closed
  | case4 rest ih =>
      obtain ⟨⟨inner, after⟩, tail, same⟩ := Option.map_eq_some_iff.1 closed
      obtain ⟨rfl, rfl⟩ := Prod.mk.inj same
      have shorter := ih (closeQuote?_split tail).1 tail
      simp [closeQuote?, shorter, Cut.cons]
  | case5 d rest other =>
      obtain ⟨rfl, rfl⟩ := Prod.mk.inj (Option.some.inj closed)
      cases behind' with
      | nil => simp [closeQuote?]
      | cons e rest' =>
          have other' : e ≠ quote := by
            rintro rfl
            simp [other] at next
          simp [closeQuote?, other']
  | case6 c d rest other ih =>
      obtain ⟨⟨inner, after⟩, tail, same⟩ := Option.map_eq_some_iff.1 closed
      obtain ⟨rfl, rfl⟩ := Prod.mk.inj same
      obtain ⟨whole', solid⟩ := closeQuote?_split tail
      have shorter := ih whole' tail
      obtain ⟨e, inner, rfl⟩ := List.exists_cons_of_ne_nil solid
      simp only [List.cons_append] at shorter ⊢
      rw [closeQuote?, if_neg other, shorter]
      rfl

theorem closeLine_behind {body behind behind' : List Char} (ends : behind = [] → behind' = [])
    (closed : closeLine (body ++ behind) = (body, behind)) :
    closeLine (body ++ behind') = (body, behind') := by
  induction body with
  | nil =>
      cases behind with
      | nil => simp [ends rfl, closeLine]
      | cons c rest =>
          simp only [List.nil_append, closeLine] at closed
          split at closed <;> simp [Cut.cons] at closed
  | cons c rest ih =>
      simp only [List.cons_append, closeLine] at closed ⊢
      split at closed
      · rename_i newline
        simp only [Prod.mk.injEq, List.cons.injEq, true_and] at closed
        obtain ⟨rfl, -⟩ := closed
        simp [newline]
      · rename_i other
        obtain ⟨first, second⟩ := Prod.mk.inj closed
        have shorter := ih (Prod.ext (List.cons.inj first).2 second)
        simp [other, shorter, Cut.cons]

theorem length_le_of_closeMark? {mark text : List Char} {cut : Cut}
    (closed : closeMark? mark text = some cut) : mark.length ≤ cut.1.length := by
  fun_induction closeMark? mark text generalizing cut with
  | case1 => simp_all
  | case2 => simp at closed
  | case3 =>
      obtain rfl := Option.some.inj closed
      simp
  | case4 c rest other ih =>
      obtain ⟨inner, tail, rfl⟩ := Option.map_eq_some_iff.1 closed
      have shorter := ih tail
      simp only [Cut.cons, List.length_cons]
      omega

theorem closeMark?_behind {mark body behind : List Char} (behind' : List Char) (solid : mark ≠ [])
    (closed : closeMark? mark (body ++ behind) = some (body, behind)) :
    closeMark? mark (body ++ behind') = some (body, behind') := by
  have long := length_le_of_closeMark? closed
  induction body with
  | nil =>
      exact absurd (List.length_eq_zero_iff.1 (Nat.le_zero.1 long)) solid
  | cons c rest ih =>
      simp only [List.cons_append, closeMark?] at closed ⊢
      have within : ∀ tail, mark.isPrefixOf (c :: (rest ++ tail)) = mark.isPrefixOf (c :: rest) := by
        intro tail
        rw [Bool.eq_iff_iff, List.isPrefixOf_iff_prefix, List.isPrefixOf_iff_prefix]
        constructor
        · intro front
          exact List.prefix_of_prefix_length_le front (List.prefix_append (c :: rest) tail) long
        · intro front
          exact front.trans (List.prefix_append (c :: rest) tail)
      rw [within] at closed ⊢
      split at closed
      · rename_i here
        obtain ⟨rfl, -⟩ := Prod.mk.inj (Option.some.inj closed)
        simp [here]
      · rename_i later
        obtain ⟨⟨inner, after⟩, tail, same⟩ := Option.map_eq_some_iff.1 closed
        obtain ⟨⟨-, rfl⟩, rfl⟩ : (c = c ∧ inner = rest) ∧ after = behind := by
          simpa [Cut.cons] using same
        simp [later, ih tail (length_le_of_closeMark? tail), Cut.cons]

theorem Ends.behind {inside behind behind' : List Char} (ends : Ends inside behind)
    (stands : StandsFor behind' behind) : Ends inside behind' := by
  cases ends with
  | quoted isQuote closed =>
      refine .quoted isQuote (closeQuote?_behind (fun next => ?_) closed)
      rcases stands.begins _ next with same | other
      · exact same
      · exact absurd (List.mem_cons_of_mem _ (List.mem_cons_of_mem _ isQuote)) other
  | line closed => exact .line (closeLine_behind stands.ends closed)
  | block closed => exact .block (closeMark?_behind behind' (by simp) closed)
  | dollar isWord noDigit closed =>
      exact .dollar isWord noDigit (closeMark?_behind behind' (by simp) closed)

/-- At a bare character no region opens either when something else stands behind it; behind a
    dollar there must be no marker then. -/
theorem Plain.behind {c : Char} {behind behind' : List Char} (plain : Plain c behind)
    (stands : StandsFor behind' behind) (noDollar : c = '$' → dollarMarker? behind' = none) :
    Plain c behind' where
  noQuote := plain.noQuote
  noLine same next := (stands.begins _ next).elim (plain.noLine same) (by simp)
  noBlock same next := (stands.begins _ next).elim (plain.noBlock same) (by simp)
  noDollar := noDollar

/-! ## Where regions begin -/

theorem Ends.two_characters {inside behind : List Char} (ends : Ends inside behind) :
    ∃ c d rest, inside = c :: d :: rest ∧ c ∈ openers := by
  cases ends with
  | @quoted quote body _ isQuote closed =>
      obtain ⟨d, rest, rfl⟩ := List.exists_cons_of_ne_nil (closeQuote?_split closed).2
      exact ⟨quote, d, rest, rfl, List.mem_append_right ['-', '/', '$'] isQuote⟩
  | line => exact ⟨_, _, _, rfl, by simp⟩
  | block => exact ⟨_, _, _, rfl, by simp⟩
  | @dollar word body _ =>
      cases word with
      | nil => exact ⟨_, _, _, rfl, by simp⟩
      | cons d word => exact ⟨_, _, _, rfl, by simp⟩

theorem isWordChar_opener {c : Char} (opens : c ∈ openers) : isWordChar c = false := by
  simp only [openers, quotes, List.mem_cons, List.not_mem_nil, or_false] at opens
  rcases opens with rfl | rfl | rfl | rfl | rfl | rfl <;> decide

theorem plain_of_noOpener {c : Char} (behind : List Char) (ordinary : c ∉ openers) :
    Plain c behind := by
  obtain ⟨noDash, noSlash, noDollar, noQuote⟩ : c ≠ '-' ∧ c ≠ '/' ∧ c ≠ '$' ∧ c ∉ quotes := by
    simpa only [openers, List.mem_cons, not_or] using ordinary
  exact ⟨noQuote, fun same => absurd same noDash, fun same => absurd same noSlash,
    fun same => absurd same noDollar⟩

end SqlMarshal.Region
