import SqlMarshal.Proofs.Bind.BoundLeaves
import SqlMarshal.Proofs.Row.FirstLeaves
import SqlMarshal.Proofs.Row.OnePass

/-! # Labels that find their fields

A field is found under a label that has its name in letters of any case, plain or in one pair of
quotes. The names of fields are only folded, though, and labels also lose a pair of quotes. So a name
that itself stands in quotes is not found under the plain label that is spelled like it, and only
under one that has a further pair of quotes around it.
-/

namespace SqlMarshal

variable {Γ : Catalogue}

/-! ## Labels of a name -/

/-- What may stand around the name in a label. -/
inductive LabelQuotes where
  | plain | double | backtick | brackets
  deriving DecidableEq, Repr

namespace LabelQuotes

/-- The characters in front and behind. -/
def pair? : LabelQuotes → Option (Char × Char)
  | .plain => none
  | .double => some ('\x22', '\x22')
  | .backtick => some ('\x60', '\x60')
  | .brackets => some ('[', ']')

def around (quotes : LabelQuotes) (text : List Char) : List Char :=
  match quotes.pair? with
  | none => text
  | some (front, behind) => front :: (text ++ [behind])

end LabelQuotes

/-- The text stands in a pair of quotes. -/
def InQuotes (text : List Char) : Prop :=
  ∃ quotes inner, quotes ≠ LabelQuotes.plain ∧ text = quotes.around inner

/-- Two texts differ at most in the case of ASCII letters. -/
def SameButCase (left right : List Char) : Prop :=
  List.Forall₂ (fun c d => d = c ∨ d = c.toLower ∨ d = c.toUpper) left right

section Labels

variable {quotes : LabelQuotes} {text name label : List Char}

theorem SameButCase.map_toLower (same : SameButCase name label) :
    label.map Char.toLower = name.map Char.toLower := by
  induction same with
  | nil => rfl
  | cons here _ ih =>
      rw [List.map_cons, List.map_cons, ih]
      rcases here with rfl | rfl | rfl <;> simp

theorem exists_pair? (quoted : quotes ≠ .plain) :
    ∃ front behind, quotes.pair? = some (front, behind) ∧ closingQuote? front = some behind := by
  cases quotes with
  | plain => exact absurd rfl quoted
  | _ => exact ⟨_, _, rfl, rfl⟩

theorem exists_pair?_of_closingQuote? {front behind : Char}
    (closes : closingQuote? front = some behind) :
    ∃ quotes : LabelQuotes, quotes.pair? = some (front, behind) := by
  unfold closingQuote? at closes
  split at closes
  · exact ⟨.double, by rw [← Option.some.inj closes]; rfl⟩
  · exact ⟨.backtick, by rw [← Option.some.inj closes]; rfl⟩
  · exact ⟨.brackets, by rw [← Option.some.inj closes]; rfl⟩
  · simp at closes

theorem unquoteLabel_around (quoted : quotes ≠ .plain) :
    unquoteLabel (quotes.around text) = text := by
  obtain ⟨front, behind, pair, closes⟩ := exists_pair? quoted
  simp [LabelQuotes.around, pair, unquoteLabel, closes]

theorem unquoteLabel_of_not_inQuotes (bare : ¬ InQuotes text) : unquoteLabel text = text := by
  cases text with
  | nil => rfl
  | cons first rest =>
      rw [unquoteLabel, if_neg]
      rintro ⟨some, closes⟩
      cases ending : rest.getLast? with
      | none => exact some (List.getLast?_eq_none_iff.1 ending)
      | some behind =>
          rw [ending] at closes
          obtain ⟨quotes, pair⟩ := exists_pair?_of_closingQuote? closes
          obtain ⟨inner, rfl⟩ := List.getLast?_eq_some_iff.1 ending
          refine bare ⟨quotes, inner, ?_, by simp [LabelQuotes.around, pair]⟩
          rintro rfl
          simp [LabelQuotes.pair?] at pair

theorem length_unquoteLabel (quoted : InQuotes text) :
    (unquoteLabel text).length + 2 = text.length := by
  obtain ⟨quotes, inner, some, rfl⟩ := quoted
  obtain ⟨front, behind, pair, -⟩ := exists_pair? some
  rw [unquoteLabel_around some]
  simp [LabelQuotes.around, pair]

/-- A label of a name is its folded name, unless the label is plain and the name stands in
    quotes. -/
theorem normalizeLabel_around_iff (same : SameButCase name label) :
    normalizeLabel (String.ofList (quotes.around label)) = lowerAscii (String.ofList name) ↔
      (quotes = .plain → ¬ InQuotes name) := by
  simp only [normalizeLabel, lowerAscii, String.toList_ofList, String.ofList_inj]
  by_cases plain : quotes = .plain
  · subst plain
    -- Folding and unquoting can be exchanged, so the label may as well be spelled like the name.
    have spelled :
        (unquoteLabel label).map Char.toLower = (unquoteLabel name).map Char.toLower := by
      rw [← unquoteLabel_toLower, same.map_toLower, unquoteLabel_toLower]
    change (unquoteLabel label).map Char.toLower = _ ↔ _
    rw [spelled]
    constructor
    · intro kept _ quoted
      have shorter := length_unquoteLabel quoted
      have sameLength := congrArg List.length kept
      simp only [List.length_map] at sameLength
      omega
    · intro bare
      rw [unquoteLabel_of_not_inQuotes (bare rfl)]
  · rw [unquoteLabel_around plain, same.map_toLower]
    simp [plain]

end Labels

/-! ## Names of a table -/

theorem Field.role_leaf_iff {field : Field} {name : String} :
    field.role Γ = .leaf name ↔ field.MatchedBy Γ name := by
  rcases role_cases Γ field with ⟨taken, role⟩ | ⟨name', matched, role⟩ | ⟨-, unnamed, role⟩
  · exact iff_of_false (by simp [role]) fun matched => matched.2.1 taken
  · rw [role, FieldRole.leaf.injEq]
    constructor
    · rintro rfl
      exact matched
    · exact matched.unique
  · exact iff_of_false (by simp [role]) (unnamed name)

theorem Ty.FieldAt.ne_nil {ty : Ty} {path : Path} {field : Field}
    (leads : ty.FieldAt Γ path field) :
    path ≠ [] := by
  cases leads <;> simp

theorem Ty.FieldAt.unique {ty : Ty} {path : Path} {left right : Field}
    (leads : ty.FieldAt Γ path left) (again : ty.FieldAt Γ path right) : left = right := by
  induction leads with
  | here declares =>
      cases again with
      | here declares' => exact declares.unique declares'
      | inside _ _ below => exact absurd rfl below.ne_nil
  | inside declares _ below ih =>
      cases again with
      | here => exact absurd rfl below.ne_nil
      | inside declares' _ below' =>
          obtain rfl := declares.unique declares'
          exact ih below'

theorem Ty.declares_tail {ty : Ty} {position : Nat} {field : Field} {rest : List Field}
    (declared : ∀ index other, (field :: rest)[index]? = some other →
      ty.Declares Γ (position + index) other) :
    ∀ index other, rest[index]? = some other → ty.Declares Γ (position + 1 + index) other := by
  intro index other at_index
  have later := declared (index + 1) other at_index
  rwa [Nat.add_comm index, ← Nat.add_assoc] at later

theorem Walk.named {ty : Ty} {above : Path} {position : Nat} {fields : List Field}
    {leaves : List Leaf} (walk : Walk Γ above position fields leaves)
    (declared : ∀ index field, fields[index]? = some field →
      ty.Declares Γ (position + index) field) :
    ∀ leaf ∈ leaves, ∃ inner field, leaf.path = above ++ inner ∧ ty.FieldAt Γ inner field ∧
      field.role Γ = .leaf leaf.name := by
  induction walk generalizing ty with
  | done => simp
  | @down above position field rest inner own others taken record _ _ ihInner ihRest =>
      intro leaf member
      rcases List.mem_append.1 member with mine | other
      · have declaredInside : ∀ index other, inner[index]? = some other →
            field.type.Declares Γ (0 + index) other :=
          fun index other at_index => ⟨inner, record, by simpa using at_index⟩
        obtain ⟨path, target, placed, leads, role⟩ := ihInner declaredInside leaf mine
        refine ⟨position :: path, target, by simpa using placed, ?_, role⟩
        exact .inside (declared 0 field rfl) (Field.role_flattened_iff.2 taken) leads
      · exact ihRest (Ty.declares_tail declared) leaf other
  | @leaf above position field rest name others matched _ ih =>
      intro leaf member
      rcases List.mem_cons.1 member with rfl | other
      · exact ⟨[position], field, rfl, .here (declared 0 field rfl), Field.role_leaf_iff.2 matched⟩
      · exact ih (Ty.declares_tail declared) leaf other
  | past _ _ _ ih => exact ih (Ty.declares_tail declared)

namespace FieldTable

variable {ty : Ty} {depth : Nat} {table : FieldTable} {name : String} {path : Path}

theorem isRecord_of_get? (built : build Γ ty depth = .ok table)
    (found : table.get? name = some path) : ty.isRecord Γ := by
  obtain ⟨_, _, _, -, ⟨fields, record, -⟩, -⟩ := (leafAt_of_get? built found).first
  simp [Ty.isRecord, record]

theorem fieldAt_of_get? (built : build Γ ty depth = .ok table)
    (found : table.get? name = some path) :
    ∃ field, ty.FieldAt Γ path field ∧ field.role Γ = .leaf name := by
  have record := isRecord_of_get? built found
  obtain ⟨fields, seen⟩ := Option.isSome_iff_exists.1 record
  obtain ⟨leaves, among, rfl⟩ := leaves_of_build record built
  have walk := Walk.of_leavesWithin _ _ _ _ _ among
  rw [seen, Option.getD_some] at walk
  obtain ⟨leaf, first, rfl⟩ :=
    Option.map_eq_some_iff.1 ((get?_ofLeaves leaves name).symm.trans found)
  have declared : ∀ index field, fields[index]? = some field → ty.Declares Γ (0 + index) field :=
    fun index field at_index => ⟨fields, seen, by simpa using at_index⟩
  obtain ⟨inner, field, placed, leads, role⟩ :=
    walk.named declared leaf (List.mem_of_find?_eq_some first)
  obtain rfl : leaf.name = name := by simpa using List.find?_some first
  exact ⟨field, by rwa [placed], role⟩

end FieldTable

/-! ## Columns of a plan -/

/-- The value of the column goes to the field at a path, at once or through a stage. -/
def Step.Fills (path : Path) (step : Step) : Prop :=
  step = .direct path ∨ ∃ conversion, step = .staged path conversion

/-- A column goes to the field that its name leads to, and to no other. -/
theorem FieldTable.stepFor_fills_iff {ty : Ty} {depth : Nat} {table : FieldTable} {name : String}
    {path : Path} (built : build Γ ty depth = .ok table) :
    (table.stepFor Γ ty name).Fills path ↔ table.get? name = some path := by
  constructor
  · intro fills
    have writes : path ∈ (table.stepFor Γ ty name).path? := by
      rcases fills with direct | ⟨conversion, staged⟩
      · rw [direct]
        rfl
      · rw [staged]
        rfl
    exact path?_stepFor writes
  · intro found
    obtain ⟨field, reached⟩ := at?_of_get? built found
    simp only [stepFor, found, Plan.stepTo, reached]
    split
    · exact .inl rfl
    · exact .inr ⟨_, rfl⟩

namespace Reader

/-- A field of a record that has its name in the table is filled from every column whose label is
    that name, in letters of any case and in quotes or not; only the plain label of a name in quotes
    does not lead to it. -/
theorem label_fills_iff {config : Config} {reader : Reader} {ty : Ty} {table : FieldTable}
    {path : Path} {field : Field} {key : String} (used : Used Γ config.reader reader)
    (tabled : (reader.fieldTable Γ ty).1 = .ok table) (leads : ty.FieldAt Γ path field)
    (registered : table.get? key = some path) (quotes : LabelQuotes) {label : List Char}
    (same : SameButCase field.effectiveName.toList label) {labels : List String} {column : Nat}
    (labelled : labels[column]? = some (String.ofList (quotes.around label))) :
    ∃ plan step, (reader.plan Γ ty labels).1 = .ok plan ∧ plan.steps[column]? = some step ∧
      (step.Fills path ↔ (quotes = .plain → ¬ InQuotes field.effectiveName.toList)) := by
  have sound := used_sound (sound_new config.maxDepth.toNat) used
  have built := (fieldTable_sound sound ty).1.symm.trans tabled
  have record := FieldTable.isRecord_of_get? built registered
  -- The name in the table is the folded name of the field.
  obtain ⟨field', leads', role⟩ := FieldTable.fieldAt_of_get? built registered
  obtain rfl := leads.unique leads'
  obtain rfl := Field.name_of_leaf role
  have some : (Columns.ofLabels labels).names ≠ [] := by
    rintro none
    obtain rfl : labels = [] := by simpa [Columns.ofLabels] using none
    simp at labelled
  have planned := (plan_sound sound ty labels).1.trans (Plan.anew_of_table record built some)
  let name := normalizeLabel (String.ofList (quotes.around label))
  refine ⟨_, table.stepFor Γ ty name, planned, ?_, ?_⟩
  · simp only [Plan.ofRecord, Columns.ofLabels, List.getElem?_map, labelled, Option.map_some]
    rfl
  · rw [FieldTable.stepFor_fills_iff built, ← normalizeLabel_around_iff same, String.ofList_toList]
    constructor
    · intro found
      by_contra different
      exact (FieldTable.apart_of_get? built different found registered).ne rfl
    · intro equal
      rwa [show name = _ from equal]

/-- The name stands in brackets itself, and the label has another pair of them. -/
theorem label_fills_entry :
    let Γ : Catalogue := { records := [
      ("account", [⟨"Id", .int .w64, "", true, false⟩,
        ⟨"entry", .optional (.record "entry"), "", false, true⟩]),
      ("entry", [⟨"By", .text, "[Made By]", true, false⟩])] }
    let read := ({} : Config).reader.plan Γ (.record "account") ["id", "[[mADE bY]]"]
    ∃ plan step, read.1 = .ok plan ∧ plan.steps[1]? = some step ∧ step.Fills [1, 0] := by
  intro Γ read
  let table : FieldTable := ⟨[("id", [0]), ("[made by]", [1, 0])]⟩
  have tabled : (({} : Config).reader.fieldTable Γ (.record "account")).1 = .ok table := rfl
  let entry : Field := ⟨"entry", .optional (.record "entry"), "", false, true⟩
  let author : Field := ⟨"By", .text, "[Made By]", true, false⟩
  have embeds : (Ty.record "account").Declares Γ 1 entry := ⟨_, rfl, rfl⟩
  have leads : (Ty.record "account").FieldAt Γ [1, 0] author :=
    .inside embeds (by decide) (.here ⟨_, rfl, rfl⟩)
  have registered : table.get? "[made by]" = some [1, 0] := rfl
  have same : SameButCase author.effectiveName.toList "[mADE bY]".toList := by
    have named : author.effectiveName = "[Made By]" := by decide
    simp [named, SameButCase]
  have labelled : ["id", "[[mADE bY]]"][1]? =
      some (String.ofList (LabelQuotes.brackets.around "[mADE bY]".toList)) := rfl
  obtain ⟨plan, step, planned, at_column, fills⟩ :=
    label_fills_iff .refl tabled leads registered .brackets same labelled
  exact ⟨plan, step, planned, at_column, fills.2 (by simp)⟩

/-- The plain label that is spelled like a name in quotes is dropped, though the table has the
    field. -/
theorem plain_label_dropped :
    let Γ : Catalogue := { records := [("account", [⟨"Id", .int .w64, "\"No\"", true, false⟩])] }
    let ty : Ty := .record "account"
    let reader := ({} : Config).reader
    ∃ field table plan, ty.FieldAt Γ [0] field ∧ field.effectiveName = "\"No\"" ∧
      (reader.fieldTable Γ ty).1 = .ok table ∧ table.get? "\"no\"" = some [0] ∧
      (reader.plan Γ ty ["\"No\""]).1 = .ok plan ∧ plan.steps = [.drop] :=
  ⟨_, ⟨[("\"no\"", [0])]⟩, _, .here ⟨_, rfl, rfl⟩, by decide, rfl, rfl, rfl, rfl⟩

end Reader

end SqlMarshal
