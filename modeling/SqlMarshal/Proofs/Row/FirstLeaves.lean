import SqlMarshal.Proofs.Row.LeafPaths

/-! # The first of the leaves has the name

The table of a record can be told without limits and without looking out for recursion, once it is
there. One goes through the fields depth first, in the order of declaration, and down into the records
that are taken in; there is only one way to do so. On the way one comes by the leaves, each with a name
and a path, and a name leads to the first leaf that has it. No path of the table is the beginning of
another one.
-/

namespace SqlMarshal

variable {Γ : Catalogue}

namespace Field

/-- The field is visible or anonymous, and its tag does not leave it out. -/
def TakesPart (field : Field) : Prop :=
  (field.exported ∨ field.embedded) ∧ field.tag ≠ "-"

/-- In place of the field take part the fields of the record that it holds, because its tag says
    `inline` or because it is anonymous and its tag gives no name. -/
def TakenIn (Γ : Catalogue) (field : Field) : Prop :=
  field.TakesPart ∧ field.type.isRecord Γ ∧
    let tag := FieldTag.parse field.tag
    (tag.inlined ∨ field.embedded ∧ tag.name = "")

/-- The field is matched by a name, which is that of its tag or else its own. -/
def MatchedBy (Γ : Catalogue) (field : Field) (name : String) : Prop :=
  field.TakesPart ∧ ¬ field.TakenIn Γ ∧ field.exported ∧
    let tag := FieldTag.parse field.tag
    name = lowerAscii (if tag.name = "" then field.name else tag.name)

variable {field : Field}

theorem omitted_parse (tag : String) : (FieldTag.parse tag).omitted = decide (tag = "-") := by
  by_cases dash : tag = "-" <;> simp [FieldTag.parse, dash]

theorem takesPart_iff :
    field.TakesPart ↔
      ((!field.exported && !field.embedded) || (FieldTag.parse field.tag).omitted) = false := by
  simp only [TakesPart, omitted_parse, Bool.or_eq_false_iff, Bool.and_eq_false_iff,
    Bool.not_eq_false', decide_eq_false_iff_not]

theorem takenIn_iff (part : field.TakesPart) :
    field.TakenIn Γ ↔
      (field.type.isRecord Γ && ((FieldTag.parse field.tag).inlined ||
        (field.embedded && (FieldTag.parse field.tag).name == ""))) = true := by
  simp [TakenIn, part]

theorem role_cases (Γ : Catalogue) (field : Field) :
    field.TakenIn Γ ∧ field.role Γ = .flattened ∨
      (∃ name, field.MatchedBy Γ name ∧ field.role Γ = .leaf name) ∨
      ¬ field.TakenIn Γ ∧ (∀ name, ¬ field.MatchedBy Γ name) ∧ field.role Γ = .hidden := by
  by_cases part : field.TakesPart
  · have shown := Bool.eq_false_iff.1 (takesPart_iff.1 part)
    by_cases taken : field.TakenIn Γ
    · refine .inl ⟨taken, ?_⟩
      simp only [role]
      rw [if_neg shown, if_pos ((takenIn_iff part).1 taken)]
    · have single := mt (takenIn_iff part).2 taken
      by_cases exported : field.exported
      · refine .inr (.inl ⟨_, ⟨part, taken, exported, rfl⟩, ?_⟩)
        simp only [role]
        rw [if_neg shown, if_neg single, if_pos exported]
        rfl
      · refine .inr (.inr ⟨taken, fun name matched => exported matched.2.2.1, ?_⟩)
        simp only [role]
        rw [if_neg shown, if_neg single, if_neg exported]
  · refine .inr (.inr ⟨fun taken => part taken.1, fun name matched => part matched.1, ?_⟩)
    have unseen := Bool.of_not_eq_false (mt takesPart_iff.2 part)
    simp only [role]
    rw [if_pos unseen]

theorem role_flattened_iff : field.role Γ = .flattened ↔ field.TakenIn Γ := by
  rcases role_cases Γ field with ⟨taken, role⟩ | ⟨name, matched, role⟩ | ⟨other, -, role⟩
  · simp [role, taken]
  · simp [role, matched.2.1]
  · simp [role, other]

theorem MatchedBy.unique {name name' : String} (matched : field.MatchedBy Γ name)
    (again : field.MatchedBy Γ name') : name = name' :=
  matched.2.2.2.trans again.2.2.2.symm

end Field

/-- Going through the fields of a record at a path, from the field at a position on, and down into
    the records that are taken in, one comes by some leaves. -/
inductive Walk (Γ : Catalogue) : (above : Path) → (position : Nat) → List Field → List Leaf → Prop
    where
  | done {above : Path} {position : Nat} : Walk Γ above position [] []
  | down {above : Path} {position : Nat} {field : Field} {rest inner : List Field}
      {own others : List Leaf} :
      field.TakenIn Γ → field.type.base.fields? Γ = some inner →
        Walk Γ (above ++ [position]) 0 inner own → Walk Γ above (position + 1) rest others →
          Walk Γ above position (field :: rest) (own ++ others)
  | leaf {above : Path} {position : Nat} {field : Field} {rest : List Field} {name : String}
      {others : List Leaf} :
      field.MatchedBy Γ name → Walk Γ above (position + 1) rest others →
        Walk Γ above position (field :: rest) (⟨name, above ++ [position]⟩ :: others)
  | past {above : Path} {position : Nat} {field : Field} {rest : List Field}
      {others : List Leaf} :
      ¬ field.TakenIn Γ → (∀ name, ¬ field.MatchedBy Γ name) →
        Walk Γ above (position + 1) rest others → Walk Γ above position (field :: rest) others

namespace Walk

theorem unique {above : Path} {position : Nat} {fields : List Field} {leaves leaves' : List Leaf}
    (walk : Walk Γ above position fields leaves) (again : Walk Γ above position fields leaves') :
    leaves = leaves' := by
  induction walk generalizing leaves' with
  | done =>
      cases again
      rfl
  | down taken record _ _ ihInner ihRest =>
      cases again with
      | down _ record' inner' rest' =>
          obtain rfl := Option.some.inj (record.symm.trans record')
          rw [ihInner inner', ihRest rest']
      | leaf matched' => exact absurd taken matched'.2.1
      | past other' => exact absurd taken other'
  | leaf matched _ ih =>
      cases again with
      | down taken' => exact absurd taken' matched.2.1
      | leaf matched' rest' => rw [matched.unique matched', ih rest']
      | past _ unnamed' => exact absurd matched (unnamed' _)
  | past other unnamed _ ih =>
      cases again with
      | down taken' => exact absurd taken' other
      | leaf matched' => exact absurd matched' (unnamed _)
      | past _ _ rest' => exact ih rest'

theorem of_leavesOf {descend : Ty → Path → Except RowError (List Leaf)}
    (below : ∀ ty path leaves, descend ty path = .ok leaves →
      Walk Γ path 0 ((ty.fields? Γ).getD []) leaves)
    {above : Path} {position : Nat} {fields : List Field} {leaves : List Leaf}
    (found : leavesOf Γ descend above position fields = .ok leaves) :
    Walk Γ above position fields leaves := by
  induction fields generalizing position leaves with
  | nil =>
      obtain rfl := Except.ok.inj found
      exact .done
  | cons field rest ih =>
      obtain ⟨own, others, ownFound, othersFound, rfl⟩ := leavesOf_cons found
      have onward := ih othersFound
      rcases field.role_cases Γ with ⟨taken, role⟩ | ⟨name, matched, role⟩ | ⟨other, unnamed, role⟩
      · simp only [Field.leaves, role] at ownFound
        obtain ⟨inner, record⟩ := Option.isSome_iff_exists.1 taken.2.1
        have inside := below _ _ _ ownFound
        rw [record, Option.getD_some] at inside
        exact .down taken record inside onward
      · simp only [Field.leaves, role] at ownFound
        obtain rfl := Except.ok.inj ownFound
        exact .leaf matched onward
      · simp only [Field.leaves, role] at ownFound
        obtain rfl := Except.ok.inj ownFound
        exact .past other unnamed onward

theorem of_leavesWithin (room : Nat) (inside : List Ty) (ty : Ty) (path : Path)
    (leaves : List Leaf) (found : leavesWithin Γ room inside ty path = .ok leaves) :
    Walk Γ path 0 ((ty.fields? Γ).getD []) leaves := by
  induction room generalizing inside ty path leaves with
  | zero => simp [leavesWithin] at found
  | succ room ih =>
      rw [leavesWithin] at found
      split at found
      · simp at found
      · exact of_leavesOf (ih (ty :: inside)) found

end Walk

namespace FieldTable

/-- The table of a record gives each name the first of the leaves that one comes by in the one walk
    there is, and it gives no field twice nor a field inside of another one. -/
theorem get?_first_of_walk {ty : Ty} {depth : Nat} {fields : List Field} {table : FieldTable}
    (record : ty.base.fields? Γ = some fields) (built : build Γ ty depth = .ok table) :
    ∃ leaves, Walk Γ [] 0 fields leaves ∧
      (∀ others, Walk Γ [] 0 fields others → others = leaves) ∧
      (∀ name, table.get? name = (leaves.find? fun leaf => leaf.name = name).map (·.path)) ∧
      ∀ left right p q, left ≠ right → table.get? left = some p → table.get? right = some q →
        p ≠ q ∧ ¬ p <+: q := by
  have isRecord : ty.isRecord Γ := by simp [Ty.isRecord, record]
  obtain ⟨leaves, found, rfl⟩ := leaves_of_build isRecord built
  have walk := Walk.of_leavesWithin _ _ _ _ _ found
  rw [record, Option.getD_some] at walk
  refine ⟨leaves, walk, fun others again => again.unique walk, get?_ofLeaves leaves, ?_⟩
  intro left right p q different foundLeft foundRight
  have apart := apart_of_get? built different foundLeft foundRight
  exact ⟨apart.ne, apart.not_prefix⟩

/-- The customer's own identifier comes before that of the entry that is taken in, of which the
    customer shows nothing but its fields, and the city of the first address before that of the
    second. -/
theorem get?_first_of_customer :
    let Γ : Catalogue := { records := [
      ("customer", [⟨"Id", .int .w64, "", true, false⟩,
        ⟨"entry", .optional (.boxed (.record "entry")), "", false, true⟩,
        ⟨"Home", .record "address", ",inline", true, false⟩,
        ⟨"Work", .optional (.record "address"), "inline", true, false⟩,
        ⟨"Past", .record "address", "Old", true, true⟩,
        ⟨"Note", .text, "-", true, false⟩]),
      ("entry", [⟨"ID", .int .w64, "", true, false⟩, ⟨"By", .text, "Author", true, false⟩,
        ⟨"place", .record "address", "Place", false, true⟩]),
      ("address", [⟨"City", .text, "", true, false⟩])] }
    let ty : Ty := .optional (.record "customer")
    let table : FieldTable :=
      ⟨[("id", [0]), ("author", [1, 1]), ("city", [2, 0]), ("old", [4])]⟩
    ty.base.fields? Γ = some (Γ.fields "customer") ∧ build Γ ty 1 = .ok table ∧
      ∃ leaves, Walk Γ [] 0 (Γ.fields "customer") leaves ∧
        (∀ others, Walk Γ [] 0 (Γ.fields "customer") others → others = leaves) ∧
        (∀ name, table.get? name = (leaves.find? fun leaf => leaf.name = name).map (·.path)) ∧
        ∀ left right p q, left ≠ right → table.get? left = some p → table.get? right = some q →
          p ≠ q ∧ ¬ p <+: q := by
  intro Γ ty table
  have record : ty.base.fields? Γ = some (Γ.fields "customer") := rfl
  have built : build Γ ty 1 = .ok table := rfl
  exact ⟨record, built, get?_first_of_walk record built⟩

end FieldTable

end SqlMarshal
