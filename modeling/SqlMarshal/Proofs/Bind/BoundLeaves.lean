import SqlMarshal.Bind.Arguments
import SqlMarshal.Proofs.Row.HeldFields
import SqlMarshal.Proofs.Text.AsciiCase

/-! # The arguments of a record are its leaves

Binding and reading walk through a record apart from each other: they tell in their own ways which
records are taken in, and fold the case of names differently. For records without inlined fields,
whose embedded records are held by value and have no names of their own, both walks go the same way,
and for ASCII names they come to the same names. Then the arguments of a value are what it holds at
the leaves of its type, one for each, in the same order.
-/

namespace SqlMarshal

variable {Γ : Catalogue}

/-- The name by which a field takes part, before its case is folded. -/
def Field.effectiveName (field : Field) : String :=
  (FieldTag.parse field.tag).nameOr field.name

namespace Ty

/-- The type is one that a driver takes as a value and gives back: a truth value, a whole number,
    text, a time or bytes, also by a name of its own. -/
inductive Plain : Ty → Prop where
  | bool : Plain .bool
  | int (width : Width) : Plain (.int width)
  | uint (width : Width) : Plain (.uint width)
  | text : Plain .text
  | timestamp : Plain .timestamp
  | rawBytes : Plain .rawBytes
  | bytes : Plain (.sequence (.uint .w8))
  | named {content : Ty} (name : String) : Plain content → Plain (.named name content)

/-- The type is plain, or one whose values may be absent and are plain otherwise. -/
inductive MaybePlain : Ty → Prop where
  | always {ty : Ty} : Plain ty → MaybePlain ty
  | optional {content : Ty} : Plain content → MaybePlain (.optional content)

/-- The records that are bound as they are read. Every field that takes part is one that a driver
    gives back, optional or not, and its name is the same to both sides and belongs to it alone. -/
structure Reversible (Γ : Catalogue) (ty : Ty) : Prop where
  record : ty.HoldsRecord
  notInlined : ∀ path field, ty.FieldAt Γ path field → (FieldTag.parse field.tag).inlined = false
  /-- Records are embedded without names, and held by value or in boxes. -/
  embedded : ∀ path field, ty.FieldAt Γ path field → field.embedded → field.type.isRecord Γ →
    (FieldTag.parse field.tag).omitted = false →
      (FieldTag.parse field.tag).name = "" ∧ field.type.HoldsRecord
  plain : ∀ path field name, ty.FieldAt Γ path field → field.role Γ = .leaf name →
    field.type.MaybePlain
  ascii : ∀ path field name, ty.FieldAt Γ path field → field.role Γ = .leaf name →
    ∀ c ∈ field.effectiveName.toList, c.toNat < 128
  unquoted : ∀ path field name, ty.FieldAt Γ path field → field.role Γ = .leaf name →
    unquoteLabel field.effectiveName.toList = field.effectiveName.toList
  distinct : ∀ path path' field field' name, ty.FieldAt Γ path field → field.role Γ = .leaf name →
    ty.FieldAt Γ path' field' → field'.role Γ = .leaf name → path = path'

end Ty

/-! ## The parts that fields take -/

theorem Field.name_of_leaf {field : Field} {name : String} (role : field.role Γ = .leaf name) :
    name = lowerAscii field.effectiveName := by
  unfold Field.role at role
  simp only at role
  split at role
  · simp at role
  · split at role
    · simp at role
    · split at role
      · exact (FieldRole.leaf.inj role).symm
      · simp at role

theorem Field.argumentRole_eq {field : Field}
    (notInlined : (FieldTag.parse field.tag).inlined = false)
    (unnamed : field.embedded → field.type.isRecord Γ → (FieldTag.parse field.tag).omitted = false →
      (FieldTag.parse field.tag).name = "")
    (ascii : ∀ name, field.role Γ = .leaf name → ∀ c ∈ field.effectiveName.toList, c.toNat < 128) :
    field.argumentRole Γ =
      match field.role Γ with
      | .hidden => .hidden
      | .leaf name => .leaf name
      | .flattened => .flattened := by
  by_cases hidden : ((!field.exported && !field.embedded) ||
      (FieldTag.parse field.tag).omitted) = true
  · simp only [role, argumentRole, if_pos hidden]
  · have taken : (field.type.isRecord Γ && ((FieldTag.parse field.tag).inlined ||
          (field.embedded && (FieldTag.parse field.tag).name == ""))) =
        (field.embedded && field.type.isRecord Γ) := by
      have present : (FieldTag.parse field.tag).omitted = false := by
        simp only [Bool.or_eq_true, not_or, Bool.not_eq_true] at hidden
        exact hidden.2
      cases embedded : field.embedded with
      | false => simp [notInlined]
      | true =>
          cases record : field.type.isRecord Γ with
          | false => rfl
          | true => simp [unnamed embedded record present]
    by_cases flattened : (field.embedded && field.type.isRecord Γ) = true
    · simp only [role, argumentRole, if_neg hidden, taken, if_pos flattened]
    · by_cases exported : field.exported = true
      · have leaf : field.role Γ = .leaf (lowerAscii field.effectiveName) := by
          simp only [role, if_neg hidden, taken, if_neg flattened, if_pos exported, effectiveName]
        simp only [leaf, argumentRole, if_neg hidden, if_neg flattened, if_pos exported]
        rw [← lower_ascii (ascii _ leaf)]
        rfl
      · simp only [role, argumentRole, if_neg hidden, taken, if_neg flattened, if_neg exported]

theorem Ty.Reversible.taken {ty : Ty} (reversible : ty.Reversible Γ) {path : Path} {field : Field}
    (leads : ty.FieldAt Γ path field) (role : field.role Γ = .flattened) :
    field.type.HoldsRecord := by
  have notInlined := reversible.notInlined path field leads
  unfold Field.role at role
  simp only [notInlined, Bool.false_or] at role
  split at role
  · simp at role
  · rename_i visible
    split at role
    · rename_i flattens
      simp only [Bool.and_eq_true] at flattens
      obtain ⟨record, embedded, -⟩ := flattens
      simp only [Bool.or_eq_true, not_or, Bool.not_eq_true] at visible
      exact (reversible.embedded path field leads embedded record visible.2).2
    · split at role <;> simp at role

theorem Ty.Reversible.look? {ty : Ty} {d : Datum} (reversible : ty.Reversible Γ)
    (admits : ty.Admits Γ d) {path : Path} {field : Field} (leads : ty.FieldAt Γ path field) :
    ∃ item, ty.look? Γ path d = some (field.type, item) ∧ field.type.Admits Γ item :=
  Ty.look?_of_admits leads reversible.record (fun _ _ leads role => reversible.taken leads role)
    admits

theorem Ty.Reversible.inside {ty : Ty} (reversible : ty.Reversible Γ) {index : Nat} {outer : Field}
    (declares : ty.Declares Γ index outer) (role : outer.role Γ = .flattened) :
    outer.type.Reversible Γ where
  record := reversible.taken (.here declares) role
  notInlined _ field leads := reversible.notInlined _ field (.inside declares role leads)
  embedded _ field leads := reversible.embedded _ field (.inside declares role leads)
  plain _ field name leads := reversible.plain _ field name (.inside declares role leads)
  ascii _ field name leads := reversible.ascii _ field name (.inside declares role leads)
  unquoted _ field name leads := reversible.unquoted _ field name (.inside declares role leads)
  distinct _ _ field field' name leads leaf leads' leaf' :=
    (List.cons.inj (reversible.distinct _ _ field field' name (.inside declares role leads) leaf
      (.inside declares role leads') leaf')).2

/-! ## The two walks -/

theorem Datum.depth_le_depthOfAll {d : Datum} {items : List Datum} (member : d ∈ items) :
    d.depth ≤ Datum.depthOfAll items := by
  induction member with
  | head => exact Nat.le_max_left _ _
  | tail _ _ ih => exact Nat.le_trans ih (Nat.le_max_right _ _)

theorem Ty.depth_lt_of_field? {ty field : Ty} {d item : Datum} {index : Nat}
    (found : ty.field? Γ index d = some (field, item)) : item.depth < d.depth := by
  induction ty generalizing d with
  | optional content ih =>
      cases d with
      | present inside => exact Nat.lt_succ_of_lt (ih found)
      | _ => simp [field?] at found
  | boxed content ih => exact ih found
  | record name =>
      cases d with
      | record items =>
          obtain ⟨-, -, -, there⟩ := item_of_field? found
          exact Nat.lt_succ_of_le (Datum.depth_le_depthOfAll (List.mem_of_getElem? there))
      | _ => simp [field?] at found
  | _ => simp [field?] at found

/-- An entry of the arguments is what a value holds at a leaf, by the name of the leaf. -/
def Leaf.BoundTo (Γ : Catalogue) (ty : Ty) (d : Datum) (above : Path) (leaf : Leaf)
    (entry : String × Param) : Prop :=
  ∃ inner field item, leaf.path = above ++ inner ∧ ty.FieldAt Γ inner field ∧
    field.role Γ = .leaf leaf.name ∧ ty.look? Γ inner d = some (field.type, item) ∧
    entry = (leaf.name, .datum field.type item)

theorem Leaf.BoundTo.inside {ty : Ty} {d item : Datum} {above : Path} {index : Nat} {outer : Field}
    {leaf : Leaf} {entry : String × Param} (declares : ty.Declares Γ index outer)
    (role : outer.role Γ = .flattened) (held : ty.field? Γ index d = some (outer.type, item))
    (bound : leaf.BoundTo Γ outer.type item (above ++ [index]) entry) :
    leaf.BoundTo Γ ty d above entry := by
  obtain ⟨inner, field, content, placed, leads, named, found, same⟩ := bound
  refine ⟨index :: inner, field, content, by simpa using placed, .inside declares role leads, named,
    ?_, same⟩
  simpa only [Ty.look?, held] using found

/-- The leaf is one of the type, by its own name. -/
def Leaf.NamedIn (Γ : Catalogue) (ty : Ty) (leaf : Leaf) : Prop :=
  ∃ field, ty.FieldAt Γ leaf.path field ∧ field.role Γ = .leaf leaf.name

theorem Leaf.BoundTo.namedIn {ty : Ty} {d : Datum} {leaf : Leaf} {entry : String × Param}
    (bound : leaf.BoundTo Γ ty d [] entry) : leaf.NamedIn Γ ty := by
  obtain ⟨inner, field, -, placed, leads, role, -⟩ := bound
  rw [List.nil_append] at placed
  exact ⟨field, placed ▸ leads, role⟩

theorem boundTo_argumentsOf {descend : Ty → Path → Except RowError (List Leaf)}
    {gather : Ty → Datum → List (String × Param)} {ty : Ty} {d : Datum} {above : Path}
    (reversible : ty.Reversible Γ) (admits : ty.Admits Γ d)
    (below : ∀ index field item own, ty.Declares Γ index field → field.role Γ = .flattened →
      ty.field? Γ index d = some (field.type, item) → field.type.Admits Γ item →
      descend field.type.base (above ++ [index]) = .ok own →
      List.Forall₂ (Leaf.BoundTo Γ field.type item (above ++ [index])) own (gather field.type item))
    {position : Nat} {fields : List Field} {leaves : List Leaf}
    (declared : ∀ index field, fields[index]? = some field → ty.Declares Γ (position + index) field)
    (found : leavesOf Γ descend above position fields = .ok leaves) :
    List.Forall₂ (Leaf.BoundTo Γ ty d above) leaves
      (argumentsOf Γ gather ty d position fields) := by
  induction fields generalizing position leaves with
  | nil =>
      obtain rfl := Except.ok.inj found
      exact .nil
  | cons field rest ih =>
      obtain ⟨own, others, ownFound, othersFound, rfl⟩ := leavesOf_cons found
      have declares : ty.Declares Γ position field := declared 0 field rfl
      have same := Field.argumentRole_eq (reversible.notInlined _ _ (.here declares))
        (fun embedded record present =>
          (reversible.embedded _ _ (.here declares) embedded record present).1)
        (reversible.ascii _ _ · (.here declares))
      obtain ⟨item, held, inside⟩ := Ty.field?_of_admits reversible.record admits declares
      refine List.rel_append ?_ (ih (fun index field at_index => ?_) othersFound)
      · unfold Field.leaves at ownFound
        cases role : field.role Γ with
        | hidden =>
            simp only [role] at ownFound same
            obtain rfl := Except.ok.inj ownFound
            simp only [same]
            exact .nil
        | leaf name =>
            simp only [role] at ownFound same
            obtain rfl := Except.ok.inj ownFound
            simp only [same, held]
            exact .cons ⟨[position], field, item, rfl, .here declares, role,
              by simp only [Ty.look?, held], rfl⟩ .nil
        | flattened =>
            simp only [role] at ownFound same
            simp only [same, held, (reversible.taken (.here declares) role).layers,
              Ty.behindLayers?]
            exact (below _ _ _ _ declares role held inside ownFound).imp fun _ _ =>
              .inside declares role held
      · have later := declared (index + 1) field at_index
        rwa [Nat.add_comm index, ← Nat.add_assoc] at later

theorem Ty.HoldsRecord.depth_pos {ty : Ty} {d : Datum} (record : ty.HoldsRecord)
    (admits : ty.Admits Γ d) : 0 < d.depth := by
  obtain ⟨name, same⟩ := record
  induction ty with
  | boxed content ih =>
      cases admits with
      | boxed inside => exact ih inside same
  | record name =>
      cases admits with
      | record => exact Nat.succ_pos _
  | _ => simp [unboxed] at same

/-- The leaves of a record and the arguments in one of its values go together. -/
theorem boundTo_argumentsWithin {ty : Ty} {d : Datum} {above : Path} {room depth : Nat}
    {inside : List Ty} {leaves : List Leaf} (reversible : ty.Reversible Γ) (admits : ty.Admits Γ d)
    (deep : d.depth ≤ depth) (found : leavesWithin Γ room inside ty.base above = .ok leaves) :
    List.Forall₂ (Leaf.BoundTo Γ ty d above) leaves (argumentsWithin Γ depth ty d) := by
  induction room generalizing ty d above depth inside leaves with
  | zero => simp [leavesWithin] at found
  | succ room ih =>
      obtain ⟨fields, seen⟩ := reversible.record.fields? (Γ := Γ)
      -- A record is deeper than what it holds, so the depth of the whole value is enough.
      obtain ⟨depth, rfl⟩ : ∃ below, depth = below + 1 := by
        have := reversible.record.depth_pos admits
        exact ⟨depth - 1, by omega⟩
      rw [leavesWithin] at found
      split at found
      · simp at found
      · rw [Ty.fields?_base seen] at found
        rw [argumentsWithin, seen]
        refine boundTo_argumentsOf reversible admits
          (fun index field item own declares role held admits' found' => ?_)
          (fun index field at_index => ?_) found
        · have := Ty.depth_lt_of_field? held
          exact ih (reversible.inside declares role) admits' (by omega) found'
        · rw [Nat.zero_add]
          exact ⟨fields, Ty.fields?_base seen, at_index⟩

/-! ## All leaves, each by its name -/

theorem Arguments.ofDistinct_front (found front rest : List (String × Param))
    (distinct : ((found ++ front).map (·.1)).Nodup) :
    Arguments.ofDistinct found (front ++ rest) = Arguments.ofDistinct (found ++ front) rest := by
  induction front generalizing found with
  | nil => simp
  | cons head front ih =>
      have fresh : found.any (·.1 == head.1) = false := by
        rw [List.map_append] at distinct
        refine List.any_eq_false.2 fun entry member same => ?_
        exact (List.nodup_append.1 distinct).2.2 _ (List.mem_map_of_mem member) _
          List.mem_cons_self (by simpa using same)
      have later := ih (found ++ [head]) (by simpa using distinct)
      simpa [ofDistinct, fresh] using later

theorem Arguments.ofDistinct_append (found rest : List (String × Param))
    (distinct : ((found ++ rest).map (·.1)).Nodup) :
    Arguments.ofDistinct found rest = .ok ⟨found ++ rest⟩ := by
  simpa [ofDistinct] using ofDistinct_front found rest [] distinct

section Bound

variable {ty : Ty} {d : Datum} {leaves : List Leaf} {entries : List (String × Param)}

theorem map_name_of_boundTo {above : Path}
    (bound : List.Forall₂ (Leaf.BoundTo Γ ty d above) leaves entries) :
    leaves.map (·.name) = entries.map (·.1) := by
  induction bound with
  | nil => rfl
  | cons here _ ih =>
      obtain ⟨-, -, -, -, -, -, -, rfl⟩ := here
      exact congrArg _ ih

theorem namedIn_of_boundTo (bound : List.Forall₂ (Leaf.BoundTo Γ ty d []) leaves entries) :
    ∀ leaf ∈ leaves, leaf.NamedIn Γ ty :=
  ((List.forall₂_and_left _ _).1 (bound.imp fun _ _ here => ⟨here.namedIn, here⟩)).1

theorem Ty.Reversible.names_nodup (reversible : ty.Reversible Γ)
    (named : ∀ leaf ∈ leaves, leaf.NamedIn Γ ty)
    (apart : leaves.Pairwise Leaf.Apart) : (leaves.map (·.name)).Nodup := by
  refine List.pairwise_map.2 (apart.imp_of_mem fun {a b} inLeaves inLeaves' apart same => ?_)
  obtain ⟨field, leads, role⟩ := named a inLeaves
  obtain ⟨field', leads', role'⟩ := named b inLeaves'
  exact apart.ne (reversible.distinct _ _ _ _ _ leads role leads' (same ▸ role'))

/-- Binding a value gives the leaves of its type, each by its own name, which is also the name by
    which the leaf is read. -/
theorem Arguments.build_of_reversible {depth : Nat} {table : FieldTable}
    (reversible : ty.Reversible Γ) (admits : ty.Admits Γ d)
    (built : FieldTable.build Γ ty depth = .ok table) :
    Arguments.build Γ (.datum ty d) = .ok ⟨ty.arguments Γ d⟩ ∧
      ∃ leaves, List.Forall₂ (Leaf.BoundTo Γ ty d []) leaves (ty.arguments Γ d) ∧
        leaves.Pairwise Leaf.Apart ∧ (leaves.map (·.name)).Nodup ∧
        (∀ leaf ∈ leaves, table.get? leaf.name = some leaf.path) ∧
        ∀ path, ty.LeafAt Γ path → ∃ leaf ∈ leaves, leaf.path = path := by
  obtain ⟨fields, seen⟩ := reversible.record.fields? (Γ := Γ)
  obtain ⟨leaves, found, rfl⟩ := FieldTable.leaves_of_build reversible.record.isRecord built
  have bound : List.Forall₂ (Leaf.BoundTo Γ ty d []) leaves (ty.arguments Γ d) :=
    boundTo_argumentsWithin reversible admits (Nat.le_refl _) found
  have apart := (leavesWithin_separate _ _ _ _ _ found).2
  have distinct := reversible.names_nodup (namedIn_of_boundTo bound) apart
  constructor
  · have kept := Arguments.ofDistinct_append [] (ty.arguments Γ d)
      (by simpa [← map_name_of_boundTo bound] using distinct)
    simp only [Arguments.build, reversible.record.layers, Ty.behindLayers?, Arguments.ofDatum, seen]
    exact kept
  · refine ⟨leaves, bound, apart, distinct,
      fun leaf member => FieldTable.get?_ofLeaves_of_distinct distinct member, fun path leads => ?_⟩
    simpa using mem_leavesWithin leads found

end Bound

end SqlMarshal
