import SqlMarshal.Proofs.Bind.BoundLeaves
import SqlMarshal.Proofs.Row.ColumnOrder

/-! # What is bound is read back

A driver may hand back what was bound as it was bound. Then a scalar is what it was before: whole
numbers are bound as words that are at least as wide as they are, and an optional value that is not
there is bound as NULL and read from NULL.

A record is bound as its leaves. Reading the columns that are named and filled like the arguments
puts each of them back in its place. One leaf that is put in leaves the others as they are, so after
all of them every leaf is what it was.
-/

namespace SqlMarshal

variable {Γ : Catalogue}

/-! ## Scalars -/

namespace Ty

/-- Whole numbers fit their widths. -/
def Fits : Ty → Datum → Prop
  | .int width, .whole n => width.fitsSigned n
  | .uint width, .whole n => width.fitsUnsigned n
  | .optional content, .present d => content.Fits d
  | .boxed content, d => content.Fits d
  | .named _ content, d => content.Fits d
  | _, _ => True

/-- A value of the type is bound as the driver value, and stored from it whatever was held
    before. -/
structure Returns (Γ : Catalogue) (ty : Ty) (d : Datum) (v : Value) : Prop where
  bound : ty.toValue? d = some v
  stored : ∀ held, (ty.store Γ held v).accepted? = some d
  null : v = .null → d = .absent

end Ty

theorem Width.toInt_ofInt {width : Width} {n : Int} (fits : width.fitsSigned n) :
    (Int64.ofInt n).toInt = n := by
  obtain ⟨low, high⟩ := of_decide_eq_true fits
  refine Int64.toInt_ofInt_of_le ?_ ?_ <;> cases width <;> simp [twoTo, bits] at low high <;> omega

theorem Width.toNat_ofNat {width : Width} {n : Int} (fits : width.fitsUnsigned n) :
    ((UInt64.ofNat n.toNat).toNat : Int) = n := by
  obtain ⟨low, high⟩ := of_decide_eq_true fits
  rw [UInt64.toNat_ofNat_of_lt']
  · exact Int.toNat_of_nonneg low
  · cases width <;> simp [twoTo, bits] at high <;> simp [UInt64.size] <;> omega

namespace Ty

variable {ty : Ty} {d : Datum}

theorem accepted?_assignWhole {name : String} {fits : Int → Bool} {held : Datum} {s : Scalar}
    {n : Int} (whole : s.whole? = some n) (holds : fits n) :
    (assignWhole name fits held s).accepted? = some (.whole n) := by
  simp only [assignWhole, whole, holds, if_true]
  rfl

theorem Plain.returns (plain : ty.Plain) (admits : ty.Admits Γ d) (fits : ty.Fits d) :
    ∃ v, v ≠ .null ∧ ty.toValue? d = some v ∧ ∀ held, (ty.store Γ held v).accepted? = some d := by
  induction plain with
  | bool =>
      cases admits with
      | bool b => exact ⟨.bool b, by simp, rfl, fun _ => rfl⟩
  | int width =>
      cases admits with
      | int _ n =>
          refine ⟨.int (.ofInt n), by simp, rfl, fun held => ?_⟩
          rw [store, accepted?_assignConverted]
          exact accepted?_assignWhole (congrArg some (Width.toInt_ofInt fits)) fits
  | uint width =>
      cases admits with
      | uint _ n =>
          refine ⟨.uint (.ofNat n.toNat), by simp, rfl, fun held => ?_⟩
          rw [store, accepted?_assignConverted]
          exact accepted?_assignWhole (congrArg some (Width.toNat_ofNat fits)) fits
  | text =>
      cases admits with
      | text s => exact ⟨.text s, by simp, rfl, fun _ => rfl⟩
  | timestamp =>
      cases admits with
      | timestamp t => exact ⟨.timestamp t, by simp, rfl, fun _ => rfl⟩
  | rawBytes =>
      cases admits with
      | rawBytes b => exact ⟨.bytes b, by simp, rfl, fun _ => rfl⟩
  | bytes =>
      cases admits with
      | bytes b => exact ⟨.bytes b, by simp, rfl, fun _ => rfl⟩
      | sequence other => exact absurd rfl other
  | named name _ ih =>
      cases admits with
      | named _ inside => exact ih inside fits

theorem MaybePlain.returns (plain : ty.MaybePlain) (admits : ty.Admits Γ d) (fits : ty.Fits d) :
    ∃ v, ty.Returns Γ d v := by
  cases plain with
  | always plain =>
      obtain ⟨v, present, bound, stored⟩ := plain.returns admits fits
      exact ⟨v, bound, stored, fun null => absurd null present⟩
  | optional plain =>
      cases admits with
      | absent => exact ⟨.null, rfl, fun _ => rfl, fun _ => rfl⟩
      | present inside =>
          obtain ⟨v, present, bound, stored⟩ := plain.returns inside fits
          refine ⟨v, bound, fun held => ?_, fun null => absurd null present⟩
          cases v with
          | null => exact absurd rfl present
          | _ => simp only [store, accepted?_inside, stored, Option.map_some]

end Ty

/-! ## Columns -/

section Columns

variable {ty : Ty} {d start : Datum} {path : Path} {find : String → Option Path}

/-- A column is found at a path and gives back what a value holds there. -/
def Brings (Γ : Catalogue) (ty : Ty) (d : Datum) (find : String → Option Path) (path : Path)
    (column : String × Value) : Prop :=
  find column.1 = some path ∧ ∃ target item, ty.look? Γ path d = some (target, item) ∧
    target.Returns Γ item column.2

/-- A value holds something at a path, and nothing if it may be absent. -/
def Vacant (Γ : Catalogue) (ty : Ty) (d : Datum) (path : Path) : Prop :=
  ∃ target held, ty.look? Γ path d = some (target, held) ∧ (0 < target.layers → held = .absent)

theorem take?_brings {column : String × Value} (brings : Brings Γ ty d find path column)
    (vacant : Vacant Γ ty start path) :
    ∃ after, OnePass.take? Γ ty path column.2 start = some after ∧
      ty.look? Γ path after = ty.look? Γ path d ∧
      ∀ other, path.Apart other → ty.look? Γ other after = ty.look? Γ other start := by
  obtain ⟨-, target, item, found, returns⟩ := brings
  obtain ⟨target', held, found', empty⟩ := vacant
  have reached := Ty.at?_of_look? found
  obtain rfl := Option.some.inj (reached.symm.trans (Ty.at?_of_look? found'))
  by_cases kept : column.2 = .null ∧ target.keepsOnNull Γ
  · -- NULL is not stored here, but it need not be: there is nothing yet, and nothing is to come.
    obtain ⟨null, keeps⟩ := kept
    have deep := Ty.layers_of_keepsOnNull keeps
    refine ⟨start, OnePass.take?_kept reached null keeps, ?_, fun _ _ => rfl⟩
    rw [found, found', empty deep, returns.null null]
  · rw [OnePass.take?_stored reached fun null => by simpa [null] using kept, found]
    exact Ty.modifyPath?_of_look? found' (returns.stored held)

/-- After all columns have been taken, every path holds what it is to hold. -/
theorem takeAll?_brings {paths : List Path} {columns : List (String × Value)}
    (brings : List.Forall₂ (Brings Γ ty d find) paths columns) (apart : paths.Pairwise Path.Apart)
    (vacant : ∀ path ∈ paths, Vacant Γ ty start path) :
    ∃ after, OnePass.takeAll? Γ ty find columns start = some after ∧
      (∀ path ∈ paths, ty.look? Γ path after = ty.look? Γ path d) ∧
      ∀ other, (∀ path ∈ paths, path.Apart other) →
        ty.look? Γ other after = ty.look? Γ other start := by
  induction brings generalizing start with
  | nil => exact ⟨start, rfl, by simp, fun _ _ => rfl⟩
  | @cons path column paths columns here _ ih =>
      obtain ⟨fromHead, apart⟩ := List.pairwise_cons.1 apart
      obtain ⟨first, vacant⟩ := List.forall_mem_cons.1 vacant
      obtain ⟨middle, taken, held, elsewhere⟩ := take?_brings here first
      have vacant' : ∀ other ∈ paths, Vacant Γ ty middle other := by
        intro other later
        obtain ⟨target, held, found, empty⟩ := vacant other later
        exact ⟨target, held, (elsewhere other (fromHead other later)).trans found, empty⟩
      obtain ⟨after, rest, holds, kept⟩ := ih apart vacant'
      refine ⟨after, ?_, List.forall_mem_cons.2 ⟨?_, holds⟩, fun other parts => ?_⟩
      · simp only [OnePass.takeAll?, here.1, taken, Option.bind_some, rest]
      · rw [kept path fun other later => (fromHead other later).symm, held]
      · obtain ⟨parts, parts'⟩ := List.forall_mem_cons.1 parts
        rw [kept other parts', elsewhere other parts]

end Columns

/-! ## Rows -/

section Rows

variable {ty : Ty} {d : Datum} {path : Path} {field : Field}

theorem vacant_initial (reversible : ty.Reversible Γ) (admits : ty.Admits Γ d)
    (leads : ty.FieldAt Γ path field) : Vacant Γ ty (ty.initial Γ) path := by
  obtain ⟨held, found, -⟩ := reversible.look? admits.initial leads
  refine ⟨field.type, held, found, fun deep => ?_⟩
  obtain ⟨depth, rfl⟩ := Ty.look?_initialWith found
  exact Ty.initialWith_of_layers deep

theorem exists_columns {find : String → Option Path} {leaves : List Leaf}
    {entries : List (String × Param)} (reversible : ty.Reversible Γ) (admits : ty.Admits Γ d)
    (fits : ∀ path target item, ty.LeafAt Γ path → ty.look? Γ path d = some (target, item) →
      target.Fits item)
    (bound : List.Forall₂ (Leaf.BoundTo Γ ty d []) leaves entries)
    (finds : ∀ leaf ∈ leaves, find leaf.name = some leaf.path) :
    ∃ columns : List (String × Value), entries.map (·.1) = columns.map (·.1) ∧
      entries.map (·.2.toValue?) = (columns.map (·.2)).map some ∧
      List.Forall₂ (Brings Γ ty d find) (leaves.map (·.path)) columns := by
  induction bound with
  | nil => exact ⟨[], rfl, rfl, .nil⟩
  | @cons leaf entry leaves entries here _ ih =>
      obtain ⟨first, finds⟩ := List.forall_mem_cons.1 finds
      obtain ⟨columns, names, values, brings⟩ := ih finds
      obtain ⟨path, field, item, placed, leads, role, found, rfl⟩ := here
      obtain rfl : leaf.path = path := placed
      obtain ⟨item', found', admits'⟩ := reversible.look? admits leads
      obtain rfl := (Prod.mk.inj (Option.some.inj (found.symm.trans found'))).2
      obtain ⟨v, returns⟩ := (reversible.plain _ field _ leads role).returns admits'
        (fits _ _ _ (Ty.leafAt_iff.2 ⟨field, _, leads, role⟩) found)
      refine ⟨(leaf.name, v) :: columns, congrArg _ names, ?_, .cons ⟨first, ?_⟩ brings⟩
      · exact congrArg₂ List.cons returns.bound values
      · exact ⟨field.type, item, found, returns⟩

theorem normalizeLabel_of_leaf {name : String} (reversible : ty.Reversible Γ)
    (leads : ty.FieldAt Γ path field) (role : field.role Γ = .leaf name) :
    normalizeLabel name = name := by
  rw [Field.name_of_leaf role]
  exact normalizeLabel_lowerAscii (reversible.unquoted path field name leads role)

end Rows

namespace Reader

/-- A record is bound as its leaves, and a row of what its leaves are bound as is read to a record
    with the same leaves. -/
theorem readRow_of_build {config : Config} {reader : Reader} {ty : Ty} {d : Datum}
    {table : FieldTable} (used : Used Γ config.reader reader) (reversible : ty.Reversible Γ)
    (visible : ∃ path, ty.LeafAt Γ path) (tabled : (reader.fieldTable Γ ty).1 = .ok table)
    (admits : ty.Admits Γ d)
    (fits : ∀ path target item, ty.LeafAt Γ path → ty.look? Γ path d = some (target, item) →
      target.Fits item) :
    ∃ arguments row value, Arguments.build Γ (.datum ty d) = .ok arguments ∧
      arguments.entries.map (·.2.toValue?) = row.map some ∧
      (∀ (σ : Type) (cursor : Cursor σ) (state : σ),
        cursor.Offers state (arguments.entries.map (·.1)) row →
          (reader.readRow Γ ty cursor state).1 = .ok value) ∧
      ∀ path, ty.LeafAt Γ path →
        ∃ found, ty.look? Γ path d = some found ∧ ty.look? Γ path value = some found := by
  have sound := used_sound (sound_new config.maxDepth.toNat) used
  have built := (fieldTable_sound sound ty).1.symm.trans tabled
  have record : ty.isRecord Γ := reversible.record.isRecord
  obtain ⟨bindable, leaves, bound, apart, distinct, finds, all⟩ :=
    Arguments.build_of_reversible reversible admits built
  obtain ⟨columns, names, values, brings⟩ := exists_columns reversible admits fits bound finds
  have vacant : ∀ path ∈ leaves.map (·.path), Vacant Γ ty (ty.initial Γ) path := by
    intro path member
    obtain ⟨leaf, inLeaves, rfl⟩ := List.mem_map.1 member
    obtain ⟨field, leads, -⟩ := namedIn_of_boundTo bound leaf inLeaves
    exact vacant_initial reversible admits leads
  obtain ⟨value, taken, holds, -⟩ := takeAll?_brings brings (List.pairwise_map.2 apart) vacant
  refine ⟨⟨ty.arguments Γ d⟩, columns.map (·.2), value, bindable, values, ?_, ?_⟩
  · intro σ cursor state offers
    rw [names] at offers
    have labels : columns.map (·.1) = leaves.map (·.name) := by
      rw [← names, map_name_of_boundTo bound]
    have normal : (columns.map (·.1)).map normalizeLabel = columns.map (·.1) := by
      rw [labels, List.map_map]
      refine List.map_congr_left fun leaf member => ?_
      obtain ⟨field, leads, role⟩ := namedIn_of_boundTo bound leaf member
      exact normalizeLabel_of_leaf reversible leads role
    have some : columns.map (·.1) ≠ [] := by
      obtain ⟨path, leads⟩ := visible
      obtain ⟨leaf, member, -⟩ := all path leads
      rw [labels]
      exact List.ne_nil_of_mem (List.mem_map_of_mem member)
    have read := readRow_record sound record offers some (by simp) (by rwa [normal, labels])
    rw [OnePass.read?, if_pos record, built, normal, List.zip_map', List.map_id'] at read
    have read' := read.trans taken
    cases answer : (reader.readRow Γ ty cursor state).1 with
    | error error => simp [answer, Except.toOption] at read'
    | ok value' => simpa [answer, Except.toOption] using read'
  · intro path leads
    obtain ⟨leaf, member, rfl⟩ := all path leads
    obtain ⟨field, name, leads', role⟩ := Ty.leafAt_iff.1 leads
    obtain ⟨item, found, -⟩ := reversible.look? admits leads'
    exact ⟨_, found, (holds _ (List.mem_map_of_mem member)).trans found⟩

/-- The embedded record is in a box, and NULL is bound for the day that is not there. -/
theorem readRow_of_build_player :
    let Γ : Catalogue := { records := [
      ("player", [⟨"Id", .uint .w8, "No", true, false⟩,
        ⟨"Home", .boxed (.record "home"), "", false, true⟩]),
      ("home", [⟨"Since", .optional (.named "day" (.int .w16)), "", true, false⟩])] }
    let player : Datum := .record [.whole 200, .record [.absent]]
    let table : Table := { columns := ["no", "since"], rows := [[.uint 200, .null]] }
    let read := (({} : Config).reader.readRow Γ (.record "player") table.cursor (some 0)).1
    (∃ value, read = .ok value ∧ ∀ path, (Ty.record "player").LeafAt Γ path →
      ∃ found, (Ty.record "player").look? Γ path player = some found ∧
        (Ty.record "player").look? Γ path value = some found) ∧
      read = .ok player := by
  intro Γ player table read
  let id : Field := ⟨"Id", .uint .w8, "No", true, false⟩
  let home : Field := ⟨"Home", .boxed (.record "home"), "", false, true⟩
  let since : Field := ⟨"Since", .optional (.named "day" (.int .w16)), "", true, false⟩
  have known : ∀ path field, (Ty.record "player").FieldAt Γ path field →
      (path = [0] ∧ field = id) ∨ (path = [1] ∧ field = home) ∨
        (path = [1, 0] ∧ field = since) := by
    intro path field leads
    cases leads with
    | @here _ index _ declares =>
        obtain ⟨_, ⟨⟩, declared⟩ := declares
        match index, declared with
        | 0, rfl => exact .inl ⟨rfl, rfl⟩
        | 1, rfl => exact .inr (.inl ⟨rfl, rfl⟩)
    | @inside _ index _ _ _ declares role leads =>
        obtain ⟨_, ⟨⟩, declared⟩ := declares
        match index, declared with
        | 0, rfl => exact absurd role (by decide)
        | 1, rfl =>
            cases leads with
            | @here _ index _ declares =>
                obtain ⟨_, ⟨⟩, declared⟩ := declares
                match index, declared with
                | 0, rfl => exact .inr (.inr ⟨rfl, rfl⟩)
            | @inside _ index _ _ _ declares role _ =>
                obtain ⟨_, ⟨⟩, declared⟩ := declares
                match index, declared with
                | 0, rfl => exact absurd role (by decide)
  have ofId : id.role Γ = .leaf "no" := by decide
  have ofHome : home.role Γ = .flattened := by decide
  have ofSince : since.role Γ = .leaf "since" := by decide
  have reversible : (Ty.record "player").Reversible Γ := by
    refine ⟨⟨_, rfl⟩, ?_, ?_, ?_, ?_, ?_, ?_⟩
    · intro path field leads
      obtain ⟨-, rfl⟩ | ⟨-, rfl⟩ | ⟨-, rfl⟩ := known path field leads <;> decide
    · intro path field leads embedded
      obtain ⟨-, rfl⟩ | ⟨-, rfl⟩ | ⟨-, rfl⟩ := known path field leads
      · exact absurd embedded (by decide)
      · exact fun _ _ => ⟨by decide, "home", rfl⟩
      · exact absurd embedded (by decide)
    · intro path field name leads role
      obtain ⟨-, rfl⟩ | ⟨-, rfl⟩ | ⟨-, rfl⟩ := known path field leads
      · exact .always (.uint .w8)
      · simp [ofHome] at role
      · exact .optional (.named "day" (.int .w16))
    · intro path field name leads role
      obtain ⟨-, rfl⟩ | ⟨-, rfl⟩ | ⟨-, rfl⟩ := known path field leads
      · simp [show id.effectiveName = "No" by decide]
      · simp [ofHome] at role
      · simp [show since.effectiveName = "Since" by decide]
    · intro path field name leads role
      obtain ⟨-, rfl⟩ | ⟨-, rfl⟩ | ⟨-, rfl⟩ := known path field leads <;> decide
    · intro path path' field field' name leads role leads' role'
      obtain ⟨rfl, rfl⟩ | ⟨rfl, rfl⟩ | ⟨rfl, rfl⟩ := known path field leads <;>
        obtain ⟨rfl, rfl⟩ | ⟨rfl, rfl⟩ | ⟨rfl, rfl⟩ := known path' field' leads' <;>
        simp_all
  have admits : (Ty.record "player").Admits Γ player := by
    refine .record rfl fun index field item declared held => ?_
    match index, declared, held with
    | 0, rfl, rfl => exact .uint .w8 200
    | 1, rfl, rfl =>
        refine .boxed (.record rfl fun index field item declared held => ?_)
        match index, declared, held with
        | 0, rfl, rfl => exact .absent _
  have fits : ∀ path target item, (Ty.record "player").LeafAt Γ path →
      (Ty.record "player").look? Γ path player = some (target, item) → target.Fits item := by
    intro path target item leads found
    obtain ⟨field, name, leads, role⟩ := Ty.leafAt_iff.1 leads
    obtain ⟨rfl, rfl⟩ | ⟨rfl, rfl⟩ | ⟨rfl, rfl⟩ := known path field leads
    · obtain ⟨rfl, rfl⟩ := Prod.mk.inj (Option.some.inj found)
      exact (by decide : Width.w8.fitsUnsigned 200)
    · simp [ofHome] at role
    · obtain ⟨rfl, rfl⟩ := Prod.mk.inj (Option.some.inj found)
      trivial
  have tabled : (({} : Config).reader.fieldTable Γ (.record "player")).1 =
      .ok ⟨[("no", [0]), ("since", [1, 0])]⟩ := rfl
  obtain ⟨arguments, row, value, bound, values, reads, leaves⟩ :=
    readRow_of_build .refl reversible ⟨[0], .here ⟨_, rfl, rfl⟩ ofId⟩ tabled admits fits
  let entries : List (String × Param) :=
    [("no", .datum id.type (.whole 200)), ("since", .datum since.type .absent)]
  obtain rfl : ⟨entries⟩ = arguments := Except.ok.inj bound
  obtain rfl : [.uint 200, .null] = row :=
    List.map_injective_iff.2 (Option.some_injective _) values
  exact ⟨⟨value, reads _ table.cursor (some 0) (Table.cursor_offers rfl rfl), leaves⟩, rfl⟩

end Reader

end SqlMarshal
