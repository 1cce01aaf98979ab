import SqlMarshal.Proofs.Row.OnePass

/-! # Optional records that stay away

A record that is taken in behind an optional layer is made when one of its fields is written. NULL
for a field that is optional itself does not write it, if the field is converted from a stage: what
is staged is asked for NULL before its path is opened. A field that stores its value at once is
another matter. Its path is opened first and makes the record, which then holds nothing.

So when NULL comes for all columns of such a record, and their fields are optional, the record stays
away exactly if none of the fields stores its value at once.
-/

namespace SqlMarshal

variable {Γ : Catalogue}

namespace Ty

/-! ## What a path holds -/

/-- What a value holds at a path; nothing is held behind an optional layer that is not there. -/
def heldAt (Γ : Catalogue) : Path → Ty → Datum → Datum
  | [], _, d => d
  | index :: rest, ty, d =>
      match ty.field? Γ index d with
      | some (field, item) => heldAt Γ rest field item
      | none => .absent

variable {ty target : Ty} {d after : Datum} {index : Nat} {rest path : Path}

theorem initialWith_of_layers {ofRecord : String → Datum} (deep : 0 < ty.layers) :
    ty.initialWith ofRecord = .absent := by
  induction ty with
  | optional content => rfl
  | boxed content ih | named _ content ih => exact ih deep
  | _ => simp [layers] at deep

theorem field?_initialWith {depth : Nat} {field : Ty} {item : Datum}
    (held : ty.field? Γ index (ty.initialWith (Γ.initialRecord depth)) = some (field, item)) :
    ∃ declared depth, ty.Declares Γ index declared ∧ declared.type = field ∧
      item = field.initialWith (Γ.initialRecord depth) := by
  induction ty with
  | boxed content ih => exact ih held
  | record name =>
      cases depth with
      | zero => simp [field?, initialWith, Catalogue.initialRecord] at held
      | succ depth =>
          simp only [initialWith, Catalogue.initialRecord, field?, List.getElem?_map,
            Option.bind_eq_bind, Option.bind_eq_some_iff, Option.map_eq_some_iff] at held
          obtain ⟨declared, found, _, ⟨again, found', rfl⟩, same⟩ := held
          obtain rfl := Option.some.inj (found.symm.trans found')
          obtain ⟨rfl, rfl⟩ := Prod.mk.inj (Option.some.inj same)
          exact ⟨declared, depth, ⟨_, rfl, found⟩, rfl, rfl⟩
  | _ => simp [field?, initialWith] at held

theorem heldAt_initialWith (reached : ty.at? Γ path = some target) (deep : 0 < target.layers)
    (depth : Nat) : ty.heldAt Γ path (ty.initialWith (Γ.initialRecord depth)) = .absent := by
  induction path generalizing ty depth with
  | nil =>
      obtain rfl := Option.some.inj reached
      exact initialWith_of_layers deep
  | cons index rest ih =>
      obtain ⟨field, declares, below⟩ := at?_cons.1 reached
      simp only [heldAt]
      split
      · rename_i type item held
        obtain ⟨field', depth', declares', rfl, rfl⟩ := field?_initialWith held
        obtain rfl := declares.unique declares'
        exact ih below depth'
      · rfl

/-! ## Changes elsewhere and on the way -/

theorem field?_record {name : String} {field : Field} {items : List Datum} {item : Datum}
    (declared : (Γ.fields name)[index]? = some field) (held : items[index]? = some item) :
    (Ty.record name).field? Γ index (.record items) = some (field.type, item) := by
  simp [field?, declared, held]

theorem heldAt_contentOr (content : Ty) (reached : content.at? Γ (index :: rest) = some target)
    (deep : 0 < target.layers) (d : Datum) :
    content.heldAt Γ (index :: rest) (d.contentOr (content.initial Γ)) = .absent ↔
      (Ty.optional content).heldAt Γ (index :: rest) d = .absent := by
  cases d with
  | present inside => exact Iff.rfl
  | _ => exact iff_of_true (heldAt_initialWith reached deep _) rfl

theorem absent_modifyField? {changed : Nat} {change : Ty → Datum → Option Datum}
    (reached : ty.at? Γ (index :: rest) = some target) (deep : 0 < target.layers)
    (same : index = changed → ∀ field, ty.Declares Γ index field → ∀ item new,
      change field.type item = some new →
        (field.type.heldAt Γ rest new = .absent ↔ field.type.heldAt Γ rest item = .absent))
    (modified : ty.modifyField? Γ changed change d = some after) :
    ty.heldAt Γ (index :: rest) after = .absent ↔ ty.heldAt Γ (index :: rest) d = .absent := by
  induction ty generalizing d after with
  | optional content ih =>
      obtain ⟨inside, changes, rfl⟩ := Option.map_eq_some_iff.1 modified
      exact (ih reached same changes).trans (heldAt_contentOr content reached deep d)
  | boxed content ih => exact ih reached same modified
  | record name =>
      cases d with
      | record items =>
          simp only [modifyField?, Option.bind_eq_some_iff, Option.map_eq_some_iff] at modified
          obtain ⟨field, declared, item, held, new, changes, rfl⟩ := modified
          by_cases here : index = changed
          · subst here
            obtain ⟨inside, -⟩ := List.getElem?_eq_some_iff.1 held
            have held' := List.getElem?_set_self (a := new) inside
            simpa only [heldAt, field?_record declared held, field?_record declared held'] using
              same rfl field ⟨_, rfl, declared⟩ item new changes
          · simp [heldAt, field?, List.getElem?_set_ne (Ne.symm here)]
      | _ => simp [modifyField?] at modified
  | _ => simp [modifyField?] at modified

theorem absent_modifyPath? {change : Ty → Datum → Option Datum} {other : Path}
    (apart : path.Apart other) (reached : ty.at? Γ path = some target) (deep : 0 < target.layers)
    (modified : modifyPath? Γ change other ty d = some after) :
    ty.heldAt Γ path after = .absent ↔ ty.heldAt Γ path d = .absent := by
  induction apart generalizing ty d after with
  | here p q different =>
      exact absent_modifyField? reached deep (fun same => absurd same different) modified
  | later i _ ih =>
      refine absent_modifyField? reached deep (fun _ field declares item new changes => ?_) modified
      obtain ⟨field', declares', below⟩ := at?_cons.1 reached
      obtain rfl := declares.unique declares'
      exact ih below changes

theorem field?_modifyField? {change : Ty → Datum → Option Datum}
    (modified : ty.modifyField? Γ index change d = some after) :
    ∃ field item new, ty.Declares Γ index field ∧ change field.type item = some new ∧
      ty.field? Γ index after = some (field.type, new) := by
  induction ty generalizing d after with
  | optional content ih =>
      obtain ⟨inside, changes, rfl⟩ := Option.map_eq_some_iff.1 modified
      exact ih changes
  | boxed content ih => exact ih modified
  | record name =>
      cases d with
      | record items =>
          simp only [modifyField?, Option.bind_eq_some_iff, Option.map_eq_some_iff] at modified
          obtain ⟨field, declared, item, held, new, changes, rfl⟩ := modified
          obtain ⟨inside, -⟩ := List.getElem?_eq_some_iff.1 held
          exact ⟨field, item, new, ⟨_, rfl, declared⟩, changes,
            field?_record declared (List.getElem?_set_self inside)⟩
      | _ => simp [modifyField?] at modified
  | _ => simp [modifyField?] at modified

theorem present_modifyField? {change : Ty → Datum → Option Datum} (deep : 0 < ty.layers)
    (modified : ty.modifyField? Γ index change d = some after) : after ≠ .absent := by
  induction ty generalizing d after with
  | optional content =>
      obtain ⟨inside, -, rfl⟩ := Option.map_eq_some_iff.1 modified
      simp
  | boxed content ih => exact ih deep modified
  | named name content => simp [modifyField?] at modified
  | _ => simp [layers] at deep

theorem present_modifyPath? {change : Ty → Datum → Option Datum} {next : Nat}
    (reached : ty.at? Γ path = some target) (deep : 0 < target.layers)
    (modified : modifyPath? Γ change (path ++ next :: rest) ty d = some after) :
    ty.heldAt Γ path after ≠ .absent := by
  induction path generalizing ty d after with
  | nil =>
      obtain rfl := Option.some.inj reached
      exact present_modifyField? deep modified
  | cons index path ih =>
      obtain ⟨field, item, new, declares, changes, held⟩ := field?_modifyField? modified
      obtain ⟨field', declares', below⟩ := at?_cons.1 reached
      obtain rfl := declares.unique declares'
      simpa only [heldAt, held] using ih below changes

end Ty

/-! ## Columns -/

/-- A change that is accepted leaves a property as it was. -/
def Spares (P : Datum → Prop) (change : Datum → Option Datum) : Prop :=
  ∀ d after, change d = some after → (P after ↔ P d)

theorem spares_some (P : Datum → Prop) : Spares P some := by
  rintro d after same
  obtain rfl := Option.some.inj same
  exact Iff.rfl

section Run

variable {ty : Ty} {P : Datum → Prop}

theorem settleAll?_spares {loaded : List Loaded}
    (each : ∀ l ∈ loaded, Spares P (l.1.settle? Γ ty l.2)) : Spares P (settleAll? Γ ty loaded) := by
  induction loaded with
  | nil => exact spares_some P
  | cons head rest ih =>
      obtain ⟨here, later⟩ := List.forall_mem_cons.1 each
      intro d after settled
      obtain ⟨middle, first, settled⟩ := Option.bind_eq_some_iff.1 settled
      exact (ih later middle after settled).trans (here d middle first)

theorem loadAll?_spares_iff {α : Type} {columns : List α} (load : α → Loaded) (idle : α → Prop)
    (spares : ∀ c ∈ columns, idle c → Spares P ((load c).1.load? Γ ty (load c).2))
    (breaks : ∀ c ∈ columns, ¬ idle c → ∀ d after,
      (load c).1.load? Γ ty (load c).2 d = some after → ¬ P after)
    {d after : Datum} (loads : loadAll? Γ ty (columns.map load) d = some after) :
    P after ↔ P d ∧ ∀ c ∈ columns, idle c := by
  induction columns generalizing d with
  | nil =>
      obtain rfl := Option.some.inj loads
      simp
  | cons head rest ih =>
      obtain ⟨middle, first, loads⟩ := Option.bind_eq_some_iff.1 loads
      obtain ⟨spare, spares⟩ := List.forall_mem_cons.1 spares
      obtain ⟨destroy, breaks⟩ := List.forall_mem_cons.1 breaks
      rw [ih spares breaks loads, List.forall_mem_cons]
      by_cases idles : idle head
      · simp [spare idles d middle first, idles]
      · simp [destroy idles d middle first, idles]

end Run

/-! ## The column of a field in the record -/

theorem Step.spares_absent {ty target : Ty} {path : Path} (reached : ty.at? Γ path = some target)
    (deep : 0 < target.layers) {s : Step} (apart : ∀ q ∈ s.path?, path.Apart q) (v : Value) :
    Spares (ty.heldAt Γ path · = .absent) (s.load? Γ ty v) ∧
      Spares (ty.heldAt Γ path · = .absent) (s.settle? Γ ty v) := by
  have ofChange : ∀ q ∈ s.path?, ∀ change,
      Spares (ty.heldAt Γ path · = .absent) (Ty.modifyPath? Γ change q ty) :=
    fun q writes change d after => Ty.absent_modifyPath? (apart q writes) reached deep
  constructor
  · rcases load?_cases Γ ty s v with idle | refuses | ⟨q, change, writes, loads⟩
    · exact idle ▸ spares_some _
    · exact fun d after loaded => by simp [refuses] at loaded
    · exact loads ▸ ofChange q writes change
  · rcases settle?_cases Γ ty s v with idle | ⟨q, change, writes, settles⟩
    · exact idle ▸ spares_some _
    · exact settles ▸ ofChange q writes change

namespace Plan

variable {ty field : Ty} {path : Path}

theorem stepTo_kept (reached : ty.at? Γ path = some field) (keeps : field.keepsOnNull Γ) :
    (stepTo Γ ty path).load? Γ ty .null = some ∧ (stepTo Γ ty path).settle? Γ ty .null = some := by
  rw [Ty.keepsOnNull_eq, Bool.and_eq_true, decide_eq_true_iff, Option.isSome_iff_exists] at keeps
  obtain ⟨deep, rule, ruled⟩ := keeps
  simp only [stepTo, reached, TypeInfo.strategy_info, ruled]
  constructor
  · funext root
    simp [Step.load?, Step.stageWith, Staged.fill_null, Except.toOption]
  · funext root
    simp [Step.settle?, Step.stageWith, Staged.fill_null, Except.toOption, Staged.isNull_empty,
      deep]

theorem stepTo_stored (reached : ty.at? Γ path = some field) (deep : 0 < field.layers)
    (stores : field.keepsOnNull Γ = false) (v : Value) :
    (stepTo Γ ty path).load? Γ ty v =
        Ty.modifyPath? Γ (fun target held => (target.store Γ held v).accepted?) path ty ∧
      (stepTo Γ ty path).settle? Γ ty v = some := by
  have unruled : (field.base.info Γ).rule? = none := by
    simpa [Ty.keepsOnNull_eq, deep] using stores
  simp only [stepTo, reached, TypeInfo.strategy_info, unruled]
  exact ⟨rfl, Step.settle?_unstaged rfl⟩

end Plan

namespace FieldTable

variable {ty target : Ty} {depth : Nat} {table : FieldTable} {path : Path}

/-- A name leads, through what a path leads to, to a field of a type. -/
def LeadsThrough (Γ : Catalogue) (table : FieldTable) (ty : Ty) (path : Path) (name : String)
    (field : Ty) : Prop :=
  ∃ leaf, table.get? name = some leaf ∧ path <+: leaf ∧ ty.at? Γ leaf = some field

/-- The field of a name, if it is one of the record at a path, keeps its value on NULL. -/
def KeepsOut (Γ : Catalogue) (table : FieldTable) (ty : Ty) (path : Path) (name : String) : Prop :=
  ∀ field, table.LeadsThrough Γ ty path name field → field.keepsOnNull Γ

/-- Loading NULL makes an optional record that is taken in exactly if the name does not keep out of
    it. Settling never makes it. -/
theorem stepFor_absent (built : build Γ ty depth = .ok table) (taken : ty.TakenAt Γ path target)
    (deep : 0 < target.layers) {name : String} {v : Value}
    (null : ∀ field, table.LeadsThrough Γ ty path name field → v = .null ∧ 0 < field.layers) :
    Spares (ty.heldAt Γ path · = .absent) ((table.stepFor Γ ty name).settle? Γ ty v) ∧
      (table.KeepsOut Γ ty path name →
        Spares (ty.heldAt Γ path · = .absent) ((table.stepFor Γ ty name).load? Γ ty v)) ∧
      (¬ table.KeepsOut Γ ty path name → ∀ d after,
        (table.stepFor Γ ty name).load? Γ ty v d = some after →
          ty.heldAt Γ path after ≠ .absent) := by
  -- What does not lead through the record writes apart from it, whatever its value.
  by_cases through : ∃ field, table.LeadsThrough Γ ty path name field
  · obtain ⟨field, leaf, found, before, reached⟩ := through
    obtain ⟨rfl, optional⟩ := null field ⟨leaf, found, before, reached⟩
    cases keeps : field.keepsOnNull Γ with
    | true =>
        obtain ⟨loads, settles⟩ := Plan.stepTo_kept reached keeps
        simp only [stepFor, found, loads, settles]
        refine ⟨spares_some _, fun _ => spares_some _, fun enters => absurd ?_ enters⟩
        rintro field' ⟨leaf', found', -, reached'⟩
        obtain rfl := Option.some.inj (found.symm.trans found')
        obtain rfl := Option.some.inj (reached.symm.trans reached')
        exact keeps
    | false =>
        obtain ⟨loads, settles⟩ := Plan.stepTo_stored reached optional keeps .null
        simp only [stepFor, found, loads, settles]
        refine ⟨spares_some _, fun keepsOut => ?_, fun _ d after stored => ?_⟩
        · simp [keepsOut field ⟨leaf, found, before, reached⟩] at keeps
        · rcases (leafAt_of_get? built found).apart_or_through taken with apart | ⟨_, _, rfl⟩
          · exact absurd before apart.not_prefix
          · exact Ty.present_modifyPath? taken.at? deep stored
  · have apart : ∀ q ∈ (table.stepFor Γ ty name).path?, path.Apart q := fun q writes => by
      have found := path?_stepFor writes
      obtain ⟨field, reached⟩ := at?_of_get? built found
      rcases (leafAt_of_get? built found).apart_or_through taken with apart | ⟨index, rest, rfl⟩
      · exact apart
      · exact absurd ⟨field, _, found, List.prefix_append _ _, reached⟩ through
    obtain ⟨load, settle⟩ := Step.spares_absent taken.at? deep apart v
    exact ⟨settle, fun _ => load, fun enters => absurd (fun field leads =>
      absurd ⟨field, leads⟩ through) enters⟩

/-- What is loaded for a named column. -/
def loadFor (Γ : Catalogue) (table : FieldTable) (ty : Ty) (column : String × Value) : Loaded :=
  (table.stepFor Γ ty column.1, column.2)

/-- When NULL has been loaded for all columns of an optional record, and everything is settled, the
    record is absent exactly if all columns keep out of it. -/
theorem absent_of_loaded (built : build Γ ty depth = .ok table) (taken : ty.TakenAt Γ path target)
    (deep : 0 < target.layers) {columns : List (String × Value)}
    (null : ∀ column ∈ columns, ∀ field, table.LeadsThrough Γ ty path column.1 field →
      column.2 = .null ∧ 0 < field.layers)
    {middle value : Datum}
    (loads : loadAll? Γ ty (columns.map (table.loadFor Γ ty)) (ty.initial Γ) = some middle)
    (settles : settleAll? Γ ty (columns.map (table.loadFor Γ ty)) middle = some value) :
    ty.heldAt Γ path value = .absent ↔
      ∀ column ∈ columns, table.KeepsOut Γ ty path column.1 := by
  have each := fun column member => stepFor_absent built taken deep (null column member)
  have spared : Spares (ty.heldAt Γ path · = .absent)
      (settleAll? Γ ty (columns.map (table.loadFor Γ ty))) :=
    settleAll?_spares (List.forall_mem_map.2 fun column member => (each column member).1)
  have kept := loadAll?_spares_iff (table.loadFor Γ ty)
    (fun column => table.KeepsOut Γ ty path column.1)
    (fun column member => (each column member).2.1)
    (fun column member => (each column member).2.2) loads
  have start : ty.heldAt Γ path (ty.initial Γ) = .absent :=
    Ty.heldAt_initialWith taken.at? deep _
  calc ty.heldAt Γ path value = .absent
    _ ↔ ty.heldAt Γ path middle = .absent := spared middle value settles
    _ ↔ ∀ column ∈ columns, table.KeepsOut Γ ty path column.1 := by
        rw [kept, and_iff_right start]

end FieldTable

/-! ## A row -/

namespace Reader

section Row

variable {σ : Type} {config : Config} {reader : Reader} {ty : Ty} {cursor : Cursor σ}
  {state : σ} {labels : List String} {row : List Value} {value : Datum}

theorem length_of_readBy {plan : Plan} {after : σ}
    (fed : ∀ width, cursor.scan state width = .ofValues after width row)
    (read : (readBy Γ plan ty cursor state).1 = .ok value) : row.length = plan.steps.length := by
  by_contra other
  simp [readBy, fed, Feed.ofValues, RowSlots.width, RowSlots.start, other, Feed.run] at read

theorem readBy_of_readRow (offers : cursor.Offers state labels row)
    (read : (reader.readRow Γ ty cursor state).1 = .ok value) :
    ∃ plan asked after, (reader.plan Γ ty labels).1 = .ok plan ∧
      (∀ width, cursor.scan asked width = .ofValues after width row) ∧
      (readBy Γ plan ty cursor asked).1 = .ok value := by
  obtain ⟨asked, after, told, fed⟩ := offers
  simp only [readRow, planCursor, told] at read
  cases planned : (reader.plan Γ ty labels).1 with
  | error error => simp [planned] at read
  | ok plan => exact ⟨plan, asked, after, rfl, fed, by simpa [planned] using read⟩

theorem loaded_of_readRow {table : FieldTable} (sound : reader.Sound Γ config.maxDepth.toNat)
    (offers : cursor.Offers state labels row) (record : ty.isRecord Γ)
    (built : FieldTable.build Γ ty config.maxDepth.toNat = .ok table)
    (read : (reader.readRow Γ ty cursor state).1 = .ok value) :
    labels.length = row.length ∧ ∃ middle,
      loadAll? Γ ty (((labels.map normalizeLabel).zip row).map (table.loadFor Γ ty))
        (ty.initial Γ) = some middle ∧
      settleAll? Γ ty (((labels.map normalizeLabel).zip row).map (table.loadFor Γ ty)) middle =
        some value := by
  obtain ⟨plan, asked, after, planned, fed, read⟩ := readBy_of_readRow offers read
  have made := (plan_sound sound ty labels).1.symm.trans planned
  obtain ⟨table', built', steps⟩ := Plan.steps_of_record record made
  obtain rfl := Except.ok.inj (built.symm.trans built')
  have complete : labels.length = row.length := by
    simp [length_of_readBy fed read, steps, Columns.ofLabels]
  generalize zipped : (labels.map normalizeLabel).zip row = columns
  have names : columns.map (·.1) = labels.map normalizeLabel := by
    rw [← zipped, List.map_fst_zip (by simp [complete])]
  have values : (columns.map (table.loadFor Γ ty)).map (·.2) = row := by
    rw [List.map_map, ← zipped]
    exact List.map_snd_zip (by simp [complete])
  have planned' : plan.steps = (columns.map (table.loadFor Γ ty)).map (·.1) := by
    rw [steps, Columns.ofLabels, ← names, List.map_map, List.map_map]
    rfl
  have ran : (readBy Γ plan ty cursor asked).1.toOption = _ :=
    readBy_eq planned' (by rw [fed, values])
  rw [read] at ran
  exact ⟨complete, Option.bind_eq_some_iff.1 ran.symm⟩

/-- A row brings NULL for every field of a record that is taken in behind an optional layer, and
    each of these fields is optional itself. Then the record is absent from the value that is read
    exactly if all these fields keep their values on NULL. -/
theorem absent_iff_keepsOut {target : Ty} {path : Path} {table : FieldTable}
    (used : Used Γ config.reader reader) (offers : cursor.Offers state labels row)
    (taken : ty.TakenAt Γ path target) (deep : 0 < target.layers)
    (tabled : (reader.fieldTable Γ ty).1 = .ok table)
    (null : ∀ column ∈ (labels.map normalizeLabel).zip row, ∀ field,
      table.LeadsThrough Γ ty path column.1 field → column.2 = .null ∧ 0 < field.layers)
    (read : (reader.readRow Γ ty cursor state).1 = .ok value) :
    ty.heldAt Γ path value = .absent ↔
      ∀ label ∈ labels, table.KeepsOut Γ ty path (normalizeLabel label) := by
  have sound := used_sound (sound_new config.maxDepth.toNat) used
  have built := (fieldTable_sound sound ty).1.symm.trans tabled
  obtain ⟨complete, middle, loads, settles⟩ :=
    loaded_of_readRow sound offers taken.isRecord built read
  have names : ((labels.map normalizeLabel).zip row).map (·.1) = labels.map normalizeLabel :=
    List.map_fst_zip (by simp [complete])
  calc ty.heldAt Γ path value = .absent
    _ ↔ ∀ column ∈ (labels.map normalizeLabel).zip row, table.KeepsOut Γ ty path column.1 :=
        FieldTable.absent_of_loaded built taken deep null loads settles
    _ ↔ ∀ name ∈ ((labels.map normalizeLabel).zip row).map (·.1), table.KeepsOut Γ ty path name :=
        List.forall_mem_map.symm
    _ ↔ ∀ label ∈ labels, table.KeepsOut Γ ty path (normalizeLabel label) := by
        rw [names, List.forall_mem_map]

end Row

theorem absent_iff_keepsOut_score :
    let Γ : Catalogue := { records := [
      ("game", [⟨"Id", .int .w32, "", true, false⟩,
        ⟨"Best", .boxed (.optional (.record "result")), "", true, true⟩]),
      ("result", [⟨"Score", .optional (.int .w16), "", true, false⟩])] }
    let ty : Ty := .record "game"
    let table : Table := { columns := ["ID", "score"], rows := [[.int 7, .null]] }
    let fields : FieldTable := ⟨[("id", [0]), ("score", [1, 0])]⟩
    let value : Datum := .record [.whole 7, .absent]
    (({} : Config).reader.fieldTable Γ ty).1 = .ok fields ∧
      (({} : Config).reader.readRow Γ ty table.cursor (some 0)).1 = .ok value ∧
      (ty.heldAt Γ [1] value = .absent ↔
        ∀ label ∈ table.columns, fields.KeepsOut Γ ty [1] (normalizeLabel label)) := by
  intro Γ ty table fields value
  have tabled : (({} : Config).reader.fieldTable Γ ty).1 = .ok fields := rfl
  have read : (({} : Config).reader.readRow Γ ty table.cursor (some 0)).1 = .ok value := rfl
  have taken : ty.TakenAt Γ [1] (.boxed (.optional (.record "result"))) :=
    @Ty.TakenAt.here Γ ty 1 ⟨"Best", _, "", true, true⟩ ⟨_, rfl, rfl⟩ rfl
  have offers : table.cursor.Offers (some 0) table.columns [.int 7, .null] :=
    Table.cursor_offers rfl rfl
  refine ⟨tabled, read, absent_iff_keepsOut .refl offers taken (by decide) tabled ?_ read⟩
  rintro column member field ⟨leaf, found, through, reached⟩
  rcases List.mem_cons.1 member with rfl | member
  · obtain rfl := Option.some.inj found
    simp at through
  · obtain rfl := List.mem_singleton.1 member
    obtain rfl := Option.some.inj found
    obtain rfl := Option.some.inj reached
    exact ⟨rfl, by decide⟩

/-- NULL for an optional truth value makes the optional record that it is in. -/
theorem present_of_null_flag :
    let Γ : Catalogue := { records := [
      ("outer", [⟨"Sub", .optional (.record "inner"), "", true, true⟩]),
      ("inner", [⟨"Flag", .optional .bool, "", true, false⟩])] }
    let ty : Ty := .record "outer"
    let fields : FieldTable := ⟨[("flag", [0, 0])]⟩
    let table : Table := { columns := ["flag"], rows := [[.null]] }
    let value : Datum := .record [.present (.record [.absent])]
    ty.TakenAt Γ [0] (.optional (.record "inner")) ∧
      (({} : Config).reader.fieldTable Γ ty).1 = .ok fields ∧
      (∀ column ∈ [("flag", Value.null)], ∀ field, fields.LeadsThrough Γ ty [0] column.1 field →
        column.2 = .null ∧ 0 < field.layers) ∧
      (({} : Config).reader.readRow Γ ty table.cursor (some 0)).1 = .ok value ∧
      ty.heldAt Γ [0] value ≠ .absent := by
  intro Γ ty fields table value
  have taken : ty.TakenAt Γ [0] (.optional (.record "inner")) :=
    @Ty.TakenAt.here Γ ty 0 ⟨"Sub", _, "", true, true⟩ ⟨_, rfl, rfl⟩ rfl
  refine ⟨taken, rfl, ?_, rfl, Datum.noConfusion⟩
  rintro column member field ⟨leaf, found, -, reached⟩
  obtain rfl := List.mem_singleton.1 member
  obtain rfl := Option.some.inj found
  obtain rfl := Option.some.inj reached
  exact ⟨rfl, by decide⟩

end Reader

end SqlMarshal
