import SqlMarshal.Cursor.Table
import SqlMarshal.Proofs.Cursor.CachedPlans
import SqlMarshal.Proofs.Row.LeafPaths
import SqlMarshal.Proofs.Row.SlotsRun
import SqlMarshal.Proofs.Row.StagedStore

/-! # Rows read in one pass

Plans, stages and the late conversion of staged values make no difference to what is read. One could
as well go through the columns once and let the field of each store its value at once, as long as
fields that are NULL behind an optional layer are left alone where the plan would stage them.

There are two things to see. A column by itself comes to the same, because staging a value and
converting it is storing it. And the order comes to the same: columns with different names write
apart, and columns with one name have one step, which writes when it loads or when it settles but
not both times. So a conversion can be moved before everything that is loaded after its column.
-/

namespace SqlMarshal

variable {Γ : Catalogue}

/-! ## The reader in one pass -/

/-- Whether a field of the type keeps what it holds when NULL comes: a number or text without a
    decoder, behind at least one optional layer. -/
def Ty.keepsOnNull (Γ : Catalogue) (ty : Ty) : Bool :=
  decide (0 < ty.layers) && !ty.base.decodes &&
    match ty.base.kind Γ with
    | .int _ | .uint _ | .single | .double | .text => true
    | _ => false

namespace OnePass

/-- Lets the field at a path store the value of its column. -/
def take? (Γ : Catalogue) (ty : Ty) (path : Path) (v : Value) (d : Datum) : Option Datum :=
  if v = .null ∧ (ty.at? Γ path).any (·.keepsOnNull Γ) then some d
  else (ty.writeAt Γ path (fun field held => field.store Γ held v) d).accepted?

/-- Takes the values of named columns in order; `find` is the path that a name leads to. -/
def takeAll? (Γ : Catalogue) (ty : Ty) (find : String → Option Path) :
    List (String × Value) → Datum → Option Datum
  | [], d => some d
  | (name, v) :: rest, d =>
      match find name with
      | none => takeAll? Γ ty find rest d
      | some path => (take? Γ ty path v d).bind (takeAll? Γ ty find rest)

/-- Reads a row into a new value: a record by the names of its fields, anything else as a whole. -/
def read? (Γ : Catalogue) (depth : Nat) (ty : Ty) (labels : List String) (row : List Value) :
    Option Datum :=
  let columns := (labels.map normalizeLabel).zip row
  if ty.isRecord Γ then
    (FieldTable.build Γ ty depth).toOption.bind fun table =>
      takeAll? Γ ty table.get? columns (ty.initial Γ)
  else
    takeAll? Γ ty (fun _ => some []) columns (ty.initial Γ)

end OnePass

/-! ## A column by itself -/

theorem TypeInfo.strategy_info (ty : Ty) :
    (ty.info Γ).strategy Γ =
      match (ty.base.info Γ).rule? with
      | some rule => .staged ⟨rule, ty.layers⟩
      | none => .direct := by
  cases ruled : (ty.base.info Γ).rule? <;> simp [strategy, Ty.peel_info, ruled]

theorem Ty.keepsOnNull_eq (ty : Ty) :
    ty.keepsOnNull Γ = (decide (0 < ty.layers) && (ty.base.info Γ).rule?.isSome) := by
  unfold keepsOnNull
  rw [Bool.and_assoc]
  congr 1
  cases decodes : ty.base.decodes with
  | true => simp [TypeInfo.rule?, info, decodes]
  | false => cases kind : ty.base.kind Γ <;> simp [TypeInfo.rule?, info, decodes, kind]

theorem Ty.layers_of_keepsOnNull {ty : Ty} (keeps : ty.keepsOnNull Γ) : 0 < ty.layers := by
  rw [keepsOnNull_eq, Bool.and_eq_true, decide_eq_true_iff] at keeps
  exact keeps.1

theorem Staged.fill_null (family : Family) : fill family .null = .ok (.empty family) := by
  cases family <;> rfl

theorem Staged.isNull_empty (family : Family) : (empty family).isNull := by
  cases family <;> rfl

namespace OnePass

variable {ty field : Ty} {path : Path} {v : Value} {d : Datum}

theorem take?_kept (reached : ty.at? Γ path = some field) (null : v = .null)
    (keeps : field.keepsOnNull Γ) : take? Γ ty path v d = some d := by
  rw [take?, if_pos ⟨null, by simpa [reached] using keeps⟩]

theorem take?_stored (reached : ty.at? Γ path = some field)
    (stores : v = .null → field.keepsOnNull Γ = false) :
    take? Γ ty path v d =
      Ty.modifyPath? Γ (fun target held => (target.store Γ held v).accepted?) path ty d := by
  rw [take?, if_neg, Ty.accepted?_writeAt]
  rintro ⟨null, keeps⟩
  simp [reached, stores null] at keeps

theorem take?_of_staged {rule : ConversionRule} (reached : ty.at? Γ path = some field)
    (ruled : (field.base.info Γ).rule? = some rule) :
    ((Step.staged path ⟨rule, field.layers⟩).load? Γ ty v d).bind
        ((Step.staged path ⟨rule, field.layers⟩).settle? Γ ty v) =
      take? Γ ty path v d := by
  have picked : (field.info Γ).strategy Γ = .staged ⟨rule, field.layers⟩ := by
    simp only [TypeInfo.strategy_info, ruled]
  by_cases kept : v = .null ∧ 0 < field.layers
  · obtain ⟨rfl, deep⟩ := kept
    rw [take?_kept reached rfl (by simp [Ty.keepsOnNull_eq, ruled, deep])]
    simp [Step.load?, Step.settle?, Step.stageWith, Staged.fill_null, Except.toOption,
      Staged.isNull_empty, deep]
  · have solid : v = .null → field.layers = 0 := fun null => by
      by_contra deep
      exact kept ⟨null, Nat.pos_of_ne_zero deep⟩
    have agree := Conversion.accepted?_apply picked solid
    rw [take?_stored reached fun null => by simp [Ty.keepsOnNull_eq, solid null]]
    cases filled : Staged.fill rule.family v with
    | error fault =>
        have refused : ∀ target, ty.at? Γ path = some target → ∀ held,
            (target.store Γ held v).accepted? = none := by
          intro target reached' held
          obtain rfl := Option.some.inj (reached.symm.trans reached')
          simpa [filled, Except.toOption] using (agree held).symm
        rw [Ty.modifyPath?_congr refused, Ty.modifyPath?_none]
        simp [Step.load?, Step.stageWith, filled, Except.toOption]
    | ok staged =>
        have present : ¬ (staged.isNull ∧ 0 < field.layers) := by
          rintro ⟨null, deep⟩
          exact kept ⟨(Staged.isNull_of_fill filled).1 null, deep⟩
        have converts : ∀ target, ty.at? Γ path = some target → ∀ held,
            (target.store Γ held v).accepted? =
              (Conversion.apply Γ ⟨rule, field.layers⟩ staged target held).accepted? := by
          intro target reached' held
          obtain rfl := Option.some.inj (reached.symm.trans reached')
          simpa [filled, Except.toOption] using (agree held).symm
        rw [Ty.modifyPath?_congr converts]
        simp [Step.load?, Step.settle?, Step.stageWith, filled, Except.toOption, present]

theorem take?_of_stepTo (reached : ty.at? Γ path = some field) :
    ((Plan.stepTo Γ ty path).load? Γ ty v d).bind ((Plan.stepTo Γ ty path).settle? Γ ty v) =
      take? Γ ty path v d := by
  simp only [Plan.stepTo, reached, TypeInfo.strategy_info]
  cases ruled : (field.base.info Γ).rule? with
  | some rule => exact take?_of_staged reached ruled
  | none =>
      rw [take?_stored reached fun _ => by simp [Ty.keepsOnNull_eq, ruled]]
      simp [Step.load?, Step.settle?_unstaged (rfl : (Step.direct path).stageWith v = none)]

theorem take?_of_whole (decodes : ty.base.decodes) :
    (Step.whole.load? Γ ty v d).bind (Step.whole.settle? Γ ty v) = take? Γ ty [] v d := by
  rw [take?_stored (rfl : ty.at? Γ [] = some ty) fun _ => by simp [Ty.keepsOnNull, decodes]]
  simp [Step.load?, Step.settle?_unstaged (rfl : Step.whole.stageWith v = none), Ty.modifyPath?]

end OnePass

/-! ## The order of columns -/

namespace Step

/-- The path that a step writes along. -/
def path? : Step → Option Path
  | .drop => none
  | .direct path => some path
  | .staged path _ => some path
  | .whole => some []

/-- Two steps write apart. -/
def Apart (s t : Step) : Prop :=
  ∀ p ∈ s.path?, ∀ q ∈ t.path?, Path.Apart p q

/-- What one step settles can wait for what the other one loads. -/
def Waits (s t : Step) : Prop :=
  s.Apart t ∨ s = t

variable {ty : Ty} {s t : Step} {v w : Value}

theorem settle?_cases (Γ : Catalogue) (ty : Ty) (s : Step) (v : Value) :
    s.settle? Γ ty v = some ∨
      ∃ path change, s.path? = some path ∧ s.settle? Γ ty v = Ty.modifyPath? Γ change path ty := by
  cases filled : s.stageWith v with
  | none => exact .inl (settle?_unstaged filled)
  | some content =>
      cases s with
      | staged path conversion =>
          by_cases null : content.isNull ∧ 0 < conversion.layers
          · exact .inl (funext fun root => by simp [settle?, filled, null])
          · refine .inr ⟨path, fun field held => (conversion.apply Γ content field held).accepted?,
              rfl, funext fun root => ?_⟩
            simp only [settle?, filled, if_neg null]
      | _ => simp [stageWith] at filled

theorem load?_cases (Γ : Catalogue) (ty : Ty) (t : Step) (w : Value) :
    t.load? Γ ty w = some ∨ (∀ root, t.load? Γ ty w root = none) ∨
      ∃ path change, t.path? = some path ∧ t.load? Γ ty w = Ty.modifyPath? Γ change path ty := by
  cases t with
  | drop => exact .inl rfl
  | direct path => exact .inr (.inr ⟨path, _, rfl, rfl⟩)
  | whole => exact .inr (.inr ⟨[], fun field held => (field.store Γ held w).accepted?, rfl, rfl⟩)
  | staged path conversion =>
      cases filled : (staged path conversion).stageWith w with
      | none => exact .inr (.inl fun root => by simp [load?, filled])
      | some content => exact .inl (funext fun root => by simp [load?, filled])

theorem settle?_comm_load?_self (s : Step) (d : Datum) :
    (s.settle? Γ ty v d).bind (s.load? Γ ty w) = (s.load? Γ ty w d).bind (s.settle? Γ ty v) := by
  cases s with
  | staged path conversion =>
      have loads : (staged path conversion).load? Γ ty w =
          fun root => ((staged path conversion).stageWith w).map fun _ => root := rfl
      rw [loads]
      cases (staged path conversion).stageWith w <;> simp
  | drop | direct | whole =>
      rw [settle?_unstaged (by rfl), Option.bind_fun_some]
      rfl

theorem settle?_comm_load? (waits : s.Waits t) (d : Datum) :
    (s.settle? Γ ty v d).bind (t.load? Γ ty w) = (t.load? Γ ty w d).bind (s.settle? Γ ty v) := by
  obtain apart | rfl := waits
  · rcases settle?_cases Γ ty s v with idle | ⟨p, change, placed, settles⟩
    · simp [idle]
    · rcases load?_cases Γ ty t w with idle | refuses | ⟨q, change', placed', loads⟩
      · simp [idle]
      · rw [refuses, Option.bind_none]
        cases s.settle? Γ ty v d with
        | none => rfl
        | some root => exact refuses root
      · rw [settles, loads]
        exact Ty.modifyPath?_comm (apart p placed q placed')
  · exact settle?_comm_load?_self s d

end Step

section Order

variable {ty : Ty}

/-- A conversion can wait for all loads that come after its column. -/
theorem settle?_comm_loadAll? {s : Step} {v : Value} {loaded : List Loaded}
    (waits : ∀ next ∈ loaded, s.Waits next.1) (d : Datum) :
    (s.settle? Γ ty v d).bind (loadAll? Γ ty loaded) =
      (loadAll? Γ ty loaded d).bind (s.settle? Γ ty v) := by
  induction loaded generalizing d with
  | nil => exact Option.bind_fun_some _
  | cons head rest ih =>
      obtain ⟨t, w⟩ := head
      obtain ⟨here, later⟩ := List.forall_mem_cons.1 waits
      calc
        (s.settle? Γ ty v d).bind (loadAll? Γ ty ((t, w) :: rest))
          = ((s.settle? Γ ty v d).bind (t.load? Γ ty w)).bind (loadAll? Γ ty rest) :=
            (Option.bind_assoc ..).symm
        _ = ((t.load? Γ ty w d).bind (s.settle? Γ ty v)).bind (loadAll? Γ ty rest) := by
            rw [Step.settle?_comm_load? here]
        _ = (t.load? Γ ty w d).bind fun d =>
              (loadAll? Γ ty rest d).bind (s.settle? Γ ty v) := by
            rw [Option.bind_assoc]
            exact congrArg _ (funext (ih later))
        _ = (loadAll? Γ ty ((t, w) :: rest) d).bind (s.settle? Γ ty v) :=
            (Option.bind_assoc ..).symm

/-- To load all columns and then to settle them is to take them one after another. -/
theorem takeAll?_of_steps (find : String → Option Path) (stepFor : String → Step)
    (each : ∀ name v d,
      ((stepFor name).load? Γ ty v d).bind ((stepFor name).settle? Γ ty v) =
        match find name with
        | none => some d
        | some path => OnePass.take? Γ ty path v d)
    {columns : List (String × Value)}
    (waits : columns.Pairwise fun a b => (stepFor a.1).Waits (stepFor b.1)) (d : Datum) :
    (loadAll? Γ ty (columns.map fun column => (stepFor column.1, column.2)) d).bind
        (settleAll? Γ ty (columns.map fun column => (stepFor column.1, column.2))) =
      OnePass.takeAll? Γ ty find columns d := by
  induction waits generalizing d with
  | nil => rfl
  | @cons head rest fromHead _ ih =>
      obtain ⟨name, v⟩ := head
      let loaded := rest.map fun column => (stepFor column.1, column.2)
      have waiting : ∀ next ∈ loaded, (stepFor name).Waits next.1 := by
        intro next member
        obtain ⟨column, inRest, rfl⟩ := List.mem_map.1 member
        exact fromHead column inRest
      calc
        (((stepFor name).load? Γ ty v d).bind (loadAll? Γ ty loaded)).bind
            (fun d => ((stepFor name).settle? Γ ty v d).bind (settleAll? Γ ty loaded))
          = ((stepFor name).load? Γ ty v d).bind fun d =>
              ((loadAll? Γ ty loaded d).bind ((stepFor name).settle? Γ ty v)).bind
                (settleAll? Γ ty loaded) := by
            simp only [Option.bind_assoc]
        _ = ((stepFor name).load? Γ ty v d).bind fun d =>
              (((stepFor name).settle? Γ ty v d).bind (loadAll? Γ ty loaded)).bind
                (settleAll? Γ ty loaded) := by
            simp only [settle?_comm_loadAll? waiting]
        _ = (((stepFor name).load? Γ ty v d).bind ((stepFor name).settle? Γ ty v)).bind fun d =>
              (loadAll? Γ ty loaded d).bind (settleAll? Γ ty loaded) := by
            simp only [Option.bind_assoc]
        _ = OnePass.takeAll? Γ ty find ((name, v) :: rest) d := by
            rw [each, OnePass.takeAll?]
            cases find name with
            | none => exact ih d
            | some path => exact congrArg _ (funext ih)

end Order

/-! ## The whole row -/

/-- The cursor has a row to offer: it tells the labels of the columns and feeds the values. -/
def Cursor.Offers {σ : Type} (cursor : Cursor σ) (state : σ) (labels : List String)
    (row : List Value) : Prop :=
  ∃ asked after, cursor.columns state = (.ok labels, asked) ∧
    ∀ width, cursor.scan asked width = .ofValues after width row

theorem Table.cursor_offers {table : Table} (told : table.columnsError = none) {position : Nat}
    {row : List Value} (here : table.rows[position]? = some row) :
    table.cursor.Offers (some position) table.columns row :=
  ⟨some position, some position, by simp [cursor, told], fun width => by simp [cursor, here]⟩

/-- The step of a column in the plan of a record. -/
def FieldTable.stepFor (Γ : Catalogue) (ty : Ty) (table : FieldTable) (name : String) : Step :=
  match table.get? name with
  | some path => Plan.stepTo Γ ty path
  | none => .drop

theorem Plan.path?_stepTo {ty : Ty} {path written : Path}
    (writes : written ∈ (stepTo Γ ty path).path?) : written = path := by
  unfold stepTo at writes
  split at writes
  · simp [Step.path?] at writes
  · split at writes <;> simpa [Step.path?] using writes.symm

namespace FieldTable

variable {ty : Ty} {depth : Nat} {table : FieldTable}

theorem path?_stepFor {name : String} {path : Path}
    (writes : path ∈ (table.stepFor Γ ty name).path?) : table.get? name = some path := by
  unfold stepFor at writes
  split at writes
  · rename_i found
    rw [found, Plan.path?_stepTo writes]
  · simp [Step.path?] at writes

theorem stepFor_apart (built : build Γ ty depth = .ok table) {left right : String}
    (different : left ≠ right) : (table.stepFor Γ ty left).Apart (table.stepFor Γ ty right) :=
  fun _ writesLeft _ writesRight =>
    apart_of_get? built different (path?_stepFor writesLeft) (path?_stepFor writesRight)

theorem stepFor_waits (built : build Γ ty depth = .ok table) (left right : String) :
    (table.stepFor Γ ty left).Waits (table.stepFor Γ ty right) := by
  by_cases same : left = right
  · exact .inr (congrArg _ same)
  · exact .inl (stepFor_apart built same)

theorem take?_of_stepFor (built : build Γ ty depth = .ok table) (name : String) (v : Value)
    (d : Datum) :
    ((table.stepFor Γ ty name).load? Γ ty v d).bind ((table.stepFor Γ ty name).settle? Γ ty v) =
      match table.get? name with
      | none => some d
      | some path => OnePass.take? Γ ty path v d := by
  cases found : table.get? name with
  | none => simp [stepFor, found, Step.load?, Step.settle?]
  | some path =>
      obtain ⟨field, reached⟩ := at?_of_get? built found
      simpa only [stepFor, found] using OnePass.take?_of_stepTo reached

end FieldTable

theorem Plan.anew_of_table {depth : Nat} {ty : Ty} {columns : Columns} {table : FieldTable}
    (record : ty.isRecord Γ) (built : FieldTable.build Γ ty depth = .ok table)
    (some : columns.names ≠ []) :
    Plan.anew Γ depth ty columns = .ok (Plan.ofRecord Γ ty columns table) := by
  rw [anew, if_neg some, if_pos record, built]
  simp only [Except.bind, build, if_neg some, if_pos record]

theorem Plan.steps_of_record {depth : Nat} {ty : Ty} {columns : Columns} {plan : Plan}
    (record : ty.isRecord Γ) (made : Plan.anew Γ depth ty columns = .ok plan) :
    ∃ table, FieldTable.build Γ ty depth = .ok table ∧
      plan.steps = columns.names.map (table.stepFor Γ ty) := by
  simp only [Plan.anew, if_pos record] at made
  split at made
  · simp at made
  · rename_i named
    cases built : FieldTable.build Γ ty depth with
    | error error => simp [built, Except.bind] at made
    | ok table =>
        simp only [built, Except.bind, Plan.build, if_neg named, if_pos record] at made
        obtain rfl := Except.ok.inj made
        exact ⟨table, rfl, rfl⟩

/-- The step of the only column of what is no record. -/
def Plan.onlyStep (Γ : Catalogue) (ty : Ty) : Step :=
  if ty.base.decodes then .whole else stepTo Γ ty []

theorem Plan.steps_of_scalar {depth : Nat} {ty : Ty} {columns : Columns} {plan : Plan}
    (scalar : ¬ ty.isRecord Γ) (made : Plan.anew Γ depth ty columns = .ok plan) :
    columns.names.length = 1 ∧ plan.steps = [onlyStep Γ ty] := by
  simp only [Plan.anew, if_neg scalar] at made
  split at made
  · simp at made
  · rename_i named
    simp only [Plan.build, if_neg named, Plan.ofScalar] at made
    split at made
    · rename_i single
      obtain rfl := Except.ok.inj made
      exact ⟨single, rfl⟩
    · simp at made

theorem OnePass.take?_of_onlyStep {ty : Ty} (v : Value) (d : Datum) :
    ((Plan.onlyStep Γ ty).load? Γ ty v d).bind ((Plan.onlyStep Γ ty).settle? Γ ty v) =
      take? Γ ty [] v d := by
  unfold Plan.onlyStep
  split
  · exact take?_of_whole ‹_›
  · exact take?_of_stepTo rfl

theorem OnePass.read?_of_steps {depth : Nat} {ty : Ty} {labels : List String} {row : List Value}
    {plan : Plan} (distinct : (labels.map normalizeLabel).Nodup)
    (complete : row.length = labels.length)
    (made : Plan.anew Γ depth ty (.ofLabels labels) = .ok plan) :
    ∃ loaded : List Loaded, plan.steps = loaded.map (·.1) ∧ loaded.map (·.2) = row ∧
      (loadAll? Γ ty loaded (ty.initial Γ)).bind (settleAll? Γ ty loaded) =
        read? Γ depth ty labels row := by
  let columns := (labels.map normalizeLabel).zip row
  have names : columns.map (·.1) = labels.map normalizeLabel :=
    List.map_fst_zip (by simp [complete])
  have values : columns.map (·.2) = row := List.map_snd_zip (by simp [complete])
  by_cases record : ty.isRecord Γ
  · obtain ⟨table, built, steps⟩ := Plan.steps_of_record record made
    refine ⟨columns.map fun column => (table.stepFor Γ ty column.1, column.2), ?_, ?_, ?_⟩
    · rw [steps, Columns.ofLabels, ← names]
      simp
    · rw [List.map_map]
      exact values
    · have waits : columns.Pairwise fun a b =>
          (table.stepFor Γ ty a.1).Waits (table.stepFor Γ ty b.1) := by
        rw [← names] at distinct
        exact (List.pairwise_map.1 distinct).imp fun different =>
          .inl (FieldTable.stepFor_apart built different)
      rw [takeAll?_of_steps table.get? (table.stepFor Γ ty) (FieldTable.take?_of_stepFor built)
        waits, read?, if_pos record, built]
      rfl
  · obtain ⟨single, steps⟩ := Plan.steps_of_scalar record made
    have short : columns.length = 1 := by
      rw [← List.length_map, names]
      exact single
    obtain ⟨column, only⟩ := List.length_eq_one_iff.1 short
    refine ⟨columns.map fun (_, v) => (Plan.onlyStep Γ ty, v), ?_, ?_, ?_⟩
    · rw [steps, only]
      rfl
    · rw [List.map_map]
      exact values
    · rw [takeAll?_of_steps (fun _ => some []) (fun _ => Plan.onlyStep Γ ty)
        (fun _ => take?_of_onlyStep) (by simp [only]), read?, if_neg record]

/-- A new reader reads a row as if its columns were taken in one pass, provided that their names are
    distinct. -/
theorem Reader.readRow_eq_onePass {σ : Type} {config : Config} {ty : Ty} {labels : List String}
    {row : List Value} {cursor : Cursor σ} {state : σ} {plan : Plan}
    (offers : cursor.Offers state labels row) (distinct : (labels.map normalizeLabel).Nodup)
    (complete : row.length = labels.length)
    (planned : (config.reader.plan Γ ty labels).1 = .ok plan) :
    (config.reader.readRow Γ ty cursor state).1.toOption =
      OnePass.read? Γ config.maxDepth.toNat ty labels row := by
  obtain ⟨asked, after, told, fed⟩ := offers
  have made := (plan_sound (sound_new config.maxDepth.toNat) ty labels).1.symm.trans planned
  obtain ⟨loaded, steps, rfl, taken⟩ := OnePass.read?_of_steps distinct complete made
  rw [← taken, ← readBy_eq steps (fed plan.steps.length)]
  simp only [readRow, planCursor, told, planned]

theorem Reader.readRow_user :
    let Γ : Catalogue := { records := [("user",
      [⟨"Id", .int .w32, "", true, false⟩, ⟨"Nick", .optional .text, "", true, false⟩,
        ⟨"Active", .boxed .bool, "", true, false⟩])] }
    let row : List Value := [.null, .int 5, .bool true, .text "7"]
    let table : Table := { columns := ["NICK", "other", "active", "[id]"], rows := [row] }
    let read := (({} : Config).reader.readRow Γ (.record "user") table.cursor (some 0)).1.toOption
    read = OnePass.read? Γ 32 (.record "user") table.columns row ∧
      read = some (.record [.whole 7, .absent, .bool true]) := by
  intro Γ row table read
  have same : read = _ :=
    readRow_eq_onePass (Table.cursor_offers rfl rfl) (by decide) rfl rfl
  exact ⟨same, by rw [same]; rfl⟩

end SqlMarshal
