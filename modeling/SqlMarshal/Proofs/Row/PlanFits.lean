import SqlMarshal.Proofs.Row.Misfits
import SqlMarshal.Proofs.Row.OnePass
import SqlMarshal.Proofs.Ty.Parts

/-! # Plans fit the values that are read by them

A plan is made of descriptions of types, and followed on values. Its paths and layers, its stages
and their families are all there on every value of the type, before and after any values have been
put into its columns. So no row that is read by a plan ends in a misfit, unless a decoder answers
with the words of one.
-/

namespace SqlMarshal

variable {Γ : Catalogue}

/-! ## Conversions -/

namespace Staged

theorem family_of_fill {family : Family} {v : Value} {staged : Staged}
    (filled : fill family v = .ok staged) : staged.family = family := by
  have ofMap : ∀ {α : Type} {converted : Except Fault (Option α)} {stage : Option α → Staged},
      (∀ content, (stage content).family = family) → converted.map stage = .ok staged →
        staged.family = family := by
    intro α converted stage each mapped
    cases converted with
    | error fault => simp [Except.map] at mapped
    | ok content =>
        obtain rfl := Except.ok.inj mapped
        exact each content
  cases family with
  | bytes | text =>
      obtain rfl := Except.ok.inj filled
      rfl
  | int | uint | float => exact ofMap (fun _ => rfl) filled

/-- A stage after one more value has come. A value that is refused leaves it as it is. -/
def refill (staged : Staged) (v : Value) : Staged :=
  (fill staged.family v).toOption.getD staged

theorem family_refill (staged : Staged) (v : Value) : (staged.refill v).family = staged.family := by
  unfold refill
  cases filled : fill staged.family v with
  | error fault => rfl
  | ok content => exact family_of_fill filled

theorem family_foldl_refill (values : List Value) (staged : Staged) :
    (values.foldl refill staged).family = staged.family := by
  induction values generalizing staged with
  | nil => rfl
  | cons v rest ih => rw [List.foldl_cons, ih, family_refill]

end Staged

theorem ConversionRule.admits_assign (wellFormed : Γ.WellFormed) {ty : Ty} {d : Datum}
    (rule : ConversionRule) (staged : Staged) (admits : ty.Admits Γ d) :
    ty.Admits Γ (rule.assign Γ staged ty d).1 := by
  unfold assign
  split
  · exact Ty.admits_assign wellFormed admits _
  · exact admits

theorem ConversionRule.assign_noMisfit {rule : ConversionRule} {staged : Staged}
    (same : staged.family = rule.family) (ty : Ty) (d : Datum) :
    (rule.assign Γ staged ty d).RefusedFor (·.isMisfit = false) := by
  unfold assign
  split
  · exact Ty.assign_noMisfit ty d _
  · rename_i fault refused
    exact refusedFor_refuse.2 (noMisfit_scalar same _ fault refused)

section Conversion

variable {field : Ty} {conversion : Conversion} {staged : Staged} {d : Datum}

theorem Conversion.layers_of_strategy (picked : (field.info Γ).strategy Γ = .staged conversion) :
    conversion.layers = field.layers := by
  rw [TypeInfo.strategy_info] at picked
  split at picked
  · obtain rfl := Strategy.staged.inj picked
    rfl
  · simp at picked

theorem Conversion.apply_part (wellFormed : Γ.WellFormed)
    (picked : (field.info Γ).strategy Γ = .staged conversion) (admits : field.Admits Γ d)
    (staged : Staged) :
    conversion.apply Γ staged field d = acceptWrite d ∨
      ∃ target, ∃ here : Part Γ field target,
        conversion.apply Γ staged field d = here.visit (conversion.rule.assign Γ staged) := by
  unfold apply
  split
  · exact .inl rfl
  · obtain ⟨target, -, -, here, visits⟩ := Ty.uncovers_base wellFormed admits
    rw [Conversion.layers_of_strategy picked]
    exact .inr ⟨target, here, visits _ _ 0⟩

theorem Conversion.admits_apply (wellFormed : Γ.WellFormed)
    (picked : (field.info Γ).strategy Γ = .staged conversion) (admits : field.Admits Γ d)
    (staged : Staged) : field.Admits Γ (conversion.apply Γ staged field d).1 := by
  rcases apply_part wellFormed picked admits staged with idle | ⟨target, here, assigned⟩
  · rwa [idle]
  · rw [assigned]
    exact here.admits_putBack _ (ConversionRule.admits_assign wellFormed _ _ here.admits_held)

theorem Conversion.apply_noMisfit (wellFormed : Γ.WellFormed)
    (picked : (field.info Γ).strategy Γ = .staged conversion) (admits : field.Admits Γ d)
    (same : staged.family = conversion.rule.family) :
    (conversion.apply Γ staged field d).RefusedFor (·.isMisfit = false) := by
  rcases apply_part wellFormed picked admits staged with idle | ⟨target, here, assigned⟩
  · simp [idle]
  · rw [assigned]
    exact ConversionRule.assign_noMisfit same target here.held

end Conversion

/-! ## Plans -/

/-- What a step needs of the type that is read: its path leads to a field, and the field is
    converted as the step says. -/
def Step.Fits (Γ : Catalogue) (ty : Ty) : Step → Prop
  | .direct path => ∃ field, ty.at? Γ path = some field
  | .staged path conversion =>
      ∃ field, ty.at? Γ path = some field ∧ (field.info Γ).strategy Γ = .staged conversion
  | .drop | .whole => True

theorem Step.Fits.reached {ty : Ty} {step : Step} (fits : step.Fits Γ ty) {path : Path}
    (writes : path ∈ step.path?) : ∃ field, ty.at? Γ path = some field := by
  cases step with
  | drop => simp [path?] at writes
  | direct =>
      obtain rfl := Option.some.inj writes
      exact fits
  | staged =>
      obtain rfl := Option.some.inj writes
      exact fits.imp fun _ => And.left
  | whole =>
      obtain rfl := Option.some.inj writes
      exact ⟨ty, rfl⟩

theorem Plan.stepTo_fits (ty : Ty) (path : Path) : (stepTo Γ ty path).Fits Γ ty := by
  unfold stepTo
  split
  · trivial
  · rename_i field reached
    split
    · exact ⟨field, reached⟩
    · rename_i conversion picked
      exact ⟨field, reached, picked⟩

theorem Plan.fits_of_anew {depth : Nat} {ty : Ty} {columns : Columns} {plan : Plan}
    (made : Plan.anew Γ depth ty columns = .ok plan) : ∀ step ∈ plan.steps, step.Fits Γ ty := by
  intro step member
  by_cases record : ty.isRecord Γ
  · obtain ⟨table, -, steps⟩ := steps_of_record record made
    rw [steps] at member
    obtain ⟨name, -, rfl⟩ := List.mem_map.1 member
    unfold FieldTable.stepFor
    split
    · exact stepTo_fits ty _
    · trivial
  · obtain ⟨-, steps⟩ := steps_of_scalar record made
    rw [steps, List.mem_singleton] at member
    subst member
    unfold onlyStep
    split
    · trivial
    · exact stepTo_fits ty []

theorem Plan.length_of_anew {depth : Nat} {ty : Ty} {columns : Columns} {plan : Plan}
    (made : Plan.anew Γ depth ty columns = .ok plan) :
    plan.steps.length = columns.names.length := by
  by_cases record : ty.isRecord Γ
  · obtain ⟨table, -, steps⟩ := steps_of_record record made
    simp [steps]
  · obtain ⟨single, steps⟩ := steps_of_scalar record made
    simp [steps, single]

theorem FieldTable.stepFor_eq_drop {ty : Ty} {depth : Nat} {table : FieldTable}
    (built : build Γ ty depth = .ok table) (name : String) :
    table.stepFor Γ ty name = .drop ↔ table.get? name = none := by
  unfold stepFor
  split
  · rename_i path found
    obtain ⟨field, reached⟩ := at?_of_get? built found
    simp only [found, reduceCtorEq, iff_false, Plan.stepTo, reached]
    split <;> simp
  · simp [*]

/-! ## Slots -/

namespace RowSlots

/-- The slots hold a value of the type, and for every column that goes through a stage there is one
    of its family. -/
structure Fitting (Γ : Catalogue) (plan : Plan) (ty : Ty) (slots : RowSlots) : Prop where
  samePlan : slots.plan = plan
  sameType : slots.type = ty
  root : ty.Admits Γ slots.root
  stages : ∀ (column : Nat) (path : Path) (conversion : Conversion),
    plan.steps[column]? = some (.staged path conversion) →
      ∃ staged, slots.stages[column]? = some (some staged) ∧
        staged.family = conversion.rule.family

/-- The slots after values have come for columns in any order, whether they were taken or not. -/
def afterPuts (Γ : Catalogue) (slots : RowSlots) (puts : List (Nat × Value)) : RowSlots :=
  puts.foldl (fun slots (column, v) => (slots.put Γ column v).1) slots

section Run

variable {plan : Plan} {ty : Ty} {slots : RowSlots} {column : Nat} {v : Value}

theorem fitting_start {root : Datum} (admits : ty.Admits Γ root) :
    (start plan ty root).Fitting Γ plan ty := by
  refine ⟨rfl, rfl, admits, fun column path conversion staged => ?_⟩
  exact ⟨.empty conversion.rule.family, by simp [start, staged, stageOf], Staged.family_empty _⟩

theorem Fitting.written (fitting : slots.Fitting Γ plan ty) {result : Written RowError}
    (admits : ty.Admits Γ result.1) : (slots.written result).1.Fitting Γ plan ty :=
  ⟨fitting.samePlan, fitting.sameType, admits, fitting.stages⟩

theorem Fitting.fillStage (fitting : slots.Fitting Γ plan ty) {path : Path}
    {conversion : Conversion} (planned : plan.steps[column]? = some (.staged path conversion))
    (v : Value) :
    (slots.fillStage column v).1.Fitting Γ plan ty ∧
      ∀ error, (slots.fillStage column v).2 = some error → error.Vouched Γ := by
  obtain ⟨staged, held, family⟩ := fitting.stages column path conversion planned
  simp only [RowSlots.fillStage, held]
  cases filled : Staged.fill staged.family v with
  | error fault =>
      refine ⟨fitting, fun error refused => ?_⟩
      obtain rfl := Option.some.inj refused
      exact RowError.vouched_conversion (Staged.noMisfit_fill _ _ fault filled)
  | ok content =>
      refine ⟨⟨fitting.samePlan, fitting.sameType, fitting.root, ?_⟩, by simp⟩
      intro other path' conversion' planned'
      by_cases here : column = other
      · subst here
        obtain ⟨inside, -⟩ := List.getElem?_eq_some_iff.1 held
        obtain ⟨rfl, rfl⟩ := Step.staged.inj (Option.some.inj (planned.symm.trans planned'))
        exact ⟨content, by simp [inside], (Staged.family_of_fill filled).trans family⟩
      · obtain ⟨staged', held', family'⟩ := fitting.stages other path' conversion' planned'
        exact ⟨staged', by simpa [List.getElem?_set_ne here] using held', family'⟩

theorem Fitting.writeAt_part (wellFormed : Γ.WellFormed) (proper : ty.Proper Γ)
    (fitting : slots.Fitting Γ plan ty) {path : Path} {field : Ty}
    (reached : ty.at? Γ path = some field) :
    ∃ here : Part Γ ty field, ∀ write : Ty → Datum → Written RowError,
      slots.type.writeAt Γ path write slots.root = here.visit write := by
  obtain ⟨here, visits⟩ := Ty.reaches_of_at? wellFormed proper fitting.root reached
  refine ⟨here, fun write => ?_⟩
  rw [fitting.sameType]
  exact visits write _ 0

theorem Fitting.follow (wellFormed : Γ.WellFormed) (proper : ty.Proper Γ)
    (fitting : slots.Fitting Γ plan ty) {step : Step} (fits : step.Fits Γ ty)
    (planned : plan.steps[column]? = some step) (v : Value) :
    (slots.follow Γ column v step).1.Fitting Γ plan ty ∧
      ∀ error, (slots.follow Γ column v step).2 = some error → error.Vouched Γ := by
  cases step with
  | drop => exact ⟨fitting, fun error refused => by simp [RowSlots.follow] at refused⟩
  | direct path =>
      obtain ⟨field, reached⟩ := fits
      obtain ⟨here, writes⟩ := fitting.writeAt_part wellFormed proper reached
      simp only [RowSlots.follow, writes]
      refine ⟨fitting.written (here.admits_putBack _ ?_), Ty.store_vouched field here.held v⟩
      exact Ty.admits_store wellFormed here.admits_held v
  | whole =>
      simp only [RowSlots.follow, fitting.sameType]
      exact ⟨fitting.written (Ty.admits_store wellFormed fitting.root v),
        Ty.store_vouched ty slots.root v⟩
  | staged path conversion => exact fitting.fillStage planned v

/-- A value that comes for a column leaves the slots fitting, and if it is refused for a misfit then
    a decoder has said so. -/
theorem Fitting.put (wellFormed : Γ.WellFormed) (proper : ty.Proper Γ)
    (fitting : slots.Fitting Γ plan ty) (fits : ∀ step ∈ plan.steps, step.Fits Γ ty)
    (column : Nat) (v : Value) :
    (slots.put Γ column v).1.Fitting Γ plan ty ∧
      ∀ error, (slots.put Γ column v).2 = some error → error.isMisfit →
        ∃ said, Γ.Says said ∧ error = said.atColumn column (plan.columnName column) := by
  cases planned : plan.steps[column]? with
  | none =>
      simp only [RowSlots.put, fitting.samePlan, planned]
      refine ⟨fitting, fun error refused misfit => ?_⟩
      obtain rfl := Option.some.inj refused
      simp [RowError.isMisfit] at misfit
  | some step =>
      obtain ⟨after, vouched⟩ :=
        fitting.follow wellFormed proper (fits step (List.mem_of_getElem? planned)) planned v
      rw [put_eq (by rw [fitting.samePlan, planned])]
      refine ⟨after, fun error refused misfit => ?_⟩
      obtain ⟨said, answered, rfl⟩ := Option.map_eq_some_iff.1 refused
      rw [RowError.isMisfit_atColumn] at misfit
      exact ⟨said, vouched said answered misfit, by rw [after.samePlan]⟩

theorem Fitting.afterPuts (wellFormed : Γ.WellFormed) (proper : ty.Proper Γ)
    (fitting : slots.Fitting Γ plan ty) (fits : ∀ step ∈ plan.steps, step.Fits Γ ty)
    (puts : List (Nat × Value)) : (slots.afterPuts Γ puts).Fitting Γ plan ty := by
  induction puts generalizing slots with
  | nil => exact fitting
  | cons put rest ih => exact ih (fitting.put wellFormed proper fits put.1 put.2).1

theorem Fitting.convertColumn (wellFormed : Γ.WellFormed) (proper : ty.Proper Γ)
    (fitting : slots.Fitting Γ plan ty) {path : Path} {conversion : Conversion}
    (fits : (Step.staged path conversion).Fits Γ ty) {staged : Staged}
    (same : staged.family = conversion.rule.family) (column : Nat) :
    ty.Admits Γ (slots.convertColumn Γ column path conversion staged).1 ∧
      (slots.convertColumn Γ column path conversion staged).RefusedFor (·.isMisfit = false) := by
  unfold RowSlots.convertColumn
  split
  · exact ⟨fitting.root, refusedFor_accept⟩
  · obtain ⟨field, reached, picked⟩ := fits
    obtain ⟨here, writes⟩ := fitting.writeAt_part wellFormed proper reached
    rw [writes]
    constructor
    · exact here.admits_putBack _ (Conversion.admits_apply wellFormed picked here.admits_held _)
    · exact (Conversion.apply_noMisfit wellFormed picked here.admits_held same).map_error
        fun _ plain => plain

theorem Fitting.convertFrom (wellFormed : Γ.WellFormed) (proper : ty.Proper Γ)
    (fitting : slots.Fitting Γ plan ty) (column : Nat) {pairs : List (Step × Option Staged)}
    (fits : ∀ pair ∈ pairs, pair.1.Fits Γ ty)
    (same : ∀ path conversion staged, (Step.staged path conversion, some staged) ∈ pairs →
      staged.family = conversion.rule.family) :
    ∀ error, (slots.convertFrom Γ column pairs).2 = some error → error.isMisfit = false := by
  induction pairs generalizing slots column with
  | nil => simp [RowSlots.convertFrom]
  | cons pair rest ih =>
      have fitsRest := (List.forall_mem_cons.1 fits).2
      have sameRest : ∀ path conversion staged,
          (Step.staged path conversion, some staged) ∈ rest →
            staged.family = conversion.rule.family :=
        fun path conversion staged member =>
          same path conversion staged (List.mem_cons_of_mem pair member)
      obtain ⟨step, _ | staged⟩ := pair
      · rw [convertFrom_unstaged]
        exact ih fitting (column + 1) fitsRest sameRest
      · cases step with
        | staged path conversion =>
            obtain ⟨admits, plain⟩ := fitting.convertColumn wellFormed proper
              (fits _ List.mem_cons_self) (same path conversion staged List.mem_cons_self) column
            simp only [RowSlots.convertFrom]
            generalize slots.convertColumn Γ column path conversion staged = result at admits plain
            obtain ⟨root, _ | fault⟩ := result
            -- Only if nothing was refused does the conversion go on, and from an admitted root.
            · exact ih (fitting.written admits) (column + 1) fitsRest sameRest
            · intro error refused
              obtain rfl := Option.some.inj refused
              exact plain fault rfl
        | _ => exact ih fitting (column + 1) fitsRest sameRest

theorem Fitting.finish (wellFormed : Γ.WellFormed) (proper : ty.Proper Γ)
    (fitting : slots.Fitting Γ plan ty) (fits : ∀ step ∈ plan.steps, step.Fits Γ ty) :
    ∀ error, (slots.finish Γ).2 = some error → error.isMisfit = false := by
  have fitsPairs : ∀ pair ∈ slots.plan.steps.zip slots.stages, pair.1.Fits Γ ty := by
    rintro ⟨step, stage⟩ member
    rw [fitting.samePlan] at member
    exact fits step (List.of_mem_zip member).1
  refine fitting.convertFrom wellFormed proper 0 fitsPairs fun path conversion staged member => ?_
  obtain ⟨column, paired⟩ := List.mem_iff_getElem?.1 member
  obtain ⟨planned, held⟩ := List.getElem?_zip_eq_some.1 paired
  rw [fitting.samePlan] at planned
  obtain ⟨staged', held', family⟩ := fitting.stages column path conversion planned
  obtain rfl : staged = staged' := by simpa [held'] using held.symm
  exact family

end Run

end RowSlots

/-! ## What a reader plans -/

/-- Whatever plan a reader gives for some columns, it has one step for each of them, and drops
    exactly those that are named like no field of a record. On every value of the type the paths of
    the steps lead where they lead on types; the layers that a conversion counts are there, and it
    takes whatever has come into its stage. So no misfit is reported when values come for columns
    in any order, but in the words of a decoder, and none when the row is finished. -/
theorem Reader.plan_fits {config : Config} {reader : Reader} {ty : Ty} {labels : List String}
    {plan : Plan} (wellFormed : Γ.WellFormed) (proper : ty.Proper Γ)
    (used : Used Γ config.reader reader) (planned : (reader.plan Γ ty labels).1 = .ok plan) :
    plan.steps.length = labels.length ∧
    (ty.isRecord Γ → ∃ table, (reader.fieldTable Γ ty).1 = .ok table ∧
      ∀ (column : Nat) (label : String), labels[column]? = some label →
        (plan.steps[column]? = some .drop ↔ table.get? (normalizeLabel label) = none)) ∧
    ∀ root, ty.Admits Γ root →
      (∀ step ∈ plan.steps, ∀ path ∈ step.path?,
        ∃ field, ty.at? Γ path = some field ∧ (ty.openPath Γ path root).2 = .ok field ∧
          ty.Reaches Γ path root field) ∧
      (∀ path conversion, .staged path conversion ∈ plan.steps →
        ∃ field, ty.at? Γ path = some field ∧ ∀ d, field.Admits Γ d →
          (∃ target, target.layers = 0 ∧ field.Uncovers Γ conversion.layers d target) ∧
          ∀ values : List Value,
            (conversion.apply Γ (values.foldl Staged.refill (.empty conversion.rule.family))
              field d).RefusedFor (·.isMisfit = false)) ∧
      ∀ puts : List (Nat × Value),
        let slots := (RowSlots.start plan ty root).afterPuts Γ puts
        (∀ column v error, (slots.put Γ column v).2 = some error → error.isMisfit →
          ∃ said, Γ.Says said ∧ error = said.atColumn column (plan.columnName column)) ∧
        ∀ error, (slots.finish Γ).2 = some error → error.isMisfit = false := by
  have sound := used_sound (sound_new config.maxDepth.toNat) used
  have made := (plan_sound sound ty labels).1.symm.trans planned
  have fits := Plan.fits_of_anew made
  refine ⟨?_, fun record => ?_, fun root admits => ⟨?_, ?_, fun puts => ?_⟩⟩
  · rw [Plan.length_of_anew made]
    simp [Columns.ofLabels]
  · obtain ⟨table, built, steps⟩ := Plan.steps_of_record record made
    refine ⟨table, (fieldTable_sound sound ty).1.trans built, fun column label here => ?_⟩
    rw [← FieldTable.stepFor_eq_drop built, steps]
    simp [Columns.ofLabels, here]
  · intro step member path writes
    obtain ⟨field, reached⟩ := (fits step member).reached writes
    have reaches := Ty.reaches_of_at? wellFormed proper admits reached
    exact ⟨field, reached, reaches.openPath, reaches⟩
  · intro path conversion member
    obtain ⟨field, reached, picked⟩ := fits _ member
    refine ⟨field, reached, fun d inside => ⟨?_, fun values => ?_⟩⟩
    · rw [Conversion.layers_of_strategy picked]
      obtain ⟨target, bare, -, uncovered⟩ := Ty.uncovers_base wellFormed inside
      exact ⟨target, bare, uncovered⟩
    · refine Conversion.apply_noMisfit wellFormed picked inside ?_
      rw [Staged.family_foldl_refill, Staged.family_empty]
  · have fitting := (RowSlots.fitting_start admits).afterPuts wellFormed proper fits puts
    exact ⟨fun column v => (fitting.put wellFormed proper fits column v).2,
      fitting.finish wellFormed proper fits⟩

theorem Reader.plan_fits_customer :
    let Γ : Catalogue := { records := [
      ("customer", [⟨"Id", .int .w64, "", true, false⟩,
        ⟨"Address", .optional (.boxed (.record "address")), "", true, true⟩]),
      ("address", [⟨"Zip", .boxed (.optional (.uint .w32)), "", true, false⟩,
        ⟨"Country", .record "country", "", true, true⟩]),
      ("country", [⟨"Code", .named "code" .text, "", true, false⟩])] }
    let ty : Ty := .record "customer"
    let plan : Plan :=
      { typeName := "customer"
        columns := ["zip", "note", "code"]
        steps := [.staged [1, 0] ⟨.fromUint, 1⟩, .drop, .staged [1, 1, 0] ⟨.textFromText, 0⟩]
        composite := true
        wholeDecode := false }
    Γ.WellFormed ∧ (({} : Config).reader.plan Γ ty ["Zip", "note", "[CODE]"]).1 = .ok plan ∧
      ∀ puts error, (((RowSlots.start plan ty (ty.initial Γ)).afterPuts Γ puts).finish Γ).2 =
        some error → error.isMisfit = false := by
  intro Γ ty plan
  have wellFormed : Γ.WellFormed := by
    refine Catalogue.wellFormed_of_records ?_ (fun name => if name = "address" then 1 else 0) ?_
    · simp [Γ, Ty.Proper, Ty.isRecord, Ty.base, Ty.fields?]
    · simp [Γ, Ty.held?]
  have planned : (({} : Config).reader.plan Γ ty ["Zip", "note", "[CODE]"]).1 = .ok plan := rfl
  obtain ⟨-, -, each⟩ := plan_fits wellFormed (show ty.Proper Γ from trivial) .refl planned
  obtain ⟨-, -, runs⟩ := each (ty.initial Γ) (Ty.admits_initial wellFormed ty)
  exact ⟨wellFormed, planned, fun puts => (runs puts).2⟩

end SqlMarshal
