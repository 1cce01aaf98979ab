import SqlMarshal.Proofs.Row.PlanFits
import SqlMarshal.Proofs.Ty.Frames

/-! # A row fails at its first bad column

Staged values are converted in the order of the columns. Whether a field takes one of them does not
depend on what the field holds, so a row fails at the first column whose staged value is not taken. The
columns before it have come into their fields by then. The failing column has only made the optional
layers on the way to its field, and no later column has been looked at. The error names the column.

There is one more way to fail. Where a name of one's own stands in front of an embedded record, the
path of a column is planned through this record, but breaks when it is followed. Such a row fails at
the first such column in the same way, except that the error says where the path breaks and does not
name the column.

Columns of different names write along paths that part, so what one of them leaves behind is not
disturbed by the others.
-/

namespace SqlMarshal

variable {Γ : Catalogue}

namespace Ty

/-! ## Scalars -/

theorem assign_unboxed (ty : Ty) (d : Datum) (s : Scalar) :
    ty.unboxed.assign Γ d s = ty.assign Γ d s := by
  induction ty with
  | boxed content ih => exact ih
  | _ => rfl

theorem assignWhole_cases (name : String) (fits : Int → Bool) (s : Scalar) :
    (∃ new, ∀ d, assignWhole name fits d s = acceptWrite new) ∨
      ∃ fault, ∀ d, assignWhole name fits d s = refuseWrite d fault := by
  cases number : s.whole? with
  | none => exact .inr ⟨_, fun d => by simp only [assignWhole, number]; rfl⟩
  | some n =>
      by_cases held : fits n
      · exact .inl ⟨_, fun d => by simp only [assignWhole, number, if_pos held]; rfl⟩
      · exact .inr ⟨_, fun d => by simp only [assignWhole, number, if_neg held]; rfl⟩

theorem assign_cases {ty : Ty} (solid : ty.layers = 0) (s : Scalar) :
    (∃ new, ∀ d, ty.assign Γ d s = acceptWrite new) ∨
      ∃ fault, ∀ d, ty.assign Γ d s = refuseWrite d fault := by
  induction ty with
  | optional content => simp [layers] at solid
  | boxed content ih | named _ content ih => exact ih solid
  | int width | uint width => exact assignWhole_cases _ _ s
  | single =>
      cases s with
      | float x =>
          by_cases beyond : x.exceedsSingle
          · exact .inr ⟨_, fun d => by simp only [assign, if_pos beyond]; rfl⟩
          · exact .inl ⟨_, fun d => by simp only [assign, if_neg beyond]; rfl⟩
      | _ => exact .inr ⟨_, fun _ => rfl⟩
  | sequence item =>
      by_cases byte : item = .uint .w8
      · subst byte
        cases s <;> first | exact .inl ⟨_, fun _ => rfl⟩ | exact .inr ⟨_, fun _ => rfl⟩
      · refine .inr ?_
        cases s <;> exact ⟨_, fun d => by simp only [assign, if_neg byte]; rfl⟩
  | _ => cases s <;> first | exact .inl ⟨_, fun _ => rfl⟩ | exact .inr ⟨_, fun _ => rfl⟩

end Ty

/-! ## Conversions -/

section Convert

variable {field : Ty} {conversion : Conversion} {path : Path}

theorem ConversionRule.assign_cases {target : Ty} (rule : ConversionRule) (staged : Staged)
    (solid : target.layers = 0) :
    (∃ new, ∀ d, rule.assign Γ staged target d = acceptWrite new) ∨
      ∃ fault, ∀ d, rule.assign Γ staged target d = refuseWrite d fault := by
  simp only [assign]
  cases rule.scalar staged (target.name Γ) with
  | ok s => exact Ty.assign_cases solid s
  | error fault => exact .inr ⟨fault, fun _ => rfl⟩

theorem ConversionRule.assign_base {target : Ty} (rule : ConversionRule) (staged : Staged)
    (solid : target.layers = 0) (same : target.base = field.base) (d : Datum) :
    rule.assign Γ staged target d = rule.assign Γ staged field.base d := by
  have named : target.unboxed.name Γ = target.name Γ :=
    congrArg TypeInfo.name (Ty.info_unboxed target)
  rw [← same, Ty.base_of_solid solid]
  simp only [assign, named, Ty.assign_unboxed]

/-- A field takes a staged value whatever it holds, or it never does. If it does not, all layers in
    front of the field are made, and nothing is changed behind them. -/
theorem Conversion.apply_cases (picked : (field.info Γ).strategy Γ = .staged conversion)
    (staged : Staged) :
    (∀ d, (conversion.apply Γ staged field d).2 = none) ∨
      ¬ (staged.isNull ∧ 0 < conversion.layers) ∧ ∃ fault, ∀ d,
        conversion.apply Γ staged field d =
          (field.madeAlong Γ [] conversion.layers d, some fault) := by
  by_cases kept : staged.isNull ∧ 0 < conversion.layers
  · exact .inl fun d => by rw [apply, if_pos kept]; rfl
  have assigned (d : Datum) : ∃ target here, target.layers = 0 ∧ target.base = field.base ∧
      conversion.apply Γ staged field d =
        Place.visit here target (conversion.rule.assign Γ staged) ∧
      field.madeAlong Γ [] conversion.layers d = here.putBack here.held := by
    obtain ⟨target, here, solid, same, visits⟩ := field.visitBehind_place (Γ := Γ) d
    rw [apply, if_neg kept, Ty.madeAlong, Ty.visitPath, Conversion.layers_of_strategy picked, visits,
      visits]
    exact ⟨target, here, solid, same, rfl, rfl⟩
  -- The target may differ from one value held to another, its base does not, and the base decides.
  rcases conversion.rule.assign_cases (Γ := Γ) staged field.layers_base with
    ⟨new, takes⟩ | ⟨fault, refuses⟩
  · refine .inl fun d => ?_
    obtain ⟨target, here, solid, same, applied, -⟩ := assigned d
    rw [applied, Place.visit, ConversionRule.assign_base _ _ solid same, takes]
    rfl
  · refine .inr ⟨kept, fault, fun d => ?_⟩
    obtain ⟨target, here, solid, same, applied, made⟩ := assigned d
    rw [applied, made, Place.visit, ConversionRule.assign_base _ _ solid same, refuses]
    rfl

end Convert

/-! ## Slots -/

namespace RowSlots

/-- The slots without the columns from some column on. -/
def upTo (slots : RowSlots) (column : Nat) : RowSlots :=
  { slots with
    plan := { slots.plan with steps := slots.plan.steps.take column }
    stages := slots.stages.take column }

/-- The staged value of a column, if there is one, is taken by its field, whatever the field holds. -/
def Converts (Γ : Catalogue) (ty : Ty) : Step × Option Staged → Prop
  | (.staged path conversion, some staged) => ∀ field, ty.at? Γ path = some field →
      ∀ d, (conversion.apply Γ staged field d).2 = none
  | _ => True

/-- Why the staged value of a column does not come into its field, and the error that is reported. -/
inductive Barred (Γ : Catalogue) (slots : RowSlots) (column : Nat) (path : Path)
    (conversion : Conversion) (staged : Staged) : RowError → Prop where
  /-- The field does not take it, whatever the field holds. The error names the column. -/
  | refused {field : Ty} {fault : Fault} :
      slots.type.at? Γ path = some field →
      (slots.type.openPath Γ path slots.root).2 = .ok field →
      (∀ d, (conversion.apply Γ staged field d).2 = some fault) →
        Barred Γ slots column path conversion staged
          (.conversion (.atColumn column (slots.plan.columnName column) fault))
  /-- The path to the field breaks, and the value is not NULL behind an optional layer, which is not
      brought to its field. The error does not name the column. -/
  | broken {hop : Nat} :
      ¬ (staged.isNull ∧ 0 < conversion.layers) →
      (slots.type.openPath Γ path slots.root).2 = .error (.conversion (.brokenPath path hop)) →
        Barred Γ slots column path conversion staged (.conversion (.brokenPath path hop))

/-- A column is the first whose staged value does not come into its field. The columns before it alone
    can be finished, and leave a value in which this one is barred. -/
structure FailsAt (Γ : Catalogue) (slots : RowSlots) (column : Nat) (path : Path)
    (conversion : Conversion) (before : Datum) (error : RowError) : Prop where
  planned : slots.plan.steps[column]? = some (.staged path conversion)
  first : ∀ pair ∈ (slots.plan.steps.zip slots.stages).take column, Converts Γ slots.type pair
  finished : (slots.upTo column).finish Γ = (before, none)
  barred : ∃ staged, slots.stages[column]? = some (some staged) ∧
    Barred Γ { slots with root := before } column path conversion staged error

section Run

variable {slots : RowSlots} {column : Nat} {error : RowError}
  {pairs : List (Step × Option Staged)} {path other : Path} {conversion : Conversion}

/-! ### Converting -/

/-- A column converts, whatever its field holds, or it is barred. Then it makes the layers on the way
    to its field and in front of it, and changes nothing else. -/
theorem convertColumn_cases (slots : RowSlots)
    (fits : (Step.staged path conversion).Fits Γ slots.type) (staged : Staged) (column : Nat) :
    ((slots.convertColumn Γ column path conversion staged).2 = none ∧
        Converts Γ slots.type (.staged path conversion, some staged)) ∨
      ∃ error, Barred Γ slots column path conversion staged error ∧
        slots.convertColumn Γ column path conversion staged =
          (slots.type.madeAlong Γ path conversion.layers slots.root, some error) := by
  obtain ⟨field, reached, picked⟩ := fits
  have takes (none : ∀ d, (conversion.apply Γ staged field d).2 = none) :
      Converts Γ slots.type (.staged path conversion, some staged) := fun field' reached' => by
    obtain rfl := Option.some.inj (reached.symm.trans reached')
    exact none
  by_cases kept : staged.isNull ∧ 0 < conversion.layers
  · refine .inl ⟨by rw [convertColumn, if_pos kept]; rfl, takes fun d => ?_⟩
    rw [Conversion.apply, if_pos kept]
    rfl
  rw [convertColumn, if_neg kept, Ty.writeAt]
  rcases slots.type.visitPath_cases (Γ := Γ) path slots.root with
    ⟨field', here, reached', visits⟩ | ⟨after, hop, breaks⟩
  · obtain rfl := Option.some.inj (reached.symm.trans reached')
    rcases Conversion.apply_cases picked staged with none | ⟨-, fault, refuses⟩
    · refine .inl ⟨?_, takes none⟩
      rw [visits, Place.visit]
      simp only [none, Option.map_none]
    · refine .inr ⟨_, .refused reached (by rw [Ty.openPath, visits]; rfl)
        (fun d => by rw [refuses d]), ?_⟩
      rw [visits, Ty.madeAlong, visits, Place.visit, Place.visit]
      simp only [refuses, Option.map_some]
      rfl
  · refine .inr ⟨.conversion (.brokenPath path hop), .broken kept ?_, ?_⟩
    · rw [Ty.openPath, breaks, Nat.zero_add]
    · rw [breaks, Ty.madeAlong, breaks, Nat.zero_add]

/-! ### Runs -/

theorem convertFrom_idle {pair : Step × Option Staged}
    (idle : ∀ path conversion staged, pair ≠ (.staged path conversion, some staged)) :
    slots.convertFrom Γ column (pair :: pairs) = slots.convertFrom Γ (column + 1) pairs := by
  rw [RowSlots.convertFrom]
  exact idle

theorem convertFrom_failed {after : RowSlots}
    (failed : slots.convertFrom Γ column pairs = (after, some error)) :
    ∃ front path conversion staged rest middle,
      pairs = front ++ (.staged path conversion, some staged) :: rest ∧
      slots.convertFrom Γ column front = (middle, none) ∧
      middle.written (middle.convertColumn Γ (column + front.length) path conversion staged) =
        (after, some error) := by
  fun_induction RowSlots.convertFrom Γ slots column pairs with
  | case1 => cases failed
  | case2 slots column path conversion staged rest next found written =>
      exact ⟨[], path, conversion, staged, rest, slots, rfl, rfl, written.trans failed⟩
  | case3 slots column path conversion staged rest next written ih =>
      obtain ⟨front, path', conversion', staged', rest', middle, rfl, ran, refused⟩ := ih failed
      rw [Nat.add_right_comm, Nat.add_assoc] at refused
      refine ⟨_ :: front, path', conversion', staged', rest', middle, rfl, ?_, refused⟩
      simp only [RowSlots.convertFrom, written, ran]
  | case4 slots column pair rest idle ih =>
      obtain ⟨front, path', conversion', staged', rest', middle, rfl, ran, refused⟩ := ih failed
      rw [Nat.add_right_comm, Nat.add_assoc] at refused
      refine ⟨pair :: front, path', conversion', staged', rest', middle, rfl, ?_, refused⟩
      rw [convertFrom_idle idle, ran]

theorem convertFrom_root (slots : RowSlots) (column : Nat) (pairs : List (Step × Option Staged)) :
    (slots.convertFrom Γ column pairs).1 =
      { slots with root := (slots.convertFrom Γ column pairs).1.root } := by
  fun_induction RowSlots.convertFrom Γ slots column pairs with
  | case1 => rfl
  | case2 slots column path conversion staged rest next found written =>
      obtain ⟨rfl, -⟩ := Prod.mk.inj written
      rfl
  | case3 slots column path conversion staged rest next written ih =>
      obtain ⟨rfl, -⟩ := Prod.mk.inj written
      exact ih
  | case4 slots column pair rest idle ih => exact ih

theorem converts_of_convertFrom (fits : ∀ pair ∈ pairs, pair.1.Fits Γ slots.type)
    (ran : (slots.convertFrom Γ column pairs).2 = none) :
    ∀ pair ∈ pairs, Converts Γ slots.type pair := by
  fun_induction RowSlots.convertFrom Γ slots column pairs with
  | case1 => simp
  | case2 => cases ran
  | case3 slots column path conversion staged rest next written ih =>
      obtain ⟨rfl, taken⟩ := Prod.mk.inj written
      obtain ⟨fitsHere, fitsRest⟩ := List.forall_mem_cons.1 fits
      rcases slots.convertColumn_cases fitsHere staged column with
        ⟨-, converts⟩ | ⟨_, -, refused⟩
      · exact List.forall_mem_cons.2 ⟨converts, ih fitsRest ran⟩
      · simp [refused] at taken
  | case4 slots column pair rest idle ih =>
      refine List.forall_mem_cons.2 ⟨?_, ih (List.forall_mem_cons.1 fits).2 ran⟩
      unfold Converts
      split
      · exact absurd rfl (idle _ _ _)
      · trivial

theorem meets?_convertColumn (slots : RowSlots) {staged : Staged} (apart : other.Apart path) :
    slots.type.meets? Γ other (slots.convertColumn Γ column path conversion staged).1 =
      slots.type.meets? Γ other slots.root := by
  unfold RowSlots.convertColumn
  split
  · rfl
  · exact Ty.meets?_visitPath apart

theorem meets?_convertFrom (apart : ∀ pair ∈ pairs, ∀ path ∈ pair.1.path?, other.Apart path) :
    slots.type.meets? Γ other (slots.convertFrom Γ column pairs).1.root =
      slots.type.meets? Γ other slots.root := by
  fun_induction RowSlots.convertFrom Γ slots column pairs with
  | case1 => rfl
  | case2 slots column path conversion staged rest next found written =>
      obtain ⟨rfl, -⟩ := Prod.mk.inj written
      exact meets?_convertColumn slots (apart _ List.mem_cons_self path rfl)
  | case3 slots column path conversion staged rest next written ih =>
      obtain ⟨rfl, -⟩ := Prod.mk.inj written
      exact (ih (List.forall_mem_cons.1 apart).2).trans
        (meets?_convertColumn slots (apart _ List.mem_cons_self path rfl))
  | case4 slots column pair rest idle ih => exact ih (List.forall_mem_cons.1 apart).2

theorem convertFrom_upTo (last : Nat) :
    (slots.upTo last).convertFrom Γ column pairs =
      ((slots.convertFrom Γ column pairs).1.upTo last, (slots.convertFrom Γ column pairs).2) := by
  fun_induction RowSlots.convertFrom Γ slots column pairs with
  | case1 => rfl
  | case2 slots column path conversion staged rest next found written =>
      have same : (slots.upTo last).written
          ((slots.upTo last).convertColumn Γ column path conversion staged) =
            (next.upTo last, some found) := by
        obtain ⟨rfl, refused⟩ := Prod.mk.inj written
        exact congrArg _ refused
      rw [RowSlots.convertFrom, same]
  | case3 slots column path conversion staged rest next written ih =>
      have same : (slots.upTo last).written
          ((slots.upTo last).convertColumn Γ column path conversion staged) =
            (next.upTo last, none) := by
        obtain ⟨rfl, taken⟩ := Prod.mk.inj written
        exact congrArg _ taken
      rw [RowSlots.convertFrom, same]
      exact ih
  | case4 slots column pair rest idle ih =>
      rw [convertFrom_idle idle, ih]

theorem finish_upTo (slots : RowSlots) (last : Nat) :
    (slots.upTo last).finish Γ =
      let run := slots.convertFrom Γ 0 ((slots.plan.steps.zip slots.stages).take last)
      (run.1.root, run.2) := by
  have pairs : (slots.upTo last).plan.steps.zip (slots.upTo last).stages =
      (slots.plan.steps.zip slots.stages).take last := by
    simp only [upTo, List.zip, List.take_zipWith]
  rw [finish, pairs, convertFrom_upTo]
  rfl

theorem meets?_finish_upTo (slots : RowSlots) (apart : ∀ earlier < column, ∀ step,
    slots.plan.steps[earlier]? = some step → ∀ path ∈ step.path?, other.Apart path) :
    slots.type.meets? Γ other ((slots.upTo column).finish Γ).1 =
      slots.type.meets? Γ other slots.root := by
  rw [finish_upTo]
  refine meets?_convertFrom fun pair member => ?_
  obtain ⟨earlier, found⟩ := List.mem_iff_getElem?.1 member
  rw [List.getElem?_take] at found
  split at found
  · rename_i before
    exact apart earlier before pair.1 (List.getElem?_zip_eq_some.1 found).1
  · cases found

/-- If a row fails, then at the first column that is barred. It is left as the columns before leave it,
    but for the layers that were made for this column. -/
theorem finish_fails (slots : RowSlots) (fits : ∀ step ∈ slots.plan.steps, step.Fits Γ slots.type)
    (failed : (slots.finish Γ).2 = some error) :
    ∃ column path conversion before, slots.FailsAt Γ column path conversion before error ∧
      (slots.finish Γ).1 = slots.type.madeAlong Γ path conversion.layers before := by
  have fitsPairs : ∀ pair ∈ slots.plan.steps.zip slots.stages, pair.1.Fits Γ slots.type :=
    fun pair member => fits _ (List.of_mem_zip member).1
  unfold RowSlots.finish at failed ⊢
  generalize ran : slots.convertFrom Γ 0 (slots.plan.steps.zip slots.stages) = run at failed ⊢
  obtain ⟨after, outcome⟩ := run
  obtain rfl : outcome = some error := failed
  obtain ⟨front, path, conversion, staged, rest, middle, split, converted, refused⟩ :=
    convertFrom_failed ran
  rw [Nat.zero_add] at refused
  rw [split] at fitsPairs
  obtain ⟨fitsFront, fitsRest⟩ := List.forall_mem_append.1 fitsPairs
  have converts := converts_of_convertFrom fitsFront (congrArg Prod.snd converted)
  have here : (slots.plan.steps.zip slots.stages)[front.length]? =
      some (.staged path conversion, some staged) := by simp [split]
  obtain ⟨planned, held⟩ := List.getElem?_zip_eq_some.1 here
  have firsts : (slots.plan.steps.zip slots.stages).take front.length = front := by simp [split]
  have finished := finish_upTo (Γ := Γ) slots front.length
  rw [firsts, converted] at finished
  have same : middle = { slots with root := middle.root } := by
    simpa only [converted] using slots.convertFrom_root (Γ := Γ) 0 front
  generalize middle.root = before at same finished
  subst same
  rcases convertColumn_cases (Γ := Γ) { slots with root := before }
      (fitsRest _ List.mem_cons_self) staged front.length with
    ⟨taken, -⟩ | ⟨error', barred, refusal⟩
  · rw [RowSlots.written, taken] at refused
    cases refused
  · rw [refusal] at refused
    obtain ⟨rfl, same⟩ := Prod.mk.inj refused
    obtain rfl := Option.some.inj same
    exact ⟨front.length, path, conversion, before,
      ⟨planned, firsts.symm ▸ converts, finished, staged, held, barred⟩, rfl⟩

theorem put_same (slots : RowSlots) (column : Nat) (v : Value) :
    (slots.put Γ column v).1.plan = slots.plan ∧ (slots.put Γ column v).1.type = slots.type := by
  simp only [RowSlots.put]
  cases slots.plan.steps[column]? with
  | none => exact ⟨rfl, rfl⟩
  | some step =>
      cases step with
      | staged =>
          simp only [follow, fillStage]
          split
          · split <;> exact ⟨rfl, rfl⟩
          · exact ⟨rfl, rfl⟩
      | _ => exact ⟨rfl, rfl⟩

theorem afterPuts_same (slots : RowSlots) (puts : List (Nat × Value)) :
    (slots.afterPuts Γ puts).plan = slots.plan ∧ (slots.afterPuts Γ puts).type = slots.type := by
  induction puts generalizing slots with
  | nil => exact ⟨rfl, rfl⟩
  | cons put rest ih =>
      obtain ⟨samePlan, sameType⟩ := slots.put_same (Γ := Γ) put.1 put.2
      rw [← samePlan, ← sameType]
      exact ih _

end Run

end RowSlots

/-! ## Rows -/

theorem Plan.apart_of_anew {depth : Nat} {ty : Ty} {columns : Columns} {plan : Plan}
    (distinct : columns.names.Nodup) (made : Plan.anew Γ depth ty columns = .ok plan)
    {earlier later : Nat} (before : earlier < later) {step step' : Step}
    (first : plan.steps[earlier]? = some step) (second : plan.steps[later]? = some step') :
    step'.Apart step := by
  have apart : plan.steps.Pairwise Step.Apart := by
    by_cases record : ty.isRecord Γ
    · obtain ⟨table, built, steps⟩ := steps_of_record record made
      rw [steps, List.pairwise_map]
      exact distinct.imp fun different => FieldTable.stepFor_apart built different
    · rw [(steps_of_scalar record made).2]
      exact List.pairwise_singleton _ _
  obtain ⟨inside, rfl⟩ := List.getElem?_eq_some_iff.1 first
  obtain ⟨inside', rfl⟩ := List.getElem?_eq_some_iff.1 second
  have parts := List.pairwise_iff_getElem.1 apart earlier later inside inside' before
  exact fun q writes p writes' => (parts p writes' q writes).symm

theorem Plan.columnName_of_anew {depth : Nat} {ty : Ty} {labels : List String} {plan : Plan}
    (made : Plan.anew Γ depth ty (.ofLabels labels) = .ok plan) {column : Nat} {step : Step}
    (planned : plan.steps[column]? = some step) :
    ∃ label, labels[column]? = some label ∧ plan.columnName column = normalizeLabel label := by
  have names : plan.columns = labels.map normalizeLabel := columns_of_anew made
  have complete : plan.steps.length = (labels.map normalizeLabel).length := length_of_anew made
  obtain ⟨inside, -⟩ := List.getElem?_eq_some_iff.1 planned
  rw [complete, List.length_map] at inside
  exact ⟨labels[column], List.getElem?_eq_getElem inside, by simp [columnName, names, inside]⟩

/-- If a row fails after its values have come, then at the first column whose staged value does not
    come into its field. The columns before it alone would have been finished, and the row is left as
    they leave it, but for optional layers on the way to the field of the failing column. So it is the
    same along every other path, and at the fields of later columns it is what it was before.

    The error names the column if its field does not take the value. If the path to the field breaks
    it does not, but in sound types, where no name of one's own is given to a record, no path does. -/
theorem Reader.finish_fails_first {config : Config} {reader : Reader} {ty : Ty}
    {labels : List String} {plan : Plan} (used : Used Γ config.reader reader)
    (planned : (reader.plan Γ ty labels).1 = .ok plan)
    (distinct : (labels.map normalizeLabel).Nodup) (root : Datum) (puts : List (Nat × Value))
    {error : RowError}
    (failed : (((RowSlots.start plan ty root).afterPuts Γ puts).finish Γ).2 = some error) :
    let slots := (RowSlots.start plan ty root).afterPuts Γ puts
    ∃ column label path conversion before,
      labels[column]? = some label ∧ slots.FailsAt Γ column path conversion before error ∧
      (slots.finish Γ).1 = ty.madeAlong Γ path conversion.layers before ∧
      (∀ other : Path, other.Apart path →
        ty.meets? Γ other (slots.finish Γ).1 = ty.meets? Γ other before) ∧
      (∀ later > column, ∀ step, plan.steps[later]? = some step → ∀ other ∈ step.path?,
        ty.meets? Γ other (slots.finish Γ).1 = ty.meets? Γ other slots.root) ∧
      ((∃ fault, error = .conversion (.atColumn column (normalizeLabel label) fault) ∧
          error.message = "conversion failed: " ++ ("column " ++ Decimal.text column ++ " (" ++
            normalizeLabel label ++ "): " ++ fault.message)) ∨
        ∃ hop, error = .conversion (.brokenPath path hop) ∧
          ¬ (Γ.WellFormed ∧ ty.Proper Γ ∧ ty.Admits Γ root)) := by
  intro slots
  have sound := used_sound (sound_new config.maxDepth.toNat) used
  have made := (plan_sound sound ty labels).1.symm.trans planned
  have fits := Plan.fits_of_anew made
  have refused : (slots.finish Γ).2 = some error := failed
  obtain ⟨samePlan, sameType⟩ : slots.plan = plan ∧ slots.type = ty :=
    RowSlots.afterPuts_same (RowSlots.start plan ty root) puts
  -- A path that breaks is a misfit, and sound types have none.
  have whole (sound : Γ.WellFormed ∧ ty.Proper Γ ∧ ty.Admits Γ root) : error.isMisfit = false := by
    obtain ⟨wellFormed, proper, admits⟩ := sound
    have fitting : slots.Fitting Γ plan ty :=
      (RowSlots.fitting_start admits).afterPuts wellFormed proper fits puts
    exact fitting.finish wellFormed proper fits error refused
  clear_value slots
  subst samePlan sameType
  obtain ⟨column, path, conversion, before, fails, left⟩ := slots.finish_fails fits refused
  obtain ⟨label, labelled, named⟩ := Plan.columnName_of_anew made fails.planned
  have elsewhere (other : Path) (apart : other.Apart path) :
      slots.type.meets? Γ other (slots.finish Γ).1 = slots.type.meets? Γ other before := by
    rw [left]
    exact Ty.meets?_visitPath apart
  refine ⟨column, label, path, conversion, before, labelled, fails, left, elsewhere,
    fun later behind step planned' other writes => ?_, ?_⟩
  · have apart (earlier : Nat) (less : earlier < later) (step' : Step)
        (first : slots.plan.steps[earlier]? = some step') : ∀ path ∈ step'.path?, other.Apart path :=
      Plan.apart_of_anew distinct made less first planned' other writes
    have untouched := RowSlots.meets?_finish_upTo (Γ := Γ) slots fun earlier less =>
      apart earlier (Nat.lt_trans less behind)
    rw [fails.finished] at untouched
    rw [elsewhere other (apart column behind _ fails.planned path rfl), untouched]
  · obtain ⟨staged, -, barred⟩ := fails.barred
    cases barred with
    | refused => exact .inl ⟨_, by rw [named], by rw [named]; rfl⟩
    | broken =>
        refine .inr ⟨_, rfl, fun sound => ?_⟩
        simpa [RowError.isMisfit, Fault.isMisfit] using whole sound

/-- A score that is too large fails behind two optional layers, which are made, after the name was
    converted and before the number is. -/
theorem Reader.finish_fails_first_player :
    let Γ : Catalogue := { records := [
      ("player", [⟨"Id", .int .w32, "", true, false⟩, ⟨"Name", .text, "", true, false⟩,
        ⟨"Best", .optional (.record "best"), "", true, true⟩]),
      ("best", [⟨"Score", .optional (.int .w16), "", true, false⟩])] }
    let ty : Ty := .record "player"
    let plan : Plan :=
      { typeName := "player"
        columns := ["name", "score", "id"]
        steps := [.staged [1] ⟨.textFromBytes, 0⟩, .staged [2, 0] ⟨.fromInt, 1⟩,
          .staged [0] ⟨.fromInt, 0⟩]
        composite := true
        wholeDecode := false }
    let puts : List (Nat × Value) := [(0, .text "kept"), (1, .int 70000), (2, .int 5)]
    let slots := (RowSlots.start plan ty (ty.initial Γ)).afterPuts Γ puts
    let error : RowError := .conversion (.atColumn 1 "score" (.overflow (.whole 70000) "i16"))
    (({} : Config).reader.plan Γ ty ["Name", "score", "ID"]).1 = .ok plan ∧
      slots.finish Γ =
        (.record [.whole 0, .text "kept", .present (.record [.present (.whole 0)])], some error) ∧
      ∃ column path conversion before, slots.FailsAt Γ column path conversion before error ∧
        (slots.finish Γ).1 = ty.madeAlong Γ path conversion.layers before := by
  intro Γ ty plan puts slots error
  have planned : (({} : Config).reader.plan Γ ty ["Name", "score", "ID"]).1 = .ok plan := rfl
  have finished : slots.finish Γ =
      (.record [.whole 0, .text "kept", .present (.record [.present (.whole 0)])], some error) := rfl
  obtain ⟨column, label, path, conversion, before, -, fails, left, -⟩ :=
    finish_fails_first .refl planned (by decide) (ty.initial Γ) puts (congrArg Prod.snd finished)
  exact ⟨planned, finished, column, path, conversion, before, fails, left⟩

/-- Both values come, and then the row fails for a path that leads through a name of one's own into a
    record. The error does not say that this is the second column. -/
theorem Reader.broken_without_column :
    let Γ : Catalogue := { records := [
      ("row", [⟨"id", .int .w64, "", true, false⟩,
        ⟨"inner", .named "wrap" (.record "inner"), "", true, true⟩]),
      ("inner", [⟨"score", .int .w16, "", true, false⟩])] }
    let ty : Ty := .record "row"
    let plan : Plan :=
      { typeName := "row"
        columns := ["id", "score"]
        steps := [.staged [0] ⟨.fromInt, 0⟩, .staged [1, 0] ⟨.fromInt, 0⟩]
        composite := true
        wholeDecode := false }
    let slots := RowSlots.start plan ty (ty.initial Γ)
    let filled := (slots.put Γ 0 (.int 7)).1
    let error : RowError := .conversion (.brokenPath [1, 0] 1)
    (({} : Config).reader.plan Γ ty ["id", "score"]).1 = .ok plan ∧
      (slots.put Γ 0 (.int 7)).2 = none ∧ (filled.put Γ 1 (.int 3)).2 = none ∧
      ((filled.put Γ 1 (.int 3)).1.finish Γ).2 = some error ∧
      error.message = "conversion failed: field path [1, 0] breaks at hop 1" ∧
      ∀ fault, error ≠ .conversion (.atColumn 1 "score" fault) := by
  intro Γ ty plan slots filled error
  exact ⟨rfl, rfl, rfl, rfl, rfl, fun fault => by simp [error]⟩

end SqlMarshal
