import SqlMarshal.Row.Plan

/-! # The slots of a row

While a row is read, the value under construction stands beside the stages of the columns that go
through one. Values may come for the columns in any order. When the row is complete, the staged values
are converted into their fields in the order of the columns, up to the first that does not convert.
-/

namespace SqlMarshal

/-- A value of a type under construction from a row. -/
structure RowSlots where
  plan : Plan
  type : Ty
  root : Datum
  /-- The stage of each column that goes through one. -/
  stages : List (Option Staged)

namespace RowSlots

def stageOf : Step → Option Staged
  | .staged _ conversion => some (.empty conversion.rule.family)
  | _ => none

def start (plan : Plan) (type : Ty) (root : Datum) : RowSlots :=
  ⟨plan, type, root, plan.steps.map stageOf⟩

def width (slots : RowSlots) : Nat :=
  slots.plan.steps.length

def written (slots : RowSlots) (result : Written RowError) : RowSlots × Option RowError :=
  ({ slots with root := result.1 }, result.2)

/-- Stages a value for a column. A value that has no form of the family is refused, and the stage
keeps what it holds. -/
def fillStage (slots : RowSlots) (column : Nat) (v : Value) : RowSlots × Option RowError :=
  match slots.stages[column]? with
  | some (some staged) =>
      match Staged.fill staged.family v with
      | .ok filled => ({ slots with stages := slots.stages.set column (some filled) }, none)
      | .error fault => (slots, some (.conversion fault))
  | _ => (slots, some (.conversion .missingStage))

/-- What a step does with the value of its column. -/
def follow (Γ : Catalogue) (slots : RowSlots) (column : Nat) (v : Value) :
    Step → RowSlots × Option RowError
  | .drop => (slots, none)
  | .direct path =>
      slots.written (slots.type.writeAt Γ path (fun ty d => ty.store Γ d v) slots.root)
  | .whole => slots.written (slots.type.store Γ slots.root v)
  | .staged _ _ => slots.fillStage column v

def put (Γ : Catalogue) (slots : RowSlots) (column : Nat) (v : Value) :
    RowSlots × Option RowError :=
  match slots.plan.steps[column]? with
  | none => (slots, some (.cursor (.columnOutOfRange column slots.plan.typeName)))
  | some step =>
      let (slots, error) := slots.follow Γ column v step
      (slots, error.map (·.atColumn column (slots.plan.columnName column)))

/-- Converts the staged value of a column into its field. NULL behind an optional layer makes nothing
on the way to the field. -/
def convertColumn (Γ : Catalogue) (slots : RowSlots) (column : Nat) (path : Path)
    (conversion : Conversion) (staged : Staged) : Written RowError :=
  if staged.isNull ∧ 0 < conversion.layers then
    acceptWrite slots.root
  else
    slots.type.writeAt Γ path
      (fun ty d =>
        let (after, fault) := conversion.apply Γ staged ty d
        (after, fault.map fun fault =>
          .conversion (.atColumn column (slots.plan.columnName column) fault)))
      slots.root

/-- Converts the staged values of columns in order, up to the first that does not convert. -/
def convertFrom (Γ : Catalogue) (slots : RowSlots) :
    (column : Nat) → List (Step × Option Staged) → RowSlots × Option RowError
  | _, [] => (slots, none)
  | column, (.staged path conversion, some staged) :: rest =>
      match slots.written (slots.convertColumn Γ column path conversion staged) with
      | (slots, some error) => (slots, some error)
      | (slots, none) => slots.convertFrom Γ (column + 1) rest
  | column, _ :: rest => slots.convertFrom Γ (column + 1) rest

/-- Completes a row: the value, and the error of the first staged value that does not convert. -/
def finish (Γ : Catalogue) (slots : RowSlots) : Datum × Option RowError :=
  let (slots, error) := slots.convertFrom Γ 0 (slots.plan.steps.zip slots.stages)
  (slots.root, error)

end RowSlots

end SqlMarshal
