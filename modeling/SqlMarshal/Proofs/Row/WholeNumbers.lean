import SqlMarshal.Proofs.Row.OnePass
import SqlMarshal.Proofs.Row.PlanFits
import SqlMarshal.Proofs.Value.Denotes

/-! # Whole numbers are read exactly

On its way into a whole number of some width a value is widened to a word of 64 bits and then
narrowed. Neither step changes a number: what is widened is the number that the value denotes, and
what is narrowed stays the same or is refused. So a value is taken exactly if it denotes a number
that the width holds. This is so in a row, where the value goes through a stage, and when it is stored
at once. What is refused leaves everything as it was.
-/

namespace SqlMarshal

variable {Γ : Catalogue}

/-- The width holds the number, signed or unsigned. -/
def Width.Holds (width : Width) : Bool → Int → Prop
  | true, n => -2 ^ (width.bits - 1) ≤ n ∧ n < 2 ^ (width.bits - 1)
  | false, n => 0 ≤ n ∧ n < 2 ^ width.bits

/-- The type is of whole numbers of a width, under names of their own or not. -/
inductive Ty.Whole : Bool → Width → Ty → Prop where
  | int (width : Width) : Whole true width (.int width)
  | uint (width : Width) : Whole false width (.uint width)
  | named {signed : Bool} {width : Width} {content : Ty} (name : String) :
      Whole signed width content → Whole signed width (.named name content)

/-- The rule by which whole numbers are converted. -/
def ConversionRule.ofWhole : Bool → ConversionRule
  | true => .fromInt
  | false => .fromUint

/-- Stages a value and converts it into a place. -/
def Conversion.write (Γ : Catalogue) (conversion : Conversion) (ty : Ty) (d : Datum) (v : Value) :
    Written Fault :=
  match Staged.fill conversion.rule.family v with
  | .error fault => refuseWrite d fault
  | .ok staged => conversion.apply Γ staged ty d

/-! ## Widening -/

/-- The word that a value is widened to. -/
def Value.toWord (v : Value) : Bool → Except Fault (Option Scalar)
  | true => v.toInt64.map (·.map .int)
  | false => v.toUInt64.map (·.map .uint)

section Widening

variable {signed : Bool} {width : Width} {v : Value} {n : Int} {s : Scalar}

theorem Width.Holds.wide (holds : width.Holds signed n) : Width.w64.Holds signed n := by
  cases signed <;> cases width <;> simp [Width.Holds, Width.bits] at * <;> omega

theorem map_eq_some {α β : Type} {converted : Except Fault (Option α)} {f : α → β} {b : β} :
    converted.map (·.map f) = .ok (some b) ↔ ∃ a, converted = .ok (some a) ∧ f a = b := by
  rcases converted with _ | _ | _ <;> simp [Except.map]

/-- What a value is widened to is the number that it denotes. -/
theorem Value.toWord_denotes (notFloat : ∀ x, v ≠ .float x)
    (widened : v.toWord signed = .ok (some s)) :
    ∃ n, s.whole? = some n ∧ v.Denotes signed n := by
  cases signed with
  | true =>
      obtain ⟨word, found, rfl⟩ := map_eq_some.1 widened
      exact ⟨_, rfl, (toInt64_eq_some notFloat).1 found⟩
  | false =>
      obtain ⟨word, found, rfl⟩ := map_eq_some.1 widened
      exact ⟨_, rfl, (toUInt64_eq_some notFloat).1 found⟩

theorem Value.toWord_eq (v : Value) (signed : Bool) :
    v.toWord signed = (Staged.fill (ConversionRule.ofWhole signed).family v).map (·.scalar?) := by
  cases signed with
  | true =>
      simp only [toWord, ConversionRule.ofWhole, ConversionRule.family, Staged.fill]
      cases v.toInt64 <;> rfl
  | false =>
      simp only [toWord, ConversionRule.ofWhole, ConversionRule.family, Staged.fill]
      cases v.toUInt64 <;> rfl

theorem Value.exists_toWord (notFloat : ∀ x, v ≠ .float x) (denotes : v.Denotes signed n)
    (holds : Width.w64.Holds signed n) :
    ∃ s, v.toWord signed = .ok (some s) ∧ s.whole? = some n := by
  cases signed with
  | true =>
      have exact : (Int64.ofInt n).toInt = n := Int64.toInt_ofInt_of_le holds.1 holds.2
      rw [← exact] at denotes
      have widened := (toInt64_eq_some notFloat).2 denotes
      exact ⟨_, map_eq_some.2 ⟨_, widened, rfl⟩, congrArg some exact⟩
  | false =>
      have exact : ((UInt64.ofNat n.toNat).toNat : Int) = n := by
        obtain ⟨low, high⟩ := holds
        have small : n.toNat < UInt64.size := by simp only [Width.bits, UInt64.size] at *; omega
        rw [UInt64.toNat_ofNat_of_lt' small, Int.toNat_of_nonneg low]
      rw [← exact] at denotes
      have widened := (toUInt64_eq_some notFloat).2 denotes
      exact ⟨_, map_eq_some.2 ⟨_, widened, rfl⟩, congrArg some exact⟩

end Widening

/-! ## Narrowing -/

theorem Width.fitsSigned_iff {width : Width} {n : Int} :
    width.fitsSigned n ↔ width.Holds true n := by
  simp [fitsSigned, Holds, twoTo]

theorem Width.fitsUnsigned_iff {width : Width} {n : Int} :
    width.fitsUnsigned n ↔ width.Holds false n := by
  simp [fitsUnsigned, Holds, twoTo]

namespace Ty.Whole

variable {signed : Bool} {width : Width} {ty : Ty} {v : Value} {n : Int} {s : Scalar}

theorem assign_held (whole : ty.Whole signed width) (number : s.whole? = some n)
    (holds : width.Holds signed n) (d : Datum) : ty.assign Γ d s = acceptWrite (.whole n) := by
  induction whole with
  | int width =>
      have fits : width.fitsSigned n := Width.fitsSigned_iff.2 holds
      simp only [assign, assignWhole, number, fits, if_true]
  | uint width =>
      have fits : width.fitsUnsigned n := Width.fitsUnsigned_iff.2 holds
      simp only [assign, assignWhole, number, fits, if_true]
  | named _ _ ih => exact ih holds

theorem assign_beyond (whole : ty.Whole signed width) (number : s.whole? = some n)
    (beyond : ¬ width.Holds signed n) (d : Datum) :
    ∃ fault, ty.assign Γ d s = refuseWrite d fault := by
  induction whole with
  | int width =>
      have misfit : ¬ width.fitsSigned n := fun fits => beyond (Width.fitsSigned_iff.1 fits)
      exact ⟨_, by simp only [assign, assignWhole, number, if_neg misfit]; rfl⟩
  | uint width =>
      have misfit : ¬ width.fitsUnsigned n := fun fits => beyond (Width.fitsUnsigned_iff.1 fits)
      exact ⟨_, by simp only [assign, assignWhole, number, if_neg misfit]; rfl⟩
  | named _ _ ih => exact ih beyond

theorem exists_store (whole : ty.Whole signed width) :
    ∃ bare : Ty, bare.Whole signed width ∧
      ∀ d v, ty.store Γ d v = bare.assignConverted Γ d (v.toWord signed) := by
  induction whole with
  | int width => exact ⟨_, .int width, fun _ _ => rfl⟩
  | uint width => exact ⟨_, .uint width, fun _ _ => rfl⟩
  | named _ _ ih => exact ih

theorem layers_eq (whole : ty.Whole signed width) : ty.layers = 0 := by
  induction whole with
  | int | uint => rfl
  | named _ _ ih => exact ih

theorem base_eq (whole : ty.Whole signed width) : ty.base = ty := by
  rw [base_of_solid whole.layers_eq]
  cases whole <;> rfl

theorem decodes_eq (whole : ty.Whole signed width) : ty.decodes = false := by
  cases whole <;> rfl

theorem kind_eq (whole : ty.Whole signed width) :
    ty.kind Γ = if signed then .int width else .uint width := by
  induction whole with
  | int | uint => rfl
  | named _ _ ih => exact ih

theorem not_isRecord (whole : ty.Whole signed width) : ¬ ty.isRecord Γ := by
  rw [isRecord, whole.base_eq]
  induction whole with
  | int | uint => simp [fields?]
  | named _ _ ih => exact ih

theorem strategy_eq (whole : ty.Whole signed width) :
    (ty.info Γ).strategy Γ = .staged ⟨.ofWhole signed, 0⟩ := by
  rw [TypeInfo.strategy_info, whole.base_eq, whole.layers_eq, TypeInfo.rule?]
  simp only [info, whole.decodes_eq, whole.kind_eq]
  cases signed <;> rfl

end Ty.Whole

theorem Conversion.write_ofWhole {signed : Bool} (ty : Ty) (d : Datum) (v : Value) :
    write Γ ⟨.ofWhole signed, 0⟩ ty d v =
      match v.toWord signed with
      | .error fault => refuseWrite d fault
      | .ok none => refuseWrite d (.nullInto (ty.name Γ))
      | .ok (some s) => ty.assign Γ d s := by
  rw [Value.toWord_eq, write]
  cases filled : Staged.fill (ConversionRule.ofWhole signed).family v with
  | error fault => rfl
  | ok staged =>
      have same : staged.family = (ConversionRule.ofWhole signed).family :=
        Staged.family_of_fill filled
      simp only [apply, Nat.lt_irrefl, and_false, if_false, Ty.visitBehind, ConversionRule.assign,
        ConversionRule.scalar, same, if_true, Except.map]
      cases staged.scalar? <;> cases signed <;> rfl

namespace Ty.Whole

variable {signed : Bool} {width : Width} {ty : Ty} {v : Value} {n : Int}

theorem store_held (whole : ty.Whole signed width) (notFloat : ∀ x, v ≠ .float x)
    (denotes : v.Denotes signed n) (holds : width.Holds signed n) (d : Datum) :
    ty.store Γ d v = acceptWrite (.whole n) := by
  obtain ⟨bare, bareWhole, stores⟩ := whole.exists_store (Γ := Γ)
  obtain ⟨s, widened, number⟩ := Value.exists_toWord notFloat denotes holds.wide
  rw [stores, widened, assignConverted, bareWhole.assign_held number holds]
  rfl

/-- A value without a number that the width holds is not widened, or the word it is widened to is
    refused. -/
theorem toWord_cases (whole : ty.Whole signed width) (notFloat : ∀ x, v ≠ .float x)
    (beyond : ∀ n, v.Denotes signed n → ¬ width.Holds signed n) :
    (∃ fault, v.toWord signed = .error fault) ∨ v.toWord signed = .ok none ∨
      ∃ s, v.toWord signed = .ok (some s) ∧
        ∀ d, ∃ fault, ty.assign Γ d s = refuseWrite d fault := by
  cases widened : v.toWord signed with
  | error fault => exact .inl ⟨fault, rfl⟩
  | ok word =>
      cases word with
      | none => exact .inr (.inl rfl)
      | some s =>
          obtain ⟨n, number, denotes⟩ := Value.toWord_denotes notFloat widened
          exact .inr (.inr ⟨s, rfl, whole.assign_beyond number (beyond n denotes)⟩)

theorem store_refused (whole : ty.Whole signed width) (notFloat : ∀ x, v ≠ .float x)
    (beyond : ∀ n, v.Denotes signed n → ¬ width.Holds signed n) (d : Datum) :
    ∃ fault, ty.store Γ d v = refuseWrite d (.conversion fault) := by
  obtain ⟨bare, bareWhole, stores⟩ := whole.exists_store (Γ := Γ)
  rw [stores]
  obtain ⟨fault, widened⟩ | widened | ⟨s, widened, misfit⟩ :=
    bareWhole.toWord_cases (Γ := Γ) notFloat beyond
  · exact ⟨fault, by rw [widened]; rfl⟩
  · exact ⟨_, by rw [widened]; rfl⟩
  · obtain ⟨fault, refused⟩ := misfit d
    exact ⟨fault, by rw [widened, assignConverted, refused]; rfl⟩

theorem write_held (whole : ty.Whole signed width) (notFloat : ∀ x, v ≠ .float x)
    (denotes : v.Denotes signed n) (holds : width.Holds signed n) (d : Datum) :
    Conversion.write Γ ⟨.ofWhole signed, 0⟩ ty d v = acceptWrite (.whole n) := by
  obtain ⟨s, widened, number⟩ := Value.exists_toWord notFloat denotes holds.wide
  rw [Conversion.write_ofWhole, widened]
  exact whole.assign_held number holds d

theorem write_refused (whole : ty.Whole signed width) (notFloat : ∀ x, v ≠ .float x)
    (beyond : ∀ n, v.Denotes signed n → ¬ width.Holds signed n) (d : Datum) :
    ∃ fault, Conversion.write Γ ⟨.ofWhole signed, 0⟩ ty d v = refuseWrite d fault := by
  rw [Conversion.write_ofWhole]
  obtain ⟨fault, widened⟩ | widened | ⟨s, widened, misfit⟩ :=
    whole.toWord_cases (Γ := Γ) notFloat beyond
  · exact ⟨fault, by rw [widened]⟩
  · exact ⟨_, by rw [widened]⟩
  · rw [widened]
    exact misfit d

end Ty.Whole

/-! ## Rows of one column -/

theorem Plan.exists_anew {ty : Ty} (scalar : ¬ ty.isRecord Γ) (depth : Nat) (label : String) :
    ∃ plan, Plan.anew Γ depth ty (.ofLabels [label]) = .ok plan := by
  simp [anew, scalar, build, ofScalar, Columns.ofLabels, Columns.size]

section OneColumn

variable {plan : Plan} {conversion : Conversion} {ty : Ty} {v : Value}

theorem RowSlots.put_only (planned : plan.steps = [.staged [] conversion]) (d : Datum) :
    (start plan ty d).put Γ 0 v =
      match Staged.fill conversion.rule.family v with
      | .ok staged => (⟨plan, ty, d, [some staged]⟩, none)
      | .error fault =>
          (start plan ty d, some (.conversion (.atColumn 0 (plan.columnName 0) fault))) := by
  simp only [start, put, planned, List.map_cons, List.map_nil, stageOf, List.getElem?_cons_zero,
    follow, fillStage, Staged.family_empty]
  cases Staged.fill conversion.rule.family v <;> rfl

theorem RowSlots.finish_only (planned : plan.steps = [.staged [] conversion]) (d : Datum)
    (staged : Staged) :
    (RowSlots.mk plan ty d [some staged]).finish Γ =
      match conversion.apply Γ staged ty d with
      | (value, none) => (value, none)
      | (value, some fault) =>
          (value, some (.conversion (.atColumn 0 (plan.columnName 0) fault))) := by
  simp only [finish, planned, List.zip_cons_cons, List.zip_nil_right, convertFrom, convertColumn]
  by_cases kept : staged.isNull ∧ 0 < conversion.layers
  · simp [kept, Conversion.apply, acceptWrite, written]
  · rw [if_neg kept, Ty.writeAt, Ty.visitPath]
    rcases conversion.apply Γ staged ty d with ⟨value, _ | fault⟩ <;> rfl

end OneColumn

namespace Reader

variable {σ : Type} {cursor : Cursor σ} {state after : σ} {ty : Ty} {v : Value}

theorem readBy_staged {plan : Plan} {conversion : Conversion}
    (planned : plan.steps = [.staged [] conversion])
    (served : cursor.scan state 1 = .ofValues after 1 [v]) :
    (readBy Γ plan ty cursor state).1 =
      match conversion.write Γ ty (ty.initial Γ) v with
      | (value, none) => .ok value
      | (_, some fault) => .error (.conversion (.atColumn 0 (plan.columnName 0) fault)) := by
  have width : (RowSlots.start plan ty (ty.initial Γ)).width = 1 := by
    simp [RowSlots.width, RowSlots.start, planned]
  have fed : Feed.ofValues after 1 [v] = .ofValuesFrom after 0 [v] := if_pos rfl
  rw [readBy, width, served, fed, Conversion.write]
  simp only [Feed.ofValuesFrom, Feed.run, RowSlots.put_only planned]
  cases Staged.fill conversion.rule.family v with
  | error fault => rfl
  | ok staged =>
      simp only [Feed.run, RowSlots.finish_only planned]
      rcases conversion.apply Γ staged ty (ty.initial Γ) with ⟨value, _ | fault⟩ <;> rfl

/-- A value that is no floating point number is read as a whole number of some width exactly if it
    denotes a number that the width holds; then this number is read, stored and converted. Any other
    value is refused, and the place that it was for keeps what it holds. What is staged on the way is
    the number that the value denotes, too. -/
theorem wholeNumber_exact {config : Config} {reader : Reader} {signed : Bool} {width : Width}
    {label : String} (used : Used Γ config.reader reader) (whole : ty.Whole signed width)
    (notFloat : ∀ x, v ≠ .float x) (offers : cursor.Offers state [label] [v]) :
    ∃ plan conversion, (reader.plan Γ ty [label]).1 = .ok plan ∧
      plan.steps = [.staged [] conversion] ∧
      (∀ staged s, Staged.fill conversion.rule.family v = .ok staged → staged.scalar? = some s →
        ∃ n, s.whole? = some n ∧ v.Denotes signed n) ∧
      (∀ n, v.Denotes signed n → width.Holds signed n →
        (reader.readRow Γ ty cursor state).1 = .ok (.whole n) ∧
        ∀ d, ty.store Γ d v = acceptWrite (.whole n) ∧
          conversion.write Γ ty d v = acceptWrite (.whole n)) ∧
      ((∀ n, v.Denotes signed n → ¬ width.Holds signed n) →
        (∃ fault, (reader.readRow Γ ty cursor state).1 = .error (.conversion fault)) ∧
        ∀ d, (∃ fault, ty.store Γ d v = refuseWrite d (.conversion fault)) ∧
          ∃ fault, conversion.write Γ ty d v = refuseWrite d fault) := by
  have sound := used_sound (sound_new config.maxDepth.toNat) used
  obtain ⟨plan, made⟩ := Plan.exists_anew whole.not_isRecord config.maxDepth.toNat label
  have planned := (plan_sound sound ty [label]).1.trans made
  obtain ⟨-, only⟩ := Plan.steps_of_scalar whole.not_isRecord made
  have steps : plan.steps = [.staged [] ⟨.ofWhole signed, 0⟩] := by
    rw [only, Plan.onlyStep, whole.base_eq, whole.decodes_eq]
    simp [Plan.stepTo, Ty.at?, whole.strategy_eq]
  obtain ⟨asked, after, told, fed⟩ := offers
  have read : (reader.readRow Γ ty cursor state).1 = (readBy Γ plan ty cursor asked).1 := by
    simp only [readRow, planCursor, told, planned]
  rw [read, readBy_staged steps (fed 1)]
  refine ⟨plan, _, planned, steps, ?_, ?_, ?_⟩
  · intro staged s filled content
    refine Value.toWord_denotes notFloat ?_
    rw [Value.toWord_eq, filled, ← content]
    rfl
  · intro n denotes holds
    have written := whole.write_held (Γ := Γ) notFloat denotes holds
    refine ⟨by rw [written]; rfl, fun d => ⟨whole.store_held notFloat denotes holds d, written d⟩⟩
  · intro beyond
    have refused := whole.write_refused (Γ := Γ) notFloat beyond
    obtain ⟨fault, unread⟩ := refused (ty.initial Γ)
    refine ⟨⟨_, by rw [unread]; rfl⟩, fun d => ⟨whole.store_refused notFloat beyond d, refused d⟩⟩

/-- A name for small numbers takes the greatest of them, and nothing beyond. -/
theorem wholeNumber_level :
    let level : Ty := .named "level" (.int .w8)
    let spelled : Value := .bytes (Utf8.encode " +127\n")
    let read (v : Value) := (({} : Config).reader.readRow {} level
      ({ columns := ["n"], rows := [[v]] } : Table).cursor (some 0)).1
    read spelled = .ok (.whole 127) ∧
      (∃ fault, read (.int 128) = .error (.conversion fault)) ∧
      ∃ fault,
        level.store {} (.whole 5) (.int 128) = refuseWrite (.whole 5) (.conversion fault) := by
  intro level spelled read
  have whole : level.Whole true .w8 := .named "level" (.int .w8)
  have offers (v : Value) :
      ({ columns := ["n"], rows := [[v]] } : Table).cursor.Offers (some 0) ["n"] [v] :=
    Table.cursor_offers rfl rfl
  have digits : Decimal.Digits "127".toList 127 := Decimal.readDigits?_eq_some.1 rfl
  have denotes : spelled.Denotes true 127 :=
    .bytes ⟨[' '], "+127".toList, ['\n'], rfl, .plus digits, List.forall_mem_singleton.2 rfl,
      List.forall_mem_singleton.2 rfl⟩
  have beyond : ∀ n, (Value.int 128).Denotes true n → ¬ Width.w8.Holds true n := by
    rintro n denotes ⟨-, small⟩
    rw [← Value.denotes_int.1 denotes] at small
    exact absurd small (by decide)
  obtain ⟨_, _, -, -, -, taken, -⟩ :=
    wholeNumber_exact .refl whole (by simp [spelled]) (offers spelled)
  obtain ⟨_, _, -, -, -, -, refused⟩ :=
    wholeNumber_exact .refl whole (by simp) (offers (.int 128))
  have within : Width.w8.Holds true 127 := ⟨by decide, by decide⟩
  exact ⟨(taken 127 denotes within).1, (refused beyond).1, ((refused beyond).2 (.whole 5)).1⟩

end Reader

end SqlMarshal
