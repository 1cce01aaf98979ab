import SqlMarshal.Proofs.Ty.Admits
import SqlMarshal.Row.Conversion

/-! # Misfits

Some faults do not say that a value has no form that its destination takes, but that a plan does not
fit what is read by it: a path leads nowhere, a layer that was counted is not there, a column has no
stage or a stage of the wrong family.

Widening, assigning and storing do not know of plans and give no such fault. Only the decoder of a
type can answer with an error of any kind, in its own words.
-/

namespace SqlMarshal

variable {Γ : Catalogue}

/-- The fault says that a plan does not fit. -/
def Fault.isMisfit : Fault → Bool
  | .brokenPath .. | .missingLayer .. | .missingStage | .wrongFamily .. => true
  | .atColumn _ _ fault => fault.isMisfit
  | _ => false

def RowError.isMisfit : RowError → Bool
  | .conversion fault => fault.isMisfit
  | _ => false

@[simp] theorem RowError.isMisfit_atColumn (error : RowError) (column : Nat) (name : String) :
    (error.atColumn column name).isMisfit = error.isMisfit := by
  cases error <;> rfl

/-- The error is what some declared decoder answers. -/
def Catalogue.Says (Γ : Catalogue) (error : RowError) : Prop :=
  ∃ name held v, ((Γ.decoder name).decode held v).2 = some error

/-- The error is no misfit, unless a decoder says so. -/
def RowError.Vouched (Γ : Catalogue) (error : RowError) : Prop :=
  error.isMisfit → Γ.Says error

theorem RowError.vouched_conversion {fault : Fault} (plain : fault.isMisfit = false) :
    (conversion fault).Vouched Γ :=
  fun misfit => absurd (plain.symm.trans misfit) Bool.false_ne_true

/-- If a conversion is refused, it is not for a misfit. -/
def NoMisfit {α : Type} (converted : Except Fault α) : Prop :=
  ∀ fault, converted = .error fault → fault.isMisfit = false

@[simp] theorem noMisfit_ok {α : Type} (a : α) : NoMisfit (.ok a) := by
  simp [NoMisfit]

@[simp] theorem noMisfit_error {α : Type} (fault : Fault) :
    NoMisfit (.error fault : Except Fault α) ↔ fault.isMisfit = false := by
  simp [NoMisfit]

theorem NoMisfit.map {α β : Type} {converted : Except Fault α} (good : NoMisfit converted)
    (f : α → β) : NoMisfit (converted.map f) := by
  cases converted with
  | ok a => exact noMisfit_ok _
  | error fault => exact (noMisfit_error fault).2 ((noMisfit_error fault).1 good)

/-! ## Widening -/

namespace Value

@[simp] theorem noMisfit_readSpelling {α : Type} (v : Value) (target : String)
    (read : List Char → Option α) : NoMisfit (v.readSpelling target read) := by
  simp only [readSpelling, refuse]
  split <;> simp [Fault.isMisfit]

theorem noMisfit_toInt64 (v : Value) : NoMisfit v.toInt64 := by
  cases v with
  | uint | float =>
      simp only [toInt64, refuse]
      split <;> simp [Fault.isMisfit]
  | _ => simp [toInt64]

theorem noMisfit_toUInt64 (v : Value) : NoMisfit v.toUInt64 := by
  cases v with
  | int | float =>
      simp only [toUInt64, refuse]
      split <;> simp [Fault.isMisfit]
  | _ => simp [toUInt64]

theorem noMisfit_toBinary64 (v : Value) : NoMisfit v.toBinary64 := by
  cases v <;> simp [toBinary64]

theorem noMisfit_toBool (v : Value) : NoMisfit v.toBool := by
  simp only [toBool, refuse]
  split <;> simp [Fault.isMisfit]

theorem noMisfit_toTimestamp (v : Value) : NoMisfit v.toTimestamp := by
  cases v with
  | text | bytes =>
      simp only [toTimestamp, refuse]
      split <;> simp [Fault.isMisfit]
  | _ => simp [toTimestamp, refuse, Fault.isMisfit]

end Value

theorem Staged.noMisfit_fill (family : Family) (v : Value) : NoMisfit (fill family v) := by
  cases family with
  | bytes | text => exact noMisfit_ok _
  | int => exact v.noMisfit_toInt64.map _
  | uint => exact v.noMisfit_toUInt64.map _
  | float => exact v.noMisfit_toBinary64.map _

theorem ConversionRule.noMisfit_scalar {rule : ConversionRule} {staged : Staged}
    (same : staged.family = rule.family) (target : String) :
    NoMisfit (rule.scalar staged target) := by
  simp only [scalar, if_pos same]
  split <;> simp [Fault.isMisfit]

/-! ## Writing -/

/-- If a write is refused, its error has some property. -/
def Written.RefusedFor {ε : Type} (P : ε → Prop) (written : Written ε) : Prop :=
  ∀ error, written.2 = some error → P error

section RefusedFor

variable {ε : Type} {P : ε → Prop} {d : Datum}

@[simp] theorem refusedFor_accept : (acceptWrite d : Written ε).RefusedFor P := by
  simp [acceptWrite, Written.RefusedFor]

@[simp] theorem refusedFor_refuse {error : ε} : (refuseWrite d error).RefusedFor P ↔ P error := by
  simp [refuseWrite, Written.RefusedFor]

theorem Written.RefusedFor.map_error {φ : Type} {Q : φ → Prop} {f : ε → φ} {written : Written ε}
    (good : written.RefusedFor P) (carry : ∀ error, P error → Q (f error)) :
    Written.RefusedFor Q (written.1, written.2.map f) := by
  intro error refused
  obtain ⟨fault, found, rfl⟩ := Option.map_eq_some_iff.1 refused
  exact carry fault (good fault found)

end RefusedFor

theorem vouched_refuse {d : Datum} {fault : Fault} (plain : fault.isMisfit = false) :
    (refuseWrite d (RowError.conversion fault)).RefusedFor (RowError.Vouched Γ) :=
  refusedFor_refuse.2 (RowError.vouched_conversion plain)

namespace Ty

theorem assignWhole_noMisfit (name : String) (fits : Int → Bool) (d : Datum) (s : Scalar) :
    (assignWhole name fits d s).RefusedFor (·.isMisfit = false) := by
  unfold assignWhole
  split
  · split <;> simp [Fault.isMisfit]
  · simp [Fault.isMisfit]

theorem assign_noMisfit (ty : Ty) (d : Datum) (s : Scalar) :
    (ty.assign Γ d s).RefusedFor (·.isMisfit = false) := by
  induction ty generalizing d with
  | optional content ih => exact ih _
  | boxed content ih | named _ content ih => exact ih d
  | int | uint => exact assignWhole_noMisfit _ _ d s
  | single =>
      cases s with
      | float x =>
          simp only [assign]
          split <;> simp [Fault.isMisfit]
      | _ => simp [assign, Fault.isMisfit]
  | sequence item =>
      cases s with
      | text | bytes =>
          simp only [assign]
          split <;> simp [Fault.isMisfit]
      | _ => simp [assign, Fault.isMisfit]
  | _ => cases s <;> simp [assign, Fault.isMisfit]

theorem assignConverted_vouched (ty : Ty) (d : Datum) {converted : Except Fault (Option Scalar)}
    (good : NoMisfit converted) :
    (ty.assignConverted Γ d converted).RefusedFor (RowError.Vouched Γ) := by
  rcases converted with fault | _ | s
  · exact vouched_refuse ((noMisfit_error fault).1 good)
  · exact vouched_refuse rfl
  · exact (assign_noMisfit ty d s).map_error fun _ => RowError.vouched_conversion

theorem storeDocument_vouched (schema : Schema) (d : Datum) (v : Value) :
    (storeDocument schema d v).RefusedFor (RowError.Vouched Γ) := by
  rcases storeDocument_cases schema d v with kept | ⟨found, stored⟩ | ⟨fault, refused, which⟩
  · simp [kept]
  · simp [stored]
  · rw [refused]
    exact vouched_refuse (by rcases which with rfl | rfl <;> rfl)

theorem storeDecoded_vouched (name : String) (d : Datum) (v : Value) :
    (storeDecoded (Γ.decoder name) d v).RefusedFor (RowError.Vouched Γ) := by
  cases d with
  | value held => exact fun error said _ => ⟨name, held, v, said⟩
  | _ => exact refusedFor_accept

/-- Storing gives a misfit only when a decoder says so. -/
theorem store_vouched (ty : Ty) (d : Datum) (v : Value) :
    (ty.store Γ d v).RefusedFor (RowError.Vouched Γ) := by
  induction ty generalizing d with
  | bool => exact assignConverted_vouched _ d (v.noMisfit_toBool.map _)
  | int => exact assignConverted_vouched _ d (v.noMisfit_toInt64.map _)
  | uint => exact assignConverted_vouched _ d (v.noMisfit_toUInt64.map _)
  | single | double => exact assignConverted_vouched _ d (v.noMisfit_toBinary64.map _)
  | timestamp =>
      have good := v.noMisfit_toTimestamp
      simp only [store]
      split
      · rename_i fault converted
        exact vouched_refuse (good fault converted)
      · exact vouched_refuse rfl
      · exact refusedFor_accept
  | text | rawBytes | value => exact refusedFor_accept
  | document schema => exact storeDocument_vouched schema d v
  | custom name => exact storeDecoded_vouched name d v
  | optional content ih =>
      cases v with
      | null => exact refusedFor_accept
      | _ => exact ih _
  | boxed content ih | named _ content ih => exact ih d
  | sequence item =>
      simp only [store]
      split
      · exact refusedFor_accept
      · exact vouched_refuse rfl
  | _ => exact vouched_refuse rfl

end Ty

end SqlMarshal
