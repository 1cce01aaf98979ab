import SqlMarshal.Proofs.Row.WholeNumbers

/-! # The two routes into a place

A value comes into a place that is filled through a stage on two routes: it is staged and converted,
or the place stores it itself. The stage refuses what storing refuses. And once a value is staged,
converting it assigns the scalar that storing assigns, behind the same layers, so the two leave the
same in the place, whether the scalar is taken or not.
-/

namespace SqlMarshal

variable {Γ : Catalogue}

/-- Whether what a type holds belongs to it and can be written. -/
def Ty.owned : Ty → Bool
  | .borrowedText => false
  | .optional content | .boxed content | .named _ content => content.owned
  | _ => true

/-- A write whose faults are told as errors of a row. -/
def Written.asError (written : Written Fault) : Written RowError :=
  (written.1, written.2.map RowError.conversion)

/-! ## Staging -/

namespace ConversionRule

variable {rule : ConversionRule} {v : Value} {staged : Staged} {s : Scalar}

theorem exists_scalar (present : v ≠ .null) (filled : Staged.fill rule.family v = .ok staged) :
    ∃ s, staged.scalar? = some s := by
  refine Option.ne_none_iff_exists'.1 fun none => present ?_
  exact (Staged.isNull_of_fill filled).1 (by simp [Staged.isNull, none])

theorem assign_of_fill (filled : Staged.fill rule.family v = .ok staged)
    (content : staged.scalar? = some s) (target : Ty) (d : Datum) :
    rule.assign Γ staged target d = target.assign Γ d s := by
  have scalar : rule.scalar staged (target.name Γ) = .ok s := by
    rw [scalar, if_pos (Staged.family_of_fill filled)]
    simp only [content]
  rw [assign, scalar]

end ConversionRule

/-! ## Converting -/

theorem Ty.visitBehind_assign {visit : Ty → Datum → Written Fault} {s : Scalar}
    (assigns : ∀ target d, visit target d = target.assign Γ d s) (missing : Nat → Option Fault)
    (layer : Nat) (ty : Ty) (d : Datum) :
    visitBehind Γ visit missing layer ty.layers ty d = ty.assign Γ d s := by
  induction ty generalizing layer d with
  | optional content ih =>
      exact congrArg Written.inside (ih (layer + 1) (d.contentOr (content.initial Γ)))
  | boxed content ih | named _ content ih =>
      cases deep : content.layers with
      | zero =>
          simp only [layers, deep, visitBehind]
          exact assigns _ d
      | succ n =>
          have inner := ih layer d
          rw [deep] at inner
          simpa only [layers, deep, visitBehind, visitPointee, assign] using inner
  | _ => exact assigns _ d

theorem Conversion.apply_of_fill {rule : ConversionRule} {ty : Ty} {v : Value} {staged : Staged}
    {s : Scalar} (filled : Staged.fill rule.family v = .ok staged)
    (content : staged.scalar? = some s) (d : Datum) :
    apply Γ ⟨rule, ty.layers⟩ staged ty d = ty.assign Γ d s := by
  have held : ¬ staged.isNull := by simp [Staged.isNull, content]
  rw [apply, if_neg fun both => held both.1]
  exact Ty.visitBehind_assign (ConversionRule.assign_of_fill filled content) _ 0 ty d

/-! ## Storing -/

namespace Ty

section Numbers

variable {α : Type} {converted : Except Fault (Option α)} {stage : Option α → Staged}
  {number : α → Scalar} {ty : Ty} {d : Datum}

theorem assignConverted_of_error {fault : Fault} (failed : converted.map stage = .error fault) :
    (ty.assignConverted Γ d (converted.map (·.map number))).2 = some (.conversion fault) := by
  cases converted with
  | error other =>
      obtain rfl : other = fault := by simpa [Except.map] using failed
      rfl
  | ok found => cases failed

theorem assignConverted_of_ok (held : ∀ found, (stage found).scalar? = found.map number)
    {staged : Staged} {s : Scalar} (filled : converted.map stage = .ok staged)
    (content : staged.scalar? = some s) :
    ty.assignConverted Γ d (converted.map (·.map number)) = (ty.assign Γ d s).asError := by
  cases converted with
  | error fault => cases filled
  | ok found =>
      obtain rfl : stage found = staged := Except.ok.inj filled
      rw [held] at content
      simp only [Except.map, content, assignConverted]
      rfl

end Numbers

variable {rule : ConversionRule} {v : Value} {ty : Ty}

theorem store_of_error (suits : rule.suits (ty.base.kind Γ)) (present : v ≠ .null) {fault : Fault}
    (failed : Staged.fill rule.family v = .error fault) (d : Datum) :
    (ty.store Γ d v).2 = some (.conversion fault) := by
  induction ty generalizing d with
  | optional content ih =>
      rw [store_optional present]
      exact ih suits (d.contentOr (content.initial Γ))
  | boxed content ih => exact ih suits d
  | named name content ih => exact ih (suits_content suits) d
  | int | uint | single | double =>
      cases rule <;> simp only [base, kind, ConversionRule.suits, Bool.false_eq_true] at suits
      exact assignConverted_of_error failed
  | text | borrowedText =>
      -- Every value has a text.
      cases rule <;> simp only [base, kind, ConversionRule.suits, Bool.false_eq_true] at suits <;>
        cases failed
  | sequence item =>
      simp only [base, kind] at suits
      split at suits <;> cases rule <;> simp [ConversionRule.suits] at suits
  | _ => cases rule <;> simp [base, kind, ConversionRule.suits] at suits

/-- Storing a value is assigning the scalar that is staged of it. -/
theorem store_of_ok (suits : rule.suits (ty.base.kind Γ)) (owned : ty.owned) (present : v ≠ .null)
    {staged : Staged} {s : Scalar} (filled : Staged.fill rule.family v = .ok staged)
    (content : staged.scalar? = some s) (d : Datum) :
    ty.store Γ d v = (ty.assign Γ d s).asError := by
  induction ty generalizing d with
  | optional content ih =>
      rw [store_optional present, ih suits owned]
      rfl
  | boxed content ih => exact ih suits owned d
  | named name content ih => exact ih (suits_content suits) owned d
  | int | uint | single | double =>
      cases rule <;> simp only [base, kind, ConversionRule.suits, Bool.false_eq_true] at suits
      exact assignConverted_of_ok (fun found => by cases found <;> rfl) filled content
  | text =>
      cases rule <;> simp only [base, kind, ConversionRule.suits, Bool.false_eq_true] at suits
      case textFromText =>
        obtain rfl := Except.ok.inj filled
        obtain ⟨spelled, text, rfl⟩ := Option.map_eq_some_iff.1 content
        rw [store, text]
        rfl
      case textFromBytes =>
        obtain rfl := Except.ok.inj filled
        obtain ⟨bytes, found, rfl⟩ := Option.map_eq_some_iff.1 content
        rw [store, ← Value.map_decode_toBytes?, found]
        rfl
  | borrowedText => cases owned
  | sequence item =>
      simp only [base, kind] at suits
      split at suits <;> cases rule <;> simp [ConversionRule.suits] at suits
  | _ => cases rule <;> simp [base, kind, ConversionRule.suits] at suits

end Ty

namespace Conversion

/-- The two routes agree: through a new stage a value that is not NULL comes into any place exactly
    if the place stores it, and leaves the same there, whatever the place held. A type that owns what
    it holds refuses for the same reason on both, and once the value is staged even a refusal leaves
    the same behind. -/
theorem write_agrees_store {ty : Ty} {conversion : Conversion}
    (picked : (ty.info Γ).strategy Γ = .staged conversion) {v : Value} (present : v ≠ .null)
    (d : Datum) :
    (conversion.write Γ ty d v).accepted? = (ty.store Γ d v).accepted? ∧
      (ty.owned → (conversion.write Γ ty d v).2.map .conversion = (ty.store Γ d v).2 ∧
        ∀ staged, Staged.fill conversion.rule.family v = .ok staged →
          (conversion.apply Γ staged ty d).asError = ty.store Γ d v) := by
  have agree := accepted?_apply picked (fun null => absurd null present) d
  cases ruled : (ty.base.info Γ).rule? with
  | none => simp [TypeInfo.strategy_info, ruled] at picked
  | some rule =>
      obtain rfl : ⟨rule, ty.layers⟩ = conversion := by
        simpa [TypeInfo.strategy_info, ruled] using picked
      have suits : rule.suits (ty.base.kind Γ) := TypeInfo.suits_of_rule? ruled
      cases filled : Staged.fill rule.family v with
      | error fault =>
          have written : write Γ ⟨rule, ty.layers⟩ ty d v = refuseWrite d fault := by
            simp only [write, filled]
          rw [filled] at agree
          rw [written, Ty.store_of_error suits present filled d]
          exact ⟨agree, fun _ => ⟨rfl, fun staged filled => by cases filled⟩⟩
      | ok staged =>
          have written :
              write Γ ⟨rule, ty.layers⟩ ty d v = apply Γ ⟨rule, ty.layers⟩ staged ty d := by
            simp only [write, filled]
          obtain ⟨s, content⟩ := ConversionRule.exists_scalar present filled
          have applied : apply Γ ⟨rule, ty.layers⟩ staged ty d = ty.assign Γ d s :=
            apply_of_fill filled content d
          rw [filled] at agree
          rw [written]
          refine ⟨agree, fun owned => ?_⟩
          rw [Ty.store_of_ok suits owned present filled content d, applied]
          refine ⟨rfl, fun other same => ?_⟩
          obtain rfl := Except.ok.inj same
          rw [applied]

/-- A number behind two optional layers, one of them inside a name, over an older number. -/
theorem write_agrees_store_spent :
    let spent : Ty := .optional (.named "spent" (.boxed (.optional (.uint .w8))))
    let old : Datum := .present (.present (.whole 7))
    let conversion : Conversion := ⟨.fromUint, 2⟩
    (spent.info {}).strategy {} = .staged conversion ∧
      (spent.store {} old (.int 200)).accepted? = some (.present (.present (.whole 200))) ∧
      (conversion.write {} spent old (.int 200)).accepted? =
        some (.present (.present (.whole 200))) ∧
      (conversion.write {} spent old (.int 300)).2.map RowError.conversion =
        some (.conversion (.overflow (.whole 300) "u8")) := by
  intro spent old conversion
  have picked : (spent.info {}).strategy {} = .staged conversion := rfl
  have taken := write_agrees_store picked (v := .int 200) (by decide) old
  have refused := write_agrees_store picked (v := .int 300) (by decide) old
  have stored : (spent.store {} old (.int 200)).accepted? =
      some (.present (.present (.whole 200))) := rfl
  have beyond : (spent.store {} old (.int 300)).2 =
      some (.conversion (.overflow (.whole 300) "u8")) := rfl
  exact ⟨picked, stored, taken.1.trans stored, (refused.2 rfl).1.trans beyond⟩

end Conversion

end SqlMarshal
