import SqlMarshal.Proofs.Row.Modification
import SqlMarshal.Proofs.Text.Utf8RoundTrip
import SqlMarshal.Proofs.Ty.Layers
import SqlMarshal.Row.Conversion

/-! # Staged and stored values agree

A field that is filled through a stage ends up with the value it would have stored itself: to widen
a driver value to its family and to assign the scalar behind all optional layers is what storing it
does in one go, and the two refuse the same values. The one exception is NULL behind an optional
layer, which empties the layer when it is stored and leaves the field alone when it was staged.
-/

namespace SqlMarshal

variable {Γ : Catalogue}

/-! ## Widening -/

namespace Value

theorem readSpelling_ne_null {α : Type} (v : Value) (target : String)
    (read : List Char → Option α) : v.readSpelling target read ≠ .ok none := by
  simp only [readSpelling, refuse]
  split <;> simp

theorem toInt64_eq_null {v : Value} : v.toInt64 = .ok none ↔ v = .null := by
  cases v with
  | uint | float =>
      simp only [toInt64, refuse]
      split <;> simp
  | _ => simp [toInt64, readSpelling_ne_null]

theorem toUInt64_eq_null {v : Value} : v.toUInt64 = .ok none ↔ v = .null := by
  cases v with
  | int | float =>
      simp only [toUInt64, refuse]
      split <;> simp
  | _ => simp [toUInt64, readSpelling_ne_null]

theorem toBinary64_eq_null {v : Value} : v.toBinary64 = .ok none ↔ v = .null := by
  cases v <;> simp [toBinary64, readSpelling_ne_null]

theorem toText?_eq_none {v : Value} : v.toText? = none ↔ v = .null := by
  cases v <;> simp [toText?]

theorem map_decode_toBytes? (v : Value) : v.toBytes?.map Utf8.decodeReplacing = v.toText? := by
  cases v <;> simp [toBytes?, toText?, Utf8.decodeReplacing_encode]

theorem toBytes?_eq_none {v : Value} : v.toBytes? = none ↔ v = .null := by
  rw [← toText?_eq_none, ← map_decode_toBytes?, Option.map_eq_none_iff]

end Value

theorem Staged.isNull_of_map {α : Type} {converted : Except Fault (Option α)}
    {stage : Option α → Staged} {staged : Staged} (holds : ∀ n, (stage n).isNull ↔ n = none)
    (filled : converted.map stage = .ok staged) : staged.isNull ↔ converted = .ok none := by
  cases converted with
  | error fault => simp [Except.map] at filled
  | ok n =>
      obtain rfl := Except.ok.inj filled
      simpa using holds n

theorem Staged.isNull_of_fill {family : Family} {v : Value} {staged : Staged}
    (filled : Staged.fill family v = .ok staged) : staged.isNull ↔ v = .null := by
  cases family with
  | bytes =>
      obtain rfl := Except.ok.inj filled
      simp [isNull, scalar?, Value.toBytes?_eq_none]
  | text =>
      obtain rfl := Except.ok.inj filled
      simp [isNull, scalar?, Value.toText?_eq_none]
  | int =>
      rw [isNull_of_map (fun _ => by simp [isNull, scalar?]) filled, Value.toInt64_eq_null]
  | uint =>
      rw [isNull_of_map (fun _ => by simp [isNull, scalar?]) filled, Value.toUInt64_eq_null]
  | float =>
      rw [isNull_of_map (fun _ => by simp [isNull, scalar?]) filled, Value.toBinary64_eq_null]

/-! ## Assigning -/

/-- Whether a rule assigns scalars that values of a kind take. -/
def ConversionRule.suits : ConversionRule → Kind → Bool
  | .textFromBytes, .text | .textFromText, .text => true
  | .fromInt, .int _ => true
  | .fromUint, .uint _ => true
  | .fromFloat, .single | .fromFloat, .double => true
  | _, _ => false

theorem TypeInfo.suits_of_rule? {info : TypeInfo} {rule : ConversionRule}
    (ruled : info.rule? = some rule) : rule.suits info.kind := by
  simp only [rule?] at ruled
  split at ruled
  · simp at ruled
  · cases kind : info.kind <;> simp only [kind, Option.some.injEq, reduceCtorEq] at ruled
    case text =>
      split at ruled <;> subst ruled <;> rfl
    all_goals
      subst ruled
      rfl

namespace Ty

theorem accepted?_assignConverted {ty : Ty} {d : Datum}
    {converted : Except Fault (Option Scalar)} :
    (ty.assignConverted Γ d converted).accepted? =
      converted.toOption.join.bind fun s => (ty.assign Γ d s).accepted? := by
  cases converted with
  | error fault => rfl
  | ok scalar =>
      cases scalar with
      | none => rfl
      | some s => exact accepted?_map_error (ty.assign Γ d s) RowError.conversion

end Ty

namespace ConversionRule

/-- The scalar that a value comes to through a stage, unless it is refused. The name of the target
    is only for the message of a refusal. -/
def widen? (rule : ConversionRule) (v : Value) : Option Scalar :=
  (Staged.fill rule.family v).toOption.bind fun staged => (rule.scalar staged "").toOption

theorem toOption_scalar (rule : ConversionRule) (staged : Staged) (left right : String) :
    (rule.scalar staged left).toOption = (rule.scalar staged right).toOption := by
  simp only [scalar]
  split
  · split <;> rfl
  · rfl

theorem accepted?_assign (rule : ConversionRule) (staged : Staged) (ty : Ty) (d : Datum) :
    (rule.assign Γ staged ty d).accepted? =
      (rule.scalar staged "").toOption.bind fun s => (ty.assign Γ d s).accepted? := by
  rw [assign, toOption_scalar rule staged "" (ty.name Γ)]
  cases rule.scalar staged (ty.name Γ) <;> rfl

theorem widen?_of_number {α : Type} {rule : ConversionRule} {v : Value}
    {converted : Except Fault (Option α)} {stage : Option α → Staged} {number : α → Scalar}
    (filled : Staged.fill rule.family v = converted.map stage)
    (held : ∀ n, (rule.scalar (stage n) "").toOption = n.map number) :
    rule.widen? v = (converted.map (·.map number)).toOption.join := by
  rw [widen?, filled]
  cases converted with
  | error fault => rfl
  | ok n => exact held n

theorem widen?_fromInt (v : Value) :
    fromInt.widen? v = (v.toInt64.map (·.map Scalar.int)).toOption.join :=
  widen?_of_number rfl fun n => by cases n <;> rfl

theorem widen?_fromUint (v : Value) :
    fromUint.widen? v = (v.toUInt64.map (·.map Scalar.uint)).toOption.join :=
  widen?_of_number rfl fun n => by cases n <;> rfl

theorem widen?_fromFloat (v : Value) :
    fromFloat.widen? v = (v.toBinary64.map (·.map Scalar.float)).toOption.join :=
  widen?_of_number rfl fun n => by cases n <;> rfl

theorem widen?_textFromText (v : Value) :
    textFromText.widen? v = some (.text (v.toText?.getD "")) := by
  simp only [widen?, family, Staged.fill]
  cases v.toText? <;> rfl

theorem widen?_textFromBytes (v : Value) :
    textFromBytes.widen? v = some (v.toBytes?.elim (.text "") .bytes) := by
  simp only [widen?, family, Staged.fill]
  cases v.toBytes? <;> rfl

end ConversionRule

namespace Ty

theorem store_optional {v : Value} (present : v ≠ .null) (content : Ty) (d : Datum) :
    (Ty.optional content).store Γ d v =
      (content.store Γ (d.contentOr (content.initial Γ)) v).inside := by
  cases v with
  | null => exact absurd rfl present
  | _ => rfl

theorem suits_content {rule : ConversionRule} {name : String} {content : Ty}
    (suits : rule.suits ((named name content).base.kind Γ)) : rule.suits (content.base.kind Γ) := by
  by_cases bare : content.layers = 0
  · rw [kind_base_of_solid bare]
    simpa [base, bare, kind] using suits
  · simpa [base, bare] using suits

theorem store_eq_assign {ty : Ty} {rule : ConversionRule} (suits : rule.suits (ty.base.kind Γ))
    {v : Value} (solid : v = .null → ty.layers = 0) (d : Datum) :
    (ty.store Γ d v).accepted? =
      (rule.widen? v).bind fun s => (ty.assign Γ d s).accepted? := by
  induction ty generalizing d with
  | optional content ih =>
      have present : v ≠ .null := fun null => by simpa [layers] using solid null
      have inner := ih suits (fun null => absurd null present) (d.contentOr (content.initial Γ))
      simp only [store_optional present, assign, accepted?_inside, inner, Option.map_bind,
        Function.comp_def]
  | boxed content ih => exact ih suits solid d
  | named name content ih => exact ih (suits_content suits) solid d
  | int width =>
      cases rule <;> simp only [base, kind, ConversionRule.suits, Bool.false_eq_true] at suits
      rw [store, accepted?_assignConverted, ConversionRule.widen?_fromInt]
  | uint width =>
      cases rule <;> simp only [base, kind, ConversionRule.suits, Bool.false_eq_true] at suits
      rw [store, accepted?_assignConverted, ConversionRule.widen?_fromUint]
  | single | double =>
      cases rule <;> simp only [base, kind, ConversionRule.suits, Bool.false_eq_true] at suits
      rw [store, accepted?_assignConverted, ConversionRule.widen?_fromFloat]
  | text =>
      cases rule <;> simp only [base, kind, ConversionRule.suits, Bool.false_eq_true] at suits
      case textFromText =>
        rw [ConversionRule.widen?_textFromText]
        rfl
      case textFromBytes =>
        rw [store, ConversionRule.widen?_textFromBytes, ← Value.map_decode_toBytes?]
        cases v.toBytes? <;> rfl
  | borrowedText =>
      cases rule <;> simp only [base, kind, ConversionRule.suits, Bool.false_eq_true] at suits
      case textFromText =>
        rw [ConversionRule.widen?_textFromText]
        rfl
      case textFromBytes =>
        rw [ConversionRule.widen?_textFromBytes]
        cases v.toBytes? <;> rfl
  | sequence item =>
      simp only [base, kind] at suits
      split at suits <;> cases rule <;> simp [ConversionRule.suits] at suits
  | _ => cases rule <;> simp [base, kind, ConversionRule.suits] at suits

theorem accepted?_visitBehind {ty : Ty} (rule : ConversionRule) (staged : Staged)
    (missing : Nat → Option Fault) (layer : Nat) (d : Datum) :
    Written.accepted?
        (visitBehind Γ (rule.assign Γ staged) missing layer ty.layers ty d) =
      (rule.scalar staged "").toOption.bind fun s => (ty.assign Γ d s).accepted? := by
  induction ty generalizing layer d with
  | optional content ih =>
      have inner := ih (layer + 1) (d.contentOr (content.initial Γ))
      calc
        _ = (Written.inside (visitBehind Γ (rule.assign Γ staged) missing (layer + 1)
              content.layers content (d.contentOr (content.initial Γ)))).accepted? := rfl
        _ = _ := by simp only [accepted?_inside, inner, assign, Option.map_bind, Function.comp_def]
  | boxed content ih | named _ content ih =>
      cases deep : content.layers with
      | zero =>
          simp only [layers, deep, visitBehind, rule.accepted?_assign, assign]
      | succ n =>
          have inner := ih layer d
          rw [deep] at inner
          simpa only [layers, deep, visitBehind, visitPointee, assign] using inner
  | _ => exact rule.accepted?_assign staged _ d

end Ty

/-- What comes into a field through a stage is what the field would have stored itself, but for NULL
    behind an optional layer. -/
theorem Conversion.accepted?_apply {ty : Ty} {conversion : Conversion}
    (picked : (ty.info Γ).strategy Γ = .staged conversion) {v : Value}
    (solid : v = .null → conversion.layers = 0) (d : Datum) :
    (Staged.fill conversion.rule.family v).toOption.bind (fun staged =>
        (conversion.apply Γ staged ty d).accepted?) =
      (ty.store Γ d v).accepted? := by
  simp only [TypeInfo.strategy, Ty.peel_info] at picked
  cases ruled : (ty.base.info Γ).rule? with
  | none => simp [ruled] at picked
  | some rule =>
      simp only [ruled, Strategy.staged.injEq] at picked
      subst picked
      rw [Ty.store_eq_assign (TypeInfo.suits_of_rule? ruled) solid, ConversionRule.widen?]
      cases filled : Staged.fill rule.family v with
      | error fault => rfl
      | ok staged =>
          have covered : ¬ (staged.isNull ∧ 0 < ty.layers) := by
            rintro ⟨null, deep⟩
            have bare : ty.layers = 0 := solid ((Staged.isNull_of_fill filled).1 null)
            omega
          simp only [apply, if_neg covered, Except.toOption, Option.bind_some,
            Ty.accepted?_visitBehind]

end SqlMarshal
