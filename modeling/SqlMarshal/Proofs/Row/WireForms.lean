import SqlMarshal.Proofs.Row.WholeNumbers

/-! # Wire forms

A driver hands over a truth value, a whole number or a text as a typed value, as its text or as the
bytes of its text. The conversions do not tell these forms apart: what is written for a number is a
numeral of it and of no other number, and the spellings of truth values are the same in all forms. So
a column is read alike in every form, or refused in every form.
-/

namespace SqlMarshal

variable {Γ : Catalogue}

/-! ## Numbers -/

namespace Decimal

theorem digits_writeNat (n : Nat) : Digits (writeNat n) n := by
  have digits := digits_of_all Nat.toDigits_ne_nil
    fun _ => Nat.isDigit_of_mem_toDigits (n := n) (by decide : 0 < 10) (Nat.le_refl _)
  rwa [Nat.ofDigitChars_ten_toDigits] at digits

theorem numeral_write {signed : Bool} {n : Int} (representable : signed ∨ 0 ≤ n) :
    Numeral signed (write n) n := by
  cases n with
  | ofNat n => exact .bare (digits_writeNat n)
  | negSucc n =>
      have negative : signed := representable.resolve_right (by omega)
      exact .minus negative (digits_writeNat (n + 1))

theorem readSigned?_of_numeral {signed : Bool} {text : List Char} {n : Int}
    (numeral : Numeral signed text n) : readSigned? text = some n := by
  cases signed with
  | true => exact readSigned?_eq_some.2 numeral
  | false => exact readSigned?_eq_some.2 numeral.signed

theorem toList_text (n : Int) : (text n).toList = write n :=
  String.toList_ofList

theorem spells_text_self {signed : Bool} {n : Int} (representable : signed ∨ 0 ≤ n) :
    Spells signed (text n).toList n :=
  ⟨[], write n, [], by simp [toList_text], numeral_write representable, nofun, nofun⟩

/-- What is written for a number spells this number alone. -/
theorem spells_text {signed : Bool} {m n : Int} (representable : signed ∨ 0 ≤ n) :
    Spells signed (text m).toList n ↔ m = n := by
  constructor
  · intro spells
    have written : Spells true (text m).toList m := spells_text_self (.inl rfl)
    exact Option.some.inj ((readSigned?_of_numeral (spells_iff.1 written)).symm.trans
      (readSigned?_of_numeral (spells_iff.1 spells)))
  · rintro rfl
    exact spells_text_self representable

theorem readSigned?_text (n : Int) : readSigned? (text n).toList = some n := by
  rw [toList_text]
  exact readSigned?_eq_some.2 (numeral_write (.inl rfl))

end Decimal

namespace Value

theorem readBool?_text (n : Int) :
    readBool? (Decimal.text n) =
      if n = 0 then some false else if n = 1 then some true else none := by
  by_cases zero : n = 0
  · subst zero
    decide
  by_cases one : n = 1
  · subst one
    decide
  have spellings : ∀ s ∈ ["1", "t", "T", "TRUE", "true", "True"] ++
      ["0", "f", "F", "FALSE", "false", "False"],
      Decimal.readSigned? s.toList ∈ [none, some 0, some 1] := by decide
  have other : Decimal.text n ∉ ["1", "t", "T", "TRUE", "true", "True"] ++
      ["0", "f", "F", "FALSE", "false", "False"] := by
    intro spelled
    have number := spellings _ spelled
    simp [Decimal.readSigned?_text, zero, one] at number
  rw [List.mem_append, not_or] at other
  rw [readBool?, if_neg other.1, if_neg other.2, if_neg zero, if_neg one]

/-- The value stands for a text: as a typed value, as the text itself or as its bytes. -/
inductive StandsFor : Value → String → Prop where
  | bool (b : Bool) : StandsFor (.bool b) (if b then "true" else "false")
  | int (n : Int64) : StandsFor (.int n) (Decimal.text n.toInt)
  | uint (n : UInt64) : StandsFor (.uint n) (Decimal.text n.toNat)
  | text (s : String) : StandsFor (.text s) s
  | bytes (s : String) : StandsFor (.bytes (Utf8.encode s)) s

namespace StandsFor

variable {v w : Value} {s : String}

theorem toText?_eq (stands : v.StandsFor s) : v.toText? = some s := by
  cases stands with
  | bytes => exact congrArg some (Utf8.decodeReplacing_encode s)
  | _ => rfl

theorem toBytes?_eq (stands : v.StandsFor s) : v.toBytes? = some (Utf8.encode s) := by
  cases stands <;> rfl

theorem ne_null (stands : v.StandsFor s) : v ≠ .null := by
  cases stands <;> simp

theorem ne_float (stands : v.StandsFor s) (x : Binary64) : v ≠ .float x := by
  cases stands <;> simp

theorem denotes_iff (stands : v.StandsFor s) {signed : Bool} {n : Int}
    (representable : signed ∨ 0 ≤ n) :
    v.Denotes signed n ↔ Decimal.Spells signed s.toList n := by
  cases stands with
  | bool b =>
      have unread : ∀ b : Bool,
          Decimal.readSigned? (trimBlanks (if b then "true" else "false").toList) = none := by
        decide
      refine iff_of_false nofun fun spells => ?_
      have read := Decimal.readSigned?_of_numeral (Decimal.spells_iff.1 spells)
      simp [unread] at read
  | int word => rw [denotes_int, Decimal.spells_text representable]
  | uint word => rw [denotes_uint, Decimal.spells_text representable]
  | text =>
      refine ⟨fun denotes => ?_, .text⟩
      cases denotes with
      | text spells => exact spells
  | bytes =>
      refine ⟨fun denotes => ?_, .bytes⟩
      generalize encoded : Utf8.encode s = bytes at denotes
      cases denotes with
      | bytes spells => exact Utf8.encode_injective encoded ▸ spells

theorem toInt64_eq_some (stands : v.StandsFor s) {word : Int64} :
    v.toInt64 = .ok (some word) ↔ Decimal.Spells true s.toList word.toInt := by
  rw [Value.toInt64_eq_some stands.ne_float, stands.denotes_iff (.inl rfl)]

theorem toUInt64_eq_some (stands : v.StandsFor s) {word : UInt64} :
    v.toUInt64 = .ok (some word) ↔ Decimal.Spells false s.toList word.toNat := by
  rw [Value.toUInt64_eq_some stands.ne_float, stands.denotes_iff (.inr (by omega))]

theorem toBool_eq_some (stands : v.StandsFor s) {b : Bool} :
    v.toBool = .ok (some b) ↔ readBool? s = some b := by
  cases stands with
  | bool b' =>
      have read : readBool? (if b' then "true" else "false") = some b' := by
        cases b' <;> decide
      simp [read, toBool]
  | int n =>
      have zero : n.toInt = 0 ↔ n = 0 := @Int64.toInt_inj n 0
      have one : n.toInt = 1 ↔ n = 1 := @Int64.toInt_inj n 1
      simp only [readBool?_text, toBool, zero, one]
      by_cases none : n = 0
      · simp [none]
      · by_cases single : n = 1 <;> simp [none, single, refuse]
  | uint n =>
      have zero : (n.toNat : Int) = 0 ↔ n = 0 := Int.natCast_inj.trans (@UInt64.toNat_inj n 0)
      have one : (n.toNat : Int) = 1 ↔ n = 1 := Int.natCast_inj.trans (@UInt64.toNat_inj n 1)
      simp only [readBool?_text, toBool, zero, one]
      by_cases none : n = 0
      · simp [none]
      · by_cases single : n = 1 <;> simp [none, single, refuse]
  | text =>
      simp only [toBool, spelling?, Option.bind_some]
      cases readBool? s <;> simp [refuse]
  | bytes =>
      have spelled : Utf8.decode? (Utf8.encode s) = some s := Utf8.decode?_eq_some.2 rfl
      simp only [toBool, spelling?, spelled, Option.bind_some]
      cases readBool? s <;> simp [refuse]

end StandsFor

/-- The forms in which a driver may hand over a value: as it is, as its text and as its bytes. -/
def wireForms (v : Value) : List Value :=
  [v, .text (v.toText?.getD ""), .bytes (v.toBytes?.getD [])]

theorem StandsFor.of_wireForm {v w : Value} {s : String} (stands : v.StandsFor s)
    (form : w ∈ v.wireForms) : w.StandsFor s := by
  simp only [wireForms, stands.toText?_eq, stands.toBytes?_eq, Option.getD_some, List.mem_cons,
    List.not_mem_nil, or_false] at form
  obtain rfl | rfl | rfl := form
  · exact stands
  · exact .text s
  · exact .bytes s

end Value

/-! ## Storing -/

namespace Ty

theorem accepted?_assignConverted_congr {α : Type} {left right : Except Fault (Option α)}
    (same : ∀ a, left = .ok (some a) ↔ right = .ok (some a)) (ty : Ty) (d : Datum)
    (number : α → Scalar) :
    (ty.assignConverted Γ d (left.map (·.map number))).accepted? =
      (ty.assignConverted Γ d (right.map (·.map number))).accepted? := by
  have found (converted : Except Fault (Option α)) :
      (converted.map (·.map number)).toOption.join = converted.toOption.join.map number := by
    rcases converted with _ | _ | _ <;> rfl
  have content (converted : Except Fault (Option α)) (a : α) :
      converted.toOption.join = some a ↔ converted = .ok (some a) := by
    rcases converted with _ | _ | _ <;> simp [Except.toOption]
  have joined : left.toOption.join = right.toOption.join :=
    Option.ext fun a => by rw [content, content, same]
  rw [accepted?_assignConverted, accepted?_assignConverted, found, found, joined]

/-- The type is of whole numbers, truth values, texts or bytes, behind any names, boxes and optional
    layers. -/
inductive Formless : Ty → Prop where
  | int (width : Width) : Formless (.int width)
  | uint (width : Width) : Formless (.uint width)
  | bool : Formless .bool
  | text : Formless .text
  | bytes : Formless (.sequence (.uint .w8))
  | rawBytes : Formless .rawBytes
  | named {content : Ty} (name : String) : Formless content → Formless (.named name content)
  | optional {content : Ty} : Formless content → Formless (.optional content)
  | boxed {content : Ty} : Formless content → Formless (.boxed content)

namespace Formless

variable {ty : Ty} {v w : Value} {s : String}

/-- What stands for the same text is stored alike. -/
theorem store_alike (formless : ty.Formless) (left : v.StandsFor s) (right : w.StandsFor s)
    (d : Datum) : (ty.store Γ d v).accepted? = (ty.store Γ d w).accepted? := by
  induction formless generalizing d with
  | int width =>
      exact accepted?_assignConverted_congr
        (fun _ => left.toInt64_eq_some.trans right.toInt64_eq_some.symm) _ d _
  | uint width =>
      exact accepted?_assignConverted_congr
        (fun _ => left.toUInt64_eq_some.trans right.toUInt64_eq_some.symm) _ d _
  | bool =>
      exact accepted?_assignConverted_congr
        (fun _ => left.toBool_eq_some.trans right.toBool_eq_some.symm) _ d _
  | text => rw [store, store, left.toText?_eq, right.toText?_eq]
  | bytes =>
      rw [store, store, if_pos rfl, if_pos rfl, Value.rawBytes, Value.rawBytes, left.toBytes?_eq,
        right.toBytes?_eq]
  | rawBytes =>
      rw [store, store, Value.rawBytes, Value.rawBytes, left.toBytes?_eq, right.toBytes?_eq]
  | named _ _ ih | boxed _ ih => exact ih d
  | optional _ ih =>
      rw [store_optional left.ne_null, store_optional right.ne_null, accepted?_inside,
        accepted?_inside, ih]

theorem not_isRecord (formless : ty.Formless) : ¬ ty.isRecord Γ := by
  rw [isRecord, Option.isSome_iff_exists]
  induction formless with
  | named name _ ih =>
      rintro ⟨fields, seen⟩
      simp only [base] at seen
      split at seen
      · exact ih ⟨fields, fields?_base seen⟩
      · exact ih ⟨fields, seen⟩
  | optional _ ih | boxed _ ih => exact ih
  | _ => simp [base, fields?]

end Formless

end Ty

/-! ## Reading -/

theorem OnePass.take?_present {ty : Ty} {v : Value} (present : v ≠ .null) (d : Datum) :
    take? Γ ty [] v d = (ty.store Γ d v).accepted? := by
  simp [take?, present, Ty.writeAt, Ty.visitPath]

/-- What a place becomes when a value is put into its only column, unless the value is refused. -/
def Plan.only? (Γ : Catalogue) (plan : Plan) (ty : Ty) (place : Datum) (v : Value) : Option Datum :=
  match (RowSlots.start plan ty place).put Γ 0 v with
  | (slots, none) => Written.accepted? (slots.finish Γ)
  | (_, some _) => none

theorem Plan.only?_eq {depth : Nat} {ty : Ty} {label : String} {plan : Plan} {v : Value}
    (scalar : ¬ ty.isRecord Γ) (made : Plan.anew Γ depth ty (.ofLabels [label]) = .ok plan)
    (present : v ≠ .null) (place : Datum) :
    plan.only? Γ ty place v = (ty.store Γ place v).accepted? := by
  obtain ⟨-, steps⟩ := steps_of_scalar scalar made
  have here : plan.steps[0]? = some (onlyStep Γ ty) := by simp [steps]
  have stage : (RowSlots.start plan ty place).stages[0]? =
      some (RowSlots.stageOf (onlyStep Γ ty)) := by simp [RowSlots.start, steps]
  have loaded : plan.steps = [(onlyStep Γ ty, v)].map (·.1) := steps
  rw [← OnePass.take?_present present, ← OnePass.take?_of_onlyStep v place, only?]
  cases load : (onlyStep Γ ty).load? Γ ty v place with
  | none =>
      obtain ⟨error, refused⟩ := RowSlots.put_refused (Γ := Γ) here stage load
      generalize (RowSlots.start plan ty place).put Γ 0 v = result at refused ⊢
      obtain ⟨after, answer⟩ := result
      obtain rfl : answer = some error := refused
      rfl
  | some root =>
      rw [RowSlots.put_loaded here stage load]
      have settled := RowSlots.accepted?_finish (Γ := Γ)
        ⟨plan, ty, root, [(onlyStep Γ ty).stageWith v]⟩ loaded rfl
      simpa [settleAll?, RowSlots.start, steps] using settled

namespace Reader

variable {σ τ : Type} {config : Config} {reader reader' : Reader} {cursor : Cursor σ} {state : σ}
  {cursor' : Cursor τ} {state' : τ} {ty : Ty} {v w : Value} {label label' : String}

theorem readRow_only (used : Used Γ config.reader reader) (scalar : ¬ ty.isRecord Γ)
    (present : v ≠ .null) (offers : cursor.Offers state [label] [v]) :
    (reader.readRow Γ ty cursor state).1.toOption = (ty.store Γ (ty.initial Γ) v).accepted? := by
  have new : config.reader.Sound Γ config.maxDepth.toNat := sound_new _
  obtain ⟨plan, made⟩ := Plan.exists_anew scalar config.maxDepth.toNat label
  have planned := (plan_sound new ty [label]).1.trans made
  have alike := readRow_alike (used_sound new used) new ty cursor state
  rw [alike.answer, readRow_eq_onePass offers (by simp) rfl planned]
  simp [OnePass.read?, scalar, OnePass.takeAll?, OnePass.take?_present present]

theorem exists_only (used : Used Γ config.reader reader) (scalar : ¬ ty.isRecord Γ)
    (label : String) :
    ∃ plan, (reader.plan Γ ty [label]).1 = .ok plan ∧ ∀ v ≠ .null, ∀ place,
      plan.only? Γ ty place v = (ty.store Γ place v).accepted? := by
  have sound := used_sound (sound_new config.maxDepth.toNat) used
  obtain ⟨plan, made⟩ := Plan.exists_anew scalar config.maxDepth.toNat label
  exact ⟨plan, (plan_sound sound ty [label]).1.trans made,
    fun _ present => Plan.only?_eq scalar made present⟩

/-- The form in which a value arrives does not matter: a column of truth values, whole numbers, texts
    or bytes is read from every form to the same value, or is refused in every form. What is read is
    what the typed value is stored as, in a new place and over anything that a place may hold. -/
theorem wireForms_read_alike {s : String} (used : Used Γ config.reader reader)
    (used' : Used Γ config.reader reader') (formless : ty.Formless) (stands : v.StandsFor s)
    (form : w ∈ v.wireForms) (offers : cursor.Offers state [label] [v])
    (offers' : cursor'.Offers state' [label'] [w]) :
    ((reader'.readRow Γ ty cursor' state').1.toOption =
        (reader.readRow Γ ty cursor state).1.toOption ∧
      (reader.readRow Γ ty cursor state).1.toOption =
        (ty.store Γ (ty.initial Γ) v).accepted?) ∧
    ∃ plan plan', (reader.plan Γ ty [label]).1 = .ok plan ∧
      (reader'.plan Γ ty [label']).1 = .ok plan' ∧
      ∀ place, plan'.only? Γ ty place w = plan.only? Γ ty place v ∧
        plan.only? Γ ty place v = (ty.store Γ place v).accepted? := by
  have stands' := stands.of_wireForm form
  have scalar : ¬ ty.isRecord Γ := formless.not_isRecord
  obtain ⟨plan, planned, only⟩ := exists_only used scalar label
  obtain ⟨plan', planned', only'⟩ := exists_only used' scalar label'
  rw [readRow_only used scalar stands.ne_null offers,
    readRow_only used' scalar stands'.ne_null offers']
  refine ⟨⟨formless.store_alike stands' stands _, rfl⟩, plan, plan', planned, planned',
    fun place => ?_⟩
  rw [only v stands.ne_null, only' w stands'.ne_null]
  exact ⟨formless.store_alike stands' stands place, rfl⟩

/-- A rating is read from every form of a number that fits, and from no form of one that does not. -/
theorem wireForms_read_alike_rating :
    let rating : Ty := .optional (.named "rating" (.uint .w8))
    let read (v : Value) := (({} : Config).reader.readRow {} rating
      ({ columns := ["rating"], rows := [[v]] } : Table).cursor (some 0)).1.toOption
    (∀ w ∈ (Value.int 200).wireForms, read w = some (.present (.whole 200))) ∧
      ∀ w ∈ (Value.int (-1)).wireForms, read w = none := by
  intro rating read
  have formless : rating.Formless := .optional (.named "rating" (.uint .w8))
  have alike (n : Int64) (w : Value) (form : w ∈ (Value.int n).wireForms) :
      read w = read (.int n) ∧
        read (.int n) = (rating.store {} (rating.initial {}) (.int n)).accepted? :=
    (wireForms_read_alike .refl .refl formless (.int n) form (Table.cursor_offers rfl rfl)
      (Table.cursor_offers rfl rfl)).1
  have taken : (rating.store {} (rating.initial {}) (.int 200)).accepted? =
      some (.present (.whole 200)) := rfl
  have refused : (rating.store {} (rating.initial {}) (.int (-1))).accepted? = none := rfl
  refine ⟨fun w form => ?_, fun w form => ?_⟩
  · obtain ⟨same, stored⟩ := alike 200 w form
    rw [same, stored, taken]
  · obtain ⟨same, stored⟩ := alike (-1) w form
    rw [same, stored, refused]

end Reader

end SqlMarshal
