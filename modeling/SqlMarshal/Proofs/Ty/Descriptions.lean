import Mathlib.Logic.Function.Iterate
import SqlMarshal.Proofs.Bind.RecordArguments
import SqlMarshal.Proofs.Ty.Parts

/-! # Descriptions and values

A plan is made and a parameter is taken apart by the description of a type alone. What is then done to
a value of the type goes by the value itself, one constructor of the type after the other. That the
two agree is shown here for all types: the layers that a description counts are the layers that can be
followed, and at the end of them stands what it says.

A type with a layer in front of it is nothing but an optional value, whatever boxes and names there
are. Its data are therefore a number of layers that are there, and then either a layer that is not
there or, behind the last one, a value of what is left.
-/

namespace SqlMarshal

variable {Γ : Catalogue}

/-- What is found in a parameter behind a number of optional layers, one looked through after the
    other. -/
def Param.behind? : Nat → Param → Option Param
  | 0, param => some param
  | layers + 1, param => param.pointee?.bind (behind? layers)

namespace Ty

/-- Goes through a number of optional layers of a value for writing: the value with the layers made
    that were not there, and what is found behind them, if there are so many. -/
def openBehind (Γ : Catalogue) (layers : Nat) (ty : Ty) (d : Datum) :
    Datum × Option (Ty × Datum) :=
  visitBehind Γ (fun target content => (content, some (target, content))) (fun _ => none) 0 layers
    ty d

/-- A value is as the description of its type says, which has a number of optional layers in front
    of a base. -/
structure Describes (Γ : Catalogue) (ty : Ty) (d : Datum) (base : TypeInfo) (layers : Nat) : Prop
    where
  /-- The value itself is described like the type. -/
  info : (Param.datum ty d).info Γ = ty.info Γ
  /-- For writing, just so many layers can be gone through. -/
  opens : ∀ n, (ty.openBehind Γ n d).2.isSome ↔ n ≤ layers
  /-- This ends at a value of the base, behind layers that are all there then. It is a new one if a
      layer was not there; otherwise nothing has changed. -/
  opened : ∃ after target content, ty.openBehind Γ layers d = (after, some (target, content)) ∧
    target.unboxed = ty.base ∧ target.info Γ = base ∧ target.Admits Γ content ∧
    (Param.datum ty after).behind? layers = some (.datum target content) ∧
    (ty.Lacks d → content = target.initial Γ) ∧ (¬ ty.Lacks d → after = d)
  /-- For reading, the layers can be followed to the first one that is not there. -/
  stops : ty.Lacks d → ∃ n < layers, ∃ inner,
    (Param.datum ty d).behind? n = some (.datum inner .absent) ∧
      (Param.datum ty d).behind? (n + 1) = none
  /-- If none is missing, they can all be followed, and no further, to a value of the base. -/
  ends : ¬ ty.Lacks d → ∃ target content,
    (Param.datum ty d).behind? layers = some (.datum target content) ∧
      target.unboxed = ty.base ∧ target.info Γ = base ∧ target.Admits Γ content ∧
      (Param.datum ty d).behind? (layers + 1) = none
  /-- There are items just behind layers that are all there, in a sequence. -/
  expands : (Param.datum ty d).elements?.isSome ↔
    (∃ item, base.kind = .sequence item) ∧ ¬ ty.Lacks d
  /-- They are those of the sequence, one after the other. -/
  items : ∀ params, (Param.datum ty d).elements? = some params → ∃ item inner items,
    base.kind = .sequence item ∧
      (Param.datum ty d).behind? layers = some (.datum inner (.sequence items)) ∧
      params = items.map (.datum item)
  /-- There is a field just behind layers that are all there, in a record that has so many. -/
  looks : ∀ index, ((Param.datum ty d).field? Γ index).isSome ↔
    (∃ fields, base.fields? = some fields ∧ index < fields.length) ∧ ¬ ty.Lacks d
  /-- It is the item of the record at this position, and described like the declared field. -/
  field : ∀ index part, (Param.datum ty d).field? Γ index = some part →
    ∃ fields field inner items item, base.fields? = some fields ∧ fields[index]? = some field ∧
      (Param.datum ty d).behind? layers = some (.datum inner (.record items)) ∧
      items[index]? = some item ∧ part = .datum field.type item ∧
      part.info Γ = field.type.info Γ

/-- A type has an optional layer in front of a content, boxes and names before it
    notwithstanding. -/
inductive Points : Ty → Ty → Prop where
  | optional (content : Ty) : Points (.optional content) content
  | boxed {ty content : Ty} : Points ty content → Points (.boxed ty) content
  | named {ty content : Ty} (name : String) : Points ty content → Points (.named name ty) content

/-- A type has a number of optional layers in front of another one. -/
inductive Behind : Nat → Ty → Ty → Prop where
  | here (ty : Ty) : Behind 0 ty ty
  | layer {n : Nat} {ty content target : Ty} :
      ty.Points content → Behind n content target → Behind (n + 1) ty target

variable {ty content target : Ty} {d : Datum} {n : Nat}

/-! ## One layer -/

namespace Points

theorem sees {α : Type} {f seen : Ty → α} (points : ty.Points content)
    (optional : ∀ inner, f (.optional inner) = seen inner)
    (boxed : ∀ inner, f (.boxed inner) = f inner)
    (named : ∀ name inner, f (.named name inner) = f inner) : f ty = seen content := by
  induction points with
  | optional inner => exact optional inner
  | boxed _ ih => rw [boxed, ih]
  | named name _ ih => rw [named, ih]

theorem layers (points : ty.Points content) : ty.layers = content.layers + 1 := by
  apply points.sees <;> intros <;> rfl

theorem base (points : ty.Points content) : content.base = ty.base := by
  induction points with
  | optional => rfl
  | boxed _ ih => exact ih
  | @named inner content name below ih =>
      have covered : inner.layers ≠ 0 := by
        rw [below.layers]
        exact Nat.succ_ne_zero _
      rw [ih, Ty.base, if_neg covered]

theorem proper (points : ty.Points content) (proper : ty.Proper Γ) : content.Proper Γ := by
  induction points with
  | optional => exact proper
  | boxed _ ih => exact ih proper
  | named _ _ ih => exact ih proper.2

theorem initial (points : ty.Points content) : ty.initial Γ = .absent := by
  apply points.sees <;> intros <;> rfl

theorem forms (points : ty.Points content) (admits : ty.Admits Γ d) :
    d = .absent ∨ ∃ inside, d = .present inside ∧ content.Admits Γ inside := by
  induction points with
  | optional =>
      cases admits with
      | absent => exact .inl rfl
      | present inside => exact .inr ⟨_, rfl, inside⟩
  | boxed _ ih =>
      cases admits with
      | boxed inside => exact ih inside
  | named _ _ ih =>
      cases admits with
      | named _ inside => exact ih inside

theorem lacks_absent (points : ty.Points content) : ty.Lacks .absent := by
  induction points with
  | optional => exact .absent
  | boxed _ ih => exact .boxed ih
  | named _ _ ih => exact .named ih

theorem lacks_present (points : ty.Points content) :
    ty.Lacks (.present d) ↔ content.Lacks d := by
  induction points with
  | optional =>
      refine ⟨fun lacks => ?_, .present⟩
      cases lacks with
      | present below => exact below
  | boxed _ ih =>
      refine ⟨fun lacks => ?_, fun lacks => .boxed (ih.2 lacks)⟩
      cases lacks with
      | boxed below => exact ih.1 below
  | named _ _ ih =>
      refine ⟨fun lacks => ?_, fun lacks => .named (ih.2 lacks)⟩
      cases lacks with
      | named below => exact ih.1 below

theorem visitPointee {β : Type} (points : ty.Points content) (visit : Ty → Datum → Datum × β)
    (missing : β) (d : Datum) :
    ty.visitPointee Γ visit missing d =
      (.present (visit content (d.contentOr (content.initial Γ))).1,
        (visit content (d.contentOr (content.initial Γ))).2) := by
  apply points.sees <;> intros <;> rfl

theorem pointee?_absent (points : ty.Points content) : ty.pointee? .absent = none := by
  apply points.sees <;> intros <;> rfl

theorem pointee?_present (points : ty.Points content) :
    ty.pointee? (.present d) = some (content, d) := by
  apply points.sees <;> intros <;> rfl

theorem elements?_present (points : ty.Points content) :
    ty.elements? (.present d) = content.elements? d := by
  apply points.sees <;> intros <;> rfl

theorem field?_present {fields : List Field} (points : ty.Points content) (proper : ty.Proper Γ)
    (record : ty.base.fields? Γ = some fields) (index : Nat) :
    ty.field? Γ index (.present d) = content.field? Γ index d := by
  induction points with
  | optional => rfl
  | boxed _ ih => exact ih proper record
  | named => exact absurd record proper.unnamed

end Points

theorem exists_points (deep : ty.layers ≠ 0) : ∃ content, ty.Points content := by
  induction ty with
  | optional content => exact ⟨content, .optional content⟩
  | boxed content ih =>
      obtain ⟨inner, points⟩ := ih deep
      exact ⟨inner, .boxed points⟩
  | named name content ih =>
      obtain ⟨inner, points⟩ := ih deep
      exact ⟨inner, .named name points⟩
  | _ => exact absurd rfl deep

/-! ## No layers -/

theorem visitPointee_of_solid {β : Type} (solid : ty.layers = 0)
    (visit : Ty → Datum → Datum × β) (missing : β) (d : Datum) :
    ty.visitPointee Γ visit missing d = (d, missing) := by
  induction ty with
  | optional => exact absurd solid (Nat.succ_ne_zero _)
  | boxed content ih => exact ih solid
  | named name content ih => exact ih solid
  | _ => rfl

theorem pointee?_of_solid (solid : ty.layers = 0) (d : Datum) : ty.pointee? d = none := by
  rw [Option.eq_none_iff_forall_ne_some]
  rintro ⟨content, inside⟩ found
  have deeper := (layers_of_pointee? found).1
  omega

theorem elements?_of_solid {item : Ty} (sequence : ty.kind Γ = .sequence item)
    (admits : ty.Admits Γ d) :
    ∃ items, d = .sequence items ∧ ty.elements? d = some (item, items) := by
  induction ty with
  | boxed content ih =>
      cases admits with
      | boxed inside => exact ih sequence inside
  | named name content ih =>
      cases admits with
      | named _ inside => exact ih sequence inside
  | sequence inner =>
      cases admits with
      | bytes => simp [kind] at sequence
      | @sequence _ items noByte _ =>
          rw [kind, if_neg noByte] at sequence
          obtain rfl := Kind.sequence.inj sequence
          exact ⟨items, rfl, if_neg noByte⟩
  | _ => simp [kind] at sequence

theorem kind_of_elements? {item : Ty} {items : List Datum} (solid : ty.layers = 0)
    (found : ty.elements? d = some (item, items)) : ty.kind Γ = .sequence item := by
  induction ty with
  | optional => exact absurd solid (Nat.succ_ne_zero _)
  | boxed content ih => exact ih solid found
  | named name content ih => exact ih solid found
  | sequence inner =>
      cases d with
      | sequence =>
          by_cases byte : inner = .uint .w8
          · simp [elements?, byte] at found
          · rw [elements?, if_neg byte] at found
            obtain ⟨rfl, -⟩ := Prod.mk.inj (Option.some.inj found)
            rw [kind, if_neg byte]
      | _ => simp [elements?] at found
  | _ => simp [elements?] at found

theorem field?_of_solid {fields : List Field} (solid : ty.layers = 0) (proper : ty.Proper Γ)
    (record : ty.base.fields? Γ = some fields) (admits : ty.Admits Γ d) :
    ∃ items, d = .record items ∧ items.length = fields.length ∧
      ∀ index field item, fields[index]? = some field → items[index]? = some item →
        ty.field? Γ index d = some (field.type, item) := by
  induction ty with
  | optional => exact absurd solid (Nat.succ_ne_zero _)
  | boxed content ih =>
      cases admits with
      | boxed inside => exact ih solid proper record inside
  | named => exact absurd record proper.unnamed
  | record name =>
      obtain rfl := Option.some.inj record
      cases admits with
      | record complete _ => exact ⟨_, rfl, complete, fun _ _ _ => field?_record⟩
  | _ => simp [base, fields?] at record

/-! ## All layers -/

theorem exists_behind (ty : Ty) : ∃ target, Behind ty.layers ty target ∧ target.layers = 0 := by
  induction deep : ty.layers generalizing ty with
  | zero => exact ⟨ty, .here ty, deep⟩
  | succ n ih =>
      obtain ⟨content, points⟩ := exists_points (show ty.layers ≠ 0 by omega)
      obtain ⟨target, behind, solid⟩ := ih content (by rw [points.layers] at deep; omega)
      exact ⟨target, .layer points behind, solid⟩

theorem isSome_visitBehind (n layer : Nat) (d : Datum) :
    (visitBehind Γ (fun target content => (content, some (target, content))) (fun _ => none) layer
      n ty d).2.isSome ↔ n ≤ ty.layers := by
  induction n generalizing ty layer d with
  | zero => simp [visitBehind]
  | succ n ih =>
      by_cases solid : ty.layers = 0
      · simp [visitBehind, visitPointee_of_solid solid, solid]
      · obtain ⟨content, points⟩ := exists_points solid
        simp only [visitBehind, points.visitPointee, ih, points.layers, Nat.add_le_add_iff_right]

theorem Points.behind?_present (points : ty.Points content) (n : Nat) (d : Datum) :
    (Param.datum ty (.present d)).behind? (n + 1) = (Param.datum content d).behind? n := by
  rw [Param.behind?, Param.pointee?, points.pointee?_present]
  rfl

theorem Points.behind?_absent (points : ty.Points content) (n : Nat) :
    (Param.datum ty .absent).behind? (n + 1) = none := by
  rw [Param.behind?, Param.pointee?, points.pointee?_absent]
  rfl

theorem behind?_of_solid (solid : ty.layers = 0) (n : Nat) (d : Datum) :
    (Param.datum ty d).behind? (n + 1) = none := by
  rw [Param.behind?, Param.pointee?, pointee?_of_solid solid]
  rfl

namespace Behind

theorem base (behind : Behind n ty target) : target.base = ty.base := by
  induction behind with
  | here => rfl
  | layer points _ ih => rw [ih, points.base]

theorem proper (behind : Behind n ty target) (proper : ty.Proper Γ) : target.Proper Γ := by
  induction behind with
  | here => exact proper
  | layer points _ ih => exact ih (points.proper proper)

/-- A value is made of some layers, of which either the last one is not there, or they are all there
    and a value of what is left is behind them. -/
theorem forms (behind : Behind n ty target) (admits : ty.Admits Γ d) :
    (∃ m < n, d = Datum.present^[m] .absent) ∨
      ∃ content, d = Datum.present^[n] content ∧ target.Admits Γ content := by
  induction behind generalizing d with
  | here => exact .inr ⟨d, rfl, admits⟩
  | @layer n _ _ _ points _ ih =>
      rcases points.forms admits with rfl | ⟨inside, rfl, admits'⟩
      · exact .inl ⟨0, Nat.succ_pos n, rfl⟩
      · rcases ih admits' with ⟨m, within, rfl⟩ | ⟨content, rfl, held⟩
        · refine .inl ⟨m + 1, Nat.succ_lt_succ within, ?_⟩
          rw [Function.iterate_succ_apply']
        · refine .inr ⟨content, ?_, held⟩
          rw [Function.iterate_succ_apply']

theorem lacks {m : Nat} (behind : Behind n ty target) (within : m < n) :
    ty.Lacks (Datum.present^[m] .absent) := by
  induction behind generalizing m with
  | here => exact absurd within (Nat.not_lt_zero _)
  | layer points _ ih =>
      cases m with
      | zero => exact points.lacks_absent
      | succ m =>
          rw [Function.iterate_succ_apply', points.lacks_present]
          exact ih (Nat.lt_of_succ_lt_succ within)

theorem not_lacks (behind : Behind n ty target) (solid : target.layers = 0) :
    ¬ ty.Lacks (Datum.present^[n] d) := by
  induction behind with
  | here => exact fun lacks => lacks.layers_ne solid
  | layer points _ ih =>
      rw [Function.iterate_succ_apply', points.lacks_present]
      exact ih solid

section Visit

variable {β : Type} (visit : Ty → Datum → Datum × β) (missing : Nat → β) (layer : Nat)

theorem visitBehind_present (behind : Behind n ty target) (d : Datum) :
    visitBehind Γ visit missing layer n ty (Datum.present^[n] d) =
      (Datum.present^[n] (visit target d).1, (visit target d).2) := by
  induction behind generalizing layer with
  | here => rfl
  | layer points _ ih =>
      simp only [Function.iterate_succ_apply', visitBehind, points.visitPointee, Datum.contentOr, ih]

theorem visitBehind_initial (behind : Behind n ty target) :
    visitBehind Γ visit missing layer n ty (ty.initial Γ) =
      (Datum.present^[n] (visit target (target.initial Γ)).1,
        (visit target (target.initial Γ)).2) := by
  induction behind generalizing layer with
  | here => rfl
  | layer points _ ih =>
      simp only [visitBehind, points.visitPointee, points.initial, Function.iterate_succ_apply',
        Datum.contentOr, ih]

theorem visitBehind_absent {m : Nat} (behind : Behind n ty target) (within : m < n) :
    visitBehind Γ visit missing layer n ty (Datum.present^[m] .absent) =
      (Datum.present^[n] (visit target (target.initial Γ)).1,
        (visit target (target.initial Γ)).2) := by
  induction behind generalizing layer m with
  | here => exact absurd within (Nat.not_lt_zero _)
  | layer points below ih =>
      cases m with
      | zero =>
          rw [Function.iterate_zero_apply, ← points.initial (Γ := Γ)]
          exact visitBehind_initial visit missing layer (.layer points below)
      | succ m =>
          simp only [visitBehind, points.visitPointee, Function.iterate_succ_apply',
            Datum.contentOr, ih (layer + 1) (Nat.lt_of_succ_lt_succ within)]

end Visit

theorem behind?_present (behind : Behind n ty target) (more : Nat) (d : Datum) :
    (Param.datum ty (Datum.present^[n] d)).behind? (n + more) =
      (Param.datum target d).behind? more := by
  induction behind with
  | here => rw [Nat.zero_add, Function.iterate_zero_apply]
  | layer points _ ih =>
      rw [Function.iterate_succ_apply', Nat.add_right_comm, points.behind?_present, ih]

theorem behind?_absent {m : Nat} (behind : Behind n ty target) (within : m < n) :
    ∃ inner, (Param.datum ty (Datum.present^[m] .absent)).behind? m = some (.datum inner .absent) ∧
      (Param.datum ty (Datum.present^[m] .absent)).behind? (m + 1) = none := by
  induction behind generalizing m with
  | here => exact absurd within (Nat.not_lt_zero _)
  | @layer _ outer _ _ points _ ih =>
      cases m with
      | zero => exact ⟨outer, rfl, points.behind?_absent 0⟩
      | succ m =>
          rw [Function.iterate_succ_apply', points.behind?_present, points.behind?_present]
          exact ih (Nat.lt_of_succ_lt_succ within)

theorem elements?_present (behind : Behind n ty target) (d : Datum) :
    ty.elements? (Datum.present^[n] d) = target.elements? d := by
  induction behind with
  | here => rfl
  | layer points _ ih => rw [Function.iterate_succ_apply', points.elements?_present, ih]

theorem field?_present {fields : List Field} (behind : Behind n ty target) (proper : ty.Proper Γ)
    (record : ty.base.fields? Γ = some fields) (index : Nat) (d : Datum) :
    ty.field? Γ index (Datum.present^[n] d) = target.field? Γ index d := by
  induction behind with
  | here => rfl
  | layer points _ ih =>
      rw [Function.iterate_succ_apply', points.field?_present proper record]
      exact ih (points.proper proper) (by rw [points.base, record])

end Behind

namespace Lacks

theorem elements? (lacks : ty.Lacks d) : ty.elements? d = none := by
  induction lacks with
  | absent => rfl
  | present _ ih => exact ih
  | boxed _ ih => exact ih
  | named _ ih => exact ih

theorem field? (lacks : ty.Lacks d) (index : Nat) : ty.field? Γ index d = none := by
  induction lacks with
  | absent => rfl
  | present _ ih => exact ih
  | boxed _ ih => exact ih
  | named => rfl

end Lacks

/-! ## Values of a type -/

section Values

variable (behind : Behind n ty target) (solid : target.layers = 0)

include behind solid

theorem Behind.unboxed : target.unboxed = ty.base := by
  rw [← behind.base, base_of_solid solid]

theorem Behind.info : target.info Γ = ty.base.info Γ := by
  rw [← behind.unboxed solid, info_unboxed]

theorem Behind.kind : target.kind Γ = ty.base.kind Γ :=
  congrArg TypeInfo.kind (behind.info solid)

/-- The layers of a value are gone through for writing. -/
theorem Behind.opened (wellFormed : Γ.WellFormed) (admits : ty.Admits Γ d) :
    ∃ after content, ty.openBehind Γ n d = (after, some (target, content)) ∧
      target.Admits Γ content ∧ (Param.datum ty after).behind? n = some (.datum target content) ∧
      (ty.Lacks d → content = target.initial Γ) ∧ (¬ ty.Lacks d → after = d) := by
  rcases behind.forms admits with ⟨m, within, rfl⟩ | ⟨content, rfl, held⟩
  · refine ⟨_, _, behind.visitBehind_absent _ _ 0 within, admits_initial wellFormed target,
      behind.behind?_present 0 _, fun _ => rfl, fun there => ?_⟩
    exact absurd (behind.lacks within) there
  · refine ⟨_, _, behind.visitBehind_present _ _ 0 content, held, behind.behind?_present 0 _,
      fun lacks => ?_, fun _ => rfl⟩
    exact absurd lacks (behind.not_lacks solid)

/-- The layers of a value are followed for reading. -/
theorem Behind.followed (admits : ty.Admits Γ d) :
    (ty.Lacks d ∧ ∃ m < n, ∃ inner, (Param.datum ty d).behind? m = some (.datum inner .absent) ∧
      (Param.datum ty d).behind? (m + 1) = none) ∨
    (¬ ty.Lacks d ∧ ∃ content, target.Admits Γ content ∧
      (Param.datum ty d).behind? n = some (.datum target content) ∧
      (Param.datum ty d).behind? (n + 1) = none ∧
      ty.elements? d = target.elements? content ∧
      (ty.Proper Γ → ∀ fields, ty.base.fields? Γ = some fields → ∀ index,
        ty.field? Γ index d = target.field? Γ index content)) := by
  rcases behind.forms admits with ⟨m, within, rfl⟩ | ⟨content, rfl, held⟩
  · exact .inl ⟨behind.lacks within, m, within, behind.behind?_absent within⟩
  · refine .inr ⟨behind.not_lacks solid, content, held, behind.behind?_present 0 content, ?_,
      behind.elements?_present content, fun proper fields record index => ?_⟩
    · rw [behind.behind?_present, behind?_of_solid solid]
    · exact behind.field?_present proper record index content

theorem Behind.exists_items {item : Ty} (admits : ty.Admits Γ d) (there : ¬ ty.Lacks d)
    (sequence : ty.base.kind Γ = .sequence item) :
    ∃ items, (Param.datum ty d).behind? n = some (.datum target (.sequence items)) ∧
      ty.elements? d = some (item, items) := by
  obtain ⟨-, content, held, led, -, expands, -⟩ :=
    (behind.followed solid admits).resolve_left fun missing => there missing.1
  rw [← behind.kind solid] at sequence
  obtain ⟨items, rfl, found⟩ := elements?_of_solid sequence held
  exact ⟨items, led, expands.trans found⟩

theorem Behind.items_found {item : Ty} {items : List Datum} (admits : ty.Admits Γ d)
    (found : ty.elements? d = some (item, items)) :
    ty.base.kind Γ = .sequence item ∧ ¬ ty.Lacks d ∧
      (Param.datum ty d).behind? n = some (.datum target (.sequence items)) := by
  have there : ¬ ty.Lacks d := fun lacks => by simp [lacks.elements?] at found
  obtain ⟨-, content, -, -, -, expands, -⟩ :=
    (behind.followed solid admits).resolve_left fun missing => there missing.1
  have sequence : ty.base.kind Γ = .sequence item := by
    rw [← behind.kind solid]
    exact kind_of_elements? solid (expands.symm.trans found)
  obtain ⟨items', led, found'⟩ := behind.exists_items solid admits there sequence
  obtain ⟨-, rfl⟩ := Prod.mk.inj (Option.some.inj (found.symm.trans found'))
  exact ⟨sequence, there, led⟩

theorem Behind.exists_record {fields : List Field} (proper : ty.Proper Γ)
    (admits : ty.Admits Γ d) (there : ¬ ty.Lacks d) (record : ty.base.fields? Γ = some fields) :
    ∃ items, (Param.datum ty d).behind? n = some (.datum target (.record items)) ∧
      items.length = fields.length ∧ ∀ index field item, fields[index]? = some field →
        items[index]? = some item → ty.field? Γ index d = some (field.type, item) := by
  obtain ⟨-, content, held, led, -, -, looks⟩ :=
    (behind.followed solid admits).resolve_left fun missing => there missing.1
  obtain ⟨items, rfl, complete, each⟩ :=
    field?_of_solid solid (behind.proper proper) (by rw [behind.base, record]) held
  refine ⟨items, led, complete, fun index field item declared inside => ?_⟩
  rw [looks proper fields record]
  exact each index field item declared inside

theorem Behind.field_found {type : Ty} {index : Nat} {item : Datum} (proper : ty.Proper Γ)
    (admits : ty.Admits Γ d) (found : ty.field? Γ index d = some (type, item)) :
    ¬ ty.Lacks d ∧ ∃ fields field items, ty.base.fields? Γ = some fields ∧
      fields[index]? = some field ∧ field.type = type ∧
      (Param.datum ty d).behind? n = some (.datum target (.record items)) ∧
      items[index]? = some item := by
  have there : ¬ ty.Lacks d := fun lacks => by simp [lacks.field?] at found
  obtain ⟨field, ⟨fields, record, declared⟩, rfl⟩ := declares_of_field? found
  obtain ⟨items, led, complete, each⟩ := behind.exists_record solid proper admits there record
  have within := (List.getElem?_eq_some_iff.1 declared).1
  have inside := List.getElem?_eq_getElem (complete ▸ within)
  obtain ⟨-, rfl⟩ := Prod.mk.inj
    (Option.some.inj (found.symm.trans (each index field _ declared inside)))
  exact ⟨there, fields, field, items, record, declared, rfl, led, inside⟩

end Values

@[simp] theorem fields?_info (ty : Ty) : (ty.info Γ).fields? = ty.fields? Γ := by
  induction ty with
  | boxed content ih => exact ih
  | named name content ih => exact ih
  | sequence item =>
      by_cases byte : item = .uint .w8 <;> simp [TypeInfo.fields?, info, kind, byte, fields?]
  | _ => rfl

/-- A value answers as the description of its type says: following its layers, looking into it and
    taking it apart. -/
theorem describes (wellFormed : Γ.WellFormed) (proper : ty.Proper Γ) (admits : ty.Admits Γ d) :
    ty.Describes Γ d ((ty.info Γ).peel Γ).1 ((ty.info Γ).peel Γ).2 := by
  rw [peel_info]
  obtain ⟨target, behind, solid⟩ := ty.exists_behind
  have bare := behind.unboxed solid
  have same := behind.info (Γ := Γ) solid
  have followed := behind.followed solid admits
  constructor
  case info => rfl
  case opens => exact fun n => isSome_visitBehind n 0 d
  case opened =>
    obtain ⟨after, content, opened, held⟩ := behind.opened solid wellFormed admits
    exact ⟨after, target, content, opened, bare, same, held⟩
  case stops =>
    intro lacks
    exact (followed.resolve_right fun found => found.1 lacks).2
  case ends =>
    intro there
    obtain ⟨-, content, held, led, no, -⟩ := followed.resolve_left fun missing => there missing.1
    exact ⟨target, content, led, bare, same, held, no⟩
  case expands =>
    simp only [Param.elements?, Option.isSome_map]
    constructor
    · intro some
      obtain ⟨⟨item, items⟩, found⟩ := Option.isSome_iff_exists.1 some
      obtain ⟨sequence, there, -⟩ := behind.items_found solid admits found
      exact ⟨⟨item, sequence⟩, there⟩
    · rintro ⟨⟨item, sequence⟩, there⟩
      obtain ⟨items, -, found⟩ := behind.exists_items solid admits there sequence
      simp [found]
  case items =>
    intro params expanded
    obtain ⟨⟨item, items⟩, found, rfl⟩ := Option.map_eq_some_iff.1 expanded
    obtain ⟨sequence, -, led⟩ := behind.items_found solid admits found
    exact ⟨item, target, items, sequence, led, rfl⟩
  case looks =>
    intro index
    simp only [Param.field?, Option.isSome_map, fields?_info]
    constructor
    · intro some
      obtain ⟨⟨type, item⟩, found⟩ := Option.isSome_iff_exists.1 some
      obtain ⟨there, fields, field, -, record, declared, -⟩ :=
        behind.field_found solid proper admits found
      exact ⟨⟨fields, record, (List.getElem?_eq_some_iff.1 declared).1⟩, there⟩
    · rintro ⟨⟨fields, record, within⟩, there⟩
      obtain ⟨items, -, complete, each⟩ := behind.exists_record solid proper admits there record
      have inside : index < items.length := by omega
      simp [each index _ _ (List.getElem?_eq_getElem within) (List.getElem?_eq_getElem inside)]
  case field =>
    intro index part looked
    obtain ⟨⟨type, item⟩, found, rfl⟩ := Option.map_eq_some_iff.1 looked
    obtain ⟨-, fields, field, items, record, declared, rfl, led, inside⟩ :=
      behind.field_found solid proper admits found
    exact ⟨fields, field, target, items, item, (fields?_info _).trans record, declared, led,
      inside, rfl, rfl⟩

/-- The layer that is counted is the one in front of the post. The labels are no part of a post that
    could be gone through on the way, but a field of it. -/
theorem describes_post :
    let Γ : Catalogue := { records := [
      ("post", [⟨"Title", .text, "", true, false⟩,
        ⟨"Labels", .named "labels" (.optional (.sequence .text)), "", true, false⟩])] }
    let ty : Ty := .optional (.boxed (.record "post"))
    let d : Datum := .present (.record [.text "on types", .present (.sequence [.text "lean"])])
    (ty.info Γ).peel Γ = ((Ty.record "post").info Γ, 1) ∧ ty.Admits Γ d ∧
      ty.Describes Γ d ((Ty.record "post").info Γ) 1 := by
  intro Γ ty d
  have wellFormed : Γ.WellFormed := by
    refine Catalogue.wellFormed_of_records ?_ (fun _ => 0) ?_
    · simp [Γ, Ty.Proper, Ty.isRecord, Ty.base, Ty.fields?]
    · simp [Γ, Ty.held?]
  have admits : ty.Admits Γ d := by
    refine .present (.boxed (.record rfl fun index field item declared held => ?_))
    rcases index with _ | _ | index
    · obtain rfl := Option.some.inj declared
      obtain rfl := Option.some.inj held
      exact .text "on types"
    · obtain rfl := Option.some.inj declared
      obtain rfl := Option.some.inj held
      refine .named "labels" (.present (.sequence (by decide) fun label member => ?_))
      obtain rfl := List.mem_singleton.1 member
      exact .text "lean"
    · simp [Γ, Catalogue.fields] at declared
  exact ⟨rfl, admits, describes wellFormed (show ty.Proper Γ from trivial) admits⟩

end Ty

end SqlMarshal
