import SqlMarshal.Proofs.Ty.Admits

/-! # Parts of values

What a path leads to, or what lies behind optional layers, is a part of a value: something is held
there, and what takes its place is put back into the value. A visit that finds its part is no more
than this. It hands on what the part holds and puts back what the visitor leaves.

The way to a field is worked out on types and gone on values. That the two agree takes a value
of the type and a type in which no record bears a name of its own: such a name is not looked into.
-/

namespace SqlMarshal

variable {Γ : Catalogue}

/-- A part of a type in a value of a type: what it holds, and the value after something else is put
    in its place. -/
structure Part (Γ : Catalogue) (whole part : Ty) where
  held : Datum
  putBack : Datum → Datum
  admits_held : part.Admits Γ held
  admits_putBack : ∀ d, part.Admits Γ d → whole.Admits Γ (putBack d)

namespace Part

variable {whole middle part : Ty}

/-- Hands on what the part holds and puts back what is left of it. -/
def visit {β : Type} (here : Part Γ whole part) (visitor : Ty → Datum → Datum × β) : Datum × β :=
  (here.putBack (visitor part here.held).1, (visitor part here.held).2)

/-- A value is a part of itself. -/
def all {d : Datum} (admits : whole.Admits Γ d) : Part Γ whole whole :=
  ⟨d, id, admits, fun _ => id⟩

/-- A part of a part. -/
def within (outer : Part Γ whole middle) (inner : Part Γ middle part) : Part Γ whole part where
  held := inner.held
  putBack := outer.putBack ∘ inner.putBack
  admits_held := inner.admits_held
  admits_putBack d admits := outer.admits_putBack _ (inner.admits_putBack d admits)

/-- A part of the content of an optional value, which is made if it is not there. -/
def underOptional (inner : Part Γ middle part) : Part Γ (.optional middle) part where
  held := inner.held
  putBack := .present ∘ inner.putBack
  admits_held := inner.admits_held
  admits_putBack d admits := .present (inner.admits_putBack d admits)

def underBox (inner : Part Γ middle part) : Part Γ (.boxed middle) part where
  held := inner.held
  putBack := inner.putBack
  admits_held := inner.admits_held
  admits_putBack d admits := .boxed (inner.admits_putBack d admits)

def underName (name : String) (inner : Part Γ middle part) : Part Γ (.named name middle) part where
  held := inner.held
  putBack := inner.putBack
  admits_held := inner.admits_held
  admits_putBack d admits := .named name (inner.admits_putBack d admits)

/-- A field of a record. -/
def ofRecord {name : String} {items : List Datum} {index : Nat} {field : Field} {item : Datum}
    (admits : (Ty.record name).Admits Γ (.record items))
    (declared : (Γ.fields name)[index]? = some field) (held : items[index]? = some item) :
    Part Γ (.record name) field.type where
  held := item
  putBack d := .record (items.set index d)
  admits_held := by
    cases admits with
    | record _ each => exact each index field item declared held
  admits_putBack d fits := by
    cases admits with
    | record complete each =>
        refine .record (by simpa using complete) fun other field' item' declared' held' => ?_
        by_cases here : index = other
        · subst here
          obtain ⟨inside, -⟩ := List.getElem?_eq_some_iff.1 held
          obtain rfl := Option.some.inj (declared.symm.trans declared')
          obtain rfl : d = item' := by simpa [inside] using held'
          exact fits
        · exact each other field' item' declared' (by rwa [List.getElem?_set_ne here] at held')

end Part

namespace Ty

/-! ## Fields -/

/-- A path of a value leads to a part of it. -/
def Reaches (Γ : Catalogue) (path : List Nat) (ty : Ty) (d : Datum) (target : Ty) : Prop :=
  ∃ here : Part Γ ty target, ∀ {β : Type} (visitor : Ty → Datum → Datum × β) (missing : Nat → β)
    (hop : Nat), visitPath Γ visitor missing hop path ty d = here.visit visitor

theorem Reaches.openPath {path : List Nat} {ty target : Ty} {d : Datum}
    (reaches : ty.Reaches Γ path d target) : (ty.openPath Γ path d).2 = .ok target := by
  obtain ⟨here, visits⟩ := reaches
  rw [Ty.openPath, visits, Part.visit]

theorem Proper.unnamed {name : String} {content : Ty} {fields : List Field}
    (proper : (Ty.named name content).Proper Γ) :
    (Ty.named name content).base.fields? Γ ≠ some fields := by
  intro record
  have seen : (content.base.fields? Γ).isSome := by
    by_cases bare : content.layers = 0
    · rw [base, if_pos bare] at record
      have record' : content.fields? Γ = some fields := record
      rw [fields?_base record']
      rfl
    · rw [base, if_neg bare] at record
      simp [record]
  exact absurd seen (Bool.eq_false_iff.1 proper.1)

theorem visitField_part (wellFormed : Γ.WellFormed) {ty : Ty} {d : Datum}
    (proper : ty.Proper Γ) (admits : ty.Admits Γ d) {index : Nat} {fields : List Field}
    {field : Field} (record : ty.base.fields? Γ = some fields)
    (declared : fields[index]? = some field) :
    ∃ here : Part Γ ty field.type, ∀ {β : Type} (visitor : Ty → Datum → Datum × β) (missing : β),
      ty.visitField Γ index visitor missing d = here.visit visitor := by
  induction ty generalizing d with
  | optional content ih =>
      obtain ⟨inner, found⟩ := ih proper (admits.contentOr_initial wellFormed) record
      exact ⟨inner.underOptional, fun visitor missing => by simp only [visitField, found]; rfl⟩
  | boxed content ih =>
      cases admits with
      | boxed inside =>
          obtain ⟨inner, found⟩ := ih proper inside record
          exact ⟨inner.underBox, fun visitor missing => by simp only [visitField, found]; rfl⟩
  -- A name is not looked into, but in a proper type no record is behind it.
  | named name content => exact absurd record proper.unnamed
  | record name =>
      obtain rfl := Option.some.inj record
      cases admits with
      | @record _ items complete each =>
          obtain ⟨inside, -⟩ := List.getElem?_eq_some_iff.1 declared
          obtain ⟨item, held⟩ : ∃ item, items[index]? = some item :=
            ⟨_, List.getElem?_eq_getElem (by omega)⟩
          refine ⟨.ofRecord (.record complete each) declared held, fun visitor missing => ?_⟩
          simp only [visitField, declared, held]
          rfl
  | _ => simp [base, fields?] at record

theorem fields?_mem {ty : Ty} {fields : List Field} (seen : ty.fields? Γ = some fields) :
    ∃ name, fields = Γ.fields name := by
  induction ty with
  | boxed content ih | named _ content ih => exact ih seen
  | record name => exact ⟨name, (Option.some.inj seen).symm⟩
  | _ => simp [fields?] at seen

/-- Where a path leads on types, it leads on values of the type. -/
theorem reaches_of_at? (wellFormed : Γ.WellFormed) {path : List Nat} {ty target : Ty} {d : Datum}
    (proper : ty.Proper Γ) (admits : ty.Admits Γ d) (found : ty.at? Γ path = some target) :
    ty.Reaches Γ path d target := by
  induction path generalizing ty d with
  | nil =>
      obtain rfl := Option.some.inj found
      exact ⟨.all admits, fun _ _ _ => rfl⟩
  | cons index rest ih =>
      obtain ⟨fields, record, found⟩ := Option.bind_eq_some_iff.1 found
      obtain ⟨field, declared, reached⟩ := Option.bind_eq_some_iff.1 found
      obtain ⟨here, visits⟩ := visitField_part wellFormed proper admits record declared
      obtain ⟨name, rfl⟩ := fields?_mem record
      have proper' := wellFormed.proper name field (List.mem_of_getElem? declared)
      obtain ⟨inner, visitsInner⟩ := ih proper' here.admits_held reached
      refine ⟨here.within inner, fun visitor missing hop => ?_⟩
      simp only [visitPath, visits, Part.visit, visitsInner, Part.within, Function.comp_apply]

/-! ## Optional layers -/

/-- Behind a number of optional layers of a value there is a part of it. -/
def Uncovers (Γ : Catalogue) (layers : Nat) (ty : Ty) (d : Datum) (target : Ty) : Prop :=
  ∃ here : Part Γ ty target, ∀ {β : Type} (visitor : Ty → Datum → Datum × β) (missing : Nat → β)
    (layer : Nat), visitBehind Γ visitor missing layer layers ty d = here.visit visitor

theorem visitPointee_part (wellFormed : Γ.WellFormed) {ty : Ty} {d : Datum} {n : Nat}
    (admits : ty.Admits Γ d) (deep : ty.layers = n + 1) :
    ∃ content, content.layers = n ∧ content.base = ty.base ∧ ∃ here : Part Γ ty content,
      ∀ {β : Type} (visitor : Ty → Datum → Datum × β) (missing : β),
        ty.visitPointee Γ visitor missing d = here.visit visitor := by
  induction ty generalizing d with
  | optional content =>
      have inside := admits.contentOr_initial wellFormed
      exact ⟨content, Nat.succ.inj deep, rfl, (Part.all inside).underOptional, fun _ _ => rfl⟩
  | boxed content ih =>
      cases admits with
      | boxed inside =>
          obtain ⟨under, shallow, same, inner, visits⟩ := ih inside deep
          refine ⟨under, shallow, same, inner.underBox, fun visitor missing => ?_⟩
          exact visits visitor missing
  | named name content ih =>
      cases admits with
      | named _ inside =>
          obtain ⟨under, shallow, same, inner, visits⟩ := ih inside deep
          refine ⟨under, shallow, ?_, inner.underName name, fun visitor missing => ?_⟩
          · have covered : content.layers ≠ 0 := by
              simp only [layers] at deep
              omega
            simpa only [base, if_neg covered] using same
          · exact visits visitor missing
  | _ => simp [layers] at deep

/-- All layers that are counted in a type are there in a value of it. -/
theorem uncovers_base (wellFormed : Γ.WellFormed) {ty : Ty} {d : Datum} (admits : ty.Admits Γ d) :
    ∃ target, target.layers = 0 ∧ target.base = ty.base ∧ ty.Uncovers Γ ty.layers d target := by
  induction deep : ty.layers generalizing ty d with
  | zero => exact ⟨ty, deep, rfl, .all admits, fun _ _ _ => rfl⟩
  | succ n ih =>
      obtain ⟨content, shallow, same, here, visits⟩ := visitPointee_part wellFormed admits deep
      obtain ⟨target, bare, same', inner, visitsInner⟩ := ih here.admits_held shallow
      refine ⟨target, bare, same'.trans same, here.within inner, fun visitor missing layer => ?_⟩
      simp only [visitBehind, visits, Part.visit, visitsInner, Part.within, Function.comp_apply]

end Ty

end SqlMarshal
