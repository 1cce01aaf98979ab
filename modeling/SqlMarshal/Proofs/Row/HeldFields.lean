import SqlMarshal.Proofs.Row.AbsentRecords
import SqlMarshal.Proofs.Ty.Admits

/-! # Looking along paths

What a path leads to can be looked at and changed. A look after a change finds what was put in, and
along a path that parts from the changed one it finds what was there before.

Nothing is found behind an optional layer that is not there. But where records are held by value, or
in a box, every value holds all of their fields, a new one too.
-/

namespace SqlMarshal

variable {Γ : Catalogue}

/-- A path leads through fields that are taken in to a field. -/
inductive Ty.FieldAt (Γ : Catalogue) : Ty → Path → Field → Prop where
  | here {ty : Ty} {index : Nat} {field : Field} :
      ty.Declares Γ index field → FieldAt Γ ty [index] field
  | inside {ty : Ty} {index : Nat} {outer field : Field} {rest : Path} :
      ty.Declares Γ index outer → outer.role Γ = .flattened → FieldAt Γ outer.type rest field →
        FieldAt Γ ty (index :: rest) field

namespace Ty

/-- The type is a record, held by value or in boxes. -/
def HoldsRecord (ty : Ty) : Prop :=
  ∃ name, ty.unboxed = .record name

/-- What a value holds at a path, with its type. -/
def look? (Γ : Catalogue) : Path → Ty → Datum → Option (Ty × Datum)
  | [], ty, d => some (ty, d)
  | index :: rest, ty, d =>
      match ty.field? Γ index d with
      | some (field, item) => look? Γ rest field item
      | none => none

variable {ty field target : Ty} {d item new : Datum} {index : Nat} {path : Path}

/-! ## Fields -/

theorem leafAt_iff :
    ty.LeafAt Γ path ↔ ∃ field name, ty.FieldAt Γ path field ∧ field.role Γ = .leaf name := by
  constructor
  · intro leaf
    induction leaf with
    | here declares role => exact ⟨_, _, .here declares, role⟩
    | inside declares role _ ih =>
        obtain ⟨field, name, at_field, leaf⟩ := ih
        exact ⟨field, name, .inside declares role at_field, leaf⟩
  · rintro ⟨field, name, at_field, leaf⟩
    induction at_field with
    | here declares => exact .here declares leaf
    | inside declares role _ ih => exact .inside declares role (ih leaf)

theorem HoldsRecord.layers (record : ty.HoldsRecord) : ty.layers = 0 := by
  obtain ⟨name, same⟩ := record
  induction ty with
  | boxed content ih => exact ih same
  | optional | named => simp [unboxed] at same
  | _ => rfl

theorem HoldsRecord.fields? (record : ty.HoldsRecord) : ∃ fields, ty.fields? Γ = some fields := by
  obtain ⟨name, same⟩ := record
  rw [← fields?_unboxed, same]
  exact ⟨_, rfl⟩

theorem HoldsRecord.isRecord (record : ty.HoldsRecord) : ty.isRecord Γ := by
  obtain ⟨fields, seen⟩ := record.fields? (Γ := Γ)
  simp [Ty.isRecord, fields?_base seen]

theorem field?_of_admits {field : Field} (record : ty.HoldsRecord) (admits : ty.Admits Γ d)
    (declares : ty.Declares Γ index field) :
    ∃ item, ty.field? Γ index d = some (field.type, item) ∧ field.type.Admits Γ item := by
  obtain ⟨name, same⟩ := record
  induction ty with
  | boxed content ih =>
      cases admits with
      | boxed inside => exact ih inside declares same
  | record name =>
      obtain ⟨fields, seen, declared⟩ := declares
      obtain rfl := Option.some.inj seen
      cases admits with
      | @record _ items complete each =>
          obtain ⟨within, -⟩ := List.getElem?_eq_some_iff.1 declared
          have there : items[index]? = some items[index] :=
            List.getElem?_eq_getElem (complete ▸ within)
          exact ⟨_, field?_record declared there, each index field _ declared there⟩
  | _ => simp [unboxed] at same

theorem look?_of_admits {field : Field} (leads : ty.FieldAt Γ path field) (record : ty.HoldsRecord)
    (held : ∀ path field, ty.FieldAt Γ path field → field.role Γ = .flattened →
      field.type.HoldsRecord)
    (admits : ty.Admits Γ d) :
    ∃ item, ty.look? Γ path d = some (field.type, item) ∧ field.type.Admits Γ item := by
  induction leads generalizing d with
  | here declares =>
      obtain ⟨item, found, inside⟩ := field?_of_admits record admits declares
      exact ⟨item, by simp only [look?, found], inside⟩
  | inside declares role _ ih =>
      obtain ⟨item, found, inside⟩ := field?_of_admits record admits declares
      have below := ih (held _ _ (.here declares) role)
        (fun path field leads => held _ field (.inside declares role leads)) inside
      simpa only [look?, found] using below

theorem item_of_field? {name : String} {items : List Datum}
    (found : (Ty.record name).field? Γ index (.record items) = some (field, item)) :
    ∃ declared, (Γ.fields name)[index]? = some declared ∧ declared.type = field ∧
      items[index]? = some item := by
  simp only [field?, Option.bind_eq_bind, Option.bind_eq_some_iff] at found
  obtain ⟨declared, at_index, held, there, same⟩ := found
  obtain ⟨rfl, rfl⟩ := Prod.mk.inj (Option.some.inj same)
  exact ⟨declared, at_index, rfl, there⟩

theorem declares_of_field? (found : ty.field? Γ index d = some (field, item)) :
    ∃ declared, ty.Declares Γ index declared ∧ declared.type = field := by
  induction ty generalizing d with
  | optional content ih =>
      cases d with
      | present inside => exact ih found
      | _ => simp [field?] at found
  | boxed content ih => exact ih found
  | record name =>
      cases d with
      | record items =>
          obtain ⟨declared, at_index, same, -⟩ := item_of_field? found
          exact ⟨declared, ⟨_, rfl, at_index⟩, same⟩
      | _ => simp [field?] at found
  | _ => simp [field?] at found

theorem at?_of_look? (found : ty.look? Γ path d = some (target, item)) :
    ty.at? Γ path = some target := by
  induction path generalizing ty d with
  | nil =>
      obtain ⟨rfl, -⟩ := Prod.mk.inj (Option.some.inj found)
      rfl
  | cons index rest ih =>
      simp only [look?] at found
      split at found
      · rename_i held
        obtain ⟨declared, declares, rfl⟩ := declares_of_field? held
        exact at?_cons.2 ⟨declared, declares, ih found⟩
      · simp at found

theorem look?_initialWith {depth : Nat}
    (found : ty.look? Γ path (ty.initialWith (Γ.initialRecord depth)) = some (target, item)) :
    ∃ depth, item = target.initialWith (Γ.initialRecord depth) := by
  induction path generalizing ty depth with
  | nil =>
      obtain ⟨rfl, rfl⟩ := Prod.mk.inj (Option.some.inj found)
      exact ⟨depth, rfl⟩
  | cons index rest ih =>
      simp only [look?] at found
      split at found
      · rename_i held
        obtain ⟨-, depth', -, -, rfl⟩ := field?_initialWith held
        exact ih found
      · simp at found

/-! ## Changes -/

theorem modifyField?_of_field? {change : Ty → Datum → Option Datum}
    (found : ty.field? Γ index d = some (field, item)) (changes : change field item = some new) :
    ∃ after, ty.modifyField? Γ index change d = some after ∧
      ty.field? Γ index after = some (field, new) ∧
      ∀ other ≠ index, ty.field? Γ other after = ty.field? Γ other d := by
  induction ty generalizing d with
  | optional content ih =>
      cases d with
      | present inside =>
          obtain ⟨after, modified, here, elsewhere⟩ := ih found
          refine ⟨.present after, ?_, here, elsewhere⟩
          simp only [modifyField?, Datum.contentOr, modified, Option.map_some]
      | _ => simp [field?] at found
  | boxed content ih => exact ih found
  | record name =>
      cases d with
      | record items =>
          obtain ⟨declared, at_index, rfl, there⟩ := item_of_field? found
          obtain ⟨within, -⟩ := List.getElem?_eq_some_iff.1 there
          refine ⟨.record (items.set index new), ?_, ?_, fun other different => ?_⟩
          · rw [modifyField?_record at_index there, changes]
            rfl
          · exact field?_record at_index (List.getElem?_set_self within)
          · simp only [field?, List.getElem?_set_ne different.symm]
      | _ => simp [field?] at found
  | _ => simp [field?] at found

/-- What is found at a path can be changed. Then the new thing is found there, and along paths that
    part from it what was there before. -/
theorem modifyPath?_of_look? {change : Ty → Datum → Option Datum}
    (found : ty.look? Γ path d = some (target, item)) (changes : change target item = some new) :
    ∃ after, modifyPath? Γ change path ty d = some after ∧
      ty.look? Γ path after = some (target, new) ∧
      ∀ other, path.Apart other → ty.look? Γ other after = ty.look? Γ other d := by
  induction path generalizing ty d with
  | nil =>
      obtain ⟨rfl, rfl⟩ := Prod.mk.inj (Option.some.inj found)
      exact ⟨new, changes, rfl, fun other apart => by cases apart⟩
  | cons index rest ih =>
      simp only [look?] at found
      split at found
      · rename_i field held here
        obtain ⟨inside, modified, there, elsewhere⟩ := ih found
        obtain ⟨after, changed, found', others⟩ := modifyField?_of_field? here modified
        refine ⟨after, changed, by simp only [look?, found', there], fun other apart => ?_⟩
        cases apart with
        | here _ _ different => simp only [look?, others _ different.symm]
        | later _ apart => simp only [look?, here, found', elsewhere _ apart]
      · simp at found

end Ty

end SqlMarshal
