import Mathlib.Data.List.Perm.Subperm
import Mathlib.Order.Lattice.Nat
import SqlMarshal.Proofs.Ty.Layers
import SqlMarshal.Ty.Access

/-! # The form of values

A type admits the data that have the form of its values. Whatever is written to a value, accepted or
refused, it keeps the form of its type.

That a type admits the datum its values start from is not for free: a record that holds itself has
no value to start from. Records that do not hold themselves are nested at most as deep as there are
records, since on the way down no record comes twice. A type that has any value at all has one to
start from: what a record holds is smaller than the record.
-/

namespace SqlMarshal

/-- A datum has the form of a value of the type. Whether a number fits its width makes no
    difference to the form. -/
inductive Ty.Admits (Γ : Catalogue) : Ty → Datum → Prop where
  | bool (b : Bool) : Admits Γ .bool (.bool b)
  | int (width : Width) (n : Int) : Admits Γ (.int width) (.whole n)
  | uint (width : Width) (n : Int) : Admits Γ (.uint width) (.whole n)
  | single (x : Binary64) : Admits Γ .single (.float x)
  | double (x : Binary64) : Admits Γ .double (.float x)
  | text (s : String) : Admits Γ .text (.text s)
  | borrowedText (s : String) : Admits Γ .borrowedText (.text s)
  | timestamp (t : Timestamp) : Admits Γ .timestamp (.timestamp t)
  | rawBytes (b : List UInt8) : Admits Γ .rawBytes (.bytes b)
  | value (v : Value) : Admits Γ .value (.value v)
  | document (schema : Schema) (d : Document) : Admits Γ (.document schema) (.document d)
  | custom (name : String) (v : Value) : Admits Γ (.custom name) (.value v)
  | absent (content : Ty) : Admits Γ (.optional content) .absent
  | present {content : Ty} {d : Datum} :
      Admits Γ content d → Admits Γ (.optional content) (.present d)
  | boxed {content : Ty} {d : Datum} : Admits Γ content d → Admits Γ (.boxed content) d
  | bytes (b : List UInt8) : Admits Γ (.sequence (.uint .w8)) (.bytes b)
  | sequence {item : Ty} {items : List Datum} :
      item ≠ .uint .w8 → (∀ d ∈ items, Admits Γ item d) →
        Admits Γ (.sequence item) (.sequence items)
  | named {content : Ty} {d : Datum} (name : String) :
      Admits Γ content d → Admits Γ (.named name content) d
  | record {name : String} {items : List Datum} :
      items.length = (Γ.fields name).length →
      (∀ (index : Nat) (field : Field) (item : Datum), (Γ.fields name)[index]? = some field →
        items[index]? = some item → Admits Γ field.type item) →
        Admits Γ (.record name) (.record items)

/-- The record that a value of the type always holds. -/
def Ty.held? : Ty → Option String
  | .record name => some name
  | .boxed content => content.held?
  | .named _ content => content.held?
  | _ => none

/-- No name of one's own is given to a record, not even to one behind optional layers. -/
def Ty.Proper (Γ : Catalogue) : Ty → Prop
  | .optional content => content.Proper Γ
  | .boxed content => content.Proper Γ
  | .sequence item => item.Proper Γ
  | .named _ content => content.isRecord Γ = false ∧ content.Proper Γ
  | _ => True

/-- The declared records are built of proper types, and no record holds itself. -/
structure Catalogue.WellFormed (Γ : Catalogue) : Prop where
  proper : ∀ name, ∀ field ∈ Γ.fields name, field.type.Proper Γ
  /-- What a record holds is of a lower rank, also over several records. -/
  founded : ∃ rank : String → Nat, ∀ name, ∀ field ∈ Γ.fields name,
    ∀ inner ∈ field.type.held?, rank inner < rank name

variable {Γ : Catalogue}

namespace Catalogue

theorem mem_records {name : String} {field : Field} (member : field ∈ Γ.fields name) :
    ∃ fields, (name, fields) ∈ Γ.records ∧ field ∈ fields := by
  cases found : Γ.records.lookup name with
  | none => simp [fields, found] at member
  | some declared =>
      obtain ⟨before, after, split, -⟩ := List.lookup_eq_some_iff.1 found
      exact ⟨declared, by simp [split], by simpa [fields, found] using member⟩

theorem wellFormed_of_records
    (proper : ∀ entry ∈ Γ.records, ∀ field ∈ entry.2, field.type.Proper Γ) (rank : String → Nat)
    (founded : ∀ entry ∈ Γ.records, ∀ field ∈ entry.2, ∀ inner ∈ field.type.held?,
      rank inner < rank entry.1) : Γ.WellFormed where
  proper name field member := by
    obtain ⟨fields, declared, member⟩ := mem_records member
    exact proper _ declared field member
  founded := ⟨rank, fun name field member => by
    obtain ⟨fields, declared, member⟩ := mem_records member
    exact founded _ declared field member⟩

end Catalogue

namespace Ty

/-! ## The datum to start from -/

theorem admits_initialWith {ofRecord : String → Datum} {ty : Ty}
    (held : ∀ name ∈ ty.held?, (Ty.record name).Admits Γ (ofRecord name)) :
    ty.Admits Γ (ty.initialWith ofRecord) := by
  induction ty with
  | boxed content ih => exact .boxed (ih held)
  | named name content ih => exact .named name (ih held)
  | record name => exact held name rfl
  | sequence item =>
      by_cases byte : item = .uint .w8
      · subst byte
        exact .bytes []
      · simpa only [initialWith, if_neg byte] using .sequence byte (by simp)
  | _ => constructor

theorem declared_of_mem {name : String} {field : Field} (member : field ∈ Γ.fields name) :
    name ∈ Γ.records.map (·.1) := by
  obtain ⟨fields, declared, -⟩ := Catalogue.mem_records member
  exact List.mem_map.2 ⟨_, declared, rfl⟩

/-- The records that have been entered on the way to a record are declared and different, so there
    are not yet as many of them as records. -/
theorem admits_initialRecord {P : String → Prop} {rank : String → Nat}
    (founded : ∀ name, P name → ∀ field ∈ Γ.fields name, ∀ inner ∈ field.type.held?,
      P inner ∧ rank inner < rank name)
    (depth : Nat) (name : String) (holds : P name) (entered : List String) (distinct : entered.Nodup)
    (declared : ∀ outer ∈ entered, outer ∈ Γ.records.map (·.1))
    (above : ∀ outer ∈ entered, rank name < rank outer)
    (room : entered.length + depth = Γ.records.length) :
    (Ty.record name).Admits Γ (Γ.initialRecord depth name) := by
  have distinct' : (name :: entered).Nodup :=
    List.nodup_cons.2 ⟨fun member => Nat.lt_irrefl _ (above name member), distinct⟩
  induction depth generalizing name entered with
  | zero =>
      -- All records have been entered; this one, if it had a field, would be one too many.
      have noField : Γ.fields name = [] := List.eq_nil_iff_forall_not_mem.2 fun field member => by
        have declared' : name :: entered ⊆ Γ.records.map (·.1) :=
          List.cons_subset.2 ⟨declared_of_mem member, declared⟩
        have few := (List.subperm_of_subset distinct' declared').length_le
        simp only [List.length_cons, List.length_map] at few
        omega
      exact .record (by simp [noField]) (by simp)
  | succ depth ih =>
      refine .record (by simp) fun index field item at_field at_item => ?_
      have member := List.mem_of_getElem? at_field
      obtain rfl : field.type.initialWith (Γ.initialRecord depth) = item := by
        simpa [at_field] using at_item
      refine admits_initialWith fun inner held => ?_
      obtain ⟨holds', lower⟩ := founded name holds field member inner held
      have above' : ∀ outer ∈ name :: entered, rank inner < rank outer :=
        List.forall_mem_cons.2
          ⟨lower, fun outer before => Nat.lt_trans lower (above outer before)⟩
      refine ih inner holds' (name :: entered) distinct'
        (List.forall_mem_cons.2 ⟨declared_of_mem member, declared⟩) above' ?_ ?_
      · simp only [List.length_cons]
        omega
      · exact List.nodup_cons.2 ⟨fun again => Nat.lt_irrefl _ (above' inner again), distinct'⟩

theorem admits_initial (wellFormed : Γ.WellFormed) (ty : Ty) : ty.Admits Γ (ty.initial Γ) := by
  obtain ⟨rank, founded⟩ := wellFormed.founded
  refine admits_initialWith fun name _ => ?_
  have founded' : ∀ name, True → ∀ field ∈ Γ.fields name, ∀ inner ∈ field.type.held?,
      True ∧ rank inner < rank name := fun name _ field member inner held =>
    ⟨trivial, founded name field member inner held⟩
  exact admits_initialRecord founded' _ name trivial [] .nil (by simp) (by simp) (Nat.zero_add _)

theorem Admits.of_held {ty : Ty} {d : Datum} (admits : ty.Admits Γ d) :
    ∀ name ∈ ty.held?, (Ty.record name).Admits Γ d := by
  induction admits with
  | boxed _ ih => exact ih
  | named _ _ ih => exact ih
  | record complete each =>
      rintro _ ⟨⟩
      exact .record complete each
  | _ => exact fun _ held => by simp [held?] at held

/-- The size of the smallest value of a record. -/
noncomputable def leastSize (Γ : Catalogue) (name : String) : Nat :=
  sInf {size | ∃ d, (Ty.record name).Admits Γ d ∧ sizeOf d = size}

theorem leastSize_le {name : String} {d : Datum} (admits : (Ty.record name).Admits Γ d) :
    leastSize Γ name ≤ sizeOf d :=
  Nat.sInf_le ⟨d, admits, rfl⟩

theorem exists_leastSize {name : String} {d : Datum} (admits : (Ty.record name).Admits Γ d) :
    ∃ least, (Ty.record name).Admits Γ least ∧ sizeOf least = leastSize Γ name := by
  have some : {size | ∃ d, (Ty.record name).Admits Γ d ∧ sizeOf d = size}.Nonempty :=
    ⟨_, d, admits, rfl⟩
  exact Nat.sInf_mem some

theorem leastSize_lt {name inner : String} {field : Field} {d : Datum}
    (admits : (Ty.record name).Admits Γ d) (member : field ∈ Γ.fields name)
    (held : inner ∈ field.type.held?) :
    (∃ d, (Ty.record inner).Admits Γ d) ∧ leastSize Γ inner < leastSize Γ name := by
  obtain ⟨least, smallest, size⟩ := exists_leastSize admits
  obtain ⟨index, declared⟩ := List.mem_iff_getElem?.1 member
  cases smallest with
  | @record _ items complete each =>
      obtain ⟨within, -⟩ := List.getElem?_eq_some_iff.1 declared
      have there : items[index]? = some items[index] := List.getElem?_eq_getElem (complete ▸ within)
      have inside := (each index field _ declared there).of_held inner held
      have smaller : sizeOf items[index] < sizeOf (Datum.record items) := by
        have := List.sizeOf_lt_of_mem (List.mem_of_getElem? there)
        simp only [Datum.record.sizeOf_spec]
        omega
      refine ⟨⟨_, inside⟩, ?_⟩
      rw [← size]
      exact Nat.lt_of_le_of_lt (leastSize_le inside) smaller

/-- A type that has a value has one to start from. -/
theorem Admits.initial {ty : Ty} {d : Datum} (admits : ty.Admits Γ d) :
    ty.Admits Γ (ty.initial Γ) := by
  have founded : ∀ name, (∃ d, (Ty.record name).Admits Γ d) → ∀ field ∈ Γ.fields name,
      ∀ inner ∈ field.type.held?,
        (∃ d, (Ty.record inner).Admits Γ d) ∧ leastSize Γ inner < leastSize Γ name :=
    fun name inhabited field member inner held =>
      inhabited.elim fun _ admits => leastSize_lt admits member held
  refine admits_initialWith fun name held => ?_
  exact admits_initialRecord founded _ name ⟨d, admits.of_held name held⟩ [] .nil (by simp)
    (by simp) (Nat.zero_add _)

theorem Admits.contentOr_initial (wellFormed : Γ.WellFormed) {content : Ty} {d : Datum}
    (admits : (Ty.optional content).Admits Γ d) :
    content.Admits Γ (d.contentOr (content.initial Γ)) := by
  cases admits with
  | absent => exact admits_initial wellFormed content
  | present inside => exact inside

/-! ## Writing -/

theorem admits_assignWhole {ty : Ty} (whole : ∀ n, ty.Admits Γ (.whole n)) (name : String)
    (fits : Int → Bool) {d : Datum} (admits : ty.Admits Γ d) (s : Scalar) :
    ty.Admits Γ (assignWhole name fits d s).1 := by
  unfold assignWhole
  split
  · split
    · exact whole _
    · exact admits
  · exact admits

theorem admits_assign (wellFormed : Γ.WellFormed) {ty : Ty} {d : Datum} (admits : ty.Admits Γ d)
    (s : Scalar) : ty.Admits Γ (ty.assign Γ d s).1 := by
  induction ty generalizing d with
  | bool =>
      cases s with
      | bool b => exact .bool b
      | _ => exact admits
  | int width => exact admits_assignWhole (.int width) _ _ admits s
  | uint width => exact admits_assignWhole (.uint width) _ _ admits s
  | single =>
      cases s with
      | float x =>
          simp only [assign]
          split
          · exact admits
          · exact .single _
      | _ => exact admits
  | double =>
      cases s with
      | float x => exact .double x
      | _ => exact admits
  | text =>
      cases s with
      | text spelled => exact .text spelled
      | bytes b => exact .text _
      | _ => exact admits
  | optional content ih => exact .present (ih (admits.contentOr_initial wellFormed))
  | boxed content ih =>
      cases admits with
      | boxed inside => exact .boxed (ih inside)
  | named name content ih =>
      cases admits with
      | named _ inside => exact .named name (ih inside)
  | sequence item =>
      by_cases byte : item = .uint .w8
      · subst byte
        cases s with
        | text spelled => exact .bytes _
        | bytes b => exact .bytes b
        | _ => exact admits
      · cases s <;> simp only [assign, if_neg byte] <;> exact admits
  | _ => exact admits

theorem admits_assignConverted (wellFormed : Γ.WellFormed) {ty : Ty} {d : Datum}
    (admits : ty.Admits Γ d) (converted : Except Fault (Option Scalar)) :
    ty.Admits Γ (ty.assignConverted Γ d converted).1 := by
  rcases converted with fault | _ | s
  · exact admits
  · exact admits
  · exact admits_assign wellFormed admits s

theorem storeDocument_cases (schema : Schema) (d : Datum) (v : Value) :
    storeDocument schema d v = acceptWrite d ∨
      (∃ found, storeDocument schema d v = acceptWrite (.document found)) ∨
      ∃ fault, storeDocument schema d v = refuseWrite d (.conversion fault) ∧
        (fault = .malformedDocument ∨ fault = .unsupported v.kindName "json") := by
  cases v with
  | null => exact .inl rfl
  | text | bytes =>
      simp only [storeDocument]
      split
      · exact .inr (.inl ⟨_, rfl⟩)
      · exact .inr (.inr ⟨_, rfl, .inl rfl⟩)
  | _ => exact .inr (.inr ⟨_, rfl, .inr rfl⟩)

theorem admits_storeDocument {schema : Schema} {d : Datum}
    (admits : (Ty.document schema).Admits Γ d) (v : Value) :
    (Ty.document schema).Admits Γ (storeDocument schema d v).1 := by
  rcases storeDocument_cases schema d v with kept | ⟨found, stored⟩ | ⟨fault, refused, -⟩
  · rwa [kept]
  · rw [stored]
    exact .document schema found
  · rwa [refused]

theorem admits_store (wellFormed : Γ.WellFormed) {ty : Ty} {d : Datum} (admits : ty.Admits Γ d)
    (v : Value) : ty.Admits Γ (ty.store Γ d v).1 := by
  induction ty generalizing d with
  | bool | int | uint | single | double => exact admits_assignConverted wellFormed admits _
  | text => exact .text _
  | timestamp =>
      simp only [store]
      split
      · exact admits
      · exact admits
      · exact .timestamp _
  | rawBytes => exact .rawBytes _
  | value => exact .value v
  | document schema => exact admits_storeDocument admits v
  | custom name =>
      cases admits with
      | custom _ held => exact .custom name _
  | optional content ih =>
      have inside := ih (admits.contentOr_initial wellFormed)
      cases v with
      | null => exact .absent content
      | _ => exact .present inside
  | boxed content ih =>
      cases admits with
      | boxed inside => exact .boxed (ih inside)
  | named name content ih =>
      cases admits with
      | named _ inside => exact .named name (ih inside)
  | sequence item =>
      simp only [store]
      split
      · rename_i byte
        subst byte
        exact .bytes _
      · exact admits
  | _ => exact admits

end Ty

end SqlMarshal
