import SqlMarshal.Row.FieldTable
import SqlMarshal.Ty.Access

/-! # Writes along paths

A write that is not refused changes a value, and only such writes matter for a row that is read to
its end. Seen this way a write along a path is a partial function on values, and reading a row is a
sequence of them.

Two writes along paths that part at some record commute: the optional layers above that record are
made by whichever write comes first, and below it the writes touch different fields. This is what
lets some writes of a row wait until the others are done.
-/

namespace SqlMarshal

/-- The value that a write leaves, unless it was refused. -/
def Written.accepted? {ε : Type} : Written ε → Option Datum
  | (after, none) => some after
  | (_, some _) => none

@[simp] theorem accepted?_inside {ε : Type} (written : Written ε) :
    written.inside.accepted? = written.accepted?.map .present := by
  obtain ⟨after, _ | error⟩ := written <;> rfl

theorem accepted?_map_error {ε φ : Type} (written : Written ε) (f : ε → φ) :
    Written.accepted? (written.1, written.2.map f) = written.accepted? := by
  obtain ⟨after, _ | error⟩ := written <;> rfl

/-- Two paths that part: after a common way they go to different fields of one record. -/
inductive Path.Apart : Path → Path → Prop where
  | here {i j : Nat} (p q : Path) : i ≠ j → Apart (i :: p) (j :: q)
  | later {p q : Path} (i : Nat) : Apart p q → Apart (i :: p) (i :: q)

namespace Path.Apart

theorem symm {p q : Path} (apart : Apart p q) : Apart q p := by
  induction apart with
  | here p q different => exact .here q p different.symm
  | later i _ ih => exact .later i ih

theorem ne {p q : Path} (apart : Apart p q) : p ≠ q := by
  induction apart with
  | here _ _ different => exact fun same => different (List.cons.inj same).1
  | later _ _ ih => exact fun same => ih (List.cons.inj same).2

theorem not_prefix {p q : Path} (apart : Apart p q) : ¬ p <+: q := by
  intro through
  induction apart with
  | here _ _ different => exact different (List.cons_prefix_cons.1 through).1
  | later _ _ ih => exact ih (List.cons_prefix_cons.1 through).2

theorem append_left {p q : Path} (above : Path) (apart : Apart p q) :
    Apart (above ++ p) (above ++ q) := by
  induction above with
  | nil => exact apart
  | cons i _ ih => exact .later i ih

end Path.Apart

namespace Ty

variable {Γ : Catalogue}

/-- Changes a field of a record, making the optional layers in front of the record. -/
def modifyField? (Γ : Catalogue) (index : Nat) (change : Ty → Datum → Option Datum) :
    Ty → Datum → Option Datum
  | .optional content, d =>
      (content.modifyField? Γ index change (d.contentOr (content.initial Γ))).map .present
  | .boxed content, d => content.modifyField? Γ index change d
  | .record name, .record items =>
      (Γ.fields name)[index]?.bind fun field =>
        items[index]?.bind fun item =>
          (change field.type item).map fun after => .record (items.set index after)
  | _, _ => none

/-- Changes what a path leads to. -/
def modifyPath? (Γ : Catalogue) (change : Ty → Datum → Option Datum) :
    Path → Ty → Datum → Option Datum
  | [], ty, d => change ty d
  | index :: rest, ty, d => ty.modifyField? Γ index (modifyPath? Γ change rest) d

/-! ## Accepted writes are changes -/

theorem accepted?_visitField {ε : Type} {index : Nat} {visit : Ty → Datum → Written ε}
    {error : ε} {ty : Ty} {d : Datum} :
    Written.accepted? (ty.visitField Γ index visit (some error) d) =
      ty.modifyField? Γ index (fun field item => (visit field item).accepted?) d := by
  fun_induction modifyField? Γ index (fun field item => (visit field item).accepted?) ty d with
  | case1 content d ih =>
      rw [visitField, ← ih]
      exact accepted?_inside _
  | case2 content d ih => rw [visitField, ih]
  | case3 name items =>
      cases declared : (Γ.fields name)[index]? with
      | none => simp [visitField, declared, Written.accepted?]
      | some field =>
          cases held : items[index]? with
          | none => simp [visitField, declared, held, Written.accepted?]
          | some item =>
              simp only [visitField, declared, held, Option.bind_some]
              obtain ⟨after, _ | error⟩ := visit field.type item <;> rfl
  | case4 ty d notOptional notBoxed notRecord => rw [visitField] <;> first | rfl | assumption

theorem accepted?_visitPath {ε : Type} {visit : Ty → Datum → Written ε} {error : Nat → ε}
    (hop : Nat) (path : Path) (ty : Ty) (d : Datum) :
    Written.accepted? (visitPath Γ visit (fun hop => some (error hop)) hop path ty d) =
      modifyPath? Γ (fun target item => (visit target item).accepted?) path ty d := by
  induction path generalizing hop ty d with
  | nil => rfl
  | cons index rest ih =>
      simp only [visitPath, modifyPath?, accepted?_visitField, ih]

theorem accepted?_writeAt (path : Path) (write : Ty → Datum → Written RowError) (ty : Ty)
    (d : Datum) :
    (writeAt Γ path write ty d).accepted? =
      modifyPath? Γ (fun target item => (write target item).accepted?) path ty d :=
  accepted?_visitPath 0 path ty d

/-! ## Only the type at the end of the path is asked -/

theorem modifyField?_congr {index : Nat} {f g : Ty → Datum → Option Datum} {ty : Ty} {d : Datum}
    (agree : ∀ fields field, ty.base.fields? Γ = some fields → fields[index]? = some field →
      ∀ item, f field.type item = g field.type item) :
    ty.modifyField? Γ index f d = ty.modifyField? Γ index g d := by
  induction ty generalizing d with
  | optional content ih => simp only [modifyField?, ih agree]
  | boxed content ih => simp only [modifyField?, ih agree]
  | record name =>
      cases d with
      | record items =>
          cases declared : (Γ.fields name)[index]? with
          | none => simp only [modifyField?, declared, Option.bind_none]
          | some field =>
              simp only [modifyField?, declared, Option.bind_some, agree _ field rfl declared]
      | _ => rfl
  | _ => rfl

theorem modifyPath?_congr {f g : Ty → Datum → Option Datum} {path : Path} {ty : Ty} {d : Datum}
    (agree : ∀ target, ty.at? Γ path = some target → ∀ item, f target item = g target item) :
    modifyPath? Γ f path ty d = modifyPath? Γ g path ty d := by
  induction path generalizing ty d with
  | nil => exact agree ty rfl d
  | cons index rest ih =>
      refine modifyField?_congr fun fields field declared found item => ih fun target reached => ?_
      exact agree target (by simp [at?, declared, found, reached])

theorem modifyPath?_none (path : Path) (ty : Ty) (d : Datum) :
    modifyPath? Γ (fun _ _ => none) path ty d = none := by
  induction path generalizing ty d with
  | nil => rfl
  | cons index rest ih =>
      simp only [modifyPath?]
      fun_induction modifyField? Γ index (modifyPath? Γ (fun _ _ => none) rest) ty d with
      | case1 content d ihField => rw [ihField]; rfl
      | case2 content d ihField => exact ihField
      | case3 name items => simp [ih]
      | case4 => rfl

/-! ## Writes that part commute -/

theorem modifyField?_record {index : Nat} {f : Ty → Datum → Option Datum} {name : String}
    {field : Field} {items : List Datum} {item : Datum}
    (declared : (Γ.fields name)[index]? = some field) (held : items[index]? = some item) :
    (Ty.record name).modifyField? Γ index f (.record items) =
      (f field.type item).map fun after => .record (items.set index after) := by
  simp only [modifyField?, declared, held, Option.bind_some]

theorem modifyField?_same {index : Nat} {f g : Ty → Datum → Option Datum} {ty : Ty} {d : Datum} :
    (ty.modifyField? Γ index f d).bind (ty.modifyField? Γ index g) =
      ty.modifyField? Γ index (fun field item => (f field item).bind (g field)) d := by
  induction ty generalizing d with
  | optional content ih =>
      simp only [modifyField?, Option.bind_map, Function.comp_def, Datum.contentOr, ← ih,
        Option.map_bind]
  | boxed content ih => simp only [modifyField?, ih]
  | record name =>
      cases d with
      | record items =>
          cases declared : (Γ.fields name)[index]? with
          | none => simp only [modifyField?, declared, Option.bind_none]
          | some field =>
              cases held : items[index]? with
              | none => simp only [modifyField?, held, Option.bind_none, Option.bind_some, declared]
              | some item =>
                  obtain ⟨inside, -⟩ := List.getElem?_eq_some_iff.1 held
                  rw [modifyField?_record declared held, modifyField?_record declared held]
                  cases f field.type item with
                  | none => rfl
                  | some first =>
                      have next : (items.set index first)[index]? = some first := by
                        simp [inside]
                      simp only [Option.map_some, Option.bind_some,
                        modifyField?_record declared next, List.set_set]
      | _ => rfl
  | _ => rfl

theorem modifyField?_missing {index : Nat} {f : Ty → Datum → Option Datum} {name : String}
    {items : List Datum} (missing : (Γ.fields name)[index]? = none ∨ items[index]? = none) :
    (Ty.record name).modifyField? Γ index f (.record items) = none := by
  rcases missing with undeclared | unheld
  · simp only [modifyField?, undeclared, Option.bind_none]
  · simp only [modifyField?, unheld, Option.bind_none, Option.bind_fun_none]

theorem modifyField?_comm_missing {i j : Nat} (different : i ≠ j)
    {f g : Ty → Datum → Option Datum} {name : String} {items : List Datum}
    (missing : (Γ.fields name)[i]? = none ∨ items[i]? = none) :
    ((Ty.record name).modifyField? Γ i f (.record items)).bind
        ((Ty.record name).modifyField? Γ j g) =
      ((Ty.record name).modifyField? Γ j g (.record items)).bind
        ((Ty.record name).modifyField? Γ i f) := by
  have after : ∀ item, (Ty.record name).modifyField? Γ i f (.record (items.set j item)) = none :=
    fun item => modifyField?_missing (by rwa [List.getElem?_set_ne different.symm])
  rw [modifyField?_missing missing, Option.bind_none]
  by_cases missing' : (Γ.fields name)[j]? = none ∨ items[j]? = none
  · rw [modifyField?_missing missing', Option.bind_none]
  · simp only [not_or, Option.ne_none_iff_exists'] at missing'
    obtain ⟨⟨field, declared⟩, item, held⟩ := missing'
    rw [modifyField?_record declared held]
    simp only [Option.bind_map, Function.comp_def, after, Option.bind_fun_none]

theorem modifyField?_comm {i j : Nat} (different : i ≠ j) {f g : Ty → Datum → Option Datum}
    {ty : Ty} {d : Datum} :
    (ty.modifyField? Γ i f d).bind (ty.modifyField? Γ j g) =
      (ty.modifyField? Γ j g d).bind (ty.modifyField? Γ i f) := by
  induction ty generalizing d with
  | optional content ih =>
      have inner := congrArg (Option.map Datum.present)
        (ih (d := d.contentOr (content.initial Γ)))
      simpa only [modifyField?, Option.bind_map, Option.map_bind, Function.comp_def,
        Datum.contentOr] using inner
  | boxed content ih => simp only [modifyField?, ih]
  | record name =>
      cases d with
      | record items =>
          by_cases missing : (Γ.fields name)[i]? = none ∨ items[i]? = none
          · exact modifyField?_comm_missing different missing
          · by_cases missing' : (Γ.fields name)[j]? = none ∨ items[j]? = none
            · exact (modifyField?_comm_missing different.symm missing').symm
            · simp only [not_or, Option.ne_none_iff_exists'] at missing missing'
              obtain ⟨⟨fieldI, declaredI⟩, itemI, heldI⟩ := missing
              obtain ⟨⟨fieldJ, declaredJ⟩, itemJ, heldJ⟩ := missing'
              rw [modifyField?_record declaredI heldI, modifyField?_record declaredJ heldJ]
              have heldI' : ∀ after, (items.set j after)[i]? = some itemI := fun after => by
                rw [List.getElem?_set_ne different.symm, heldI]
              have heldJ' : ∀ after, (items.set i after)[j]? = some itemJ := fun after => by
                rw [List.getElem?_set_ne different, heldJ]
              simp only [Option.bind_map, Function.comp_def,
                modifyField?_record declaredI (heldI' _), modifyField?_record declaredJ (heldJ' _)]
              cases f fieldI.type itemI <;> cases g fieldJ.type itemJ <;>
                simp [List.set_comm _ _ different]
      | _ => rfl
  | _ => rfl

theorem modifyPath?_comm {p q : Path} (apart : Path.Apart p q) {f g : Ty → Datum → Option Datum}
    {ty : Ty} {d : Datum} :
    (modifyPath? Γ f p ty d).bind (modifyPath? Γ g q ty) =
      (modifyPath? Γ g q ty d).bind (modifyPath? Γ f p ty) := by
  induction apart generalizing ty d with
  | here p q different => exact modifyField?_comm different
  | later i _ ih =>
      calc
        _ = ty.modifyField? Γ i (fun field item =>
              (modifyPath? Γ f _ field item).bind (modifyPath? Γ g _ field)) d := modifyField?_same
        _ = ty.modifyField? Γ i (fun field item =>
              (modifyPath? Γ g _ field item).bind (modifyPath? Γ f _ field)) d := by simp only [ih]
        _ = _ := modifyField?_same.symm

end Ty

end SqlMarshal
