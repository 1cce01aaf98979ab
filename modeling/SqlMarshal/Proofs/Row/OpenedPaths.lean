import SqlMarshal.Proofs.Row.HeldFields
import SqlMarshal.Proofs.Ty.Parts

/-! # What opening a path makes

Before a column is written, the way to its field is opened: an optional layer in front of a record
that the path steps into is made if it is not there, and then holds what a new value starts from. A
path is opened again for every row that is read into the same value, and the columns of a row come in
any order.

What is made depends on the value and the path alone. The layers in front of the field itself are none
of those that are made. What could be found in the value before is found there still, what is made a
second time is there already, and two paths make the same layers in either order, also where one of
them is made for both.

Nothing of this takes a sound declaration: a path that breaks at a name of one's own makes the layers
before the break.
-/

namespace SqlMarshal

variable {Γ : Catalogue}

namespace Ty

/-- What becomes of a value when the layers on the way along a path are made. -/
inductive Makes (Γ : Catalogue) : Path → Ty → Datum → Datum → Prop where
  /-- What the path leads to stays, its own layers too. -/
  | reached (ty : Ty) (d : Datum) : Makes Γ [] ty d d
  /-- A layer that is not there is made, and with it the layers in a new value. -/
  | absent {index : Nat} {rest : Path} {content : Ty} {after : Datum} :
      Makes Γ (index :: rest) content (content.initial Γ) after →
        Makes Γ (index :: rest) (.optional content) .absent (.present after)
  | present {index : Nat} {rest : Path} {content : Ty} {d after : Datum} :
      Makes Γ (index :: rest) content d after →
        Makes Γ (index :: rest) (.optional content) (.present d) (.present after)
  | boxed {index : Nat} {rest : Path} {content : Ty} {d after : Datum} :
      Makes Γ (index :: rest) content d after → Makes Γ (index :: rest) (.boxed content) d after
  | record {index : Nat} {rest : Path} {name : String} {items : List Datum} {field : Ty}
      {item after : Datum} :
      (Ty.record name).field? Γ index (.record items) = some (field, item) →
        Makes Γ rest field item after →
        Makes Γ (index :: rest) (.record name) (.record items) (.record (items.set index after))
  /-- What has no such field, and no layer in front of one, stays. -/
  | breaks {index : Nat} {rest : Path} {ty : Ty} {d : Datum} :
      (∀ content, ty.unboxed ≠ .optional content) → ty.field? Γ index d = none →
        Makes Γ (index :: rest) ty d d

/-- An optional layer in front of a record that a path steps into is not there. -/
inductive Misses (Γ : Catalogue) : Path → Ty → Datum → Prop where
  | absent {index : Nat} {rest : Path} {content : Ty} :
      Misses Γ (index :: rest) (.optional content) .absent
  | present {index : Nat} {rest : Path} {content : Ty} {d : Datum} :
      Misses Γ (index :: rest) content d → Misses Γ (index :: rest) (.optional content) (.present d)
  | boxed {index : Nat} {rest : Path} {content : Ty} {d : Datum} :
      Misses Γ (index :: rest) content d → Misses Γ (index :: rest) (.boxed content) d
  | record {index : Nat} {rest : Path} {name : String} {items : List Datum} {field : Ty}
      {item : Datum} :
      (Ty.record name).field? Γ index (.record items) = some (field, item) →
        Misses Γ rest field item → Misses Γ (index :: rest) (.record name) (.record items)

/-- A value of the type, or what values of it start from, which is none where a record holds
    itself. -/
def Starts (Γ : Catalogue) (ty : Ty) (d : Datum) : Prop :=
  ty.Admits Γ d ∨ ∃ depth, d = ty.initialWith (Γ.initialRecord depth)

/-- Changes a field of a record and makes the optional layers in front of the record. -/
def adjustField (Γ : Catalogue) (index : Nat) (change : Ty → Datum → Datum) (ty : Ty) (d : Datum) :
    Datum :=
  (ty.visitField Γ index (fun field item => (change field item, ())) () d).1

/-- The value with the optional layers on the way along a path made. -/
def opened (Γ : Catalogue) : Path → Ty → Datum → Datum
  | [], _, d => d
  | index :: rest, ty, d => ty.adjustField Γ index (opened Γ rest) d

variable {ty content field target : Ty} {d after item : Datum} {index : Nat} {path rest : Path}

/-! ## Fields that are changed -/

theorem visitField_fst {β : Type} (index : Nat) (visit : Ty → Datum → Datum × β) (missing : β)
    (ty : Ty) (d : Datum) :
    (ty.visitField Γ index visit missing d).1 =
      ty.adjustField Γ index (fun field item => (visit field item).1) d := by
  induction ty generalizing d with
  | optional content ih => exact congrArg Datum.present (ih _)
  | boxed content ih => exact ih d
  | record name =>
      cases d with
      | record items =>
          simp only [adjustField, visitField]
          cases (Γ.fields name)[index]? <;> cases items[index]? <;> rfl
      | _ => rfl
  | _ => rfl

section Adjust

variable {name : String} {items : List Datum} {f g : Ty → Datum → Datum}

theorem adjustField_of_some
    (found : (Ty.record name).field? Γ index (.record items) = some (field, item)) :
    (Ty.record name).adjustField Γ index f (.record items) =
      .record (items.set index (f field item)) := by
  obtain ⟨declared, at_index, rfl, held⟩ := item_of_field? found
  simp only [adjustField, visitField, at_index, held]

theorem adjustField_of_none (missing : (Ty.record name).field? Γ index (.record items) = none) :
    (Ty.record name).adjustField Γ index f (.record items) = .record items := by
  simp only [adjustField, visitField]
  split
  · rename_i at_index held
    simp [field?_record at_index held] at missing
  · rfl

theorem field?_set_self {new : Datum}
    (found : (Ty.record name).field? Γ index (.record items) = some (field, item)) :
    (Ty.record name).field? Γ index (.record (items.set index new)) = some (field, new) := by
  obtain ⟨declared, at_index, rfl, held⟩ := item_of_field? found
  obtain ⟨inside, -⟩ := List.getElem?_eq_some_iff.1 held
  exact field?_record at_index (List.getElem?_set_self inside)

theorem field?_set_ne {other : Nat} {new : Datum} (different : index ≠ other) :
    (Ty.record name).field? Γ other (.record (items.set index new)) =
      (Ty.record name).field? Γ other (.record items) := by
  simp only [field?, List.getElem?_set_ne different]

theorem adjustField_same (index : Nat) (ty : Ty) (d : Datum) :
    ty.adjustField Γ index g (ty.adjustField Γ index f d) =
      ty.adjustField Γ index (fun field item => g field (f field item)) d := by
  induction ty generalizing d with
  | optional content ih => exact congrArg Datum.present (ih _)
  | boxed content ih => exact ih d
  | record name =>
      cases d with
      | record items =>
          cases found : (Ty.record name).field? Γ index (.record items) with
          | none => simp only [adjustField_of_none found]
          | some held =>
              rw [adjustField_of_some found, adjustField_of_some found,
                adjustField_of_some (field?_set_self found), List.set_set]
      | _ => rfl
  | _ => rfl

theorem adjustField_comm {i j : Nat} (different : i ≠ j) (ty : Ty) (d : Datum) :
    ty.adjustField Γ i f (ty.adjustField Γ j g d) =
      ty.adjustField Γ j g (ty.adjustField Γ i f d) := by
  induction ty generalizing d with
  | optional content ih => exact congrArg Datum.present (ih _)
  | boxed content ih => exact ih d
  | record name =>
      cases d with
      | record items =>
          -- What is at one of the positions does not depend on what happens at the other.
          have found_i : ∀ new, (Ty.record name).field? Γ i (.record (items.set j new)) =
              (Ty.record name).field? Γ i (.record items) := fun _ => field?_set_ne different.symm
          have found_j : ∀ new, (Ty.record name).field? Γ j (.record (items.set i new)) =
              (Ty.record name).field? Γ j (.record items) := fun _ => field?_set_ne different
          cases at_i : (Ty.record name).field? Γ i (.record items) with
          | none =>
              cases at_j : (Ty.record name).field? Γ j (.record items) with
              | none => simp only [adjustField_of_none at_i, adjustField_of_none at_j]
              | some held =>
                  rw [adjustField_of_none at_i, adjustField_of_some at_j,
                    adjustField_of_none ((found_i _).trans at_i)]
          | some held =>
              cases at_j : (Ty.record name).field? Γ j (.record items) with
              | none =>
                  rw [adjustField_of_none at_j, adjustField_of_some at_i,
                    adjustField_of_none ((found_j _).trans at_j)]
              | some held' =>
                  rw [adjustField_of_some at_i, adjustField_of_some at_j,
                    adjustField_of_some ((found_i _).trans at_i),
                    adjustField_of_some ((found_j _).trans at_j), List.set_comm _ _ different]
      | _ => rfl
  | _ => rfl

end Adjust

/-! ## Paths that are opened -/

theorem visitPath_fst {β : Type} (missing : Nat → β) (answer : Ty → Datum → β) (hop : Nat)
    (path : Path) (ty : Ty) (d : Datum) :
    (visitPath Γ (fun target content => (content, answer target content)) missing hop path ty d).1 =
      ty.opened Γ path d := by
  induction path generalizing hop ty d with
  | nil => rfl
  | cons index rest ih => simp only [visitPath, visitField_fst, ih, opened]

theorem openPath_fst (path : Path) (ty : Ty) (d : Datum) :
    (ty.openPath Γ path d).1 = ty.opened Γ path d :=
  visitPath_fst _ _ 0 path ty d

theorem opened_opened (path : Path) (ty : Ty) (d : Datum) :
    ty.opened Γ path (ty.opened Γ path d) = ty.opened Γ path d := by
  induction path generalizing ty d with
  | nil => rfl
  | cons index rest ih => simp only [opened, adjustField_same, ih]

/-- Paths are opened in either order. -/
theorem opened_comm (p q : Path) (ty : Ty) (d : Datum) :
    ty.opened Γ q (ty.opened Γ p d) = ty.opened Γ p (ty.opened Γ q d) := by
  induction p generalizing q ty d with
  | nil => rfl
  | cons i p ih =>
      cases q with
      | nil => rfl
      | cons j q =>
          by_cases same : i = j
          · subst same
            simp only [opened, adjustField_same, ih]
          · exact adjustField_comm (Ne.symm same) ty d

/-! ## What is made -/

namespace Starts

theorem initial (ty : Ty) : ty.Starts Γ (ty.initial Γ) :=
  .inr ⟨_, rfl⟩

theorem optional (starts : (Ty.optional content).Starts Γ d) :
    d = .absent ∨ ∃ inside, d = .present inside ∧ content.Starts Γ inside := by
  rcases starts with admits | ⟨depth, rfl⟩
  · cases admits with
    | absent => exact .inl rfl
    | present inside => exact .inr ⟨_, rfl, .inl inside⟩
  · exact .inl rfl

theorem boxed (starts : (Ty.boxed content).Starts Γ d) : content.Starts Γ d := by
  rcases starts with admits | new
  · cases admits with
    | boxed inside => exact .inl inside
  · exact .inr new

theorem record {name : String} (starts : (Ty.record name).Starts Γ d) :
    ∃ items, d = .record items ∧ ∀ index field item,
      (Ty.record name).field? Γ index (.record items) = some (field, item) →
        field.Starts Γ item := by
  rcases starts with admits | ⟨depth, rfl⟩
  · cases admits with
    | record _ each =>
        refine ⟨_, rfl, fun index field item found => .inl ?_⟩
        obtain ⟨declared, at_index, rfl, held⟩ := item_of_field? found
        exact each index declared item at_index held
  · have new : ∃ items, (Ty.record name).initialWith (Γ.initialRecord depth) = .record items := by
      cases depth <;> exact ⟨_, rfl⟩
    obtain ⟨items, new⟩ := new
    refine ⟨items, new, fun index field item found => .inr ?_⟩
    rw [← new] at found
    obtain ⟨_, depth', -, -, same⟩ := field?_initialWith found
    exact ⟨depth', same⟩

end Starts

/-- Opening a path makes the layers on the way and nothing else. -/
theorem makes_opened (path : Path) {ty : Ty} {d : Datum} (starts : ty.Starts Γ d) :
    ty.Makes Γ path d (ty.opened Γ path d) := by
  induction path generalizing ty d with
  | nil => exact .reached ty d
  | cons index rest ihPath =>
      induction ty generalizing d with
      | optional content ih =>
          rcases starts.optional with rfl | ⟨inside, rfl, starts'⟩
          · exact .absent (ih (.initial content))
          · exact .present (ih starts')
      | boxed content ih => exact .boxed (ih starts.boxed)
      | record name =>
          obtain ⟨items, rfl, each⟩ := starts.record
          cases found : (Ty.record name).field? Γ index (.record items) with
          | none =>
              rw [opened, adjustField_of_none found]
              exact .breaks (by simp [unboxed]) found
          | some held =>
              rw [opened, adjustField_of_some found]
              exact .record found (ihPath (each index held.1 held.2 found))
      | _ => exact .breaks (by simp [unboxed]) rfl

namespace Makes

theorem eq_of_not_misses (makes : ty.Makes Γ path d after) (there : ¬ ty.Misses Γ path d) :
    after = d := by
  induction makes with
  | reached => rfl
  | absent => exact absurd .absent there
  | present _ ih => rw [ih fun misses => there (.present misses)]
  | boxed _ ih => exact ih fun misses => there (.boxed misses)
  | record found _ ih =>
      obtain ⟨-, -, -, held⟩ := item_of_field? found
      obtain ⟨inside, rfl⟩ := List.getElem?_eq_some_iff.1 held
      rw [ih fun misses => there (.record found misses), List.set_getElem_self]
  | breaks => rfl

theorem field?_ne {other : Nat} (makes : ty.Makes Γ (index :: rest) d after)
    (different : index ≠ other) (found : ty.field? Γ other d = some (field, item)) :
    ty.field? Γ other after = some (field, item) := by
  induction ty generalizing d after with
  | optional content ih =>
      cases makes with
      | absent => simp [field?] at found
      | present inside => exact ih inside found
      | breaks noLayer => exact absurd rfl (noLayer content)
  | boxed content ih =>
      cases makes with
      | boxed inside => exact ih inside found
      | breaks => exact found
  | record name =>
      cases makes with
      | record => rwa [field?_set_ne different]
      | breaks => exact found
  | _ => simp [field?] at found

theorem field?_self (makes : ty.Makes Γ (index :: rest) d after)
    (found : ty.field? Γ index d = some (field, item)) :
    ∃ item', ty.field? Γ index after = some (field, item') ∧ field.Makes Γ rest item item' := by
  induction ty generalizing d after with
  | optional content ih =>
      cases makes with
      | absent => simp [field?] at found
      | present inside => exact ih inside found
      | breaks noLayer => exact absurd rfl (noLayer content)
  | boxed content ih =>
      cases makes with
      | boxed inside => exact ih inside found
      | breaks _ missing => simp [missing] at found
  | record name =>
      cases makes with
      | record found' inside =>
          obtain ⟨rfl, rfl⟩ := Prod.mk.inj (Option.some.inj (found'.symm.trans found))
          exact ⟨_, field?_set_self found, inside⟩
      | breaks _ missing => simp [missing] at found
  | _ => simp [field?] at found

theorem look?_append {way : Path} (makes : ty.Makes Γ (way ++ rest) d after)
    (found : ty.look? Γ way d = some (target, item)) :
    ∃ item', ty.look? Γ way after = some (target, item') ∧ target.Makes Γ rest item item' := by
  induction way generalizing ty d after with
  | nil =>
      obtain ⟨rfl, rfl⟩ := Prod.mk.inj (Option.some.inj found)
      exact ⟨after, rfl, makes⟩
  | cons index way ih =>
      simp only [look?] at found
      split at found
      · rename_i field inner here
        obtain ⟨inner', here', inside⟩ := makes.field?_self here
        obtain ⟨item', found', more⟩ := ih inside found
        exact ⟨item', by simp only [look?, here', found'], more⟩
      · simp at found

theorem look?_aside {other : Path} (makes : ty.Makes Γ path d after) (aside : ¬ other <+: path)
    (found : ty.look? Γ other d = some (target, item)) :
    ty.look? Γ other after = some (target, item) := by
  induction other generalizing path ty d after with
  | nil => exact absurd (List.nil_prefix) aside
  | cons index other ih =>
      simp only [look?] at found
      split at found
      · rename_i field inner here
        cases path with
        | nil =>
            cases makes
            simp only [look?, here, found]
        | cons step rest =>
            by_cases same : step = index
            · subst same
              obtain ⟨inner', here', inside⟩ := makes.field?_self here
              have aside' : ¬ other <+: rest := fun along =>
                aside (List.cons_prefix_cons.2 ⟨rfl, along⟩)
              simp only [look?, here', ih inside aside' found]
            · simp only [look?, makes.field?_ne same here, found]
      · simp at found

end Makes

end Ty

/-! ## Paths of a table -/

namespace FieldTable

/-- Opening a path of a table makes the optional layers on the way that are not there, and with every
    one of them a new value. Whatever could be found is found again: on the way with what is made
    further on, elsewhere and at the end of the path as it was. If no layer is missing, nothing
    changes; so it is when the path is opened again. Of two paths, either may be opened first. -/
theorem openPath_of_get? {ty : Ty} {depth : Nat} {table : FieldTable} {d : Datum} {name : String}
    {path : Path} (built : build Γ ty depth = .ok table) (indexed : table.get? name = some path)
    (admits : ty.Admits Γ d) :
    let after := (ty.openPath Γ path d).1
    (Γ.WellFormed → ty.Proper Γ →
      ∃ field, ty.at? Γ path = some field ∧ (ty.openPath Γ path d).2 = .ok field) ∧
    ty.Makes Γ path d after ∧
    (∀ way rest field item, path = way ++ rest → ty.look? Γ way d = some (field, item) →
      ∃ item', ty.look? Γ way after = some (field, item') ∧ field.Makes Γ rest item item') ∧
    (∀ other field item, ¬ other <+: path → ty.look? Γ other d = some (field, item) →
      ty.look? Γ other after = some (field, item)) ∧
    (∀ field item, ty.look? Γ path d = some (field, item) →
      ty.look? Γ path after = some (field, item)) ∧
    (¬ ty.Misses Γ path d → after = d) ∧
    (ty.openPath Γ path after).1 = after ∧
    ∀ name' other, table.get? name' = some other →
      (ty.openPath Γ other after).1 = (ty.openPath Γ path (ty.openPath Γ other d).1).1 := by
  intro after
  have makes : ty.Makes Γ path d after := by
    rw [show after = _ from ty.openPath_fst path d]
    exact ty.makes_opened path (.inl admits)
  refine ⟨fun wellFormed proper => ?_, makes, ?_, fun other field item => makes.look?_aside,
    fun field item found => ?_, makes.eq_of_not_misses, ?_, fun name' other _ => ?_⟩
  · obtain ⟨field, reached⟩ := at?_of_get? built indexed
    exact ⟨field, reached, (Ty.reaches_of_at? wellFormed proper admits reached).openPath⟩
  · rintro way rest field item rfl
    exact makes.look?_append
  · have whole : ty.Makes Γ (path ++ []) d after := by rwa [List.append_nil]
    obtain ⟨_, found', ⟨⟩⟩ := whole.look?_append found
    exact found'
  · simp only [after, Ty.openPath_fst, Ty.opened_opened]
  · simp only [after, Ty.openPath_fst, Ty.opened_comm path other]

/-- For the ZIP code, both layers in front of the address are made and the one in front of the code is
    not, and the number of the order is found as it was. -/
theorem openPath_of_zip :
    let Γ : Catalogue := { records := [
      ("order", [⟨"No", .int .w64, "", true, false⟩,
        ⟨"Buyer", .boxed (.record "buyer"), "", true, true⟩]),
      ("buyer", [⟨"Name", .text, "", true, false⟩,
        ⟨"Home", .optional (.boxed (.optional (.record "address"))), "", true, true⟩]),
      ("address", [⟨"Zip", .optional .text, "", true, false⟩,
        ⟨"City", .text, "", true, false⟩])] }
    let ty : Ty := .record "order"
    let table : FieldTable :=
      ⟨[("no", [0]), ("name", [1, 0]), ("zip", [1, 1, 0]), ("city", [1, 1, 1])]⟩
    let d : Datum := .record [.whole 7, .record [.text "ann", .present .absent]]
    let after : Datum := .record [.whole 7, .record [.text "ann",
      .present (.present (.record [.absent, .text ""]))]]
    build Γ ty 8 = .ok table ∧ ty.openPath Γ [1, 1, 0] d = (after, .ok (.optional .text)) ∧
      ty.Makes Γ [1, 1, 0] d after ∧ ty.look? Γ [0] after = some (.int .w64, .whole 7) ∧
      (ty.openPath Γ [1, 1, 0] after).1 = after ∧
      (ty.openPath Γ [1, 1, 1] after).1 =
        (ty.openPath Γ [1, 1, 0] (ty.openPath Γ [1, 1, 1] d).1).1 := by
  intro Γ ty table d after
  have built : build Γ ty 8 = .ok table := rfl
  have admits : ty.Admits Γ d := by
    refine .record rfl fun index field item declared held => ?_
    match index, declared, held with
    | 0, rfl, rfl => exact .int .w64 7
    | 1, rfl, rfl =>
        refine .boxed (.record rfl fun index field item declared held => ?_)
        match index, declared, held with
        | 0, rfl, rfl => exact .text "ann"
        | 1, rfl, rfl => exact .present (.boxed (.absent _))
  obtain ⟨-, makes, -, aside, -, -, again, order⟩ :=
    openPath_of_get? built (show table.get? "zip" = some [1, 1, 0] from rfl) admits
  exact ⟨built, rfl, makes, aside [0] _ _ (by decide) rfl, again, order "city" _ rfl⟩

end FieldTable

end SqlMarshal
