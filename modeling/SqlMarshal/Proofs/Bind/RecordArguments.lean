import SqlMarshal.Proofs.Bind.BoundLeaves
import SqlMarshal.Proofs.Row.FirstLeaves

/-! # The arguments of a record

The arguments of a record are the values of its leaves. One comes by them on a walk through the
fields, in the order of declaration, that goes down into an embedded record where it stands if the
record is there, and past it if an optional layer in front of it is not. Every other visible field
is a leaf, by its name in lower case.

A name of one's own in front of a record keeps its fields from being found. So an embedded record of
such a name gives no leaf, neither those of its fields nor itself, and an argument of such a name gives
none at all.

Which leaves there are depends on the value as much as on its type. The walk is told on both, and
there is only one. The arguments are there just if no two leaves have a name in common; if some do,
the first leaf with the name of an earlier one is reported.
-/

namespace SqlMarshal

variable {Γ : Catalogue}

namespace Ty

/-- Behind its optional layers, which are all there, a value is a record of some items. -/
inductive Shows : Ty → Datum → String → List Datum → Prop where
  | record {name : String} {items : List Datum} : Shows (.record name) (.record items) name items
  | present {content : Ty} {d : Datum} {name : String} {items : List Datum} :
      Shows content d name items → Shows (.optional content) (.present d) name items
  | boxed {content : Ty} {d : Datum} {name : String} {items : List Datum} :
      Shows content d name items → Shows (.boxed content) d name items
  /-- A name of one's own is seen through if there is an optional layer behind it. -/
  | named {own : String} {content : Ty} {d : Datum} {name : String} {items : List Datum} :
      content.layers ≠ 0 → Shows content d name items → Shows (.named own content) d name items

/-- One of the optional layers in front of a value is not there. -/
inductive Lacks : Ty → Datum → Prop where
  | absent {content : Ty} : Lacks (.optional content) .absent
  | present {content : Ty} {d : Datum} : Lacks content d → Lacks (.optional content) (.present d)
  | boxed {content : Ty} {d : Datum} : Lacks content d → Lacks (.boxed content) d
  | named {own : String} {content : Ty} {d : Datum} : Lacks content d → Lacks (.named own content) d

/-- Behind its optional layers, which are all there, a value has a name of one's own, which keeps the
    fields of what it names from being found. -/
inductive Veils : Ty → Datum → Prop where
  | here {own : String} {content : Ty} {d : Datum} : content.layers = 0 → Veils (.named own content) d
  | present {content : Ty} {d : Datum} : Veils content d → Veils (.optional content) (.present d)
  | boxed {content : Ty} {d : Datum} : Veils content d → Veils (.boxed content) d
  | named {own : String} {content : Ty} {d : Datum} :
      content.layers ≠ 0 → Veils content d → Veils (.named own content) d

end Ty

namespace Field

/-- Behind the optional layers of the field is a record, which is to give its fields to the record
    around it. -/
def Embeds (Γ : Catalogue) (field : Field) : Prop :=
  field.TakesPart ∧ field.embedded ∧ field.type.isRecord Γ

/-- The field is an argument by a name, which is that of its tag or else its own, in lower case. -/
def BoundBy (Γ : Catalogue) (field : Field) (name : String) : Prop :=
  field.TakesPart ∧ ¬ field.Embeds Γ ∧ field.exported ∧
    let tag := FieldTag.parse field.tag
    name = lower (if tag.name = "" then field.name else tag.name)

end Field

/-- Going through the fields of a record with the items that they hold, and down into the embedded
    records that are there, one comes by some leaves, each of them a name and a value. -/
inductive Gathered (Γ : Catalogue) : List Field → List Datum → List (String × Param) → Prop where
  | done : Gathered Γ [] [] []
  | down {field : Field} {rest : List Field} {item : Datum} {items inner : List Datum}
      {name : String} {own others : List (String × Param)} :
      field.Embeds Γ → field.type.Shows item name inner → Gathered Γ (Γ.fields name) inner own →
        Gathered Γ rest items others → Gathered Γ (field :: rest) (item :: items) (own ++ others)
  /-- A layer in front of the record is not there. -/
  | without {field : Field} {rest : List Field} {item : Datum} {items : List Datum}
      {others : List (String × Param)} :
      field.Embeds Γ → field.type.Lacks item → Gathered Γ rest items others →
        Gathered Γ (field :: rest) (item :: items) others
  /-- The record is there, but a name of one's own is in front of it. -/
  | veiled {field : Field} {rest : List Field} {item : Datum} {items : List Datum}
      {others : List (String × Param)} :
      field.Embeds Γ → field.type.Veils item → Gathered Γ rest items others →
        Gathered Γ (field :: rest) (item :: items) others
  | leaf {field : Field} {rest : List Field} {item : Datum} {items : List Datum} {name : String}
      {others : List (String × Param)} :
      field.BoundBy Γ name → Gathered Γ rest items others →
        Gathered Γ (field :: rest) (item :: items) ((name, .datum field.type item) :: others)
  | past {field : Field} {rest : List Field} {item : Datum} {items : List Datum}
      {others : List (String × Param)} :
      ¬ field.Embeds Γ → (∀ name, ¬ field.BoundBy Γ name) →
        Gathered Γ rest items others → Gathered Γ (field :: rest) (item :: items) others

/-! ## Behind optional layers -/

namespace Ty

variable {ty content inner : Ty} {d d' : Datum} {name : String} {items : List Datum}

theorem Lacks.layers_ne (lacks : ty.Lacks d) : ty.layers ≠ 0 := by
  induction lacks with
  | absent => exact Nat.succ_ne_zero _
  | present => exact Nat.succ_ne_zero _
  | boxed _ ih => exact ih
  | named _ ih => exact ih

theorem Shows.unique {name' : String} {items' : List Datum} (shows : ty.Shows d name items)
    (again : ty.Shows d name' items') : name = name' ∧ items = items' := by
  induction shows with
  | record =>
      cases again
      exact ⟨rfl, rfl⟩
  | present _ ih =>
      cases again with
      | present again => exact ih again
  | boxed _ ih =>
      cases again with
      | boxed again => exact ih again
  | named _ _ ih =>
      cases again with
      | named _ again => exact ih again

theorem Shows.not_lacks (shows : ty.Shows d name items) : ¬ ty.Lacks d := by
  induction shows with
  | record => rintro ⟨⟩
  | present _ ih =>
      rintro (_ | lacks)
      exact ih lacks
  | boxed _ ih =>
      rintro (_ | _ | lacks)
      exact ih lacks
  | named _ _ ih =>
      rintro (_ | _ | _ | lacks)
      exact ih lacks

theorem Veils.base (veils : ty.Veils d) : ∃ own content, ty.base = .named own content := by
  induction veils with
  | @here own content _ solid => exact ⟨own, content, if_pos solid⟩
  | present _ ih | boxed _ ih => exact ih
  | @named own content _ deep _ ih => rwa [Ty.base, if_neg deep]

theorem Shows.base (shows : ty.Shows d name items) : ty.base = .record name := by
  induction shows with
  | record => rfl
  | present _ ih | boxed _ ih => exact ih
  | named deep _ ih => rwa [Ty.base, if_neg deep]

theorem Veils.not_lacks (veils : ty.Veils d) : ¬ ty.Lacks d := by
  induction veils with
  | here solid => exact fun lacks => lacks.layers_ne solid
  | present _ ih =>
      rintro (_ | lacks)
      exact ih lacks
  | boxed _ ih =>
      rintro (_ | _ | lacks)
      exact ih lacks
  | named _ _ ih =>
      rintro (_ | _ | _ | lacks)
      exact ih lacks

theorem Shows.not_veils (shows : ty.Shows d name items) : ¬ ty.Veils d := fun veils => by
  obtain ⟨own, content, named⟩ := veils.base
  simp [shows.base] at named

/-- If there is a record behind the layers of a type, a value of the type lacks a layer, or it shows a
    record, or a name of one's own is in front of the record. -/
theorem Admits.record_cases (admits : ty.Admits Γ d) (record : ty.isRecord Γ) :
    ty.Lacks d ∨
      (∃ name items, ty.Shows d name items ∧ (Ty.record name).Admits Γ (.record items)) ∨
      ty.Veils d := by
  induction admits with
  | absent => exact .inl .absent
  | present _ ih =>
      exact (ih record).imp .present
        (.imp (fun ⟨name, items, shows, inside⟩ => ⟨name, items, .present shows, inside⟩) .present)
  | boxed _ ih =>
      exact (ih record).imp .boxed
        (.imp (fun ⟨name, items, shows, inside⟩ => ⟨name, items, .boxed shows, inside⟩) .boxed)
  | @named content _ own _ ih =>
      by_cases solid : content.layers = 0
      · exact .inr (.inr (.here solid))
      · rw [isRecord, Ty.base, if_neg solid] at record
        exact (ih record).imp .named
          (.imp (fun ⟨name, items, shows, inside⟩ => ⟨name, items, .named solid shows, inside⟩)
            (.named solid))
  | record complete each => exact .inr (.inl ⟨_, _, .record, .record complete each⟩)
  | _ => simp [isRecord, Ty.base, fields?] at record

theorem layers_of_pointee? (found : ty.pointee? d = some (content, d')) :
    ty.layers = content.layers + 1 ∧ ty.base = content.base := by
  induction ty generalizing d with
  | optional inner =>
      cases d with
      | present =>
          obtain ⟨rfl, -⟩ := Prod.mk.inj (Option.some.inj found)
          exact ⟨rfl, rfl⟩
      | _ => simp [pointee?] at found
  | boxed inner ih => exact ih found
  | named own inner ih =>
      obtain ⟨layers, same⟩ := ih found
      have covered : inner.layers ≠ 0 := by omega
      exact ⟨layers, by rw [base, if_neg covered, same]⟩
  | _ => simp [pointee?] at found

theorem unboxed_of_behindLayers? {layers : Nat} (all : ty.layers = layers)
    (found : ty.behindLayers? layers d = some (inner, d')) : inner.unboxed = ty.base := by
  induction layers generalizing ty d with
  | zero =>
      obtain ⟨rfl, -⟩ := Prod.mk.inj (Option.some.inj found)
      exact (base_of_solid all).symm
  | succ layers ih =>
      simp only [behindLayers?, Option.bind_eq_bind, Option.bind_eq_some_iff] at found
      obtain ⟨⟨content, below⟩, step, found⟩ := found
      obtain ⟨deeper, same⟩ := layers_of_pointee? step
      rw [same]
      exact ih (by omega) found

theorem behindLayers?_boxed {layers : Nat} (deep : layers ≠ 0) :
    (Ty.boxed content).behindLayers? layers d = content.behindLayers? layers d := by
  cases layers with
  | zero => contradiction
  | succ layers => rfl

theorem behindLayers?_named {own : String} {layers : Nat} (deep : layers ≠ 0) :
    (Ty.named own content).behindLayers? layers d = content.behindLayers? layers d := by
  cases layers with
  | zero => contradiction
  | succ layers => rfl

theorem Lacks.behindLayers? (lacks : ty.Lacks d) : ty.behindLayers? ty.layers d = none := by
  induction lacks with
  | absent => rfl
  | present _ ih => exact ih
  | boxed lacks ih => exact (behindLayers?_boxed lacks.layers_ne).trans ih
  | named lacks ih => exact (behindLayers?_named lacks.layers_ne).trans ih

theorem behindLayers?_underBox
    (found : content.behindLayers? content.layers d = some (inner, d')) :
    ∃ inner', (Ty.boxed content).behindLayers? content.layers d = some (inner', d') ∧
      inner'.unboxed = inner.unboxed := by
  by_cases solid : content.layers = 0
  · rw [solid] at found ⊢
    obtain ⟨rfl, rfl⟩ := Prod.mk.inj (Option.some.inj found)
    exact ⟨.boxed content, rfl, rfl⟩
  · exact ⟨inner, (behindLayers?_boxed solid).trans found, rfl⟩

theorem Shows.behindLayers? (shows : ty.Shows d name items) :
    ∃ inner, ty.behindLayers? ty.layers d = some (inner, .record items) ∧
      inner.unboxed = .record name := by
  induction shows with
  | record => exact ⟨_, rfl, rfl⟩
  | present _ ih => exact ih
  | boxed _ ih =>
      obtain ⟨inner, found, same⟩ := ih
      obtain ⟨outer, found, same'⟩ := behindLayers?_underBox found
      exact ⟨outer, found, same'.trans same⟩
  | named deep _ ih =>
      obtain ⟨inner, found, same⟩ := ih
      exact ⟨inner, (behindLayers?_named deep).trans found, same⟩

theorem Veils.behindLayers? (veils : ty.Veils d) :
    ∃ inner d', ty.behindLayers? ty.layers d = some (inner, d') := by
  induction veils with
  | @here own content d solid => exact ⟨_, d, by rw [layers, solid]; rfl⟩
  | present _ ih => exact ih
  | boxed _ ih =>
      obtain ⟨inner, d', found⟩ := ih
      obtain ⟨outer, found, -⟩ := behindLayers?_underBox found
      exact ⟨outer, d', found⟩
  | named deep _ ih =>
      obtain ⟨inner, d', found⟩ := ih
      exact ⟨inner, d', (behindLayers?_named deep).trans found⟩

theorem Shows.depth_le (shows : ty.Shows d name items) : (Datum.record items).depth ≤ d.depth := by
  induction shows with
  | record => exact Nat.le_refl _
  | present _ ih => exact Nat.le_succ_of_le ih
  | boxed _ ih => exact ih
  | named _ _ ih => exact ih

@[simp] theorem field?_unboxed (ty : Ty) (index : Nat) (d : Datum) :
    ty.unboxed.field? Γ index d = ty.field? Γ index d := by
  induction ty with
  | boxed content ih => exact ih
  | _ => rfl

end Ty

/-! ## Fields -/

namespace Field

variable {field : Field} {name name' : String}

theorem BoundBy.unique (bound : field.BoundBy Γ name) (again : field.BoundBy Γ name') :
    name = name' :=
  bound.2.2.2.trans again.2.2.2.symm

theorem argumentRole_cases (Γ : Catalogue) (field : Field) :
    field.Embeds Γ ∧ field.argumentRole Γ = .flattened ∨
      (∃ name, field.BoundBy Γ name ∧ field.argumentRole Γ = .leaf name) ∨
      ¬ field.Embeds Γ ∧ (∀ name, ¬ field.BoundBy Γ name) ∧ field.argumentRole Γ = .hidden := by
  by_cases part : field.TakesPart
  · have shown := Bool.eq_false_iff.1 (takesPart_iff.1 part)
    by_cases embeds : field.Embeds Γ
    · refine .inl ⟨embeds, ?_⟩
      simp only [argumentRole]
      rw [if_neg shown, if_pos (by simp [embeds.2.1, embeds.2.2])]
    · have single : ¬ (field.embedded && field.type.isRecord Γ) = true := fun both =>
        embeds ⟨part, (Bool.and_eq_true_iff.1 both).1, (Bool.and_eq_true_iff.1 both).2⟩
      by_cases exported : field.exported
      · refine .inr (.inl ⟨_, ⟨part, embeds, exported, rfl⟩, ?_⟩)
        simp only [argumentRole]
        rw [if_neg shown, if_neg single, if_pos exported]
        rfl
      · refine .inr (.inr ⟨embeds, fun name bound => exported bound.2.2.1, ?_⟩)
        simp only [argumentRole]
        rw [if_neg shown, if_neg single, if_neg exported]
  · refine .inr (.inr ⟨fun embeds => part embeds.1, fun name bound => part bound.1, ?_⟩)
    have unseen := Bool.of_not_eq_false (mt takesPart_iff.2 part)
    simp only [argumentRole]
    rw [if_pos unseen]

end Field

namespace Gathered

variable {fields : List Field} {items : List Datum} {leaves others : List (String × Param)}

theorem unique (gathered : Gathered Γ fields items leaves)
    (again : Gathered Γ fields items others) : others = leaves := by
  induction gathered generalizing others with
  | done =>
      cases again
      rfl
  | down embeds shows _ _ ihInner ihRest =>
      cases again with
      | down _ shows' inner rest =>
          obtain ⟨rfl, rfl⟩ := shows.unique shows'
          rw [ihInner inner, ihRest rest]
      | without _ lacks => exact absurd lacks shows.not_lacks
      | veiled _ veils => exact absurd veils shows.not_veils
      | leaf bound => exact absurd embeds bound.2.1
      | past single => exact absurd embeds single
  | without embeds lacks _ ih =>
      cases again with
      | down _ shows => exact absurd lacks shows.not_lacks
      | without _ _ rest => exact ih rest
      | veiled _ veils => exact absurd lacks veils.not_lacks
      | leaf bound => exact absurd embeds bound.2.1
      | past single => exact absurd embeds single
  | veiled embeds veils _ ih =>
      cases again with
      | down _ shows => exact absurd veils shows.not_veils
      | without _ lacks => exact absurd lacks veils.not_lacks
      | veiled _ _ rest => exact ih rest
      | leaf bound => exact absurd embeds bound.2.1
      | past single => exact absurd embeds single
  | leaf bound _ ih =>
      cases again with
      | leaf bound' rest => rw [bound.unique bound', ih rest]
      | past _ unbound => exact absurd bound (unbound _)
      | down embeds | without embeds | veiled embeds => exact absurd embeds bound.2.1
  | past single unbound _ ih =>
      cases again with
      | leaf bound => exact absurd bound (unbound _)
      | past _ _ rest => exact ih rest
      | down embeds | without embeds | veiled embeds => exact absurd embeds single

end Gathered

/-! ## The walk -/

section Walk

variable {gather : Ty → Datum → List (String × Param)} {ty : Ty} {d : Datum}

theorem argumentsOf_unboxed (ty : Ty) (position : Nat) (fields : List Field) :
    argumentsOf Γ gather ty.unboxed d position fields =
      argumentsOf Γ gather ty d position fields := by
  induction fields generalizing position with
  | nil => rfl
  | cons field rest ih => simp only [argumentsOf, Ty.field?_unboxed, ih]

theorem argumentsWithin_unboxed (depth : Nat) (ty : Ty) (d : Datum) :
    argumentsWithin Γ depth ty.unboxed d = argumentsWithin Γ depth ty d := by
  cases depth with
  | zero => rfl
  | succ depth => rw [argumentsWithin, argumentsWithin, Ty.fields?_unboxed, argumentsOf_unboxed]

theorem argumentsOf_eq_nil (noField : ∀ index, ty.field? Γ index d = none) (position : Nat)
    (fields : List Field) : argumentsOf Γ gather ty d position fields = [] := by
  induction fields generalizing position with
  | nil => rfl
  | cons field rest ih =>
      rw [argumentsOf, noField, ih]
      cases field.argumentRole Γ <;> rfl

theorem argumentsWithin_of_no_record (depth : Nat) (other : ∀ name, ty.unboxed ≠ .record name) :
    argumentsWithin Γ depth ty d = [] := by
  induction ty with
  | record name => exact absurd rfl (other name)
  | boxed content ih =>
      have inside := ih other
      rwa [← argumentsWithin_unboxed] at inside ⊢
  | named own content =>
      cases depth with
      | zero => rfl
      | succ depth => exact argumentsOf_eq_nil (fun _ => rfl) 0 _
  | _ => cases depth <;> rfl

theorem argumentsWithin_of_veils {inner : Ty} {d' : Datum} (depth : Nat) (veils : ty.Veils d)
    (reached : ty.behindLayers? ty.layers d = some (inner, d')) :
    argumentsWithin Γ depth inner d' = [] := by
  obtain ⟨own, content, named⟩ := veils.base
  refine argumentsWithin_of_no_record depth fun name => ?_
  rw [Ty.unboxed_of_behindLayers? rfl reached, named]
  exact Ty.noConfusion

theorem gathered_argumentsOf {depth : Nat} {position : Nat} {fields : List Field}
    {items : List Datum}
    (below : ∀ name items, (Ty.record name).Admits Γ (.record items) →
      (Datum.record items).depth ≤ depth →
        Gathered Γ (Γ.fields name) items (argumentsWithin Γ depth (.record name) (.record items)))
    (complete : items.length = fields.length)
    (held : ∀ index field item, fields[index]? = some field → items[index]? = some item →
      ty.field? Γ (position + index) d = some (field.type, item) ∧ field.type.Admits Γ item ∧
        item.depth ≤ depth) :
    Gathered Γ fields items (argumentsOf Γ (argumentsWithin Γ depth) ty d position fields) := by
  induction fields generalizing position items with
  | nil =>
      obtain rfl := List.length_eq_zero_iff.1 complete
      exact .done
  | cons field rest ih =>
      cases items with
      | nil => simp at complete
      | cons item items =>
          obtain ⟨found, admits, deep⟩ := held 0 field item rfl rfl
          have others := @ih (position + 1) items (by simpa using complete)
            fun index field item declared there => by
              have later := held (index + 1) field item declared there
              rwa [Nat.add_comm index, ← Nat.add_assoc] at later
          rw [Nat.add_zero] at found
          rw [argumentsOf, found]
          rcases field.argumentRole_cases Γ with
            ⟨embeds, role⟩ | ⟨name, bound, role⟩ | ⟨single, unbound, role⟩
          · rw [role]
            rcases admits.record_cases embeds.2.2 with
              lacks | ⟨name, inner, shows, inside⟩ | veils
            · simp only [lacks.behindLayers?]
              exact .without embeds lacks others
            · obtain ⟨base, reached, same⟩ := shows.behindLayers?
              simp only [reached]
              rw [← argumentsWithin_unboxed, same]
              exact .down embeds shows (below _ _ inside (shows.depth_le.trans deep)) others
            · obtain ⟨base, inside, reached⟩ := veils.behindLayers?
              simp only [reached, argumentsWithin_of_veils depth veils reached]
              exact .veiled embeds veils others
          · rw [role]
            exact .leaf bound others
          · rw [role]
            exact .past single unbound others

theorem gathered_argumentsWithin {name : String} {items : List Datum} {depth : Nat}
    (admits : (Ty.record name).Admits Γ (.record items))
    (deep : (Datum.record items).depth ≤ depth) :
    Gathered Γ (Γ.fields name) items (argumentsWithin Γ depth (.record name) (.record items)) := by
  induction depth generalizing name items with
  | zero => exact absurd deep (by simp [Datum.depth])
  | succ depth ih =>
      cases admits with
      | record complete each =>
          refine gathered_argumentsOf (fun _ _ inside enough => ih inside enough) complete
            fun index field item declared there => ⟨?_, each index field item declared there, ?_⟩
          · rw [Nat.zero_add]
            exact Ty.field?_record declared there
          · have below := Datum.depth_le_depthOfAll (List.mem_of_getElem? there)
            simp only [Datum.depth] at deep
            omega

end Walk

/-! ## Names that come again -/

section Repeats

variable {found entries before after : List (String × Param)} {key : String} {value param : Param}

theorem Arguments.ofDistinct_repeat (distinct : (before.map (·.1)).Nodup)
    (again : key ∈ before.map (·.1)) :
    Arguments.ofDistinct [] (before ++ (key, value) :: after) = .error (.duplicateKey key) := by
  have known : before.any (·.1 == key) = true := by simpa [List.any_eq_true] using again
  rw [Arguments.ofDistinct_front [] before _ distinct, List.nil_append, Arguments.ofDistinct,
    if_pos known]

theorem exists_repeat (repeats : ¬ (entries.map (·.1)).Nodup) :
    ∃ before key value after, entries = before ++ (key, value) :: after ∧
      (before.map (·.1)).Nodup ∧ key ∈ before.map (·.1) := by
  induction entries using List.reverseRecOn with
  | nil => simp at repeats
  | append_singleton entries last ih =>
      by_cases distinct : (entries.map (·.1)).Nodup
      · refine ⟨entries, last.1, last.2, [], rfl, distinct, ?_⟩
        by_contra fresh
        refine repeats ?_
        rw [List.map_append, List.map_singleton, ← List.concat_eq_append]
        exact distinct.concat fresh
      · obtain ⟨before, key, value, after, rfl, fresh, again⟩ := ih distinct
        exact ⟨before, key, value, after ++ [last], by simp, fresh, again⟩

theorem lookup_eq_some_iff_mem (distinct : (entries.map (·.1)).Nodup) :
    entries.lookup key = some param ↔ (key, param) ∈ entries := by
  induction entries with
  | nil => simp
  | cons head entries ih =>
      obtain ⟨first, own⟩ := head
      obtain ⟨fresh, later⟩ := List.nodup_cons.1 distinct
      have inside := ih later
      rw [List.lookup_cons, List.mem_cons, ← inside]
      by_cases same : key = first
      · subst same
        have none : entries.lookup key ≠ some param := fun found =>
          fresh (List.mem_map.2 ⟨_, inside.1 found, rfl⟩)
        simp [none, eq_comm]
      · have other : (key == first) = false := by simpa using same
        simp [other, same]

end Repeats

namespace Arguments

variable {ty : Ty} {d : Datum} {name : String} {items : List Datum}

theorem build_of_lacks (lacks : ty.Lacks d) : build Γ (.datum ty d) = .error .nilParameters := by
  simp only [build, lacks.behindLayers?]

theorem build_of_shows (shows : ty.Shows d name items) :
    build Γ (.datum ty d) = ofDistinct [] ((Ty.record name).arguments Γ (.record items)) := by
  obtain ⟨inner, reached, same⟩ := shows.behindLayers?
  have fields : inner.fields? Γ = some (Γ.fields name) := by
    rw [← Ty.fields?_unboxed, same]
    rfl
  simp only [build, reached, ofDatum, fields, Ty.arguments]
  rw [← argumentsWithin_unboxed, same]

theorem build_of_veils (record : ty.isRecord Γ) (veils : ty.Veils d) :
    build Γ (.datum ty d) = .ok ⟨[]⟩ := by
  obtain ⟨inner, d', reached⟩ := veils.behindLayers?
  obtain ⟨fields, seen⟩ := Option.isSome_iff_exists.1 record
  rw [← Ty.unboxed_of_behindLayers? rfl reached, Ty.fields?_unboxed] at seen
  simp only [build, reached, ofDatum, seen, Ty.arguments, argumentsWithin_of_veils _ veils reached]
  rfl

/-- The arguments of a record are there if no layer in front of it is missing and no two of its
    leaves have the same name, and then they are the values of the leaves by their names. A record
    with a name of one's own in front of it has no arguments. -/
theorem build_of_record (record : ty.isRecord Γ) (admits : ty.Admits Γ d) :
    (ty.Lacks d ∨ (∃ name items, ty.Shows d name items) ∨ ty.Veils d) ∧
    (ty.Lacks d → build Γ (.datum ty d) = .error .nilParameters) ∧
    (ty.Veils d → build Γ (.datum ty d) = .ok ⟨[]⟩) ∧
    ∀ name items, ty.Shows d name items → ∃ leaves, Gathered Γ (Γ.fields name) items leaves ∧
      (∀ others, Gathered Γ (Γ.fields name) items others → others = leaves) ∧
      ((∃ arguments, build Γ (.datum ty d) = .ok arguments) ↔ (leaves.map (·.1)).Nodup) ∧
      (∀ arguments, build Γ (.datum ty d) = .ok arguments →
        arguments.entries.map (·.1) = leaves.map (·.1) ∧
        ∀ key param, arguments.get? key = some param ↔ (lower key, param) ∈ leaves) ∧
      (¬ (leaves.map (·.1)).Nodup → ∃ before key value after,
        leaves = before ++ (key, value) :: after ∧ (before.map (·.1)).Nodup ∧
        key ∈ before.map (·.1) ∧ build Γ (.datum ty d) = .error (.duplicateKey key)) := by
  have each := admits.record_cases record
  refine ⟨each.imp_right (.imp_left fun ⟨name, items, shows, _⟩ => ⟨name, items, shows⟩),
    build_of_lacks, build_of_veils record, fun name items shows => ?_⟩
  obtain ⟨_, _, shows', inside⟩ :=
    (each.resolve_left shows.not_lacks).resolve_right shows.not_veils
  obtain ⟨rfl, rfl⟩ := shows.unique shows'
  have gathered : Gathered Γ (Γ.fields name) items
      ((Ty.record name).arguments Γ (.record items)) :=
    gathered_argumentsWithin inside (Nat.le_refl _)
  rw [show build Γ (.datum ty d) = _ from build_of_shows shows]
  generalize (Ty.record name).arguments Γ (.record items) = leaves at gathered
  refine ⟨leaves, gathered, fun _ => gathered.unique, ?_⟩
  by_cases distinct : (leaves.map (·.1)).Nodup
  · have kept : ofDistinct [] leaves = .ok ⟨leaves⟩ := ofDistinct_append [] leaves distinct
    rw [kept]
    refine ⟨⟨fun _ => distinct, fun _ => ⟨_, rfl⟩⟩, ?_, absurd distinct⟩
    rintro _ ⟨⟩
    exact ⟨rfl, fun key param => lookup_eq_some_iff_mem distinct⟩
  · obtain ⟨before, key, value, after, rfl, fresh, again⟩ := exists_repeat distinct
    have refused : ofDistinct [] (before ++ (key, value) :: after) = .error (.duplicateKey key) :=
      ofDistinct_repeat fresh again
    rw [refused]
    refine ⟨⟨?_, (absurd · distinct)⟩, ?_,
      fun _ => ⟨before, key, value, after, rfl, fresh, again, rfl⟩⟩
    · rintro ⟨arguments, ⟨⟩⟩
    · rintro arguments ⟨⟩

/-- The entry that is there gives its two fields, and the filter that is not gives none, so that its
    status is no second one; nor does the entry with a name of one's own in front of it. -/
theorem build_of_record_filter :
    let Γ : Catalogue := { records := [
      ("filter", [⟨"Status", .text, "", true, false⟩, ⟨"secret", .text, "", false, false⟩,
        ⟨"Skip", .bool, "-", true, false⟩,
        ⟨"base", .optional (.boxed (.record "entry")), "", false, true⟩,
        ⟨"Other", .boxed (.optional (.record "filter")), "", true, true⟩,
        ⟨"Last", .named "last" (.record "entry"), "", true, true⟩]),
      ("entry", [⟨"ID", .int .w64, "", true, false⟩, ⟨"By", .text, "Author", true, false⟩])] }
    let ty : Ty := .optional (.record "filter")
    let entry : Datum := .record [.whole 3, .text "ann"]
    let items : List Datum :=
      [.text "open", .text "", .bool true, .present entry, .absent, entry]
    ∃ arguments leaves, Arguments.build Γ (.datum ty (.present (.record items))) = .ok arguments ∧
      Gathered Γ (Γ.fields "filter") items leaves ∧
      leaves.map (·.1) = ["status", "id", "author"] ∧
      arguments.entries.map (·.1) = leaves.map (·.1) ∧
      ∀ key param, arguments.get? key = some param ↔ (lower key, param) ∈ leaves := by
  intro Γ ty entry items
  have written : (Ty.record "entry").Admits Γ entry :=
    .record rfl fun index field item declared held => by
      match index, declared, held with
      | 0, rfl, rfl => exact .int .w64 3
      | 1, rfl, rfl => exact .text "ann"
  have admits : ty.Admits Γ (.present (.record items)) := by
    refine .present (.record rfl fun index field item declared held => ?_)
    match index, declared, held with
    | 0, rfl, rfl => exact .text "open"
    | 1, rfl, rfl => exact .text ""
    | 2, rfl, rfl => exact .bool true
    | 3, rfl, rfl => exact .present (.boxed written)
    | 4, rfl, rfl => exact .boxed (.absent _)
    | 5, rfl, rfl => exact .named "last" written
  let found : List (String × Param) := [("status", .datum .text (.text "open")),
    ("id", .datum (.int .w64) (.whole 3)), ("author", .datum .text (.text "ann"))]
  have built : Arguments.build Γ (.datum ty (.present (.record items))) = .ok ⟨found⟩ := by cbv
  have record : ty.isRecord Γ := rfl
  obtain ⟨-, -, -, shown⟩ := build_of_record record admits
  obtain ⟨leaves, gathered, -, -, held, -⟩ := shown "filter" items (.present .record)
  obtain ⟨keys, looked⟩ := held _ built
  exact ⟨⟨found⟩, leaves, built, gathered, keys.symm, keys, looked⟩

/-- An embedded record is there, no layer stands in front of it, and it has a leaf of its own. But as
    it bears a name of one's own, neither this leaf nor the field itself is an argument. -/
theorem build_without_named :
    let Γ : Catalogue := { records := [
      ("row", [⟨"id", .int .w64, "", true, false⟩,
        ⟨"inner", .named "wrap" (.record "inner"), "", true, true⟩]),
      ("inner", [⟨"score", .int .w16, "", true, false⟩])] }
    let wrapped : Ty := .named "wrap" (.record "inner")
    let d : Datum := .record [.whole 7, .record [.whole 3]]
    wrapped.isRecord Γ ∧ wrapped.layers = 0 ∧ (Ty.record "row").Admits Γ d ∧
      ∃ arguments, Arguments.build Γ (.datum (.record "row") d) = .ok arguments ∧
        arguments.entries.map (·.1) = ["id"] ∧ arguments.get? "score" = none ∧
        arguments.get? "inner" = none := by
  intro Γ wrapped d
  have admits : (Ty.record "row").Admits Γ d := by
    refine .record rfl fun index field item declared held => ?_
    match index, declared, held with
    | 0, rfl, rfl => exact .int .w64 7
    | 1, rfl, rfl =>
        refine .named "wrap" (.record rfl fun index field item declared held => ?_)
        match index, declared, held with
        | 0, rfl, rfl => exact .int .w16 3
  refine ⟨rfl, rfl, admits, ⟨[("id", .datum (.int .w64) (.whole 7))]⟩, ?_, rfl, ?_, ?_⟩
  all_goals cbv

end Arguments

end SqlMarshal
