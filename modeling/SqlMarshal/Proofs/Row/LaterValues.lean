import SqlMarshal.Proofs.Row.ColumnOrder

/-! # Values that come after others

When a field takes one value after another, what it holds in the end is what the last of them alone
would have left, if the field was new before. There are exceptions. NULL is ignored by a number or
text behind an optional layer, which is staged, and by a document, so there the earlier value stays.
And a decoder could remember what was held, if it wants to.

The field lies somewhere in a record, and what is on the way to it is made by the first of the values
that goes there. What carries this over from the field to the record is that a change along a path
comes to nothing but new values, and still does after changes elsewhere.
-/

namespace SqlMarshal

variable {Γ : Catalogue}

/-! ## Storing again -/

/-- What a decoder makes of a value does not depend on what was held before. -/
def Decoder.Forgets (decoder : Decoder) : Prop :=
  ∀ held held' v after, decoder.decode held v = (after, none) →
    decoder.decode held' v = (after, none)

namespace Ty

/-- The decoder that the values of a type go to. -/
def decoder? : Ty → Option String
  | .custom name => some name
  | .optional content => content.decoder?
  | .boxed content => content.decoder?
  | .named _ content => content.decoder?
  | _ => none

/-- A document that is not optional. -/
def isDocument : Ty → Bool
  | .document _ => true
  | .boxed content => content.isDocument
  | .named _ content => content.isDocument
  | _ => false

variable {ty : Ty} {v w : Value}

theorem accepted?_assignWhole_eq (name : String) (fits : Int → Bool) (d d' : Datum) (s : Scalar) :
    (assignWhole name fits d s).accepted? = (assignWhole name fits d' s).accepted? := by
  unfold assignWhole
  split
  · split <;> rfl
  · rfl

theorem accepted?_store_eq (bare : ty.layers = 0) (decodes : ty.decoder? = none)
    (settles : v = .null → ty.isDocument = false) (d d' : Datum) :
    (ty.store Γ d v).accepted? = (ty.store Γ d' v).accepted? := by
  induction ty with
  | optional content => simp [layers] at bare
  | custom name => simp [decoder?] at decodes
  | boxed content ih | named name content ih => exact ih bare decodes settles
  | bool | double =>
      simp only [store, accepted?_assignConverted]
      refine congrArg _ (funext fun s => ?_)
      cases s <;> rfl
  | single =>
      simp only [store, accepted?_assignConverted]
      refine congrArg _ (funext fun s => ?_)
      cases s with
      | float x =>
          simp only [assign]
          split <;> rfl
      | _ => rfl
  | int width | uint width =>
      simp only [store, accepted?_assignConverted]
      exact congrArg _ (funext fun s => accepted?_assignWhole_eq ..)
  | timestamp =>
      simp only [store]
      split <;> rfl
  | document schema =>
      cases v with
      | null => simp [isDocument] at settles
      | text s | bytes b =>
          simp only [store, storeDocument]
          split <;> rfl
      | _ => rfl
  | sequence item =>
      simp only [store]
      split <;> rfl
  | _ => rfl

theorem accepted?_storeDecoded {decoder : Decoder} {held : Value} {d : Datum} :
    (storeDecoded decoder (.value held) v).accepted? = some d ↔
      ∃ after, decoder.decode held v = (after, none) ∧ d = .value after := by
  obtain ⟨decode⟩ := decoder
  simp only [storeDecoded]
  generalize decode held v = result
  obtain ⟨after, _ | error⟩ := result <;> simp [Written.accepted?, eq_comm]

theorem store_document_null (document : ty.isDocument) (d : Datum) :
    ty.store Γ d .null = acceptWrite d := by
  induction ty with
  | boxed content ih | named name content ih => exact ih document
  | document schema => rfl
  | _ => simp [isDocument] at document

/-- A value that is stored after another one into a new value is stored as if it were alone, unless
    it is NULL for a document that is there. -/
theorem store_overrides {ofRecord : String → Datum} {first last : Datum}
    (forgets : ∀ name ∈ ty.decoder?, (Γ.decoder name).Forgets)
    (settles : w = .null → v ≠ .null → ty.isDocument = false)
    (before : (ty.store Γ (ty.initialWith ofRecord) v).accepted? = some first)
    (after : (ty.store Γ first w).accepted? = some last) :
    (ty.store Γ (ty.initialWith ofRecord) w).accepted? = some last := by
  induction ty generalizing ofRecord first last with
  | boxed content ih | named name content ih => exact ih forgets settles before after
  | optional content ih =>
      by_cases null : w = .null
      · subst null
        exact after
      by_cases null' : v = .null
      · subst null'
        obtain rfl := Option.some.inj before
        exact after
      rw [store_optional null', accepted?_inside, Option.map_eq_some_iff] at before
      obtain ⟨inside, before, rfl⟩ := before
      rw [store_optional null, accepted?_inside, Option.map_eq_some_iff] at after
      obtain ⟨inside', after, rfl⟩ := after
      have alone := ih forgets (fun none _ => absurd none null) before after
      rw [store_optional null, accepted?_inside]
      exact congrArg (Option.map Datum.present) alone
  | custom name =>
      obtain ⟨held, -, rfl⟩ := accepted?_storeDecoded.1 before
      obtain ⟨held', taken, rfl⟩ := accepted?_storeDecoded.1 after
      exact accepted?_storeDecoded.2 ⟨held', forgets name rfl _ _ _ _ taken, rfl⟩
  | document schema =>
      by_cases null : v = .null
      · subst null
        obtain rfl := Option.some.inj before
        exact after
      · rwa [accepted?_store_eq rfl rfl fun null' => settles null' null]
  | _ => rwa [accepted?_store_eq rfl rfl fun _ => rfl]

/-! ## New parts of values -/

/-- All that a change along the path can come to in the value is new. -/
def Fresh (Γ : Catalogue) (ty : Ty) (path : Path) (d : Datum) : Prop :=
  ∀ f g : Ty → Datum → Option Datum,
    (∀ target, ty.at? Γ path = some target → ∀ depth new,
      f target (target.initialWith (Γ.initialRecord depth)) = some new →
        g target (target.initialWith (Γ.initialRecord depth)) = some new) →
    ∀ after, modifyPath? Γ f path ty d = some after → modifyPath? Γ g path ty d = some after

variable {path other : Path} {d after : Datum} {change : Ty → Datum → Option Datum}

theorem modifyField?_initialWith {index : Nat} {f g : Ty → Datum → Option Datum} {depth : Nat}
    (agree : ∀ field, ty.Declares Γ index field → ∀ depth new,
      f field.type (field.type.initialWith (Γ.initialRecord depth)) = some new →
        g field.type (field.type.initialWith (Γ.initialRecord depth)) = some new)
    (modified : ty.modifyField? Γ index f (ty.initialWith (Γ.initialRecord depth)) = some after) :
    ty.modifyField? Γ index g (ty.initialWith (Γ.initialRecord depth)) = some after := by
  induction ty generalizing depth after with
  | optional content ih =>
      obtain ⟨inside, changed, rfl⟩ := Option.map_eq_some_iff.1 modified
      exact Option.map_eq_some_iff.2 ⟨inside, ih agree changed, rfl⟩
  | boxed content ih => exact ih agree modified
  | record name =>
      cases depth with
      | zero => simp [initialWith, Catalogue.initialRecord, modifyField?] at modified
      | succ depth =>
          simp only [initialWith, Catalogue.initialRecord, modifyField?, Option.bind_eq_some_iff,
            Option.map_eq_some_iff] at modified ⊢
          obtain ⟨field, declared, item, held, new, changes, rfl⟩ := modified
          refine ⟨field, declared, item, held, new, ?_, rfl⟩
          obtain ⟨_, found, rfl⟩ := Option.map_eq_some_iff.1 (List.getElem?_map ▸ held)
          obtain rfl := Option.some.inj (declared.symm.trans found)
          exact agree field ⟨_, rfl, declared⟩ depth new changes
  | _ => simp [modifyField?] at modified

theorem fresh_initialWith (ty : Ty) (path : Path) (depth : Nat) :
    ty.Fresh Γ path (ty.initialWith (Γ.initialRecord depth)) := by
  induction path generalizing ty depth with
  | nil => exact fun f g agree after changed => agree ty rfl depth after changed
  | cons index rest ih =>
      intro f g agree after changed
      refine modifyField?_initialWith (fun field declares depth new changes => ?_) changed
      refine ih field.type depth f g (fun target reached => agree target ?_) new changes
      exact at?_cons.2 ⟨field, declares, reached⟩

theorem Fresh.of_apart (fresh : ty.Fresh Γ path d) (apart : path.Apart other)
    (modified : modifyPath? Γ change other ty d = some after) : ty.Fresh Γ path after := by
  have swap (f : Ty → Datum → Option Datum) : modifyPath? Γ f path ty after =
      (modifyPath? Γ f path ty d).bind (modifyPath? Γ change other ty) := by
    rw [modifyPath?_comm apart, modified, Option.bind_some]
  intro f g agree last changed
  rw [swap, Option.bind_eq_some_iff] at changed ⊢
  obtain ⟨middle, changed, elsewhere⟩ := changed
  exact ⟨middle, fresh f g agree middle changed, elsewhere⟩

theorem modifyPath?_same {f g : Ty → Datum → Option Datum} :
    (modifyPath? Γ f path ty d).bind (modifyPath? Γ g path ty) =
      modifyPath? Γ (fun target item => (f target item).bind (g target)) path ty d := by
  induction path generalizing ty d with
  | nil => rfl
  | cons index rest ih => simp only [modifyPath?, modifyField?_same, ih]

end Ty

/-- Whether NULL leaves what a field holds as it is. -/
def Ty.ignoresNull (Γ : Catalogue) (ty : Ty) : Bool :=
  ty.keepsOnNull Γ || ty.isDocument

theorem Ty.ignoresNull_eq_false {ty : Ty} :
    ty.ignoresNull Γ = false ↔ ty.keepsOnNull Γ = false ∧ ty.isDocument = false := by
  rw [ignoresNull, Bool.or_eq_false_iff]

/-- A column decides over an earlier one of its name: it is not a NULL that the field ignores, unless
    the earlier one is NULL, too. -/
def Ty.Decides (Γ : Catalogue) (ty : Ty) (earlier later : Value) : Prop :=
  later = .null → earlier ≠ .null → ty.ignoresNull Γ = false

namespace OnePass

variable {ty field : Ty} {path : Path} {v w : Value} {d first last : Datum}

/-- What a field takes after another value it takes alone, too, and comes to the same. -/
theorem take?_overrides (fresh : ty.Fresh Γ path d) (reached : ty.at? Γ path = some field)
    (forgets : ∀ name ∈ field.decoder?, (Γ.decoder name).Forgets) (decides : field.Decides Γ v w)
    (before : take? Γ ty path v d = some first) (after : take? Γ ty path w first = some last) :
    take? Γ ty path w d = some last := by
  by_cases kept : v = .null ∧ field.keepsOnNull Γ
  · rw [take?_kept reached kept.1 kept.2] at before
    obtain rfl := Option.some.inj before
    exact after
  · have stores : v = .null → field.keepsOnNull Γ = false := by simpa using kept
    have stores' : w = .null → field.keepsOnNull Γ = false := by
      intro null
      by_cases null' : v = .null
      · exact stores null'
      · exact (Ty.ignoresNull_eq_false.1 (decides null null')).1
    rw [take?_stored reached stores] at before
    rw [take?_stored reached stores'] at after ⊢
    have both := Option.bind_eq_some_iff.2 ⟨first, before, after⟩
    rw [Ty.modifyPath?_same] at both
    refine fresh _ _ (fun target reached' depth new changes => ?_) last both
    obtain rfl := Option.some.inj (reached.symm.trans reached')
    obtain ⟨middle, before, after⟩ := Option.bind_eq_some_iff.1 changes
    exact Ty.store_overrides forgets
      (fun null null' => (Ty.ignoresNull_eq_false.1 (decides null null')).2) before after

theorem take?_ignored (fresh : ty.Fresh Γ path d) (reached : ty.at? Γ path = some field)
    (ignores : field.ignoresNull Γ)
    (before : take? Γ ty path v d = some first) (after : take? Γ ty path .null first = some last) :
    last = first ∧ ∃ made, take? Γ ty path .null d = some made ∧ ty.Fresh Γ path made ∧
      take? Γ ty path v made = some first := by
  by_cases keeps : field.keepsOnNull Γ
  · rw [take?_kept reached rfl keeps] at after
    exact ⟨(Option.some.inj after).symm, d, take?_kept reached rfl keeps, fresh, before⟩
  · have document : field.isDocument := by
      rw [Ty.ignoresNull, Bool.or_eq_true] at ignores
      exact ignores.resolve_left keeps
    have stores (u : Value) : u = .null → field.keepsOnNull Γ = false :=
      fun _ => by simpa using keeps
    -- NULL puts back what is there, so it only makes what is on the way.
    have opens : take? Γ ty path .null = Ty.modifyPath? Γ (fun _ held => some held) path ty := by
      funext root
      rw [take?_stored reached (stores _)]
      refine Ty.modifyPath?_congr fun target reached' held => ?_
      obtain rfl := Option.some.inj (reached.symm.trans reached')
      rw [Ty.store_document_null document]
      rfl
    have opened (f : Ty → Datum → Option Datum) :
        (Ty.modifyPath? Γ (fun _ held => some held) path ty d).bind (Ty.modifyPath? Γ f path ty) =
          Ty.modifyPath? Γ f path ty d := Ty.modifyPath?_same
    rw [opens] at after ⊢
    rw [take?_stored reached (stores v)] at before
    have both := Option.bind_eq_some_iff.2 ⟨first, before, after⟩
    rw [Ty.modifyPath?_same] at both
    simp only [Option.bind_fun_some] at both
    have again := before
    rw [← opened, Option.bind_eq_some_iff] at again
    obtain ⟨made, makes, again⟩ := again
    have same (f : Ty → Datum → Option Datum) :
        Ty.modifyPath? Γ f path ty made = Ty.modifyPath? Γ f path ty d := by
      rw [← opened f, makes, Option.bind_some]
    refine ⟨Option.some.inj (both.symm.trans before), made, makes,
      fun f g agree last changed => ?_, ?_⟩
    · rw [same] at changed ⊢
      exact fresh f g agree last changed
    · rwa [take?_stored reached (stores v)]

theorem take?_fresh {other : Path} (fresh : ty.Fresh Γ path d) (apart : path.Apart other)
    (taken : take? Γ ty other v d = some first) : ty.Fresh Γ path first := by
  rcases take?_cases Γ ty other v with idle | ⟨change, takes⟩
  · rw [idle] at taken
    obtain rfl := Option.some.inj taken
    exact fresh
  · rw [takes] at taken
    exact fresh.of_apart apart taken

end OnePass

end SqlMarshal
