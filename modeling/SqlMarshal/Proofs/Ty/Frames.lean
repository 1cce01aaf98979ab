import SqlMarshal.Proofs.Row.Modification
import SqlMarshal.Proofs.Ty.Layers

/-! # What a visit comes to, and what it leaves alone

A visit makes the optional layers that it passes and puts back what its visitor leaves. Where it comes
to does not depend on the visitor, nor does whether it comes to anything: a path may break at a name
of one's own, which is not looked into.

A visit does not show along a path that parts from its own: a writer meets there what it would have
met before, new values in place of layers that are not there. Whether the layers are made already does
not matter to a writer, which would make them itself.
-/

namespace SqlMarshal

variable {Γ : Catalogue}

/-- A place in a value: what is held there, and the value with something else put there. -/
structure Place where
  held : Datum
  putBack : Datum → Datum

namespace Place

/-- Hands on what is held at the place and puts back what is left of it. -/
def visit {β : Type} (here : Place) (target : Ty) (visitor : Ty → Datum → Datum × β) : Datum × β :=
  (here.putBack (visitor target here.held).1, (visitor target here.held).2)

/-- A place in what is held at another one. -/
def within (outer inner : Place) : Place :=
  ⟨inner.held, outer.putBack ∘ inner.putBack⟩

def underOptional (inner : Place) : Place :=
  ⟨inner.held, .present ∘ inner.putBack⟩

end Place

namespace Ty

/-! ## Places -/

theorem visitField_cases (index : Nat) (ty : Ty) (d : Datum) :
    (∃ fields field here, ty.base.fields? Γ = some fields ∧ fields[index]? = some field ∧
      ∀ {β : Type} (visitor : Ty → Datum → Datum × β) (missing : β),
        ty.visitField Γ index visitor missing d = Place.visit here field.type visitor) ∨
    ∃ after, ∀ {β : Type} (visitor : Ty → Datum → Datum × β) (missing : β),
      ty.visitField Γ index visitor missing d = (after, missing) := by
  induction ty generalizing d with
  | optional content ih =>
      rcases ih (d.contentOr (content.initial Γ)) with
        ⟨fields, field, here, record, declared, visits⟩ | ⟨after, breaks⟩
      · refine .inl ⟨fields, field, here.underOptional, record, declared, fun visitor missing => ?_⟩
        simp only [visitField, visits]
        rfl
      · refine .inr ⟨.present after, fun visitor missing => ?_⟩
        simp only [visitField, breaks]
  | boxed content ih => exact ih d
  | record name =>
      cases d with
      | record items =>
          cases declared : (Γ.fields name)[index]? with
          | none =>
              refine .inr ⟨.record items, fun visitor missing => ?_⟩
              simp only [visitField, declared]
          | some field =>
              cases held : items[index]? with
              | none =>
                  refine .inr ⟨.record items, fun visitor missing => ?_⟩
                  simp only [visitField, declared, held]
              | some item =>
                  refine .inl ⟨_, field, ⟨item, fun d => .record (items.set index d)⟩, rfl, declared,
                    fun visitor missing => ?_⟩
                  simp only [visitField, declared, held]
                  rfl
      | _ => exact .inr ⟨_, fun _ _ => rfl⟩
  | _ => exact .inr ⟨d, fun _ _ => rfl⟩

/-- A visit along a path comes to a value of the type that the path leads to, or the path breaks at
    some hop, whoever visits. -/
theorem visitPath_cases (path : Path) (ty : Ty) (d : Datum) :
    (∃ target here, ty.at? Γ path = some target ∧
      ∀ {β : Type} (visitor : Ty → Datum → Datum × β) (missing : Nat → β) (hop : Nat),
        visitPath Γ visitor missing hop path ty d = Place.visit here target visitor) ∨
    ∃ after broken, ∀ {β : Type} (visitor : Ty → Datum → Datum × β) (missing : Nat → β) (hop : Nat),
      visitPath Γ visitor missing hop path ty d = (after, missing (hop + broken)) := by
  induction path generalizing ty d with
  | nil => exact .inl ⟨ty, ⟨d, id⟩, rfl, fun _ _ _ => rfl⟩
  | cons index rest ih =>
      rcases visitField_cases (Γ := Γ) index ty d with
        ⟨fields, field, outer, record, declared, visits⟩ | ⟨after, breaks⟩
      · rcases ih field.type outer.held with
          ⟨target, inner, reached, visitsInner⟩ | ⟨after, broken, breaks⟩
        · refine .inl ⟨target, outer.within inner, ?_, fun visitor missing hop => ?_⟩
          · simp only [at?, record, declared, reached, Option.bind_eq_bind, Option.bind_some]
          · simp only [visitPath, visits, Place.visit, visitsInner, Place.within,
              Function.comp_apply]
        · refine .inr ⟨outer.putBack after, broken + 1, fun visitor missing hop => ?_⟩
          simp only [visitPath, visits, Place.visit, breaks, Nat.add_assoc, Nat.add_comm 1]
      · exact .inr ⟨after, 0, fun visitor missing hop => breaks _ _⟩

theorem visitPointee_place {ty : Ty} {n : Nat} (deep : ty.layers = n + 1) (d : Datum) :
    ∃ content here, content.layers = n ∧ content.base = ty.base ∧
      ∀ {β : Type} (visitor : Ty → Datum → Datum × β) (missing : β),
        ty.visitPointee Γ visitor missing d = Place.visit here content visitor := by
  induction ty generalizing d with
  | optional content =>
      exact ⟨content, ⟨d.contentOr (content.initial Γ), .present⟩, Nat.succ.inj deep, rfl,
        fun _ _ => rfl⟩
  | boxed content ih => exact ih deep d
  | named name content ih =>
      obtain ⟨under, here, shallow, same, visits⟩ := ih deep d
      have covered : content.layers ≠ 0 := by
        simp only [layers] at deep
        omega
      exact ⟨under, here, shallow, by rw [base, if_neg covered, same], visits⟩
  | _ => simp [layers] at deep

theorem visitBehind_place (ty : Ty) (d : Datum) :
    ∃ target here, target.layers = 0 ∧ target.base = ty.base ∧
      ∀ {β : Type} (visitor : Ty → Datum → Datum × β) (missing : Nat → β) (layer : Nat),
        visitBehind Γ visitor missing layer ty.layers ty d = Place.visit here target visitor := by
  induction deep : ty.layers generalizing ty d with
  | zero => exact ⟨ty, ⟨d, id⟩, deep, rfl, fun _ _ _ => rfl⟩
  | succ n ih =>
      obtain ⟨content, outer, shallow, same, visits⟩ := visitPointee_place (Γ := Γ) deep d
      obtain ⟨target, inner, solid, same', visitsInner⟩ := ih content outer.held shallow
      refine ⟨target, outer.within inner, solid, same'.trans same, fun visitor missing layer => ?_⟩
      simp only [visitBehind, visits, Place.visit, visitsInner, Place.within, Function.comp_apply]

/-! ## Frames -/

/-- What a writer along a path meets: the part that the path leads to, and a new value for every
    optional layer on the way that is not there. -/
def meets? (Γ : Catalogue) (path : Path) (ty : Ty) (d : Datum) : Option Datum :=
  (visitPath Γ (fun _ content => (content, some content)) (fun _ => none) 0 path ty d).2

/-- A value with all optional layers made on the way along a path, and a number of layers in front of
    what the path leads to. -/
def madeAlong (Γ : Catalogue) (path : Path) (layers : Nat) (ty : Ty) (d : Datum) : Datum :=
  (visitPath Γ (visitBehind Γ (fun _ content => (content, ())) (fun _ => ()) 0 layers)
    (fun _ => ()) 0 path ty d).1

section Apart

variable {β γ : Type} {look : Ty → Datum → Datum × β} {visit : Ty → Datum → Datum × γ} {ty : Ty}
  {d : Datum}

theorem visitField_apart {i j : Nat} (different : i ≠ j) {unseen : β} {missing : γ} :
    (ty.visitField Γ i look unseen (ty.visitField Γ j visit missing d).1).2 =
      (ty.visitField Γ i look unseen d).2 := by
  induction ty generalizing d with
  | optional content ih => simp only [visitField, Datum.contentOr, ih]
  | boxed content ih => simp only [visitField, ih]
  | record name =>
      cases d with
      | record items =>
          cases declared : (Γ.fields name)[j]? with
          | none => simp only [visitField, declared]
          | some field =>
              cases held : items[j]? with
              | none => simp only [visitField, declared, held]
              | some item =>
                  simp only [visitField, declared, held, List.getElem?_set_ne different.symm]
                  cases (Γ.fields name)[i]? <;> cases items[i]? <;> rfl
      | _ => rfl
  | _ => rfl

theorem visitField_same {i : Nat} {unseen : β} {missing : γ}
    (same : ∀ field item, (look field (visit field item).1).2 = (look field item).2) :
    (ty.visitField Γ i look unseen (ty.visitField Γ i visit missing d).1).2 =
      (ty.visitField Γ i look unseen d).2 := by
  induction ty generalizing d with
  | optional content ih => simp only [visitField, Datum.contentOr, ih]
  | boxed content ih => simp only [visitField, ih]
  | record name =>
      cases d with
      | record items =>
          cases declared : (Γ.fields name)[i]? with
          | none => simp only [visitField, declared]
          | some field =>
              cases held : items[i]? with
              | none => simp only [visitField, declared, held]
              | some item =>
                  obtain ⟨inside, -⟩ := List.getElem?_eq_some_iff.1 held
                  simp only [visitField, declared, held, List.getElem?_set_self inside, same]
      | _ => rfl
  | _ => rfl

/-- A visit along a path does not show along a path that parts from it. -/
theorem visitPath_apart {p q : Path} (apart : Path.Apart p q) {unseen : Nat → β}
    {missing : Nat → γ} {hop : Nat} :
    (visitPath Γ look unseen hop p ty (visitPath Γ visit missing hop q ty d).1).2 =
      (visitPath Γ look unseen hop p ty d).2 := by
  induction apart generalizing hop ty d with
  | here p q different => exact visitField_apart different
  | later i _ ih => exact visitField_same fun field item => ih

theorem meets?_visitPath {p q : Path} (apart : Path.Apart p q) {missing : Nat → γ} :
    ty.meets? Γ p (visitPath Γ visit missing 0 q ty d).1 = ty.meets? Γ p d :=
  visitPath_apart apart

end Apart

end Ty

end SqlMarshal
