import SqlMarshal.Ty.Info

/-! # Seeing through optional layers

A type is a number of optional layers in front of a base, with boxes and names anywhere between. The
base has no layers left, and what a description peels off is just the layers.
-/

namespace SqlMarshal.Ty

variable {Γ : Catalogue}

theorem base_of_solid {ty : Ty} (solid : ty.layers = 0) : ty.base = ty.unboxed := by
  induction ty with
  | optional content => simp [layers] at solid
  | boxed content ih => exact ih solid
  | named name content => exact if_pos solid
  | _ => rfl

@[simp] theorem base_base (ty : Ty) : ty.base.base = ty.base := by
  induction ty with
  | named name content ih =>
      by_cases solid : content.layers = 0
      · simp [base, solid]
      · simp [base, solid, ih]
  | optional content ih => exact ih
  | boxed content ih => exact ih
  | _ => rfl

theorem layers_base (ty : Ty) : ty.base.layers = 0 := by
  induction ty with
  | named name content ih =>
      by_cases solid : content.layers = 0
      · simp [base, solid, layers]
      · simpa [base, solid] using ih
  | optional _ ih | boxed _ ih => exact ih
  | _ => rfl

@[simp] theorem info_unboxed (ty : Ty) : ty.unboxed.info Γ = ty.info Γ := by
  induction ty with
  | boxed content ih => exact ih
  | _ => rfl

theorem kind_of_layers {ty : Ty} {n : Nat} (deep : ty.layers = n + 1) :
    ∃ content, ty.kind Γ = .pointer content ∧ content.base = ty.base ∧ content.layers = n := by
  induction ty with
  | optional content => exact ⟨content, rfl, rfl, by simpa [layers] using deep⟩
  | boxed content ih => exact ih deep
  | named name content ih =>
      have through : (named name content).base = content.base := by
        have covered : content.layers ≠ 0 := by
          simp only [layers] at deep
          omega
        simp [base, covered]
      rw [through]
      exact ih deep
  | _ => simp [layers] at deep

theorem kind_of_solid {ty content : Ty} (solid : ty.layers = 0) : ty.kind Γ ≠ .pointer content := by
  induction ty with
  | optional content => simp [layers] at solid
  | boxed content ih => exact ih solid
  | named name content ih => exact ih solid
  | sequence item =>
      simp only [kind]
      split <;> simp
  | _ => simp [kind]

/-- Peeling the description of a type describes its base and counts its layers. -/
theorem peel_info (ty : Ty) : (ty.info Γ).peel Γ = (ty.base.info Γ, ty.layers) := by
  cases deep : ty.layers with
  | zero =>
      rw [base_of_solid deep, info_unboxed]
      simp only [TypeInfo.peel, info]
      split
      · rename_i content pointer
        exact absurd pointer (kind_of_solid deep)
      · rfl
  | succ n =>
      obtain ⟨content, pointer, sameBase, sameLayers⟩ := kind_of_layers (Γ := Γ) deep
      simp only [TypeInfo.peel, info, pointer, sameBase, sameLayers]

theorem kind_base_of_solid {ty : Ty} (solid : ty.layers = 0) : ty.base.kind Γ = ty.kind Γ := by
  rw [base_of_solid solid]
  exact congrArg TypeInfo.kind (info_unboxed ty)

theorem layers_of_fields? {ty : Ty} {fields : List Field} (seen : ty.fields? Γ = some fields) :
    ty.layers = 0 := by
  induction ty with
  | boxed content ih | named _ content ih => exact ih seen
  | optional content => simp [fields?] at seen
  | _ => rfl

@[simp] theorem fields?_unboxed (ty : Ty) : ty.unboxed.fields? Γ = ty.fields? Γ := by
  induction ty with
  | boxed content ih => exact ih
  | _ => rfl

theorem fields?_base {ty : Ty} {fields : List Field} (seen : ty.fields? Γ = some fields) :
    ty.base.fields? Γ = some fields := by
  rw [base_of_solid (layers_of_fields? seen), fields?_unboxed, seen]

end SqlMarshal.Ty
