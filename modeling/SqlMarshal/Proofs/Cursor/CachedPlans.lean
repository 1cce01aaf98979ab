import Mathlib.Logic.Relation
import SqlMarshal.Config
import SqlMarshal.Proofs.Text.Utf8RoundTrip
import SqlMarshal.Proofs.Ty.Layers

/-! # What is built before does not matter

A reader answers from its tables and plans where it can. Whatever calls it has received, all that it
keeps is what would be built anew, so no answer depends on them: two readers of one depth that have
both been used only through their calls cannot be told apart.

Columns are looked up by a hash, and different columns can have the same one. So a kept plan is asked
for its columns before it is used, and what the invariant says of a plan is about the columns in the
plan, not about those in the key.
-/

namespace SqlMarshal

variable {Γ : Catalogue}

/-- A NUL in a name can stand for the end of a name, so different columns can have one hash. -/
theorem hashNames_shift (a b c : String) :
    hashNames [a ++ "\x00" ++ b, c] = hashNames [a, b ++ "\x00" ++ c] := by
  have nul : Utf8.encode "\x00" = [0] := by decide
  simp [hashNames, Utf8.encode_append, nul]

theorem FieldTable.build_base (ty : Ty) (depth : Nat) :
    FieldTable.build Γ ty.base depth = FieldTable.build Γ ty depth := by
  simp only [build, Ty.base_base]

/-- The plan that is made when nothing has been built before. -/
def Plan.anew (Γ : Catalogue) (depth : Nat) (ty : Ty) (columns : Columns) : Except RowError Plan :=
  if columns.names = [] then .error .zeroColumns
  else if ty.isRecord Γ then
    (FieldTable.build Γ ty depth).bind fun table => Plan.build Γ ty columns (some table)
  else Plan.build Γ ty columns none

theorem Plan.columns_of_build {ty : Ty} {columns : Columns} {table : Option FieldTable}
    {plan : Plan} (built : Plan.build Γ ty columns table = .ok plan) :
    plan.columns = columns.names := by
  have ofScalar : ∀ plan, Plan.ofScalar Γ ty columns = .ok plan → plan.columns = columns.names := by
    intro plan built
    unfold Plan.ofScalar at built
    split at built
    · obtain rfl := Except.ok.inj built
      rfl
    · simp at built
  unfold Plan.build at built
  split at built
  · simp at built
  · split at built
    · split at built
      · obtain rfl := Except.ok.inj built
        rfl
      · exact ofScalar plan built
    · exact ofScalar plan built

theorem Plan.columns_of_anew {depth : Nat} {ty : Ty} {columns : Columns} {plan : Plan}
    (made : Plan.anew Γ depth ty columns = .ok plan) : plan.columns = columns.names := by
  unfold Plan.anew at made
  split at made
  · simp at made
  · split at made
    · cases built : FieldTable.build Γ ty depth with
      | error error => simp [built, Except.bind] at made
      | ok table =>
          simp only [built, Except.bind] at made
          exact columns_of_build made
    · exact columns_of_build made

namespace Reader

/-- All that the reader keeps is what would be built anew. -/
structure Sound (Γ : Catalogue) (depth : Nat) (reader : Reader) : Prop where
  sameDepth : reader.depth = depth
  tables : ∀ entry ∈ reader.tables, FieldTable.build Γ entry.1 depth = .ok entry.2
  plans : ∀ entry ∈ reader.plans, Plan.anew Γ depth entry.1.type ⟨entry.2.columns⟩ = .ok entry.2

theorem sound_new (depth : Nat) : Sound Γ depth { depth } :=
  ⟨rfl, by simp, by simp⟩

theorem mem_of_lookup {κ α : Type} [BEq κ] [LawfulBEq κ] {entries : List (κ × α)} {key : κ}
    {found : α} (lookup : entries.lookup key = some found) : (key, found) ∈ entries := by
  obtain ⟨before, after, split, -⟩ := List.lookup_eq_some_iff.1 lookup
  simp [split]

section Calls

variable {depth : Nat} {reader : Reader}

/-! ## Tables and plans -/

theorem fieldTable_sound (sound : reader.Sound Γ depth) (ty : Ty) :
    (reader.fieldTable Γ ty).1 = FieldTable.build Γ ty depth ∧
      (reader.fieldTable Γ ty).2.Sound Γ depth := by
  rw [← FieldTable.build_base ty]
  cases kept : reader.tables.lookup ty.base with
  | some table =>
      have known := sound.tables _ (mem_of_lookup kept)
      simp only [fieldTable, kept]
      exact ⟨known.symm, sound⟩
  | none =>
      simp only [fieldTable, kept, sound.sameDepth]
      cases built : FieldTable.build Γ ty.base depth with
      | error error => exact ⟨rfl, sound⟩
      | ok table =>
          refine ⟨rfl, ⟨rfl, fun entry member => ?_, sound.plans⟩⟩
          rcases List.mem_cons.1 member with rfl | before
          · exact built
          · exact sound.tables entry before

theorem buildPlan_sound (sound : reader.Sound Γ depth) (ty : Ty) {columns : Columns}
    (some : columns.names ≠ []) :
    (reader.buildPlan Γ ty columns).1 = Plan.anew Γ depth ty columns ∧
      (reader.buildPlan Γ ty columns).2.Sound Γ depth := by
  simp only [buildPlan, Plan.anew, if_neg some]
  split
  · obtain ⟨answer, after⟩ := fieldTable_sound sound ty
    rw [← answer]
    generalize reader.fieldTable Γ ty = result at after
    obtain ⟨error | table, reader'⟩ := result <;> exact ⟨rfl, after⟩
  · exact ⟨rfl, sound⟩

theorem planFor_sound (sound : reader.Sound Γ depth) (ty : Ty) (columns : Columns) :
    (reader.planFor Γ ty columns).1 = Plan.anew Γ depth ty columns ∧
      (reader.planFor Γ ty columns).2.Sound Γ depth := by
  unfold planFor
  split
  · rename_i none
    exact ⟨by simp [Plan.anew, none], sound⟩
  · rename_i some
    have building := buildPlan_sound sound ty some
    split
    · rename_i plan kept
      split
      · rename_i same
        -- The key only says that the type is right; that the columns are is what was just asked.
        have known := sound.plans _ (mem_of_lookup kept)
        rw [same] at known
        exact ⟨known.symm, sound⟩
      · exact building
    · obtain ⟨answer, after⟩ := building
      rw [← answer]
      generalize built : reader.buildPlan Γ ty columns = result at answer after ⊢
      obtain ⟨error | plan, reader'⟩ := result
      · exact ⟨rfl, after⟩
      · refine ⟨rfl, ⟨after.sameDepth, after.tables, fun entry member => ?_⟩⟩
        rcases List.mem_cons.1 member with rfl | before
        · simp only [PlanKey.of, Plan.columns_of_anew answer.symm]
          exact answer.symm
        · exact after.plans entry before

theorem plan_sound (sound : reader.Sound Γ depth) (ty : Ty) (labels : List String) :
    (reader.plan Γ ty labels).1 = Plan.anew Γ depth ty (.ofLabels labels) ∧
      (reader.plan Γ ty labels).2.Sound Γ depth :=
  planFor_sound sound ty (.ofLabels labels)

end Calls

/-! ## Two readers -/

/-- Two results have the same answer and leave the cursor in the same state, and the readers stay
    sound. -/
structure Alike (Γ : Catalogue) (depth : Nat) {α σ : Type} (left right : α × Reader × σ) :
    Prop where
  answer : left.1 = right.1
  state : left.2.2 = right.2.2
  left : left.2.1.Sound Γ depth
  right : right.2.1.Sound Γ depth

section TwoReaders

variable {σ : Type} {depth : Nat} {left right : Reader}

theorem planCursor_alike (soundLeft : left.Sound Γ depth) (soundRight : right.Sound Γ depth)
    (ty : Ty) (cursor : Cursor σ) (state : σ) :
    Alike Γ depth (left.planCursor Γ ty cursor state) (right.planCursor Γ ty cursor state) := by
  unfold planCursor
  split
  · exact ⟨rfl, rfl, soundLeft, soundRight⟩
  · obtain ⟨answerLeft, afterLeft⟩ := plan_sound soundLeft ty _
    obtain ⟨answerRight, afterRight⟩ := plan_sound soundRight ty _
    exact ⟨answerLeft.trans answerRight.symm, rfl, afterLeft, afterRight⟩

theorem readRow_alike (soundLeft : left.Sound Γ depth) (soundRight : right.Sound Γ depth)
    (ty : Ty) (cursor : Cursor σ) (state : σ) :
    Alike Γ depth (left.readRow Γ ty cursor state) (right.readRow Γ ty cursor state) := by
  have planned := planCursor_alike soundLeft soundRight ty cursor state
  unfold readRow
  generalize left.planCursor Γ ty cursor state = first at planned
  generalize right.planCursor Γ ty cursor state = second at planned
  obtain ⟨answer, left', after⟩ := first
  obtain ⟨answer', right', after'⟩ := second
  obtain ⟨rfl, rfl, afterLeft, afterRight⟩ := planned
  cases answer <;> exact ⟨rfl, rfl, afterLeft, afterRight⟩

theorem closing_alike {α : Type} (cursor : Cursor σ) {first second : Except RowError α × Reader × σ}
    (alike : Alike Γ depth first second) :
    Alike Γ depth (closing cursor first) (closing cursor second) := by
  obtain ⟨answer, left', after⟩ := first
  obtain ⟨answer', right', after'⟩ := second
  obtain ⟨rfl, rfl, afterLeft, afterRight⟩ := alike
  simp only [closing]
  split <;> exact ⟨rfl, rfl, afterLeft, afterRight⟩

theorem readFirst_alike (soundLeft : left.Sound Γ depth) (soundRight : right.Sound Γ depth)
    (ty : Ty) (cursor : Cursor σ) (state : σ) :
    Alike Γ depth (left.readFirst Γ ty cursor state) (right.readFirst Γ ty cursor state) := by
  refine closing_alike cursor ?_
  split
  · exact readRow_alike soundLeft soundRight ty cursor _
  · exact ⟨rfl, rfl, soundLeft, soundRight⟩

theorem readOpen?_alike (soundLeft : left.Sound Γ depth) (soundRight : right.Sound Γ depth)
    (ty : Ty) (cursor : Cursor σ) (steps : Nat) (state : σ) :
    Option.Rel (Alike Γ depth) (left.readOpen? Γ ty cursor steps state)
      (right.readOpen? Γ ty cursor steps state) := by
  unfold readOpen?
  split
  · split <;> exact .some ⟨rfl, rfl, soundLeft, soundRight⟩
  · rename_i state _
    have planned := planCursor_alike soundLeft soundRight ty cursor state
    generalize left.planCursor Γ ty cursor state = first at planned
    generalize right.planCursor Γ ty cursor state = second at planned
    obtain ⟨answer, left', after⟩ := first
    obtain ⟨answer', right', after'⟩ := second
    obtain ⟨rfl, rfl, afterLeft, afterRight⟩ := planned
    cases answer with
    | error error => exact .some ⟨rfl, rfl, afterLeft, afterRight⟩
    | ok plan =>
        simp only
        split
        · exact .some ⟨rfl, rfl, afterLeft, afterRight⟩
        · cases readRest? Γ plan ty cursor steps _ with
          | none => exact .none
          | some result => exact .some ⟨rfl, rfl, afterLeft, afterRight⟩

theorem readAll?_alike (soundLeft : left.Sound Γ depth) (soundRight : right.Sound Γ depth)
    (ty : Ty) (cursor : Cursor σ) (steps : Nat) (state : σ) :
    Option.Rel (Alike Γ depth) (left.readAll? Γ ty cursor steps state)
      (right.readAll? Γ ty cursor steps state) := by
  have opened := readOpen?_alike soundLeft soundRight ty cursor steps state
  unfold readAll?
  generalize left.readOpen? Γ ty cursor steps state = first at opened
  generalize right.readOpen? Γ ty cursor steps state = second at opened
  cases opened with
  | none => exact .none
  | some alike => exact .some (closing_alike cursor alike)

theorem readAll?_sound {ty : Ty} {cursor : Cursor σ} {steps : Nat} {state after : σ}
    {answer : Except RowError (List Datum)} (sound : left.Sound Γ depth)
    (answered : left.readAll? Γ ty cursor steps state = some (answer, right, after)) :
    right.Sound Γ depth := by
  have alike := readAll?_alike sound sound ty cursor steps state
  rw [answered] at alike
  cases alike with
  | some alike => exact alike.left

end TwoReaders

/-! ## Any calls before -/

/-- One call of a reader, and the reader after it. -/
inductive Call (Γ : Catalogue) : Reader → Reader → Prop where
  | plan (reader : Reader) (ty : Ty) (labels : List String) :
      Call Γ reader (reader.plan Γ ty labels).2
  | fieldTable (reader : Reader) (ty : Ty) : Call Γ reader (reader.fieldTable Γ ty).2
  | readRow {σ : Type} (reader : Reader) (ty : Ty) (cursor : Cursor σ) (state : σ) :
      Call Γ reader (reader.readRow Γ ty cursor state).2.1
  | readAll {σ : Type} {reader after : Reader} {ty : Ty} {cursor : Cursor σ} {steps : Nat}
      {state state' : σ} {answer : Except RowError (List Datum)} :
      reader.readAll? Γ ty cursor steps state = some (answer, after, state') → Call Γ reader after
  | readFirst {σ : Type} (reader : Reader) (ty : Ty) (cursor : Cursor σ) (state : σ) :
      Call Γ reader (reader.readFirst Γ ty cursor state).2.1

/-- The reader has come from another by a number of calls. -/
def Used (Γ : Catalogue) : Reader → Reader → Prop :=
  Relation.ReflTransGen (Call Γ)

theorem call_sound {depth : Nat} {before after : Reader} (sound : before.Sound Γ depth)
    (call : Call Γ before after) : after.Sound Γ depth := by
  cases call with
  | plan _ ty labels => exact (plan_sound sound ty labels).2
  | fieldTable _ ty => exact (fieldTable_sound sound ty).2
  | readRow _ ty cursor state => exact (readRow_alike sound sound ty cursor state).left
  | readAll answered => exact readAll?_sound sound answered
  | readFirst _ ty cursor state => exact (readFirst_alike sound sound ty cursor state).left

theorem used_sound {depth : Nat} {before after : Reader} (sound : before.Sound Γ depth)
    (used : Used Γ before after) : after.Sound Γ depth := by
  induction used with
  | refl => exact sound
  | tail _ call ih => exact call_sound ih call

/-- However a reader of some configuration has been used, it plans, and reads by its plans, as a new
    one does. -/
theorem answers_of_used {config : Config} {reader : Reader} (used : Used Γ config.reader reader) :
    (∀ ty labels, (reader.plan Γ ty labels).1 = (config.reader.plan Γ ty labels).1) ∧
    (∀ ty, (reader.fieldTable Γ ty).1 = (config.reader.fieldTable Γ ty).1) ∧
    ∀ (σ : Type) (ty : Ty) (cursor : Cursor σ) (state : σ),
      (reader.readRow Γ ty cursor state).1 = (config.reader.readRow Γ ty cursor state).1 ∧
      (reader.readFirst Γ ty cursor state).1 = (config.reader.readFirst Γ ty cursor state).1 ∧
      ∀ steps, (reader.readAll? Γ ty cursor steps state).map (·.1) =
        (config.reader.readAll? Γ ty cursor steps state).map (·.1) := by
  have new : config.reader.Sound Γ config.maxDepth.toNat := sound_new _
  have sound := used_sound new used
  refine ⟨fun ty labels => ?_, fun ty => ?_, fun σ ty cursor state => ⟨?_, ?_, fun steps => ?_⟩⟩
  · exact (plan_sound sound ty labels).1.trans (plan_sound new ty labels).1.symm
  · exact (fieldTable_sound sound ty).1.trans (fieldTable_sound new ty).1.symm
  · exact (readRow_alike sound new ty cursor state).answer
  · exact (readFirst_alike sound new ty cursor state).answer
  · have alike := readAll?_alike sound new ty cursor steps state
    generalize reader.readAll? Γ ty cursor steps state = first at alike
    generalize config.reader.readAll? Γ ty cursor steps state = second at alike
    cases alike with
    | none => rfl
    | some alike => exact congrArg some alike.answer

theorem answers_of_colliding :
    let Γ : Catalogue := { records := [("pair", [⟨"c", .int .w64, "", true, false⟩])] }
    let first := ["a\x00b", "c"]
    let second := ["a", "b\x00c"]
    let reader := (({} : Config).reader.plan Γ (.record "pair") first).2
    Used Γ ({} : Config).reader reader ∧
      PlanKey.of (.record "pair") (.ofLabels first) =
        PlanKey.of (.record "pair") (.ofLabels second) ∧
      reader.plans.map (·.2.steps) = [[.drop, .staged [0] ⟨.fromInt, 0⟩]] ∧
      (reader.plan Γ (.record "pair") second).1.map (·.steps) = .ok [.drop, .drop] := by
  intro Γ first second reader
  have used : Used Γ ({} : Config).reader reader := .single (.plan _ _ _)
  refine ⟨used, ?_, by decide +kernel, ?_⟩
  · exact congrArg (PlanKey.mk (.record "pair") · 2) (hashNames_shift "a" "b" "c")
  · rw [(answers_of_used used).1]
    rfl

end Reader

end SqlMarshal
