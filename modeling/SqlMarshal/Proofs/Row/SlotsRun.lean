import SqlMarshal.Cursor.Reader
import SqlMarshal.Proofs.Row.Modification

/-! # What becomes of a row in slots

The slots of a row take its values and are then finished. For the value that is read it comes to this:
each step first loads its value, which writes to the root or stages, and when all values are loaded
each step settles, which converts what it has staged. A row is refused as soon as one step refuses.
-/

namespace SqlMarshal

variable {Γ : Catalogue}

namespace Step

/-- The stage of a step after it has taken a value. -/
def stageWith (step : Step) (v : Value) : Option Staged :=
  match step with
  | .staged _ conversion => (Staged.fill conversion.rule.family v).toOption
  | _ => none

/-- What loading the value of a step makes of the root, unless the value is refused. -/
def load? (Γ : Catalogue) (ty : Ty) (step : Step) (v : Value) (root : Datum) : Option Datum :=
  match step with
  | .drop => some root
  | .direct path =>
      Ty.modifyPath? Γ (fun field held => (field.store Γ held v).accepted?) path ty root
  | .staged _ _ => (step.stageWith v).map fun _ => root
  | .whole => (ty.store Γ root v).accepted?

/-- What settling a step makes of the root, unless the staged value does not convert. -/
def settle? (Γ : Catalogue) (ty : Ty) (step : Step) (v : Value) (root : Datum) : Option Datum :=
  match step, step.stageWith v with
  | .staged path conversion, some content =>
      if content.isNull ∧ 0 < conversion.layers then some root
      else
        Ty.modifyPath? Γ (fun field held => (conversion.apply Γ content field held).accepted?)
          path ty root
  | _, _ => some root

theorem settle?_unstaged {ty : Ty} {step : Step} {v : Value} (unstaged : step.stageWith v = none) :
    step.settle? Γ ty v = some := by
  funext root
  cases step <;> simp [settle?, unstaged]

end Step

/-- A step and the value of its column. -/
abbrev Loaded := Step × Value

/-- Loads the values of a row. -/
def loadAll? (Γ : Catalogue) (ty : Ty) : List Loaded → Datum → Option Datum
  | [], root => some root
  | (step, v) :: rest, root => (step.load? Γ ty v root).bind (loadAll? Γ ty rest)

/-- Settles the steps of a row. -/
def settleAll? (Γ : Catalogue) (ty : Ty) : List Loaded → Datum → Option Datum
  | [], root => some root
  | (step, v) :: rest, root => (step.settle? Γ ty v root).bind (settleAll? Γ ty rest)

/-! ## Taking values -/

@[simp] theorem Staged.family_empty (family : Family) : (Staged.empty family).family = family := by
  cases family <;> rfl

namespace RowSlots

variable {slots : RowSlots} {column : Nat} {step : Step} {v : Value} {root : Datum}

theorem written_accepted {result : Written RowError} (accepted : result.accepted? = some root) :
    slots.written result = ({ slots with root := root }, none) := by
  obtain ⟨after, _ | error⟩ := result
  · obtain rfl := Option.some.inj accepted
    rfl
  · simp [Written.accepted?] at accepted

theorem written_refused (slots : RowSlots) {result : Written RowError}
    (refused : result.accepted? = none) :
    ∃ after error, slots.written result = (after, some error) := by
  obtain ⟨after, _ | error⟩ := result
  · simp [Written.accepted?] at refused
  · exact ⟨{ slots with root := after }, error, rfl⟩

theorem put_eq (planned : slots.plan.steps[column]? = some step) :
    slots.put Γ column v =
      ((slots.follow Γ column v step).1,
        (slots.follow Γ column v step).2.map
          (·.atColumn column ((slots.follow Γ column v step).1.plan.columnName column))) := by
  simp only [put, planned]

theorem set_unstaged (unstaged : slots.stages[column]? = some none) :
    slots.stages.set column none = slots.stages := by
  obtain ⟨inside, held⟩ := List.getElem?_eq_some_iff.1 unstaged
  rw [← held, List.set_getElem_self]

theorem put_loaded (planned : slots.plan.steps[column]? = some step)
    (staged : slots.stages[column]? = some (stageOf step))
    (loaded : step.load? Γ slots.type v slots.root = some root) :
    slots.put Γ column v =
      ({ slots with root := root, stages := slots.stages.set column (step.stageWith v) }, none) := by
  rw [put_eq planned]
  cases step with
  | drop =>
      obtain rfl := Option.some.inj loaded
      simp only [follow, Step.stageWith, set_unstaged staged, Option.map_none]
  | direct path =>
      rw [Step.load?, ← Ty.accepted?_writeAt] at loaded
      simp only [follow, Step.stageWith, set_unstaged staged, written_accepted loaded,
        Option.map_none]
  | whole =>
      simp only [follow, Step.stageWith, set_unstaged staged, written_accepted loaded,
        Option.map_none]
  | staged path conversion =>
      simp only [Step.load?, Step.stageWith] at loaded
      simp only [stageOf] at staged
      cases filled : Staged.fill conversion.rule.family v with
      | error fault => simp [filled, Except.toOption] at loaded
      | ok content =>
          obtain rfl : slots.root = root := by simpa [filled, Except.toOption] using loaded
          simp only [follow, fillStage, staged, Staged.family_empty, filled, Step.stageWith,
            Except.toOption, Option.map_none]

theorem put_refused (planned : slots.plan.steps[column]? = some step)
    (staged : slots.stages[column]? = some (stageOf step))
    (refused : step.load? Γ slots.type v slots.root = none) :
    ∃ error, (slots.put Γ column v).2 = some error := by
  suffices followed : ∃ after error, slots.follow Γ column v step = (after, some error) by
    obtain ⟨after, error, followed⟩ := followed
    exact ⟨_, by rw [put_eq planned, followed]; rfl⟩
  cases step with
  | drop => simp [Step.load?] at refused
  | direct path =>
      rw [Step.load?, ← Ty.accepted?_writeAt] at refused
      exact written_refused slots refused
  | whole => exact written_refused slots refused
  | staged path conversion =>
      simp only [Step.load?, Step.stageWith] at refused
      simp only [stageOf] at staged
      cases filled : Staged.fill conversion.rule.family v with
      | error fault =>
          simp only [follow, fillStage, staged, Staged.family_empty, filled]
          exact ⟨_, _, rfl⟩
      | ok content => simp [filled, Except.toOption] at refused

/-! ## Finishing -/

theorem accepted?_convertColumn (slots : RowSlots) (column : Nat) {path : Path}
    {conversion : Conversion} {staged : Staged}
    (filled : (Step.staged path conversion).stageWith v = some staged) :
    (slots.convertColumn Γ column path conversion staged).accepted? =
      (Step.staged path conversion).settle? Γ slots.type v slots.root := by
  simp only [convertColumn, Step.settle?, filled]
  split
  · rfl
  · rw [Ty.accepted?_writeAt]
    simp only [accepted?_map_error]

/-- The root of slots that took or converted everything. -/
def root? : RowSlots × Option RowError → Option Datum
  | (slots, none) => some slots.root
  | (_, some _) => none

theorem convertFrom_unstaged (rest : List (Step × Option Staged)) :
    slots.convertFrom Γ column ((step, none) :: rest) = slots.convertFrom Γ (column + 1) rest := by
  cases step <;> rfl

theorem root?_convertFrom (loaded : List Loaded) (column : Nat) (slots : RowSlots) :
    root? (slots.convertFrom Γ column (loaded.map fun (step, v) => (step, step.stageWith v))) =
      settleAll? Γ slots.type loaded slots.root := by
  induction loaded generalizing column slots with
  | nil => rfl
  | cons head rest ih =>
      obtain ⟨step, v⟩ := head
      simp only [List.map_cons, settleAll?]
      cases filled : step.stageWith v with
      | none => rw [convertFrom_unstaged, ih, Step.settle?_unstaged filled, Option.bind_some]
      | some content =>
          cases step with
          | staged path conversion =>
              have settles := accepted?_convertColumn (Γ := Γ) slots column filled
              rw [← settles]
              simp only [convertFrom]
              cases settled : (slots.convertColumn Γ column path conversion content).accepted? with
              | none =>
                  obtain ⟨after, error, refused⟩ := written_refused slots settled
                  rw [refused]
                  rfl
              | some root =>
                  simp only [written_accepted settled, Option.bind_some]
                  exact ih _ _
          | _ => simp [Step.stageWith] at filled

theorem accepted?_finish (slots : RowSlots) {loaded : List Loaded}
    (planned : slots.plan.steps = loaded.map (·.1))
    (staged : slots.stages = loaded.map fun (step, v) => step.stageWith v) :
    Written.accepted? (slots.finish Γ) = settleAll? Γ slots.type loaded slots.root := by
  have zipped : slots.plan.steps.zip slots.stages =
      loaded.map fun (step, v) => (step, step.stageWith v) := by
    rw [planned, staged, List.zip_map']
  rw [← root?_convertFrom loaded 0 slots, finish, zipped]
  obtain ⟨after, _ | error⟩ := slots.convertFrom Γ 0 _ <;> rfl

end RowSlots

/-! ## A whole row -/

section Run

variable {σ : Type}

open RowSlots

theorem run_ofValuesFrom (state : σ) (loaded : List Loaded) (slots : RowSlots)
    (done : List Step) (filled : List (Option Staged)) (together : done.length = filled.length)
    (planned : slots.plan.steps = done ++ loaded.map (·.1))
    (staged : slots.stages = filled ++ loaded.map fun (step, _) => stageOf step) :
    match loadAll? Γ slots.type loaded slots.root with
    | some root =>
        (Feed.ofValuesFrom state done.length (loaded.map (·.2))).run Γ slots =
          ({ slots with
              root := root
              stages := filled ++ loaded.map fun (step, v) => step.stageWith v }, none, state)
    | none =>
        ∃ error,
          ((Feed.ofValuesFrom state done.length (loaded.map (·.2))).run Γ slots).2.1 =
            some error := by
  induction loaded generalizing slots done filled with
  | nil =>
      obtain ⟨plan, ty, root, stages⟩ := slots
      obtain rfl : stages = filled := by simpa using staged
      simp [loadAll?, Feed.ofValuesFrom, Feed.run]
  | cons head rest ih =>
      obtain ⟨step, v⟩ := head
      have plannedHere : slots.plan.steps[done.length]? = some step := by simp [planned]
      have stagedHere : slots.stages[done.length]? = some (stageOf step) := by
        simp [staged, together]
      simp only [loadAll?, List.map_cons, Feed.ofValuesFrom, Feed.run]
      cases load : step.load? Γ slots.type v slots.root with
      | none =>
          obtain ⟨error, refused⟩ := put_refused plannedHere stagedHere load
          simp only [Option.bind_none, refused, Feed.run]
          exact ⟨error, rfl⟩
      | some root =>
          rw [put_loaded plannedHere stagedHere load]
          simp only [Option.bind_some]
          have next := ih
            { slots with root := root, stages := slots.stages.set done.length (step.stageWith v) }
            (done ++ [step]) (filled ++ [step.stageWith v]) (by simp [together])
            (by simp [planned]) (by simp [staged, together])
          simpa only [List.length_append, List.length_singleton, List.append_assoc,
            List.singleton_append] using next

/-- Reading a row by a plan loads all its values and settles the steps. -/
theorem readBy_eq {plan : Plan} {ty : Ty} {cursor : Cursor σ} {state after : σ}
    {loaded : List Loaded} (planned : plan.steps = loaded.map (·.1))
    (served : cursor.scan state plan.steps.length =
      .ofValues after plan.steps.length (loaded.map (·.2))) :
    (Reader.readBy Γ plan ty cursor state).1.toOption =
      (loadAll? Γ ty loaded (ty.initial Γ)).bind (settleAll? Γ ty loaded) := by
  have fed : cursor.scan state (RowSlots.start plan ty (ty.initial Γ)).width =
      .ofValuesFrom after 0 (loaded.map (·.2)) := by
    simp only [RowSlots.width, RowSlots.start, served, Feed.ofValues]
    rw [if_pos (by simp [planned])]
  have ran := run_ofValuesFrom (Γ := Γ) after loaded (RowSlots.start plan ty (ty.initial Γ)) [] []
    rfl planned (by simp [RowSlots.start, planned])
  simp only [Reader.readBy, fed]
  simp only [RowSlots.start, List.length_nil, List.nil_append] at ran ⊢
  cases load : loadAll? Γ ty loaded (ty.initial Γ) with
  | none =>
      simp only [load] at ran
      obtain ⟨error, refused⟩ := ran
      generalize Feed.run Γ _ _ = result at refused ⊢
      obtain ⟨slots, answer, state'⟩ := result
      obtain rfl : answer = some error := refused
      rfl
  | some root =>
      simp only [load] at ran
      have settled := accepted?_finish (Γ := Γ) ⟨plan, ty, root, _⟩ planned rfl
      simp only [ran, Option.bind_some]
      rw [← settled]
      obtain ⟨value, _ | error⟩ := RowSlots.finish Γ _ <;> rfl

end Run

end SqlMarshal
