import SqlMarshal.Cursor.Reader

/-! # The order in which a cursor is called

A cursor answers its calls as it likes and may fail at any of them. Whatever it answers, a reader keeps
to an order: a row is scanned after it has been announced, nothing is asked for behind the end of the
rows or behind a failure, and closing comes once and last.

To see the calls, the cursor is given a history. The order is a matter of each call and the history
before it, so what a reader does between two rows is to add calls that may follow to a history that is
still open; a run does so row by row. Runs that never end are covered by what has been read so far.
-/

namespace SqlMarshal

variable {σ τ : Type}

namespace CursorEvent

/-- The error of the rows that a call reports; closing reports none of the rows. -/
def failure? : CursorEvent → Option RowError
  | .columns failure | .scan failure | .error failure => failure
  | .next _ | .close _ => none

/-- Whether rows can follow: the cursor is not closed, has not come to the end of the rows and has
    not failed. -/
def GoesOn : CursorEvent → Prop
  | .columns failure | .scan failure => failure = none
  | .next found => found = true
  | .error _ | .close _ => False

/-- Whether a call decides if there is a row to be scanned. -/
def movesOrScans : CursorEvent → Bool
  | .next _ | .scan _ => true
  | .columns _ | .error _ | .close _ => false

/-- Whether a call can follow the calls before it, the latest of which comes first. -/
def CanFollow (before : List CursorEvent) : CursorEvent → Prop
  | .columns _ => before = [.next true]
  | .next _ => ∀ event ∈ before, event.GoesOn
  | .scan _ => before.find? movesOrScans = some (.next true)
  | .error _ => before.head? = some (.next false)
  | .close _ => True

end CursorEvent

/-- Every call of a history, the latest of which comes first, can follow those before it, and none
    comes after closing. -/
def InOrder : List CursorEvent → Prop
  | [] => True
  | event :: before => event.CanFollow before ∧ (∀ error, .close error ∉ before) ∧ InOrder before

/-- A history in order after which rows can follow. -/
structure OpenHistory (history : List CursorEvent) : Prop where
  inOrder : InOrder history
  goesOn : ∀ event ∈ history, event.GoesOn

/-- What has been done with a cursor that is not closed yet: the calls are in order, and the answer is
    the failure that one of them reports, if one does. -/
structure UsedUp {α : Type} (answer : Except RowError α) (history : List CursorEvent) : Prop where
  inOrder : InOrder history
  unclosed : ∀ error, .close error ∉ history
  failed : ∀ event ∈ history, ∀ error, event.failure? = some error → answer = .error error

/-- What has been done with a cursor in all: closing came once and last, every other call was in order
    before it, and a failure that one of those reports comes before an error of closing. -/
def ClosedLast {α : Type} (answer : Except RowError α) (history : List CursorEvent) : Prop :=
  ∃ closed before, history = .close closed :: before ∧ InOrder history ∧
    (∀ event ∈ before, ∀ error, event.failure? = some error → answer = .error error) ∧
    (closed.isSome → answer.toOption = none)

section Histories

variable {α : Type} {answer : Except RowError α} {before : List CursorEvent} {event : CursorEvent}

theorem OpenHistory.nil : OpenHistory [] :=
  ⟨trivial, by simp⟩

theorem OpenHistory.unclosed (opened : OpenHistory before) (error : Option RowError) :
    .close error ∉ before :=
  opened.goesOn (.close error)

theorem OpenHistory.cons (opened : OpenHistory before) (follows : event.CanFollow before)
    (goesOn : event.GoesOn) : OpenHistory (event :: before) :=
  ⟨⟨follows, opened.unclosed, opened.inOrder⟩, List.forall_mem_cons.2 ⟨goesOn, opened.goesOn⟩⟩

theorem OpenHistory.usedUp (opened : OpenHistory before) : UsedUp answer before where
  inOrder := opened.inOrder
  unclosed := opened.unclosed
  failed event member error failed := by
    have goesOn := opened.goesOn event member
    cases event <;> simp_all [CursorEvent.failure?, CursorEvent.GoesOn]

theorem UsedUp.cons (used : UsedUp answer before) (follows : event.CanFollow before)
    (other : ∀ error, event ≠ .close error)
    (failed : ∀ error, event.failure? = some error → answer = .error error) :
    UsedUp answer (event :: before) where
  inOrder := ⟨follows, used.unclosed, used.inOrder⟩
  unclosed error member := by
    rcases List.mem_cons.1 member with same | earlier
    · exact other error same.symm
    · exact used.unclosed error earlier
  failed := List.forall_mem_cons.2 ⟨failed, used.failed⟩

theorem OpenHistory.announce (opened : OpenHistory before) : OpenHistory (.next true :: before) :=
  opened.cons opened.goesOn rfl

theorem OpenHistory.finish (opened : OpenHistory before) {reported : Option RowError}
    (told : ∀ error, reported = some error → answer = .error error) :
    UsedUp answer (.error reported :: .next false :: before) := by
  have ended : UsedUp answer (.next false :: before) :=
    opened.usedUp.cons opened.goesOn (by simp) (by simp [CursorEvent.failure?])
  exact ended.cons rfl (by simp) told

theorem UsedUp.map {β : Type} (f : α → β) (used : UsedUp answer before) :
    UsedUp (answer.map f) before where
  inOrder := used.inOrder
  unclosed := used.unclosed
  failed event member error failed := by rw [used.failed event member error failed]; rfl

end Histories

/-! ## Cursors that are watched -/

/-- What a cursor answers is what another one answers, whose states are an image of its own. -/
structure Cursor.Shadows (cursor' : Cursor τ) (f : τ → σ) (cursor : Cursor σ) : Prop where
  columns : ∀ state, cursor.columns (f state) = (cursor'.columns state).map id f
  next : ∀ state, cursor.next (f state) = (cursor'.next state).map id f
  scan : ∀ state width, cursor.scan (f state) width = (cursor'.scan state width).mapState f
  error : ∀ state, cursor.error (f state) = (cursor'.error state).map id f
  close : ∀ state, cursor.close (f state) = (cursor'.close state).map id f

section Logging

variable {α β : Type} (note : CursorEvent → α)

theorem Feed.mapState_logging (log : List α) (feed : Feed σ) :
    (feed.logging note log).mapState Prod.snd = feed := by
  induction feed with
  | done error state => rfl
  | put column v next ih => simp only [logging, mapState, ih]

theorem Cursor.logging_shadows (cursor : Cursor σ) :
    (cursor.logging note).Shadows Prod.snd cursor where
  columns := by
    rintro ⟨log, state⟩
    simp only [logging]
    obtain ⟨_ | _, after⟩ := cursor.columns state <;> rfl
  next _ := rfl
  scan := by
    rintro ⟨log, state⟩ width
    exact (Feed.mapState_logging note log _).symm
  error _ := rfl
  close _ := rfl

theorem Feed.mapState_logging_map (f : α → β) (log : List α) (feed : Feed σ) :
    (feed.logging note log).mapState (Prod.map (List.map f) id) =
      feed.logging (f ∘ note) (log.map f) := by
  induction feed with
  | done error state => rfl
  | put column v next ih => simp only [logging, mapState, ih]

/-- What is recorded of the calls is their history without the answers. -/
theorem Cursor.observed_shadows_recording (cursor : Cursor σ) :
    cursor.observed.Shadows (Prod.map (List.map CursorEvent.call) id) cursor.recording where
  columns := by
    rintro ⟨before, state⟩
    simp only [observed, recording, logging, Prod.map_apply, id_eq]
    obtain ⟨_ | _, after⟩ := cursor.columns state <;> rfl
  next _ := rfl
  scan := by
    rintro ⟨before, state⟩ width
    exact (Feed.mapState_logging_map id CursorEvent.call before _).symm
  error _ := rfl
  close _ := rfl

end Logging

theorem Feed.run_mapState {Γ : Catalogue} (f : τ → σ) (feed : Feed τ) (slots : RowSlots) :
    (feed.mapState f).run Γ slots =
      ((feed.run Γ slots).1, (feed.run Γ slots).2.1, f (feed.run Γ slots).2.2) := by
  induction feed generalizing slots with
  | done error state => rfl
  | put column v next ih => simp only [mapState, run, ih]

theorem Feed.run_logging {Γ : Catalogue} {α : Type} (note : CursorEvent → α) (log : List α)
    (feed : Feed σ) (slots : RowSlots) :
    (feed.logging note log).run Γ slots =
      ((feed.run Γ slots).1, (feed.run Γ slots).2.1,
        note (.scan (feed.run Γ slots).2.1) :: log, (feed.run Γ slots).2.2) := by
  induction feed generalizing slots with
  | done error state => rfl
  | put column v next ih => simp only [logging, run, ih]

namespace Reader

variable {Γ : Catalogue}

section Shadows

variable {cursor' : Cursor τ} {f : τ → σ} {cursor : Cursor σ}

theorem readBy_mapState {plan : Plan} {ty : Ty} {state : σ} {state' : τ}
    (same : ∀ width, cursor.scan state width = (cursor'.scan state' width).mapState f) :
    readBy Γ plan ty cursor state = (readBy Γ plan ty cursor' state').map id f := by
  simp only [readBy, same, Feed.run_mapState]
  obtain ⟨slots, _ | error, after⟩ := (cursor'.scan state' _).run Γ _
  · simp only
    split <;> rfl
  · rfl

theorem readRest?_shadow (shadows : cursor'.Shadows f cursor) (plan : Plan) (ty : Ty) (steps : Nat)
    (state : τ) :
    readRest? Γ plan ty cursor steps (f state) =
      (readRest? Γ plan ty cursor' steps state).map (Prod.map id f) := by
  induction steps generalizing state with
  | zero => rfl
  | succ steps ih =>
      simp only [readRest?, shadows.next]
      obtain ⟨_ | _, here⟩ := cursor'.next state
      · simp only [Prod.map_apply, id_eq, shadows.error]
        obtain ⟨_ | error, last⟩ := cursor'.error here <;> rfl
      · simp only [Prod.map_apply, id_eq, readBy_mapState (shadows.scan here)]
        obtain ⟨error | value, after⟩ := readBy Γ plan ty cursor' here
        · rfl
        · simp only [Prod.map_apply, id_eq, ih, Option.map_map]
          rfl

theorem planCursor_shadow (shadows : cursor'.Shadows f cursor) (reader : Reader) (ty : Ty)
    (state : τ) :
    reader.planCursor Γ ty cursor (f state) =
      (reader.planCursor Γ ty cursor' state).map id (.map id f) := by
  simp only [planCursor, shadows.columns]
  obtain ⟨error | labels, asked⟩ := cursor'.columns state <;> rfl

theorem readRow_shadow (shadows : cursor'.Shadows f cursor) (reader : Reader) (ty : Ty) (state : τ) :
    reader.readRow Γ ty cursor (f state) =
      (reader.readRow Γ ty cursor' state).map id (.map id f) := by
  simp only [readRow, planCursor_shadow shadows]
  obtain ⟨error | plan, reader, asked⟩ := reader.planCursor Γ ty cursor' state
  · rfl
  · simp only [Prod.map_apply, id_eq, readBy_mapState (shadows.scan asked), Prod.map_fst,
      Prod.map_snd]

theorem readOpen?_shadow (shadows : cursor'.Shadows f cursor) (reader : Reader) (ty : Ty)
    (steps : Nat) (state : τ) :
    reader.readOpen? Γ ty cursor steps (f state) =
      (reader.readOpen? Γ ty cursor' steps state).map (.map id (.map id f)) := by
  simp only [readOpen?, shadows.next]
  obtain ⟨_ | _, here⟩ := cursor'.next state
  · simp only [Prod.map_apply, id_eq, shadows.error]
    obtain ⟨_ | error, last⟩ := cursor'.error here <;> rfl
  · simp only [Prod.map_apply, id_eq, planCursor_shadow shadows]
    obtain ⟨error | plan, reader, asked⟩ := reader.planCursor Γ ty cursor' here
    · rfl
    · simp only [Prod.map_apply, id_eq, readBy_mapState (shadows.scan asked)]
      obtain ⟨error | value, after⟩ := readBy Γ plan ty cursor' asked
      · rfl
      · simp only [Prod.map_apply, id_eq, readRest?_shadow shadows, Option.map_map]
        rfl

theorem closing_shadow {α : Type} (shadows : cursor'.Shadows f cursor)
    (result : Except RowError α × Reader × τ) :
    closing cursor (result.map id (.map id f)) = (closing cursor' result).map id (.map id f) := by
  obtain ⟨answer, reader, state⟩ := result
  simp only [closing, Prod.map_apply, id_eq, shadows.close, Prod.map_fst, Prod.map_snd]
  cases answer <;> cases (cursor'.close state).1 <;> rfl

theorem readAll?_shadow (shadows : cursor'.Shadows f cursor) (reader : Reader) (ty : Ty)
    (steps : Nat) (state : τ) :
    reader.readAll? Γ ty cursor steps (f state) =
      (reader.readAll? Γ ty cursor' steps state).map (.map id (.map id f)) := by
  simp only [readAll?, readOpen?_shadow shadows, Option.map_map]
  exact congrArg (Option.map · _) (funext (closing_shadow shadows))

theorem readFirst_shadow (shadows : cursor'.Shadows f cursor) (reader : Reader) (ty : Ty)
    (state : τ) :
    reader.readFirst Γ ty cursor (f state) =
      (reader.readFirst Γ ty cursor' state).map id (.map id f) := by
  simp only [readFirst, shadows.next, ← closing_shadow shadows]
  obtain ⟨_ | _, here⟩ := cursor'.next state
  · simp only [Prod.map_apply, id_eq, shadows.error, Prod.map_fst, Prod.map_snd]
  · simp only [Prod.map_apply, id_eq, readRow_shadow shadows]

end Shadows

/-! ## What a reader does to the history -/

/-- By a plan, rows have been read to values, one after the other. -/
inductive ReadsRows (Γ : Catalogue) (plan : Plan) (ty : Ty) (cursor : Cursor σ) :
    List Datum → σ → σ → Prop where
  | none {state : σ} : ReadsRows Γ plan ty cursor [] state state
  | row {state here after last : σ} {value : Datum} {values : List Datum} :
      cursor.next state = (true, here) → readBy Γ plan ty cursor here = (.ok value, after) →
        ReadsRows Γ plan ty cursor values after last →
          ReadsRows Γ plan ty cursor (value :: values) state last

/-- A reader has read rows to values and goes on. -/
inductive HasRead (Γ : Catalogue) (reader : Reader) (ty : Ty) (cursor : Cursor σ) :
    List Datum → σ → σ → Prop where
  | rows {reader' : Reader} {plan : Plan} {state here asked after last : σ} {value : Datum}
      {values : List Datum} :
      cursor.next state = (true, here) →
        reader.planCursor Γ ty cursor here = (.ok plan, reader', asked) →
          readBy Γ plan ty cursor asked = (.ok value, after) →
            ReadsRows Γ plan ty cursor values after last →
              HasRead Γ reader ty cursor (value :: values) state last

theorem readRest?_eq_none {plan : Plan} {ty : Ty} {cursor : Cursor σ} {steps : Nat} {state : σ}
    (unfinished : readRest? Γ plan ty cursor steps state = none) :
    ∃ values last, values.length = steps ∧ ReadsRows Γ plan ty cursor values state last := by
  induction steps generalizing state with
  | zero => exact ⟨[], state, rfl, .none⟩
  | succ steps ih =>
      rw [readRest?] at unfinished
      split at unfinished
      · split at unfinished <;> simp at unfinished
      · rename_i here went
        split at unfinished
        · simp at unfinished
        · rename_i value after read
          obtain ⟨values, last, length, reads⟩ := ih (Option.map_eq_none_iff.1 unfinished)
          exact ⟨value :: values, last, congrArg (· + 1) length, .row went read reads⟩

/-- A cursor that a reader is not done with has announced and served rows all along. -/
theorem readAll?_eq_none {reader : Reader} {ty : Ty} {cursor : Cursor σ} {steps : Nat} {state : σ}
    (unfinished : reader.readAll? Γ ty cursor steps state = none) :
    ∃ values last, values.length = steps + 1 ∧ reader.HasRead Γ ty cursor values state last := by
  have unread := Option.map_eq_none_iff.1 unfinished
  rw [readOpen?] at unread
  split at unread
  · split at unread <;> simp at unread
  · rename_i here went
    split at unread
    · simp at unread
    · rename_i plan reader' asked planned
      split at unread
      · simp at unread
      · rename_i value after read
        obtain ⟨values, last, length, reads⟩ := readRest?_eq_none (Option.map_eq_none_iff.1 unread)
        exact ⟨value :: values, last, congrArg (· + 1) length, .rows went planned read reads⟩

section Observed

variable {cursor : Cursor σ} {plan : Plan} {ty : Ty} {before history : List CursorEvent}
  {state last : σ}

theorem next_observed {found : Bool} {here : List CursorEvent × σ}
    (went : cursor.observed.next (before, state) = (found, here)) :
    here.1 = .next found :: before := by
  obtain ⟨rfl, rfl⟩ := Prod.mk.inj went
  rfl

theorem error_observed {reported : Option RowError} {here : List CursorEvent × σ}
    (told : cursor.observed.error (before, state) = (reported, here)) :
    here.1 = .error reported :: before := by
  obtain ⟨rfl, rfl⟩ := Prod.mk.inj told
  rfl

theorem readBy_observed {answer : Except RowError Datum} {after : List CursorEvent × σ}
    (read : readBy Γ plan ty cursor.observed (before, state) = (answer, after)) :
    ∃ failure, after.1 = .scan failure :: before ∧
      ∀ error, failure = some error → answer = .error error := by
  simp only [readBy, Cursor.observed, Cursor.logging, Feed.run_logging, id] at read
  generalize (cursor.scan state _).run Γ _ = result at read
  obtain ⟨slots, _ | error, last⟩ := result
  · refine ⟨none, ?_, by simp⟩
    simp only at read
    split at read <;> exact (congrArg (·.2.1) read).symm
  · obtain ⟨rfl, rfl⟩ := Prod.mk.inj read
    exact ⟨some error, rfl, by simp⟩

theorem readBy_open {value : Datum} {after : List CursorEvent × σ} (opened : OpenHistory before)
    (announced : before.find? CursorEvent.movesOrScans = some (.next true))
    (read : readBy Γ plan ty cursor.observed (before, state) = (.ok value, after)) :
    OpenHistory after.1 := by
  obtain ⟨_ | error, scanned, failed⟩ := readBy_observed read
  · rw [scanned]
    exact opened.cons announced rfl
  · simp at failed

theorem readBy_usedUp {answer : Except RowError Datum} {after : List CursorEvent × σ}
    (opened : OpenHistory before)
    (announced : before.find? CursorEvent.movesOrScans = some (.next true))
    (read : readBy Γ plan ty cursor.observed (before, state) = (answer, after)) :
    UsedUp answer after.1 := by
  obtain ⟨failure, scanned, failed⟩ := readBy_observed read
  rw [scanned]
  exact opened.usedUp.cons announced (by simp) failed

theorem ReadsRows.open {values : List Datum} {start stop : List CursorEvent × σ}
    (opened : OpenHistory start.1)
    (reads : ReadsRows Γ plan ty cursor.observed values start stop) : OpenHistory stop.1 := by
  induction reads with
  | none => exact opened
  | @row start here after stop value values went read _ ih =>
      obtain ⟨before, state⟩ := start
      obtain ⟨announced, state⟩ := here
      obtain rfl := next_observed went
      exact ih (readBy_open opened.announce rfl read)

theorem error_usedUp {α : Type} {answer : Except RowError α} {reported : Option RowError}
    {here after : List CursorEvent × σ} (opened : OpenHistory before)
    (went : cursor.observed.next (before, state) = (false, here))
    (told : cursor.observed.error here = (reported, after))
    (failed : ∀ error, reported = some error → answer = .error error) : UsedUp answer after.1 := by
  obtain ⟨ended, state⟩ := here
  obtain rfl := next_observed went
  rw [error_observed told]
  exact opened.finish failed

theorem readRest?_usedUp {answer : Except RowError (List Datum)} {steps : Nat}
    {start after : List CursorEvent × σ} (opened : OpenHistory start.1)
    (ran : readRest? Γ plan ty cursor.observed steps start = some (answer, after)) :
    UsedUp answer after.1 := by
  induction steps generalizing start answer with
  | zero => simp [readRest?] at ran
  | succ steps ih =>
      rw [readRest?] at ran
      split at ran
      · rename_i went
        split at ran <;> rename_i told <;>
          obtain ⟨rfl, rfl⟩ := Prod.mk.inj (Option.some.inj ran) <;>
          exact error_usedUp opened went told (by simp)
      · rename_i here went
        obtain ⟨announced, state⟩ := here
        obtain rfl := next_observed went
        split at ran
        · rename_i read
          obtain ⟨rfl, rfl⟩ := Prod.mk.inj (Option.some.inj ran)
          exact (readBy_usedUp opened.announce rfl read).map fun value => [value]
        · rename_i read
          obtain ⟨⟨values, last⟩, rest, same⟩ := Option.map_eq_some_iff.1 ran
          obtain ⟨rfl, rfl⟩ := Prod.mk.inj same
          exact (ih (readBy_open opened.announce rfl read) rest).map _

theorem planCursor_observed {reader reader' : Reader} {answer : Except RowError Plan}
    {after : List CursorEvent × σ}
    (planned : reader.planCursor Γ ty cursor.observed (before, state) = (answer, reader', after)) :
    ∃ failure, after.1 = .columns failure :: before ∧
      ∀ error, failure = some error → answer = .error error := by
  simp only [planCursor, Cursor.observed, Cursor.logging] at planned
  generalize cursor.columns state = asked at planned
  obtain ⟨error | labels, asked⟩ := asked <;> simp only [Prod.mk.injEq] at planned <;>
    obtain ⟨rfl, -, rfl⟩ := planned
  · exact ⟨some error, rfl, by simp⟩
  · exact ⟨none, rfl, by simp⟩

theorem planCursor_open {reader reader' : Reader} {after : List CursorEvent × σ}
    (planned : reader.planCursor Γ ty cursor.observed ([.next true], state) =
      (.ok plan, reader', after)) :
    OpenHistory after.1 ∧ after.1.find? CursorEvent.movesOrScans = some (.next true) := by
  obtain ⟨_ | error, asked, failed⟩ := planCursor_observed planned
  · rw [asked]
    exact ⟨OpenHistory.nil.announce.cons rfl rfl, rfl⟩
  · simp at failed

theorem planCursor_usedUp {reader reader' : Reader} {answer : Except RowError Plan}
    {after : List CursorEvent × σ}
    (planned : reader.planCursor Γ ty cursor.observed ([.next true], state) =
      (answer, reader', after)) : UsedUp answer after.1 := by
  obtain ⟨failure, asked, failed⟩ := planCursor_observed planned
  rw [asked]
  exact OpenHistory.nil.announce.usedUp.cons rfl (by simp) failed

theorem readOpen?_usedUp {reader reader' : Reader} {answer : Except RowError (List Datum)}
    {steps : Nat} {after : List CursorEvent × σ}
    (ran : reader.readOpen? Γ ty cursor.observed steps ([], state) = some (answer, reader', after)) :
    UsedUp answer after.1 := by
  rw [readOpen?] at ran
  split at ran
  · rename_i went
    split at ran <;> rename_i told <;>
      simp only [Option.some.injEq, Prod.mk.injEq] at ran <;>
      obtain ⟨rfl, -, rfl⟩ := ran <;>
      exact error_usedUp .nil went told (by simp)
  · rename_i here went
    obtain ⟨announced, state⟩ := here
    obtain rfl := next_observed went
    split at ran
    · rename_i planned
      obtain ⟨rfl, -, rfl⟩ := by simpa using ran
      exact (planCursor_usedUp planned).map fun _ => []
    · rename_i asked planned
      obtain ⟨opened, announced⟩ := planCursor_open planned
      obtain ⟨asked, state⟩ := asked
      split at ran
      · rename_i read
        obtain ⟨rfl, -, rfl⟩ := by simpa using ran
        exact (readBy_usedUp opened announced read).map fun value => [value]
      · rename_i read
        obtain ⟨⟨values, last⟩, rest, same⟩ := Option.map_eq_some_iff.1 ran
        obtain ⟨rfl, -, rfl⟩ := by simpa using same
        exact (readRest?_usedUp (readBy_open opened announced read) rest).map _

theorem readRow_usedUp {reader reader' : Reader} {answer : Except RowError Datum}
    {after : List CursorEvent × σ}
    (read : reader.readRow Γ ty cursor.observed ([.next true], state) = (answer, reader', after)) :
    UsedUp answer after.1 := by
  rw [readRow] at read
  split at read
  · rename_i planned
    obtain ⟨rfl, -, rfl⟩ := by simpa using read
    exact (planCursor_usedUp planned).map fun _ => .absent
  · rename_i asked planned
    obtain ⟨opened, announced⟩ := planCursor_open planned
    obtain ⟨rfl, -, rfl⟩ := by simpa using read
    exact readBy_usedUp opened announced rfl

theorem closing_closedLast {α : Type} {answer : Except RowError α} {reader : Reader}
    (used : UsedUp answer before) :
    let result := closing cursor.observed (answer, reader, before, state)
    ClosedLast result.1 result.2.2.1 := by
  have closes : cursor.observed.close (before, state) =
      ((cursor.close state).1, .close (cursor.close state).1 :: before, (cursor.close state).2) := rfl
  simp only [closing, closes]
  generalize cursor.close state = closed
  have inOrder : ∀ closed, InOrder (.close closed :: before) := fun _ =>
    ⟨trivial, used.unclosed, used.inOrder⟩
  obtain ⟨closed, last⟩ := closed
  cases answer with
  | error first => exact ⟨closed, before, rfl, inOrder closed, used.failed, fun _ => rfl⟩
  | ok value =>
      -- No call has reported a failure, or it would be the answer.
      have good : ∀ event ∈ before, ∀ error, event.failure? ≠ some error :=
        fun event member error failed => by simpa using used.failed event member error failed
      cases closed with
      | none =>
          exact ⟨none, before, rfl, inOrder _, fun event member error failed =>
            absurd failed (good event member error), by simp⟩
      | some error =>
          exact ⟨some error, before, rfl, inOrder _, fun event member error failed =>
            absurd failed (good event member error), fun _ => rfl⟩

/-- Whatever a cursor answers, a reader that reads all its rows calls it in order and closes it. -/
theorem readAll?_closedLast {reader reader' : Reader} {answer : Except RowError (List Datum)}
    {steps : Nat} {after : List CursorEvent × σ}
    (ran : reader.readAll? Γ ty cursor.observed steps ([], state) = some (answer, reader', after)) :
    ClosedLast answer after.1 := by
  obtain ⟨⟨opened, reader'', history, last⟩, ran, closed⟩ := Option.map_eq_some_iff.1 ran
  have closes := @closing_closedLast _ cursor _ last _ _ reader'' (readOpen?_usedUp ran)
  rw [closed] at closes
  exact closes

theorem HasRead.open {reader : Reader} {values : List Datum} {stop : List CursorEvent × σ}
    (reads : reader.HasRead Γ ty cursor.observed values ([], state) stop) : OpenHistory stop.1 := by
  cases reads with
  | @rows _ _ _ here asked after _ _ _ went planned read more =>
      obtain ⟨announced, state⟩ := here
      obtain rfl := next_observed went
      obtain ⟨opened, announced⟩ := planCursor_open planned
      obtain ⟨asked, state⟩ := asked
      exact more.open (readBy_open opened announced read)

theorem readFirst_closedLast (reader : Reader) :
    let result := reader.readFirst Γ ty cursor.observed ([], state)
    ClosedLast result.1 result.2.2.1 := by
  unfold readFirst
  split
  · rename_i here went
    obtain ⟨announced, state⟩ := here
    obtain rfl := next_observed went
    exact closing_closedLast (readRow_usedUp rfl)
  · rename_i here went
    generalize told : cursor.observed.error here = answered
    obtain ⟨reported, after⟩ := answered
    exact closing_closedLast (error_usedUp .nil went told fun error same => by simp [same])

end Observed

end Reader

end SqlMarshal
