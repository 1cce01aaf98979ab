import Mathlib.Data.List.Nodup
import SqlMarshal.Proofs.Row.OnePass

/-! # Only matched columns count

A record is read from the columns that are named like its fields. Other columns may come or go, and
the columns may come in any order: the same value is read, or none.

Seen as one pass over the columns, unmatched ones are passed over, and two matched columns with
different names write along paths that part, so they can change places. That also goes for the
optional records that both of them make on their way, and for a refusal by one of them.
-/

namespace SqlMarshal

variable {Γ : Catalogue}

namespace OnePass

variable {ty : Ty} {p q : Path} {v w : Value} {find : String → Option Path}

theorem take?_cases (Γ : Catalogue) (ty : Ty) (path : Path) (v : Value) :
    take? Γ ty path v = some ∨ ∃ change, take? Γ ty path v = Ty.modifyPath? Γ change path ty := by
  by_cases kept : v = .null ∧ (ty.at? Γ path).any (·.keepsOnNull Γ)
  · exact .inl (funext fun d => if_pos kept)
  · refine .inr ⟨fun field held => (field.store Γ held v).accepted?, funext fun d => ?_⟩
    rw [take?, if_neg kept, Ty.accepted?_writeAt]

theorem take?_comm (apart : p.Apart q) (d : Datum) :
    (take? Γ ty p v d).bind (take? Γ ty q w) = (take? Γ ty q w d).bind (take? Γ ty p v) := by
  rcases take?_cases Γ ty p v with idle | ⟨change, takes⟩
  · rw [idle, Option.bind_fun_some]
    rfl
  · rcases take?_cases Γ ty q w with idle | ⟨change', takes'⟩
    · rw [idle, Option.bind_fun_some]
      rfl
    · rw [takes, takes']
      exact Ty.modifyPath?_comm apart

theorem takeAll?_matched (columns : List (String × Value)) (d : Datum) :
    takeAll? Γ ty find (columns.filter fun column => (find column.1).isSome) d =
      takeAll? Γ ty find columns d := by
  induction columns generalizing d with
  | nil => rfl
  | cons head rest ih =>
      obtain ⟨name, v⟩ := head
      cases found : find name with
      | none => simp only [List.filter_cons, found, Option.isSome_none, Bool.false_eq_true,
          if_false, takeAll?, ih]
      | some path =>
          simp only [List.filter_cons, found, Option.isSome_some, if_true, takeAll?, funext ih]

/-- The names of two columns lead apart. -/
def LeadApart (find : String → Option Path) (a b : String × Value) : Prop :=
  ∀ p ∈ find a.1, ∀ q ∈ find b.1, p.Apart q

theorem takeAll?_swap {a b : String × Value} (apart : LeadApart find a b)
    (rest : List (String × Value)) (d : Datum) :
    takeAll? Γ ty find (a :: b :: rest) d = takeAll? Γ ty find (b :: a :: rest) d := by
  obtain ⟨left, v⟩ := a
  obtain ⟨right, w⟩ := b
  cases foundLeft : find left with
  | none => simp only [takeAll?, foundLeft]
  | some p =>
      cases foundRight : find right with
      | none => simp only [takeAll?, foundLeft, foundRight]
      | some q =>
          simp only [takeAll?, foundLeft, foundRight, ← Option.bind_assoc]
          rw [take?_comm (apart p foundLeft q foundRight)]

/-- Columns that lead apart can be taken in any order. -/
theorem takeAll?_perm {columns columns' : List (String × Value)} (same : columns.Perm columns')
    (apart : columns.Pairwise (LeadApart find)) (d : Datum) :
    takeAll? Γ ty find columns d = takeAll? Γ ty find columns' d := by
  have symmetric : ∀ a b, LeadApart find a b → LeadApart find b a :=
    fun a b apart p leads q leads' => (apart q leads' p leads).symm
  induction same generalizing d with
  | nil => rfl
  | cons column _ ih =>
      obtain ⟨name, v⟩ := column
      have later := ih (List.pairwise_cons.1 apart).2
      cases found : find name with
      | none => simp only [takeAll?, found, later]
      | some path => simp only [takeAll?, found, funext later]
  | swap a b rest =>
      exact takeAll?_swap ((List.pairwise_cons.1 apart).1 a List.mem_cons_self) rest d
  | trans first _ ih ih' =>
      exact (ih apart d).trans (ih' (first.pairwise apart fun {a b} => symmetric a b) d)

end OnePass

/-- The columns of a row with the normal forms of their labels. -/
def normalizeColumns (columns : List (String × Value)) : List (String × Value) :=
  columns.map fun (label, v) => (normalizeLabel label, v)

theorem zip_normalizeColumns (columns : List (String × Value)) :
    ((columns.map (·.1)).map normalizeLabel).zip (columns.map (·.2)) = normalizeColumns columns := by
  rw [List.map_map, List.zip_map', normalizeColumns]
  rfl

namespace Reader

variable {σ : Type} {config : Config} {reader : Reader} {ty : Ty} {cursor : Cursor σ} {state : σ}
  {columns : List (String × Value)}

/-- A reader reads a row of a record as if its columns were taken in one pass, also where there is
    no plan. -/
theorem readRow_record {labels : List String} {row : List Value}
    (sound : reader.Sound Γ config.maxDepth.toNat) (record : ty.isRecord Γ)
    (offers : cursor.Offers state labels row) (some : labels ≠ [])
    (complete : row.length = labels.length) (distinct : (labels.map normalizeLabel).Nodup) :
    (reader.readRow Γ ty cursor state).1.toOption =
      OnePass.read? Γ config.maxDepth.toNat ty labels row := by
  obtain ⟨asked, after, told, fed⟩ := offers
  have plans := (plan_sound sound ty labels).1
  cases made : Plan.anew Γ config.maxDepth.toNat ty (.ofLabels labels) with
  | ok plan =>
      rw [made] at plans
      obtain ⟨loaded, steps, rfl, taken⟩ := OnePass.read?_of_steps distinct complete made
      rw [← taken, ← readBy_eq steps (fed plan.steps.length)]
      simp only [readRow, planCursor, told, plans]
  | error error =>
      have named : ¬ (Columns.ofLabels labels).names = [] := by simpa [Columns.ofLabels] using some
      have refused : (FieldTable.build Γ ty config.maxDepth.toNat).toOption = none := by
        simp only [Plan.anew, if_neg named, if_pos record] at made
        cases built : FieldTable.build Γ ty config.maxDepth.toNat with
        | error error => rfl
        | ok table => simp [built, Except.bind, Plan.build, named, record] at made
      rw [OnePass.read?, if_pos record, refused]
      simp only [readRow, planCursor, told, plans, made]
      rfl

theorem leadApart_of_distinct {depth : Nat} {table : FieldTable}
    (built : FieldTable.build Γ ty depth = .ok table)
    (distinct : (columns.map (·.1)).Nodup) :
    columns.Pairwise (OnePass.LeadApart table.get?) :=
  (List.pairwise_map.1 distinct).imp fun different _ found _ found' =>
    FieldTable.apart_of_get? built different found found'

/-- Two rows of a record that have the same values in the columns that are named like its fields, in
    whatever order and among whatever other columns, are read to the same value, or both are
    refused. -/
theorem readRow_of_matched {τ : Type} {reader' : Reader} {cursor' : Cursor τ} {state' : τ}
    {columns' : List (String × Value)} (record : ty.isRecord Γ)
    (used : Used Γ config.reader reader) (used' : Used Γ config.reader reader')
    (offers : cursor.Offers state (columns.map (·.1)) (columns.map (·.2)))
    (offers' : cursor'.Offers state' (columns'.map (·.1)) (columns'.map (·.2)))
    (some : columns ≠ []) (some' : columns' ≠ [])
    (distinct : ((normalizeColumns columns).map (·.1)).Nodup)
    (distinct' : ((normalizeColumns columns').map (·.1)).Nodup)
    (matched : ∀ table, (reader.fieldTable Γ ty).1 = .ok table →
      ∀ column, (table.get? column.1).isSome →
        (column ∈ normalizeColumns columns ↔ column ∈ normalizeColumns columns')) :
    (reader.readRow Γ ty cursor state).1.toOption =
      (reader'.readRow Γ ty cursor' state').1.toOption := by
  have sound := used_sound (sound_new config.maxDepth.toNat) used
  have sound' := used_sound (sound_new config.maxDepth.toNat) used'
  have names : ∀ columns : List (String × Value),
      (columns.map (·.1)).map normalizeLabel = (normalizeColumns columns).map (·.1) :=
    fun columns => by simp [normalizeColumns]
  rw [readRow_record sound record offers (by simpa using some) (by simp) (by rwa [names]),
    readRow_record sound' record offers' (by simpa using some') (by simp) (by rwa [names])]
  simp only [OnePass.read?, if_pos record, zip_normalizeColumns]
  cases built : FieldTable.build Γ ty config.maxDepth.toNat with
  | error error => rfl
  | ok table =>
      have tabled := (fieldTable_sound sound ty).1.trans built
      have same : ((normalizeColumns columns).filter fun c => (table.get? c.1).isSome).Perm
          ((normalizeColumns columns').filter fun c => (table.get? c.1).isSome) := by
        refine (List.perm_ext_iff_of_nodup ((distinct.of_map _).filter _)
          ((distinct'.of_map _).filter _)).2 fun column => ?_
        simp only [List.mem_filter, and_congr_left_iff]
        exact matched table tabled column
      have apart := (leadApart_of_distinct built distinct).filter fun c => (table.get? c.1).isSome
      calc OnePass.takeAll? Γ ty table.get? (normalizeColumns columns) (ty.initial Γ)
        _ = OnePass.takeAll? Γ ty table.get?
              ((normalizeColumns columns).filter fun c => (table.get? c.1).isSome)
              (ty.initial Γ) := (OnePass.takeAll?_matched _ _).symm
        _ = OnePass.takeAll? Γ ty table.get?
              ((normalizeColumns columns').filter fun c => (table.get? c.1).isSome)
              (ty.initial Γ) := OnePass.takeAll?_perm same apart _
        _ = _ := OnePass.takeAll?_matched _ _

/-- The optional record is made by one column in one row, and by another column in the other. -/
theorem readRow_of_matched_player :
    let Γ : Catalogue := { records := [
      ("player", [⟨"Id", .int .w32, "", true, false⟩,
        ⟨"Best", .optional (.record "result"), "", true, true⟩]),
      ("result", [⟨"Score", .optional (.int .w16), "", true, false⟩,
        ⟨"Final", .bool, "", true, false⟩])] }
    let left : Table :=
      { columns := ["ID", "final", "note", "score"]
        rows := [[.int 7, .text "t", .null, .uint 30]] }
    let right : Table :=
      { columns := ["[Score]", "id", "FINAL"], rows := [[.uint 30, .int 7, .text "t"]] }
    let read (table : Table) := (({} : Config).reader.readRow Γ (.record "player") table.cursor
      (some 0)).1.toOption
    read left = read right ∧
      read left = some (.record [.whole 7, .present (.record [.present (.whole 30), .bool true])]) := by
  intro Γ left right read
  let columns : List (String × Value) :=
    [("ID", .int 7), ("final", .text "t"), ("note", .null), ("score", .uint 30)]
  let columns' : List (String × Value) :=
    [("[Score]", .uint 30), ("id", .int 7), ("FINAL", .text "t")]
  let fields : FieldTable := ⟨[("id", [0]), ("score", [1, 0]), ("final", [1, 1])]⟩
  have tabled : (({} : Config).reader.fieldTable Γ (.record "player")).1 = .ok fields := rfl
  have normal : normalizeColumns columns =
      [("id", .int 7), ("final", .text "t"), ("note", .null), ("score", .uint 30)] := by decide
  have normal' : normalizeColumns columns' =
      [("score", .uint 30), ("id", .int 7), ("final", .text "t")] := by decide
  have same : read left = read right := by
    refine @readRow_of_matched Γ _ {} _ (.record "player") left.cursor _ columns _ _ right.cursor _
      columns' rfl .refl .refl (Table.cursor_offers rfl rfl) (Table.cursor_offers rfl rfl)
      (by simp [columns]) (by simp [columns']) (by rw [normal]; decide) (by rw [normal']; decide) ?_
    rintro table known ⟨name, v⟩ found
    obtain rfl := Except.ok.inj (tabled.symm.trans known)
    rw [normal, normal']
    have unmatched : name ≠ "note" := by
      rintro rfl
      exact absurd found (by decide : ¬(fields.get? "note").isSome)
    simp only [List.mem_cons, Prod.mk.injEq, unmatched, false_and, List.not_mem_nil, or_false,
      false_or]
    tauto
  exact ⟨same, rfl⟩

end Reader

end SqlMarshal
