import Mathlib.Data.List.Duplicate
import SqlMarshal.Proofs.Row.AbsentRecords
import SqlMarshal.Proofs.Row.LaterValues

/-! # Columns of one name

Several columns of a row may be named like one field. The last of them decides, as if the others were
not there. But a NULL that comes last decides only where it is stored at once. Where it is staged, and
where it comes to a document, it is ignored, and the value of an earlier column stays.
-/

theorem Except.toOption_eq_some_iff {ε α : Type} {result : Except ε α} {a : α} :
    result.toOption = some a ↔ result = .ok a := by
  cases result <;> simp [Except.toOption]

namespace SqlMarshal

variable {Γ : Catalogue}

/-! ## Columns of one name -/

/-- The columns of a row without those that have the name of a later one. -/
def lastOfEach (name : String → String) (columns : List (String × Value)) : List (String × Value) :=
  columns.pwFilter fun a b => name a.1 ≠ name b.1

/-- NULL is the last of the values for a name, and not the only one. -/
def EndsInNull (columns : List (String × Value)) (name : String) : Prop :=
  (name, .null) ∈ lastOfEach id columns ∧ ∃ v ≠ .null, (name, v) ∈ columns

section LastOfEach

variable {columns : List (String × Value)} {name : String} {v : Value}

theorem mem_of_mem_lastOfEach {column : String × Value} (member : column ∈ lastOfEach id columns) :
    column ∈ columns :=
  (List.pwFilter_sublist _).subset member

theorem exists_mem_lastOfEach (member : (name, v) ∈ columns) :
    ∃ w, (name, w) ∈ lastOfEach id columns := by
  by_contra none
  have differs {x y z : String × Value} (different : x.1 ≠ z.1) : x.1 ≠ y.1 ∨ y.1 ≠ z.1 := by
    by_cases same : x.1 = y.1
    · exact .inr (same ▸ different)
    · exact .inl same
  have all : ∀ last ∈ lastOfEach id columns, (name, v).1 ≠ last.1 := by
    rintro ⟨other, w⟩ last same
    obtain rfl : name = other := same
    exact none ⟨w, last⟩
  have every := List.forall_mem_pwFilter (R := fun a b : String × Value => id a.1 ≠ id b.1) differs
    (name, v) columns
  exact every.1 all _ member rfl

theorem lastOfEach_cons_of_mem (later : ∃ w, (name, w) ∈ columns) :
    lastOfEach id ((name, v) :: columns) = lastOfEach id columns := by
  obtain ⟨w, member⟩ := later
  obtain ⟨u, last⟩ := exists_mem_lastOfEach member
  exact List.pwFilter_cons_of_neg fun all => all _ last rfl

theorem lastOfEach_cons_of_not_mem (last : ¬ ∃ w, (name, w) ∈ columns) :
    lastOfEach id ((name, v) :: columns) = (name, v) :: lastOfEach id columns := by
  refine List.pwFilter_cons_of_pos fun ⟨other, w⟩ member same => last ⟨w, ?_⟩
  obtain rfl : name = other := same
  exact mem_of_mem_lastOfEach member

theorem EndsInNull.cons {column : String × Value} (ends : EndsInNull columns name) :
    EndsInNull (column :: columns) name := by
  obtain ⟨last, w, present, member⟩ := ends
  refine ⟨?_, w, present, .tail _ member⟩
  obtain ⟨other, u⟩ := column
  by_cases later : ∃ w, (other, w) ∈ columns
  · rwa [lastOfEach_cons_of_mem later]
  · rw [lastOfEach_cons_of_not_mem later]
    exact .tail _ last

theorem exists_decides {field : Ty} (later : ∃ w, (name, w) ∈ columns)
    (settles : field.ignoresNull Γ → ¬ EndsInNull ((name, v) :: columns) name) :
    ∃ w, (name, w) ∈ columns ∧ field.Decides Γ v w := by
  obtain ⟨u, member⟩ := later
  obtain ⟨w, last⟩ := exists_mem_lastOfEach member
  refine ⟨w, mem_of_mem_lastOfEach last, fun null present => ?_⟩
  by_contra ignores
  subst null
  refine settles (by simpa using ignores) ⟨?_, v, present, .head _⟩
  rwa [lastOfEach_cons_of_mem ⟨u, member⟩]

theorem eq_of_mem_lastOfEach {w : Value} (left : (name, v) ∈ lastOfEach id columns)
    (right : (name, w) ∈ lastOfEach id columns) : v = w := by
  have distinct : ((lastOfEach id columns).map (·.1)).Nodup :=
    List.pairwise_map.2 (List.pairwise_pwFilter columns)
  exact (Prod.mk.inj (List.inj_on_of_nodup_map distinct left right rfl)).2

theorem normalizeColumns_lastOfEach (columns : List (String × Value)) :
    normalizeColumns (lastOfEach normalizeLabel columns) =
      lastOfEach id (normalizeColumns columns) := by
  rw [normalizeColumns, normalizeColumns, lastOfEach, lastOfEach, List.pwFilter_map]
  rfl

theorem lastOfEach_ne_nil (some : columns ≠ []) : lastOfEach normalizeLabel columns ≠ [] := by
  intro none
  obtain ⟨⟨label, v⟩, member⟩ := List.exists_mem_of_ne_nil columns some
  have normal : (normalizeLabel label, v) ∈ normalizeColumns columns :=
    List.mem_map.2 ⟨_, member, rfl⟩
  obtain ⟨w, last⟩ := exists_mem_lastOfEach normal
  rw [← normalizeColumns_lastOfEach, none] at last
  simp [normalizeColumns] at last

end LastOfEach

/-! ## One pass over the last columns -/

namespace FieldTable

variable {ty field : Ty} {depth : Nat} {table : FieldTable} {name : String} {path : Path}
  {v w : Value} {columns : List (String × Value)} {d first last : Datum}

/-- A name leads to a field of a type. -/
def LeadsTo (Γ : Catalogue) (table : FieldTable) (ty : Ty) (name : String) (field : Ty) : Prop :=
  ∃ path, table.get? name = some path ∧ ty.at? Γ path = some field

theorem takeAll?_absorbs (built : build Γ ty depth = .ok table)
    (found : table.get? name = some path) (reached : ty.at? Γ path = some field)
    (forgets : ∀ decoder ∈ field.decoder?, (Γ.decoder decoder).Forgets)
    (fresh : ty.Fresh Γ path d) (before : OnePass.take? Γ ty path v d = some first)
    (after : OnePass.takeAll? Γ ty table.get? columns first = some last)
    (later : (name, w) ∈ columns) (decides : field.Decides Γ v w) :
    OnePass.takeAll? Γ ty table.get? columns d = some last := by
  induction columns generalizing d first with
  | nil => simp at later
  | cons head rest ih =>
      obtain ⟨other, u⟩ := head
      by_cases same : name = other
      · subst same
        simp only [OnePass.takeAll?, found, Option.bind_eq_some_iff] at after ⊢
        obtain ⟨middle, taken, after⟩ := after
        by_cases here : field.Decides Γ v u
        · exact ⟨middle, OnePass.take?_overrides fresh reached forgets here before taken, after⟩
        · -- This one is a NULL that is ignored, so it is another one that decides.
          have ignored : u = .null ∧ v ≠ .null ∧ field.ignoresNull Γ := by
            simpa [Ty.Decides] using here
          obtain ⟨rfl, -, ignores⟩ := ignored
          have inRest : (name, w) ∈ rest := by
            rcases List.mem_cons.1 later with same | inRest
            · exact absurd ((Prod.mk.inj same).2 ▸ decides) here
            · exact inRest
          obtain ⟨rfl, made, makes, fresh, before⟩ :=
            OnePass.take?_ignored fresh reached ignores before taken
          exact ⟨made, makes, ih fresh before after inRest⟩
      · have inRest : (name, w) ∈ rest := by simpa [same] using later
        cases elsewhere : table.get? other with
        | none =>
            simp only [OnePass.takeAll?, elsewhere] at after ⊢
            exact ih fresh before after inRest
        | some q =>
            have apart := apart_of_get? built same found elsewhere
            simp only [OnePass.takeAll?, elsewhere, Option.bind_eq_some_iff] at after ⊢
            obtain ⟨middle, taken, after⟩ := after
            have swapped : (OnePass.take? Γ ty q u d).bind (OnePass.take? Γ ty path v) =
                some middle := by
              rw [← OnePass.take?_comm apart, before, Option.bind_some, taken]
            obtain ⟨made, makes, before⟩ := Option.bind_eq_some_iff.1 swapped
            exact ⟨made, makes, ih (OnePass.take?_fresh fresh apart makes) before after inRest⟩

/-- If no name ends in a NULL that its field ignores, the last column of each name is enough. -/
theorem takeAll?_lastOfEach (built : build Γ ty depth = .ok table)
    (fresh : ∀ column ∈ columns, ∀ path ∈ table.get? column.1, ty.Fresh Γ path d)
    (forgets : ∀ name field, List.Duplicate name (columns.map (·.1)) →
      table.LeadsTo Γ ty name field → ∀ decoder ∈ field.decoder?, (Γ.decoder decoder).Forgets)
    (settles : ∀ name field, table.LeadsTo Γ ty name field → field.ignoresNull Γ →
      ¬ EndsInNull columns name)
    (taken : OnePass.takeAll? Γ ty table.get? columns d = some last) :
    OnePass.takeAll? Γ ty table.get? (lastOfEach id columns) d = some last := by
  induction columns generalizing d with
  | nil => exact taken
  | cons head rest ih =>
      obtain ⟨name, v⟩ := head
      obtain ⟨here, fresh⟩ := List.forall_mem_cons.1 fresh
      have forgets' : ∀ other field, List.Duplicate other (rest.map (·.1)) →
          table.LeadsTo Γ ty other field → ∀ decoder ∈ field.decoder?, (Γ.decoder decoder).Forgets :=
        fun other field again => forgets other field (again.duplicate_cons name)
      have settles' : ∀ other field, table.LeadsTo Γ ty other field → field.ignoresNull Γ →
          ¬ EndsInNull rest other :=
        fun other field leads ignores ends => settles other field leads ignores ends.cons
      by_cases later : ∃ w, (name, w) ∈ rest
      · rw [lastOfEach_cons_of_mem later]
        refine ih fresh forgets' settles' ?_
        cases found : table.get? name with
        | none => simpa only [OnePass.takeAll?, found] using taken
        | some path =>
            obtain ⟨field, reached⟩ := at?_of_get? built found
            have leads : table.LeadsTo Γ ty name field := ⟨path, found, reached⟩
            simp only [OnePass.takeAll?, found, Option.bind_eq_some_iff] at taken
            obtain ⟨first, before, after⟩ := taken
            obtain ⟨w, member, decides⟩ := exists_decides later (settles name field leads)
            have again : List.Duplicate name (name :: rest.map (·.1)) :=
              List.Mem.duplicate_cons_self (List.mem_map.2 ⟨_, member, rfl⟩)
            exact takeAll?_absorbs built found reached (forgets name field again leads)
              (here path found) before after member decides
      · rw [lastOfEach_cons_of_not_mem later]
        cases found : table.get? name with
        | none =>
            simp only [OnePass.takeAll?, found] at taken ⊢
            exact ih fresh forgets' settles' taken
        | some path =>
            simp only [OnePass.takeAll?, found, Option.bind_eq_some_iff] at taken ⊢
            obtain ⟨first, before, after⟩ := taken
            refine ⟨first, before, ih (fun column member q found' => ?_) forgets' settles' after⟩
            have different : column.1 ≠ name := by
              rintro rfl
              exact later ⟨column.2, member⟩
            exact OnePass.take?_fresh (fresh column member q found')
              (apart_of_get? built different found' found) before

end FieldTable

/-! ## Fields that keep an earlier value -/

namespace Ty

variable {ty : Ty} {path : Path} {v : Value} {d after : Datum}

theorem heldAt_modifyPath? {change : Ty → Datum → Option Datum}
    (modified : modifyPath? Γ change path ty d = some after) :
    ∃ target item, ty.at? Γ path = some target ∧
      change target item = some (ty.heldAt Γ path after) := by
  induction path generalizing ty d after with
  | nil => exact ⟨ty, d, rfl, modified⟩
  | cons index rest ih =>
      obtain ⟨field, item, new, declares, changes, held⟩ := field?_modifyField? modified
      obtain ⟨target, item, reached, changed⟩ := ih changes
      exact ⟨target, item, at?_cons.2 ⟨field, declares, reached⟩, by simpa only [heldAt, held]⟩

theorem store_present (deep : 0 < ty.layers) (present : v ≠ .null)
    (stored : (ty.store Γ d v).accepted? = some after) : after ≠ .absent := by
  induction ty generalizing d after with
  | optional content =>
      rw [store_optional present, accepted?_inside] at stored
      obtain ⟨inside, -, rfl⟩ := Option.map_eq_some_iff.1 stored
      simp
  | boxed content ih | named name content ih => exact ih deep stored
  | _ => simp [layers] at deep

end Ty

namespace FieldTable

variable {ty field : Ty} {depth : Nat} {table : FieldTable} {name : String} {path : Path}
  {columns : List (String × Value)} {d last : Datum}

/-- A field that keeps its value on NULL holds nothing after the columns of a row exactly if it held
    nothing before and NULL came every time. -/
theorem absent_iff_null (built : build Γ ty depth = .ok table)
    (found : table.get? name = some path) (reached : ty.at? Γ path = some field)
    (keeps : field.keepsOnNull Γ)
    (taken : OnePass.takeAll? Γ ty table.get? columns d = some last) :
    ty.heldAt Γ path last = .absent ↔
      ty.heldAt Γ path d = .absent ∧ ∀ v, (name, v) ∈ columns → v = .null := by
  have deep := Ty.layers_of_keepsOnNull keeps
  induction columns generalizing d with
  | nil =>
      obtain rfl := Option.some.inj taken
      simp
  | cons head rest ih =>
      obtain ⟨other, u⟩ := head
      by_cases same : name = other
      · subst same
        simp only [OnePass.takeAll?, found, Option.bind_eq_some_iff] at taken
        obtain ⟨first, here, taken⟩ := taken
        refine (ih taken).trans ?_
        by_cases null : u = .null
        · rw [OnePass.take?_kept reached null keeps] at here
          obtain rfl := Option.some.inj here
          simp [null]
        · rw [OnePass.take?_stored reached fun null' => absurd null' null] at here
          obtain ⟨target, item, reached', stored⟩ := Ty.heldAt_modifyPath? here
          obtain rfl := Option.some.inj (reached.symm.trans reached')
          have there := Ty.store_present deep null stored
          simp [there, null]
      · have elsewhere : ∀ v, (name, v) ∈ (other, u) :: rest ↔ (name, v) ∈ rest := by simp [same]
        simp only [elsewhere]
        cases found' : table.get? other with
        | none =>
            simp only [OnePass.takeAll?, found'] at taken
            exact ih taken
        | some q =>
            have apart := apart_of_get? built same found found'
            simp only [OnePass.takeAll?, found', Option.bind_eq_some_iff] at taken
            obtain ⟨first, here, taken⟩ := taken
            refine (ih taken).trans ?_
            rcases OnePass.take?_cases Γ ty q u with idle | ⟨change, takes⟩
            · rw [idle] at here
              obtain rfl := Option.some.inj here
              rfl
            · rw [takes] at here
              rw [Ty.absent_modifyPath? apart reached deep here]

end FieldTable

/-! ## Rows -/

namespace Reader

variable {σ : Type} {config : Config} {reader : Reader} {ty : Ty} {cursor : Cursor σ} {state : σ}
  {columns : List (String × Value)} {table : FieldTable} {value : Datum}

theorem readRow_tabled (sound : reader.Sound Γ config.maxDepth.toNat) (record : ty.isRecord Γ)
    (built : FieldTable.build Γ ty config.maxDepth.toNat = .ok table) (some : columns ≠ [])
    (offers : cursor.Offers state (columns.map (·.1)) (columns.map (·.2))) :
    (reader.readRow Γ ty cursor state).1.toOption =
      OnePass.takeAll? Γ ty table.get? (normalizeColumns columns) (ty.initial Γ) := by
  obtain ⟨asked, after, told, fed⟩ := offers
  let labels := columns.map (·.1)
  have named : (Columns.ofLabels labels).names ≠ [] := by
    simpa [labels, Columns.ofLabels] using some
  have planned := (plan_sound sound ty labels).1.trans (Plan.anew_of_table record built named)
  let loaded := (normalizeColumns columns).map fun column =>
    (table.stepFor Γ ty column.1, column.2)
  have steps : (Plan.ofRecord Γ ty (.ofLabels labels) table).steps = loaded.map (·.1) := by
    simp only [Plan.ofRecord, Columns.ofLabels, normalizeColumns, List.map_map, loaded, labels]
    rfl
  have values : loaded.map (·.2) = columns.map (·.2) := by simp [loaded, normalizeColumns]
  have waits : (normalizeColumns columns).Pairwise fun a b =>
      (table.stepFor Γ ty a.1).Waits (table.stepFor Γ ty b.1) :=
    List.pairwise_of_forall fun a b => FieldTable.stepFor_waits built a.1 b.1
  rw [← takeAll?_of_steps table.get? (table.stepFor Γ ty) (FieldTable.take?_of_stepFor built) waits]
  rw [← readBy_eq steps (by rw [fed, values])]
  simp only [readRow, planCursor, told, labels, planned]

theorem columns_ne_nil (sound : reader.Sound Γ config.maxDepth.toNat)
    (offers : cursor.Offers state (columns.map (·.1)) (columns.map (·.2)))
    (read : (reader.readRow Γ ty cursor state).1 = .ok value) : columns ≠ [] := by
  rintro rfl
  obtain ⟨plan, -, -, planned, -⟩ := readBy_of_readRow offers read
  rw [List.map_nil, (plan_sound sound ty []).1] at planned
  simp [Plan.anew, Columns.ofLabels] at planned

/-- If a row is read, the columns that are the last of their names are read to the same value exactly
    if no name ends in a NULL, after something else, whose field keeps what it holds on NULL. Besides,
    decoders must not remember what they held, and no document that is not optional may end in such
    a NULL either. -/
theorem readRow_lastOfEach_iff {τ : Type} {reader' : Reader} {cursor' : Cursor τ} {state' : τ}
    (record : ty.isRecord Γ) (used : Used Γ config.reader reader)
    (used' : Used Γ config.reader reader')
    (tabled : (reader.fieldTable Γ ty).1 = .ok table)
    (offers : cursor.Offers state (columns.map (·.1)) (columns.map (·.2)))
    (offers' : cursor'.Offers state' ((lastOfEach normalizeLabel columns).map (·.1))
      ((lastOfEach normalizeLabel columns).map (·.2)))
    (forgets : ∀ name field, List.Duplicate name ((normalizeColumns columns).map (·.1)) →
      table.LeadsTo Γ ty name field → ∀ decoder ∈ field.decoder?, (Γ.decoder decoder).Forgets)
    (documents : ∀ name field, table.LeadsTo Γ ty name field → field.isDocument →
      ¬ EndsInNull (normalizeColumns columns) name)
    (read : (reader.readRow Γ ty cursor state).1 = .ok value) :
    (reader'.readRow Γ ty cursor' state').1 = .ok value ↔
      ∀ name field, table.LeadsTo Γ ty name field → field.keepsOnNull Γ →
        ¬ EndsInNull (normalizeColumns columns) name := by
  have sound := used_sound (sound_new config.maxDepth.toNat) used
  have sound' := used_sound (sound_new config.maxDepth.toNat) used'
  have built := (fieldTable_sound sound ty).1.symm.trans tabled
  have some := columns_ne_nil sound offers read
  have some' := lastOfEach_ne_nil some
  have all := Except.toOption_eq_some_iff.2 read
  rw [readRow_tabled sound record built some offers] at all
  rw [← Except.toOption_eq_some_iff, readRow_tabled sound' record built some' offers',
    normalizeColumns_lastOfEach]
  constructor
  · rintro last name field ⟨path, found, reached⟩ keeps ⟨ends, v, present, member⟩
    have start : ty.heldAt Γ path (ty.initial Γ) = .absent :=
      Ty.heldAt_initialWith reached (Ty.layers_of_keepsOnNull keeps) _
    -- NULL alone leaves the field empty, and after something else it does not.
    have empty : ty.heldAt Γ path value = .absent :=
      (FieldTable.absent_iff_null built found reached keeps last).2
        ⟨start, fun w other => eq_of_mem_lastOfEach other ends⟩
    exact present (((FieldTable.absent_iff_null built found reached keeps all).1 empty).2 v member)
  · intro kept
    refine FieldTable.takeAll?_lastOfEach built
      (fun column _ path _ => Ty.fresh_initialWith ty path _) forgets
      (fun name field leads ignores => ?_) all
    rw [Ty.ignoresNull, Bool.or_eq_true] at ignores
    rcases ignores with keeps | document
    · exact kept name field leads keeps
    · exact documents name field leads document

/-- A truth value is emptied by the NULL that comes last, and a name, which is staged, ends in
    another value. -/
theorem readRow_lastOfEach_member :
    let whole : Decoder := ⟨fun held v =>
      match v with
      | .int n => (.int n, none)
      | _ => (held, some (.conversion (.custom "no whole number")))⟩
    let Γ : Catalogue := {
      records := [("member", [⟨"Id", .int .w64, "", true, false⟩,
        ⟨"Nick", .optional .text, "", true, false⟩, ⟨"Flag", .optional .bool, "", true, false⟩,
        ⟨"Code", .custom "code", "", true, false⟩])]
      decoders := [("code", whole)] }
    let row : Table := {
      columns := ["id", "NICK", "flag", "Id", "nick", "code", "Flag", "nick", "CODE"]
      rows := [[.int 1, .text "a", .bool true, .int 2, .null, .int 5, .null, .text "b", .int 6]] }
    let last : Table := {
      columns := ["Id", "Flag", "nick", "CODE"], rows := [[.int 2, .null, .text "b", .int 6]] }
    let read (table : Table) :=
      (({} : Config).reader.readRow Γ (.record "member") table.cursor (some 0)).1
    read row = read last ∧
      read last = .ok (.record [.whole 2, .present (.text "b"), .absent, .value (.int 6)]) := by
  intro whole Γ row last read
  let columns : List (String × Value) := [("id", .int 1), ("NICK", .text "a"), ("flag", .bool true),
    ("Id", .int 2), ("nick", .null), ("code", .int 5), ("Flag", .null), ("nick", .text "b"),
    ("CODE", .int 6)]
  let fields : FieldTable := ⟨[("id", [0]), ("nick", [1]), ("flag", [2]), ("code", [3])]⟩
  have tabled : (({} : Config).reader.fieldTable Γ (.record "member")).1 = .ok fields := rfl
  have reads : read row =
      .ok (.record [.whole 2, .present (.text "b"), .absent, .value (.int 6)]) := rfl
  have forgets : ∀ name, (Γ.decoder name).Forgets := by
    intro name held held' v after taken
    by_cases declared : name = "code"
    · subst declared
      cases v <;> first | exact taken | cases taken
    · have other : (name == "code") = false := by simpa using declared
      have plain : Γ.decoder name = ⟨fun _ raw => (raw, none)⟩ := by
        simp [Catalogue.decoder, Γ, List.lookup_cons, other]
      rwa [plain] at taken ⊢
  have lasts : lastOfEach normalizeLabel columns =
      [("Id", .int 2), ("Flag", .null), ("nick", .text "b"), ("CODE", .int 6)] := by decide
  have named : ∀ name field, fields.LeadsTo Γ (.record "member") name field →
      field.isDocument = false ∧ (field.keepsOnNull Γ → name = "nick") := by
    rintro name field ⟨path, found, reached⟩
    have among : (name, path) ∈ fields.entries := FieldTable.mem_of_get? found
    simp only [fields, List.mem_cons, Prod.mk.injEq, List.not_mem_nil, or_false] at among
    rcases among with ⟨rfl, rfl⟩ | ⟨rfl, rfl⟩ | ⟨rfl, rfl⟩ | ⟨rfl, rfl⟩ <;>
      · obtain rfl := Option.some.inj reached
        exact ⟨rfl, by decide⟩
  have ends : ¬ EndsInNull (normalizeColumns columns) "nick" := by
    rintro ⟨ends, -⟩
    rw [← normalizeColumns_lastOfEach, lasts] at ends
    exact absurd ends (by decide)
  have same := (@readRow_lastOfEach_iff Γ _ {} _ (.record "member") row.cursor _ columns fields _ _ _
    last.cursor (some 0) rfl .refl .refl tabled (Table.cursor_offers rfl rfl)
    (by rw [lasts]; exact Table.cursor_offers rfl rfl) (fun _ _ _ _ decoder _ => forgets decoder)
    (fun name field leads document => by simp [(named name field leads).1] at document) reads).2
    fun name field leads keeps => (named name field leads).2 keeps ▸ ends
  exact ⟨reads.trans same.symm, same⟩

/-- An earlier value of a number outlives the NULL that comes last, though the same NULL empties a
    truth value, and alone it leaves both empty. -/
theorem earlier_number_kept :
    let Γ : Catalogue := { records := [("row", [⟨"n", .optional (.int .w32), "", true, false⟩,
      ⟨"b", .optional .bool, "", true, false⟩])] }
    let read (columns : List (String × Value)) := (({} : Config).reader.readRow Γ (.record "row")
      ({ columns := columns.map (·.1), rows := [columns.map (·.2)] } : Table).cursor (some 0)).1
    let columns : List (String × Value) :=
      [("n", .int 5), ("b", .bool true), ("n", .null), ("b", .null)]
    lastOfEach normalizeLabel columns = [("n", .null), ("b", .null)] ∧
      read columns = .ok (.record [.present (.whole 5), .absent]) ∧
      read (lastOfEach normalizeLabel columns) = .ok (.record [.absent, .absent]) := by
  intro Γ read columns
  have lasts : lastOfEach normalizeLabel columns = [("n", .null), ("b", .null)] := by decide
  exact ⟨lasts, rfl, by rw [lasts]; rfl⟩

end Reader

end SqlMarshal
