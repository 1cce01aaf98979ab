import Mathlib.Data.List.Nodup
import Mathlib.Data.List.Pairwise
import SqlMarshal.Proofs.Row.Modification
import SqlMarshal.Proofs.Ty.Layers

/-! # Where the names of a table lead

The leaves of a record lie at different fields of it, also where records are taken in: from one leaf
to another the paths part. A table of fields keeps some of the leaves, so its names lead through
fields that are taken in to fields that exist, and two names lead apart. No leaf is missed, so a
table of distinct names leads to all of them. The way to a record that is taken in is the beginning
of the way to a leaf, or parts from it.
-/

namespace SqlMarshal

variable {Γ : Catalogue}

/-- A field of a record, also behind optional layers, at a position. -/
def Ty.Declares (Γ : Catalogue) (ty : Ty) (index : Nat) (field : Field) : Prop :=
  ∃ fields, ty.base.fields? Γ = some fields ∧ fields[index]? = some field

/-- A path leads through fields that are taken in to one that is matched by a name. -/
inductive Ty.LeafAt (Γ : Catalogue) : Ty → Path → Prop where
  | here {ty : Ty} {index : Nat} {field : Field} {name : String} :
      ty.Declares Γ index field → field.role Γ = .leaf name → LeafAt Γ ty [index]
  | inside {ty : Ty} {index : Nat} {field : Field} {rest : Path} :
      ty.Declares Γ index field → field.role Γ = .flattened → LeafAt Γ field.type rest →
        LeafAt Γ ty (index :: rest)

namespace Ty

theorem Declares.unique {ty : Ty} {index : Nat} {left right : Field}
    (declares : ty.Declares Γ index left) (again : ty.Declares Γ index right) : left = right := by
  obtain ⟨fields, record, declared⟩ := declares
  obtain ⟨fields', record', declared'⟩ := again
  obtain rfl := Option.some.inj (record.symm.trans record')
  exact Option.some.inj (declared.symm.trans declared')

@[simp] theorem declares_base {ty : Ty} {index : Nat} {field : Field} :
    ty.base.Declares Γ index field ↔ ty.Declares Γ index field := by
  rw [Declares, base_base, Declares]

theorem declares_of_getD {ty : Ty} {index : Nat} {field : Field}
    (declared : ((ty.fields? Γ).getD [])[index]? = some field) : ty.Declares Γ index field := by
  cases seen : ty.fields? Γ with
  | none => simp [seen] at declared
  | some fields => exact ⟨fields, fields?_base seen, by simpa [seen] using declared⟩

theorem at?_cons {ty target : Ty} {index : Nat} {rest : Path} :
    ty.at? Γ (index :: rest) = some target ↔
      ∃ field, ty.Declares Γ index field ∧ field.type.at? Γ rest = some target := by
  simp only [at?, Option.bind_eq_bind, Option.bind_eq_some_iff, Declares]
  constructor
  · rintro ⟨fields, record, field, declared, reached⟩
    exact ⟨field, ⟨fields, record, declared⟩, reached⟩
  · rintro ⟨field, ⟨fields, record, declared⟩, reached⟩
    exact ⟨fields, record, field, declared, reached⟩

theorem LeafAt.of_base {ty : Ty} {path : Path} (leaf : ty.base.LeafAt Γ path) :
    ty.LeafAt Γ path := by
  cases leaf with
  | here declares role => exact .here (declares_base.1 declares) role
  | inside declares role inner => exact .inside (declares_base.1 declares) role inner

theorem LeafAt.exists_at? {ty : Ty} {path : Path} (leaf : ty.LeafAt Γ path) :
    ∃ target, ty.at? Γ path = some target := by
  induction leaf with
  | here declares => exact ⟨_, at?_cons.2 ⟨_, declares, rfl⟩⟩
  | inside declares _ _ ih =>
      obtain ⟨target, reached⟩ := ih
      exact ⟨target, at?_cons.2 ⟨_, declares, reached⟩⟩

end Ty

/-- From a field, of whatever record, a path leads on to a leaf. -/
def Field.LeadsOn (Γ : Catalogue) (field : Field) (rest : Path) : Prop :=
  ∀ (ty : Ty) (index : Nat), ty.Declares Γ index field → ty.LeafAt Γ (index :: rest)

namespace Leaf

/-- The leaf lies in a type that is taken in at a path. -/
def LiesIn (Γ : Catalogue) (ty : Ty) (above : Path) (leaf : Leaf) : Prop :=
  ∃ inner, leaf.path = above ++ inner ∧ ty.LeafAt Γ inner

/-- The leaf lies at or in a field at a path. -/
def LiesAt (Γ : Catalogue) (field : Field) (path : Path) (leaf : Leaf) : Prop :=
  ∃ inner, leaf.path = path ++ inner ∧ field.LeadsOn Γ inner

/-- The leaf lies in one of some fields, the first of which has a position. -/
def LiesAmong (Γ : Catalogue) (above : Path) (position : Nat) (fields : List Field)
    (leaf : Leaf) : Prop :=
  ∃ index field inner, fields[index]? = some field ∧
    leaf.path = above ++ (position + index) :: inner ∧ field.LeadsOn Γ inner

/-- The paths of two leaves part. -/
def Apart (a b : Leaf) : Prop :=
  Path.Apart a.path b.path

end Leaf

/-- What a field contributes to the leaves. -/
def Field.leaves (Γ : Catalogue) (descend : Ty → Path → Except RowError (List Leaf)) (path : Path)
    (field : Field) : Except RowError (List Leaf) :=
  match field.role Γ with
  | .hidden => .ok []
  | .leaf name => .ok [⟨name, path⟩]
  | .flattened => descend field.type.base path

/-- A way to take records in that gives leaves of the record, which lie apart. -/
def Separates (Γ : Catalogue) (descend : Ty → Path → Except RowError (List Leaf)) : Prop :=
  ∀ ty path leaves, descend ty path = .ok leaves →
    (∀ leaf ∈ leaves, leaf.LiesIn Γ ty path) ∧ leaves.Pairwise Leaf.Apart

section Leaves

variable {descend : Ty → Path → Except RowError (List Leaf)}

theorem leavesOf_cons_eq {above : Path} {position : Nat} {field : Field} {rest : List Field} :
    leavesOf Γ descend above position (field :: rest) =
      (field.leaves Γ descend (above ++ [position])).bind fun own =>
        (leavesOf Γ descend above (position + 1) rest).map (own ++ ·) := by
  simp only [leavesOf, Field.leaves]
  cases field.role Γ <;> rfl

theorem leavesOf_cons {above : Path} {position : Nat} {field : Field} {rest : List Field}
    {leaves : List Leaf}
    (found : leavesOf Γ descend above position (field :: rest) = .ok leaves) :
    ∃ own others, field.leaves Γ descend (above ++ [position]) = .ok own ∧
      leavesOf Γ descend above (position + 1) rest = .ok others ∧ leaves = own ++ others := by
  rw [leavesOf_cons_eq] at found
  cases ownFound : field.leaves Γ descend (above ++ [position]) with
  | error error => simp [ownFound, Except.bind] at found
  | ok own =>
      cases othersFound : leavesOf Γ descend above (position + 1) rest with
      | error error => simp [ownFound, othersFound, Except.bind, Except.map] at found
      | ok others =>
          refine ⟨own, others, rfl, rfl, ?_⟩
          simpa [ownFound, othersFound, Except.bind, Except.map] using found.symm

theorem Field.leaves_separate (separates : Separates Γ descend) {path : Path} {field : Field}
    {leaves : List Leaf} (found : field.leaves Γ descend path = .ok leaves) :
    (∀ leaf ∈ leaves, leaf.LiesAt Γ field path) ∧ leaves.Pairwise Leaf.Apart := by
  unfold Field.leaves at found
  split at found
  · obtain rfl := Except.ok.inj found
    simp
  · rename_i name role
    obtain rfl := Except.ok.inj found
    refine ⟨fun leaf member => ?_, List.pairwise_singleton ..⟩
    obtain rfl := List.mem_singleton.1 member
    exact ⟨[], by simp, fun ty index declares => .here declares role⟩
  · rename_i role
    obtain ⟨lies, apart⟩ := separates _ _ _ found
    refine ⟨fun leaf member => ?_, apart⟩
    obtain ⟨inner, placed, leads⟩ := lies leaf member
    exact ⟨inner, placed, fun ty index declares => .inside declares role leads.of_base⟩

theorem leavesOf_separate (separates : Separates Γ descend) {above : Path} {position : Nat}
    {fields : List Field} {leaves : List Leaf}
    (found : leavesOf Γ descend above position fields = .ok leaves) :
    (∀ leaf ∈ leaves, leaf.LiesAmong Γ above position fields) ∧ leaves.Pairwise Leaf.Apart := by
  induction fields generalizing position leaves with
  | nil =>
      obtain rfl := Except.ok.inj found
      simp
  | cons field rest ih =>
      obtain ⟨own, others, ownFound, othersFound, rfl⟩ := leavesOf_cons found
      obtain ⟨ownLie, ownApart⟩ := Field.leaves_separate separates ownFound
      obtain ⟨othersLie, othersApart⟩ := ih othersFound
      constructor
      · intro leaf member
        rcases List.mem_append.1 member with mine | other
        · obtain ⟨inner, placed, leads⟩ := ownLie leaf mine
          exact ⟨0, field, inner, rfl, by simpa using placed, leads⟩
        · obtain ⟨index, field', inner, declared, placed, leads⟩ := othersLie leaf other
          refine ⟨index + 1, field', inner, declared, ?_, leads⟩
          rw [placed, Nat.add_assoc, Nat.add_comm 1 index]
      · refine List.pairwise_append.2 ⟨ownApart, othersApart, fun a mine b other => ?_⟩
        obtain ⟨inner, placed, -⟩ := ownLie a mine
        obtain ⟨index, field', inner', -, placed', -⟩ := othersLie b other
        rw [Leaf.Apart, placed, placed', List.append_assoc]
        exact Path.Apart.append_left above (.here inner inner' (by omega))

end Leaves

theorem leavesWithin_separate (room : Nat) (inside : List Ty) :
    Separates Γ (leavesWithin Γ room inside) := by
  induction room generalizing inside with
  | zero =>
      intro ty path leaves found
      simp [leavesWithin] at found
  | succ room ih =>
      intro ty path leaves found
      rw [leavesWithin] at found
      split at found
      · simp at found
      · obtain ⟨lie, apart⟩ := leavesOf_separate (ih (ty :: inside)) found
        refine ⟨fun leaf member => ?_, apart⟩
        obtain ⟨index, field, inner, declared, placed, leads⟩ := lie leaf member
        exact ⟨index :: inner, by simpa using placed, leads ty index (Ty.declares_of_getD declared)⟩

namespace FieldTable

theorem mem_entriesOf {leaves : List Leaf} {entry : String × Path}
    (member : entry ∈ entriesOf leaves) : ∃ leaf ∈ leaves, (leaf.name, leaf.path) = entry := by
  induction leaves with
  | nil => simp [entriesOf] at member
  | cons leaf rest ih =>
      rcases List.mem_cons.1 member with rfl | later
      · exact ⟨leaf, List.mem_cons_self, rfl⟩
      · obtain ⟨other, inRest, same⟩ := ih (List.mem_filter.1 later).1
        exact ⟨other, List.mem_cons_of_mem leaf inRest, same⟩

theorem entriesOf_apart {leaves : List Leaf} (apart : leaves.Pairwise Leaf.Apart) :
    (entriesOf leaves).Pairwise fun a b => Path.Apart a.2 b.2 := by
  induction apart with
  | nil => exact .nil
  | cons fromHead _ ih =>
      refine .cons (fun entry member => ?_) (ih.filter _)
      obtain ⟨other, inRest, rfl⟩ := mem_entriesOf (List.mem_filter.1 member).1
      exact fromHead other inRest

theorem mem_of_get? {table : FieldTable} {name : String} {path : Path}
    (found : table.get? name = some path) : (name, path) ∈ table.entries := by
  unfold get? at found
  obtain ⟨before, after, split, -⟩ := List.lookup_eq_some_iff.1 found
  simp [split]

variable {ty : Ty} {depth : Nat} {table : FieldTable}

/-- The table of a record is that of its leaves. -/
theorem leaves_of_build (record : ty.isRecord Γ)
    (built : build Γ ty depth = .ok table) :
    ∃ leaves, leavesWithin Γ (depth + 1) [] ty.base [] = .ok leaves ∧ ofLeaves leaves = table := by
  obtain ⟨fields, seen⟩ := Option.isSome_iff_exists.1 record
  simp only [build, seen] at built
  cases found : leavesWithin Γ (depth + 1) [] ty.base [] with
  | error error => simp [found, Except.map] at built
  | ok leaves => exact ⟨leaves, rfl, by simpa [found, Except.map] using built⟩

theorem entries_of_build (built : build Γ ty depth = .ok table) :
    (∀ entry ∈ table.entries, ty.LeafAt Γ entry.2) ∧
      table.entries.Pairwise fun a b => Path.Apart a.2 b.2 := by
  by_cases record : ty.isRecord Γ
  · obtain ⟨leaves, found, rfl⟩ := leaves_of_build record built
    obtain ⟨lie, apart⟩ := leavesWithin_separate (depth + 1) [] _ _ _ found
    refine ⟨fun entry member => ?_, entriesOf_apart apart⟩
    obtain ⟨leaf, inLeaves, rfl⟩ := mem_entriesOf member
    obtain ⟨inner, placed, leads⟩ := lie leaf inLeaves
    rw [List.nil_append] at placed
    rw [placed]
    exact leads.of_base
  · have unseen : ty.base.fields? Γ = none := by simpa [Ty.isRecord] using record
    simp only [build, unseen] at built
    obtain rfl := Except.ok.inj built
    simp

theorem leafAt_of_get? (built : build Γ ty depth = .ok table) {name : String} {path : Path}
    (found : table.get? name = some path) : ty.LeafAt Γ path :=
  (entries_of_build built).1 _ (mem_of_get? found)

theorem at?_of_get? (built : build Γ ty depth = .ok table) {name : String} {path : Path}
    (found : table.get? name = some path) : ∃ field, ty.at? Γ path = some field :=
  (leafAt_of_get? built found).exists_at?

/-- Two names of the table lead apart. -/
theorem apart_of_get? (built : build Γ ty depth = .ok table) {left right : String}
    {p q : Path} (different : left ≠ right) (foundLeft : table.get? left = some p)
    (foundRight : table.get? right = some q) : Path.Apart p q := by
  have apart := (entries_of_build built).2
  have symmetric : Std.Symm fun a b : String × Path => Path.Apart a.2 b.2 :=
    ⟨fun _ _ => Path.Apart.symm⟩
  exact apart.forall (mem_of_get? foundLeft) (mem_of_get? foundRight)
    (by simp [different])

end FieldTable

/-! ## Every leaf is found -/

theorem mem_leavesOf {descend : Ty → Path → Except RowError (List Leaf)} {above : Path}
    {position index : Nat} {fields : List Field} {field : Field} {leaves : List Leaf}
    (found : leavesOf Γ descend above position fields = .ok leaves)
    (declared : fields[index]? = some field) :
    ∃ own, field.leaves Γ descend (above ++ [position + index]) = .ok own ∧ own ⊆ leaves := by
  induction fields generalizing position index leaves with
  | nil => simp at declared
  | cons head rest ih =>
      obtain ⟨own, others, ownFound, othersFound, rfl⟩ := leavesOf_cons found
      cases index with
      | zero =>
          obtain rfl := Option.some.inj declared
          exact ⟨own, ownFound, List.subset_append_left own others⟩
      | succ index =>
          obtain ⟨own', found', within⟩ := ih othersFound declared
          rw [Nat.add_right_comm] at found'
          exact ⟨own', found', List.subset_append_of_subset_right own within⟩

theorem mem_leavesWithin_of_declares {ty : Ty} {above : Path} {room index : Nat} {inside : List Ty}
    {field : Field} {leaves : List Leaf} (declares : ty.Declares Γ index field)
    (found : leavesWithin Γ room inside ty.base above = .ok leaves) :
    ∃ less own, room = less + 1 ∧ own ⊆ leaves ∧
      field.leaves Γ (leavesWithin Γ less (ty.base :: inside)) (above ++ [index]) = .ok own := by
  obtain ⟨fields, record, declared⟩ := declares
  cases room with
  | zero => simp [leavesWithin] at found
  | succ less =>
      rw [leavesWithin, record] at found
      split at found
      · simp at found
      · obtain ⟨own, ownFound, within⟩ := mem_leavesOf found declared
        exact ⟨less, own, rfl, within, by simpa using ownFound⟩

theorem mem_leavesWithin {ty : Ty} {above path : Path} {room : Nat} {inside : List Ty}
    {leaves : List Leaf} (leads : ty.LeafAt Γ path)
    (found : leavesWithin Γ room inside ty.base above = .ok leaves) :
    ∃ leaf ∈ leaves, leaf.path = above ++ path := by
  induction leads generalizing above room inside leaves with
  | here declares role =>
      obtain ⟨less, own, rfl, within, ownFound⟩ := mem_leavesWithin_of_declares declares found
      simp only [Field.leaves, role] at ownFound
      obtain rfl := Except.ok.inj ownFound
      exact ⟨_, within (List.mem_singleton_self _), rfl⟩
  | inside declares role _ ih =>
      obtain ⟨less, own, rfl, within, ownFound⟩ := mem_leavesWithin_of_declares declares found
      simp only [Field.leaves, role] at ownFound
      obtain ⟨leaf, member, placed⟩ := ih ownFound
      exact ⟨leaf, within member, by simpa using placed⟩

namespace FieldTable

theorem lookup_filter_ne {entries : List (String × Path)} {name taken : String}
    (free : name ≠ taken) :
    (entries.filter fun entry => entry.1 != taken).lookup name = entries.lookup name := by
  induction entries with
  | nil => rfl
  | cons entry rest ih =>
      obtain ⟨key, path⟩ := entry
      by_cases kept : key = taken
      · have other : (name == key) = false := by simp [kept, free]
        rw [List.filter_cons_of_neg (by simp [kept]), List.lookup_cons, other, ih]
      · rw [List.filter_cons_of_pos (by simp [kept]), List.lookup_cons, List.lookup_cons, ih]

theorem get?_ofLeaves (leaves : List Leaf) (name : String) :
    (ofLeaves leaves).get? name = (leaves.find? fun leaf => leaf.name = name).map (·.path) := by
  simp only [get?, ofLeaves]
  induction leaves with
  | nil => rfl
  | cons leaf rest ih =>
      by_cases here : leaf.name = name
      · simp [entriesOf, here]
      · have other : (name == leaf.name) = false := beq_false_of_ne (Ne.symm here)
        rw [entriesOf, List.lookup_cons, other, lookup_filter_ne (Ne.symm here), ih,
          List.find?_cons_of_neg (by simpa using here)]

theorem get?_ofLeaves_of_distinct {leaves : List Leaf} {leaf : Leaf}
    (distinct : (leaves.map (·.name)).Nodup) (member : leaf ∈ leaves) :
    (ofLeaves leaves).get? leaf.name = some leaf.path := by
  obtain ⟨first, found⟩ := Option.isSome_iff_exists.1
    (List.find?_isSome.2 ⟨leaf, member, decide_eq_true rfl⟩ :
      (leaves.find? fun other => other.name = leaf.name).isSome)
  have same : first = leaf :=
    List.inj_on_of_nodup_map distinct (List.mem_of_find?_eq_some found) member
      (by simpa using List.find?_some found)
  rw [get?_ofLeaves, found, same, Option.map_some]

end FieldTable

/-! ## Records on the way -/

/-- A path leads through fields that are taken in to one of a type that is taken in too. -/
inductive Ty.TakenAt (Γ : Catalogue) : Ty → Path → Ty → Prop where
  | here {ty : Ty} {index : Nat} {field : Field} :
      ty.Declares Γ index field → field.role Γ = .flattened → TakenAt Γ ty [index] field.type
  | inside {ty target : Ty} {index : Nat} {field : Field} {rest : Path} :
      ty.Declares Γ index field → field.role Γ = .flattened → TakenAt Γ field.type rest target →
        TakenAt Γ ty (index :: rest) target

namespace Ty

theorem TakenAt.at? {ty target : Ty} {path : Path} (taken : ty.TakenAt Γ path target) :
    ty.at? Γ path = some target := by
  induction taken with
  | here declares => exact at?_cons.2 ⟨_, declares, rfl⟩
  | inside declares _ _ ih => exact at?_cons.2 ⟨_, declares, ih⟩

theorem TakenAt.isRecord {ty target : Ty} {path : Path} (taken : ty.TakenAt Γ path target) :
    ty.isRecord Γ := by
  cases taken with
  | here declares | inside declares =>
      obtain ⟨fields, record, -⟩ := declares
      simp [Ty.isRecord, record]

theorem LeafAt.first {ty : Ty} {path : Path} (leads : ty.LeafAt Γ path) :
    ∃ index field rest, path = index :: rest ∧ ty.Declares Γ index field ∧
      (field.role Γ = .flattened → field.type.LeafAt Γ rest) := by
  cases leads with
  | @here _ index field name declares role =>
      exact ⟨index, field, [], rfl, declares, fun flattened => by simp [role] at flattened⟩
  | @inside _ index field rest declares role inner =>
      exact ⟨index, field, rest, rfl, declares, fun _ => inner⟩

theorem LeafAt.apart_or_through {ty target : Ty} {path leaf : Path}
    (taken : ty.TakenAt Γ path target) (leads : ty.LeafAt Γ leaf) :
    path.Apart leaf ∨ ∃ index rest, leaf = path ++ index :: rest := by
  induction taken generalizing leaf with
  | @here ty index field declares role =>
      obtain ⟨other, field', rest, rfl, declares', below⟩ := leads.first
      by_cases same : index = other
      · subst same
        obtain rfl := declares.unique declares'
        obtain ⟨next, -, after, rfl, -, -⟩ := (below role).first
        exact .inr ⟨next, after, rfl⟩
      · exact .inl (.here [] rest same)
  | @inside ty target index field path declares role _ ih =>
      obtain ⟨other, field', rest, rfl, declares', below⟩ := leads.first
      by_cases same : index = other
      · subst same
        obtain rfl := declares.unique declares'
        rcases ih (below role) with apart | ⟨next, after, rfl⟩
        · exact .inl (.later index apart)
        · exact .inr ⟨next, after, rfl⟩
      · exact .inl (.here path rest same)

end Ty

end SqlMarshal
