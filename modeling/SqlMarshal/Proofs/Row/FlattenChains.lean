import Mathlib.Data.List.Dedup
import Mathlib.Logic.Relation
import SqlMarshal.Proofs.Row.FirstLeaves
import SqlMarshal.Proofs.Ty.Parts

/-! # Which records are refused

A record takes in records, which take in others. The fields on the way make a chain, and what is
refused are chains: those of more fields than the depth that is allowed, and those that come back to
a record they have gone through. Nothing but the chain itself matters for it. The same record may be
taken in any number of times side by side, and a table that is given for some depth is the one for
every larger depth.

As many levels as there are declared records are enough for every record that does not come back to
itself: records that agree in their fields, such as a record and another name for it, take in the
same records, so on a chain that never comes back each declaration is met once.
-/

namespace SqlMarshal

open Relation (ReflTransGen TransGen)

variable {Γ : Catalogue}

namespace Ty

/-- The positions of fields that are taken in, the first of them a field of the record behind a type
    and each other one a field of the record that is reached by the one before, and the record that
    the last one reaches. -/
inductive Chain (Γ : Catalogue) : Ty → Path → Ty → Prop where
  | nil {ty : Ty} : Chain Γ ty [] ty.base
  | cons {ty target : Ty} {index : Nat} {field : Field} {rest : Path} :
      ty.Declares Γ index field → field.TakenIn Γ → Chain Γ field.type rest target →
        Chain Γ ty (index :: rest) target

/-- The record that the chain reaches is one that it has gone through, which may be the first. -/
def ComesBack (Γ : Catalogue) (ty : Ty) (path : Path) (target : Ty) : Prop :=
  ∃ earlier, earlier <+: path ∧ earlier ≠ path ∧ ty.Chain Γ earlier target

/-- The chain has more fields than the depth, or it comes back. -/
def RefusedChain (Γ : Catalogue) (ty : Ty) (depth : Nat) (path : Path) (target : Ty) : Prop :=
  ty.Chain Γ path target ∧ (depth < path.length ∨ ty.ComesBack Γ path target)

/-- One of the fields of the first record is the second one and is taken in. -/
def TakesIn (Γ : Catalogue) (outer inner : Ty) : Prop :=
  ∃ index field, outer.Declares Γ index field ∧ field.TakenIn Γ ∧ field.type.base = inner

/-- A record is reached that takes itself in, if only through others. -/
def ReachesCycle (Γ : Catalogue) (ty : Ty) : Prop :=
  ∃ inner, ReflTransGen (TakesIn Γ) ty.base inner ∧ TransGen (TakesIn Γ) inner inner

variable {ty mid target : Ty} {path rest : Path}

namespace Chain

theorem target_of_nil (chain : ty.Chain Γ [] target) : target = ty.base := by
  cases chain
  rfl

theorem of_base_eq {other : Ty} (same : ty.base = other.base) (chain : ty.Chain Γ path target) :
    other.Chain Γ path target := by
  cases chain with
  | nil => exact same ▸ .nil
  | cons declares taken inner =>
      refine .cons ?_ taken inner
      rwa [Declares, ← same]

theorem unique (chain : ty.Chain Γ path mid) (again : ty.Chain Γ path target) : mid = target := by
  induction chain with
  | nil => exact again.target_of_nil.symm
  | cons declares _ _ ih =>
      cases again with
      | cons declares' _ inner' =>
          obtain rfl := declares.unique declares'
          exact ih inner'

theorem base_target (chain : ty.Chain Γ path target) : target.base = target := by
  induction chain with
  | nil => exact base_base _
  | cons _ _ _ ih => exact ih

theorem append (chain : ty.Chain Γ path mid) (onward : mid.Chain Γ rest target) :
    ty.Chain Γ (path ++ rest) target := by
  induction chain with
  | nil => exact onward.of_base_eq (base_base _)
  | cons declares taken _ ih => exact .cons declares taken (ih onward)

theorem split (chain : ty.Chain Γ (path ++ rest) target) :
    ∃ mid, ty.Chain Γ path mid ∧ mid.Chain Γ rest target := by
  induction path generalizing ty with
  | nil => exact ⟨ty.base, .nil, chain.of_base_eq (base_base ty).symm⟩
  | cons index path ih =>
      cases chain with
      | cons declares taken inner =>
          obtain ⟨mid, before, after⟩ := ih inner
          exact ⟨mid, .cons declares taken before, after⟩

end Chain

/-! ## A table or a chain that is refused -/

theorem ComesBack.cons {index : Nat} {field : Field} (declares : ty.Declares Γ index field)
    (taken : field.TakenIn Γ) (back : field.type.ComesBack Γ path target) :
    ty.ComesBack Γ (index :: path) target := by
  obtain ⟨earlier, before, proper, reached⟩ := back
  exact ⟨index :: earlier, List.cons_prefix_cons.2 ⟨rfl, before⟩, by simpa using proper,
    .cons declares taken reached⟩

theorem ComesBack.cases {index : Nat} {field : Field} (declares : ty.Declares Γ index field)
    (back : ty.ComesBack Γ (index :: path) target) :
    target = ty.base ∨ field.type.ComesBack Γ path target := by
  obtain ⟨earlier, before, proper, reached⟩ := back
  cases reached with
  | nil => exact .inl rfl
  | @cons _ _ index' field' earlier declares' taken inner =>
      obtain ⟨rfl, shorter⟩ := List.cons_prefix_cons.1 before
      obtain rfl := declares.unique declares'
      exact .inr ⟨earlier, shorter, by simpa using proper, inner⟩

end Ty

/-! ## Chains that are refused -/

theorem Field.leaves_error {descend : Ty → Path → Except RowError (List Leaf)} {path : Path}
    {field : Field} {error : RowError} (failed : field.leaves Γ descend path = .error error) :
    field.TakenIn Γ ∧ descend field.type.base path = .error error := by
  unfold Field.leaves at failed
  split at failed
  · simp at failed
  · simp at failed
  · rename_i role
    exact ⟨role_flattened_iff.1 role, failed⟩

theorem leavesOf_error {descend : Ty → Path → Except RowError (List Leaf)} {above : Path}
    {position : Nat} {fields : List Field} {error : RowError}
    (failed : leavesOf Γ descend above position fields = .error error) :
    ∃ (index : Nat) (field : Field) (path : Path), fields[index]? = some field ∧
      field.TakenIn Γ ∧ descend field.type.base path = .error error := by
  induction fields generalizing position with
  | nil => simp [leavesOf] at failed
  | cons head rest ih =>
      rw [leavesOf_cons_eq] at failed
      cases own : head.leaves Γ descend (above ++ [position]) with
      | error error' =>
          obtain rfl : error' = error := by simpa [own, Except.bind] using failed
          obtain ⟨taken, below⟩ := Field.leaves_error own
          exact ⟨0, head, _, rfl, taken, below⟩
      | ok =>
          cases others : leavesOf Γ descend above (position + 1) rest with
          | error error' =>
              obtain rfl : error' = error := by
                simpa [own, others, Except.bind, Except.map] using failed
              obtain ⟨index, field, path, declared, taken, below⟩ := ih others
              exact ⟨index + 1, field, path, declared, taken, below⟩
          | ok => simp [own, others, Except.bind, Except.map] at failed

theorem exists_chain_of_error {room : Nat} {inside : List Ty} {ty : Ty} {above : Path}
    {error : RowError} (failed : leavesWithin Γ room inside ty.base above = .error error) :
    ∃ path target, ty.Chain Γ path target ∧ error = .recursiveType (target.name Γ) ∧
      (room ≤ path.length ∨ target ∈ inside ∨ ty.ComesBack Γ path target) := by
  -- Below a field there is a level less of room, and the record it belongs to is one more to be
  -- inside of: for the chain one field longer that is a level more, and coming back to the first.
  induction room generalizing inside ty above with
  | zero =>
      obtain rfl := Except.error.inj failed
      exact ⟨[], ty.base, .nil, rfl, .inl (Nat.zero_le _)⟩
  | succ room ih =>
      rw [leavesWithin] at failed
      split at failed
      · rename_i within
        obtain rfl := Except.error.inj failed
        exact ⟨[], ty.base, .nil, rfl, .inr (.inl within)⟩
      · obtain ⟨index, field, path, declared, taken, below⟩ := leavesOf_error failed
        obtain ⟨rest, target, chain, named, refused⟩ := ih below
        have declares := Ty.declares_base.1 (Ty.declares_of_getD declared)
        refine ⟨index :: rest, target, .cons declares taken chain, named, ?_⟩
        rcases refused with long | within | back
        · exact .inl (by simpa using long)
        · rcases List.mem_cons.1 within with first | within
          · exact .inr (.inr ⟨[], List.nil_prefix, by simp, first ▸ .nil⟩)
          · exact .inr (.inl within)
        · exact .inr (.inr (back.cons declares taken))

theorem leavesWithin_ne_ok_of_chain {room : Nat} {inside : List Ty} {ty target : Ty}
    {path above : Path} {leaves : List Leaf} (chain : ty.Chain Γ path target)
    (refused : room ≤ path.length ∨ target ∈ inside ∨ ty.ComesBack Γ path target) :
    leavesWithin Γ room inside ty.base above ≠ .ok leaves := by
  intro found
  induction chain generalizing room inside above leaves with
  | nil =>
      cases room with
      | zero => simp [leavesWithin] at found
      | succ room =>
          rcases refused with long | within | ⟨earlier, before, proper, -⟩
          · simp at long
          · rw [leavesWithin, if_pos within] at found
            simp at found
          · exact proper (List.prefix_nil.1 before)
  | @cons ty target index field rest declares taken _ ih =>
      obtain ⟨less, own, rfl, -, ownFound⟩ := mem_leavesWithin_of_declares declares found
      simp only [Field.leaves, Field.role_flattened_iff.2 taken] at ownFound
      refine ih ?_ ownFound
      rcases refused with long | within | back
      · exact .inl (by simpa using long)
      · exact .inr (.inl (List.mem_cons_of_mem _ within))
      · rcases back.cases declares with first | back
        · exact .inr (.inl (first ▸ List.mem_cons_self))
        · exact .inr (.inr back)

/-! ## Chains and what takes in what -/

namespace Ty

theorem TakesIn.of_fields {outer outer' inner : Ty} (takes : outer.TakesIn Γ inner)
    (same : outer.base.fields? Γ = outer'.base.fields? Γ) : outer'.TakesIn Γ inner := by
  obtain ⟨index, field, ⟨fields, record, declared⟩, taken, reached⟩ := takes
  exact ⟨index, field, ⟨fields, same ▸ record, declared⟩, taken, reached⟩

variable {ty target : Ty} {path : Path}

theorem Chain.reaches (chain : ty.Chain Γ path target) :
    ReflTransGen (TakesIn Γ) ty.base target := by
  induction chain with
  | nil => exact .refl
  | @cons ty target index field rest declares taken _ ih =>
      exact .head ⟨index, field, declares_base.2 declares, taken, rfl⟩ ih

theorem Chain.reaches_by_step (chain : ty.Chain Γ path target) (proper : path ≠ []) :
    TransGen (TakesIn Γ) ty.base target := by
  cases chain with
  | nil => exact absurd rfl proper
  | @cons _ _ index field rest declares taken inner =>
      exact .head' ⟨index, field, declares_base.2 declares, taken, rfl⟩ inner.reaches

theorem exists_chain_of_takesIn {outer inner : Ty} (takes : outer.TakesIn Γ inner) :
    ∃ index, outer.Chain Γ [index] inner := by
  obtain ⟨index, field, declares, taken, rfl⟩ := takes
  exact ⟨index, .cons declares taken .nil⟩

theorem exists_chain_of_reaches (reaches : ReflTransGen (TakesIn Γ) ty.base target) :
    ∃ path, ty.Chain Γ path target := by
  induction reaches with
  | refl => exact ⟨[], .nil⟩
  | tail _ takes ih =>
      obtain ⟨path, chain⟩ := ih
      obtain ⟨index, onward⟩ := exists_chain_of_takesIn takes
      exact ⟨path ++ [index], chain.append onward⟩

theorem exists_chain_of_reaches_by_step (reaches : TransGen (TakesIn Γ) ty.base target) :
    ∃ path, path ≠ [] ∧ ty.Chain Γ path target := by
  obtain ⟨before, reached, takes⟩ := TransGen.tail'_iff.1 reaches
  obtain ⟨path, chain⟩ := exists_chain_of_reaches reached
  obtain ⟨index, onward⟩ := exists_chain_of_takesIn takes
  exact ⟨path ++ [index], by simp, chain.append onward⟩

theorem ComesBack.reachesCycle (chain : ty.Chain Γ path target)
    (back : ty.ComesBack Γ path target) : ty.ReachesCycle Γ := by
  obtain ⟨earlier, ⟨rest, rfl⟩, proper, reached⟩ := back
  obtain ⟨mid, before, after⟩ := chain.split
  obtain rfl := before.unique reached
  have again := after.reaches_by_step fun nothing => proper (by simp [nothing])
  rw [reached.base_target] at again
  exact ⟨mid, chain.reaches, again⟩

theorem ReachesCycle.exists_comesBack (cycle : ty.ReachesCycle Γ) :
    ∃ path target, ty.Chain Γ path target ∧ ty.ComesBack Γ path target := by
  obtain ⟨inner, reaches, around⟩ := cycle
  obtain ⟨before, chain⟩ := exists_chain_of_reaches reaches
  rw [← chain.base_target] at around
  obtain ⟨rest, proper, onward⟩ := exists_chain_of_reaches_by_step around
  rw [chain.base_target] at onward
  exact ⟨before ++ rest, inner, chain.append onward, before, List.prefix_append before rest,
    by simpa using proper, chain⟩

end Ty

/-! ## As many levels as there are records -/

/-- The fields of the records that are declared. -/
def Catalogue.declarations (Γ : Catalogue) : List (List Field) :=
  (Γ.records.map (·.1)).dedup.map Γ.fields

theorem Catalogue.fields_mem_declarations {name : String} {field : Field}
    (member : field ∈ Γ.fields name) : Γ.fields name ∈ Γ.declarations :=
  List.mem_map_of_mem (List.mem_dedup.2 (Ty.declared_of_mem member))

namespace Ty

variable {ty target : Ty} {path : Path}

theorem Chain.met_declarations (chain : ty.Chain Γ path target) (acyclic : ¬ ty.ReachesCycle Γ) :
    ∃ met : List (List Field), met.length = path.length ∧ met.Nodup ∧ met ⊆ Γ.declarations ∧
      ∀ fields ∈ met, ∃ inner, ReflTransGen (TakesIn Γ) ty.base inner ∧
        inner.base.fields? Γ = some fields := by
  induction chain with
  | nil => exact ⟨[], rfl, List.nodup_nil, List.nil_subset _, by simp⟩
  | @cons ty target index field rest declares taken _ ih =>
      have first : ty.base.TakesIn Γ field.type.base :=
        ⟨index, field, declares_base.2 declares, taken, rfl⟩
      obtain ⟨met, length, distinct, declared, reached⟩ :=
        ih fun ⟨inner, reaches, cycle⟩ => acyclic ⟨inner, .head first reaches, cycle⟩
      obtain ⟨fields, record, atIndex⟩ := declares
      -- Who has the same fields takes in the record that the first field leads to.
      have fresh : fields ∉ met := by
        intro member
        obtain ⟨inner, reaches, same⟩ := reached fields member
        have again : inner.TakesIn Γ field.type.base :=
          first.of_fields (by rw [base_base, record, same])
        exact acyclic ⟨field.type.base, .single first, .tail' reaches again⟩
      refine ⟨fields :: met, by simp [length], List.nodup_cons.2 ⟨fresh, distinct⟩, ?_, ?_⟩
      · obtain ⟨name, rfl⟩ := fields?_mem record
        exact List.cons_subset.2
          ⟨Catalogue.fields_mem_declarations (List.mem_of_getElem? atIndex), declared⟩
      · intro other member
        rcases List.mem_cons.1 member with rfl | member
        · exact ⟨ty.base, .refl, by rw [base_base, record]⟩
        · obtain ⟨inner, reaches, same⟩ := reached other member
          exact ⟨inner, .head first reaches, same⟩

theorem Chain.length_le (chain : ty.Chain Γ path target) (acyclic : ¬ ty.ReachesCycle Γ) :
    path.length ≤ (Γ.records.map (·.1)).dedup.length := by
  obtain ⟨met, length, distinct, declared, -⟩ := chain.met_declarations acyclic
  have bound := (distinct.subperm declared).length_le
  rwa [length, Catalogue.declarations, List.length_map] at bound

/-- With as many levels as there are records, a chain is refused only where there is a cycle. -/
theorem exists_refusedChain_iff {depth : Nat}
    (enough : (Γ.records.map (·.1)).dedup.length ≤ depth) :
    (∃ path target, ty.RefusedChain Γ depth path target) ↔ ty.ReachesCycle Γ := by
  constructor
  · rintro ⟨path, target, chain, long | back⟩
    · by_contra acyclic
      exact absurd (chain.length_le acyclic) (by omega)
    · exact back.reachesCycle chain
  · intro cycle
    obtain ⟨path, target, chain, back⟩ := cycle.exists_comesBack
    exact ⟨path, target, chain, .inr back⟩

/-! ## Side by side -/

/-- Two fields of a record take in the same record. -/
def SideBySide (Γ : Catalogue) (owner : Ty) (i j : Nat) : Prop :=
  ∃ left right, owner.Declares Γ i left ∧ owner.Declares Γ j right ∧
    left.TakenIn Γ ∧ right.TakenIn Γ ∧ left.type.base = right.type.base

variable {owner : Ty} {above rest : Path} {i j : Nat}

theorem Chain.beside (siblings : owner.SideBySide Γ i j)
    (chain : owner.Chain Γ (j :: rest) target) : owner.Chain Γ (i :: rest) target := by
  obtain ⟨left, right, declaresLeft, declaresRight, takenLeft, -, same⟩ := siblings
  cases chain with
  | cons declares taken inner =>
      obtain rfl := declares.unique declaresRight
      exact .cons declaresLeft takenLeft (inner.of_base_eq same.symm)

theorem Chain.beside_below (way : ty.Chain Γ above owner) (siblings : owner.SideBySide Γ i j)
    (chain : ty.Chain Γ (above ++ j :: rest) target) :
    ty.Chain Γ (above ++ i :: rest) target := by
  obtain ⟨mid, before, after⟩ := chain.split
  obtain rfl := before.unique way
  exact way.append (after.beside siblings)

theorem ComesBack.beside_below (way : ty.Chain Γ above owner) (siblings : owner.SideBySide Γ i j)
    (back : ty.ComesBack Γ (above ++ j :: rest) target) :
    ty.ComesBack Γ (above ++ i :: rest) target := by
  obtain ⟨earlier, before, proper, reached⟩ := back
  rcases List.prefix_or_prefix_of_prefix before (List.prefix_append above (j :: rest)) with
    within | ⟨after, rfl⟩
  · refine ⟨earlier, within.trans (List.prefix_append ..), ?_, reached⟩
    rintro rfl
    exact absurd within.length_le (by simp)
  · cases after with
    | nil => exact ⟨above, List.prefix_append .., by simp, by simpa using reached⟩
    | cons next after =>
        obtain ⟨rfl, shorter⟩ :=
          List.cons_prefix_cons.1 ((List.prefix_append_right_inj above).1 before)
        refine ⟨above ++ i :: after, ?_, ?_, way.beside_below siblings reached⟩
        · exact (List.prefix_append_right_inj above).2 (List.cons_prefix_cons.2 ⟨rfl, shorter⟩)
        · simpa using proper

/-- Where two fields take in the same record, with a chain through one of them the one through the
    other is refused. -/
theorem RefusedChain.beside_below {depth : Nat} (way : ty.Chain Γ above owner)
    (siblings : owner.SideBySide Γ i j)
    (refused : ty.RefusedChain Γ depth (above ++ j :: rest) target) :
    ty.RefusedChain Γ depth (above ++ i :: rest) target := by
  obtain ⟨chain, long | back⟩ := refused
  · exact ⟨way.beside_below siblings chain, .inl (by simpa using long)⟩
  · exact ⟨way.beside_below siblings chain, .inr (back.beside_below way siblings)⟩

end Ty

namespace FieldTable

variable {ty : Ty} {depth : Nat}

theorem exists_refusedChain_of_error {error : RowError} (failed : build Γ ty depth = .error error) :
    ∃ path target, ty.RefusedChain Γ depth path target ∧
      error = .recursiveType (target.name Γ) := by
  cases record : ty.base.fields? Γ with
  | none => simp [build, record] at failed
  | some fields =>
      simp only [build, record] at failed
      cases found : leavesWithin Γ (depth + 1) [] ty.base [] with
      | ok leaves => simp [found, Except.map] at failed
      | error error' =>
          obtain rfl : error' = error := by simpa [found, Except.map] using failed
          obtain ⟨path, target, chain, named, long | within | back⟩ := exists_chain_of_error found
          · exact ⟨path, target, ⟨chain, .inl long⟩, named⟩
          · simp at within
          · exact ⟨path, target, ⟨chain, .inr back⟩, named⟩

theorem build_ne_ok_of_refusedChain {path : Path} {target : Ty} {table : FieldTable}
    (refused : ty.RefusedChain Γ depth path target) : build Γ ty depth ≠ .ok table := by
  intro built
  obtain ⟨chain, broken⟩ := refused
  by_cases record : ty.isRecord Γ
  · obtain ⟨leaves, found, -⟩ := leaves_of_build record built
    refine leavesWithin_ne_ok_of_chain chain ?_ found
    rcases broken with long | back
    · exact .inl long
    · exact .inr (.inr back)
  · cases chain with
    | nil =>
        rcases broken with long | ⟨earlier, before, proper, -⟩
        · simp at long
        · exact proper (List.prefix_nil.1 before)
    | cons declares =>
        obtain ⟨fields, seen, -⟩ := declares
        exact record (by simp [Ty.isRecord, seen])

theorem build_error_iff :
    (∃ error, build Γ ty depth = .error error) ↔
      ∃ path target, ty.RefusedChain Γ depth path target := by
  constructor
  · rintro ⟨error, failed⟩
    obtain ⟨path, target, refused, -⟩ := exists_refusedChain_of_error failed
    exact ⟨path, target, refused⟩
  · rintro ⟨path, target, refused⟩
    cases outcome : build Γ ty depth with
    | ok table => exact absurd outcome (build_ne_ok_of_refusedChain refused)
    | error error => exact ⟨error, rfl⟩

theorem build_recursiveType_iff :
    (∃ name, build Γ ty depth = .error (.recursiveType name)) ↔
      ∃ path target, ty.RefusedChain Γ depth path target := by
  rw [← build_error_iff]
  constructor
  · rintro ⟨name, failed⟩
    exact ⟨_, failed⟩
  · rintro ⟨error, failed⟩
    obtain ⟨-, target, -, rfl⟩ := exists_refusedChain_of_error failed
    exact ⟨target.name Γ, failed⟩

theorem build_mono {larger : Nat} {table : FieldTable} (built : build Γ ty depth = .ok table)
    (more : depth ≤ larger) : build Γ ty larger = .ok table := by
  cases record : ty.base.fields? Γ with
  | none => simpa [build, record] using built
  | some fields =>
      have isRecord : ty.isRecord Γ := by simp [Ty.isRecord, record]
      obtain ⟨leaves, found, rfl⟩ := leaves_of_build isRecord built
      cases outcome : build Γ ty larger with
      | error error =>
          obtain ⟨path, target, ⟨chain, long | back⟩, -⟩ := exists_refusedChain_of_error outcome
          · exact absurd built (build_ne_ok_of_refusedChain ⟨chain, .inl (by omega)⟩)
          · exact absurd built (build_ne_ok_of_refusedChain ⟨chain, .inr back⟩)
      | ok table =>
          obtain ⟨leaves', found', rfl⟩ := leaves_of_build isRecord outcome
          have walk := Walk.of_leavesWithin _ _ _ _ _ found
          rw [(Walk.of_leavesWithin _ _ _ _ _ found').unique walk]

/-- A record is refused exactly for a chain of more fields than the depth or for one that comes back,
    and the last record of such a chain is named. More depth changes no table, and with as much depth
    as there are declared records only a cycle is refused. No record is refused because two fields
    side by side take in the same one: a chain that avoids the second field is refused as well. -/
theorem build_by_chains (Γ : Catalogue) (ty : Ty) (depth : Nat) :
    ((∃ name, build Γ ty depth = .error (.recursiveType name)) ↔
        ∃ path target, ty.RefusedChain Γ depth path target) ∧
      (∀ error, build Γ ty depth = .error error →
        ∃ path target, ty.RefusedChain Γ depth path target ∧
          error = .recursiveType (target.name Γ)) ∧
      (∀ table larger, build Γ ty depth = .ok table → depth ≤ larger →
        build Γ ty larger = .ok table) ∧
      ((Γ.records.map (·.1)).dedup.length ≤ depth →
        ((∃ error, build Γ ty depth = .error error) ↔ ty.ReachesCycle Γ)) ∧
      ∀ above owner i j, ty.Chain Γ above owner → i ≠ j → owner.SideBySide Γ i j →
        (∃ error, build Γ ty depth = .error error) →
          ∃ path target, ty.RefusedChain Γ depth path target ∧ ¬ above ++ [j] <+: path := by
  refine ⟨build_recursiveType_iff, fun error => exists_refusedChain_of_error,
    fun table larger => build_mono,
    fun enough => build_error_iff.trans (Ty.exists_refusedChain_iff enough), ?_⟩
  intro above owner i j way different siblings failed
  obtain ⟨path, target, refused⟩ := build_error_iff.1 failed
  by_cases through : above ++ [j] <+: path
  · obtain ⟨rest, rfl⟩ := through
    rw [List.append_assoc, List.singleton_append] at refused
    refine ⟨above ++ i :: rest, target, refused.beside_below way siblings, fun within => ?_⟩
    have first := (List.prefix_append_right_inj above).1 within
    exact different (List.cons_prefix_cons.1 first).1.symm
  · exact ⟨path, target, refused, through⟩

/-- A trip between two places, each of which has a spot: two levels are enough, and one is not. -/
example :
    let Γ : Catalogue := { records := [
      ("trip", [⟨"From", .record "place", ",inline", true, false⟩,
        ⟨"To", .optional (.record "place"), ",inline", true, false⟩]),
      ("place", [⟨"spot", .boxed (.record "spot"), "", false, true⟩]),
      ("spot", [⟨"Code", .text, "", true, false⟩])] }
    build Γ (.record "trip") 2 = .ok ⟨[("code", [0, 0, 0])]⟩ ∧
      build Γ (.record "trip") 1 = .error (.recursiveType "spot") :=
  ⟨rfl, rfl⟩

end FieldTable

end SqlMarshal
