import SqlMarshal.Proofs.Bind.Spans

/-! # The order of a map

A map gives its entries in some order, and a hash map in any. For a name the last entry counts whose
key is the name in lower case. Keys that are different in the map may become one in lower case; then
the order decides which value is bound, unless they are equal. Where no two keys with different
values meet, the order makes no difference, neither to what is found by name nor to what is bound.
-/

namespace SqlMarshal

variable {entries left right : List (String × Param)} {key name : String} {value : Param}

/-- Keys that are the same in lower case have the same value. -/
def KeysAgree (entries : List (String × Param)) : Prop :=
  ∀ a ∈ entries, ∀ b ∈ entries, lower a.1 = lower b.1 → a.2 = b.2

theorem KeysAgree.of_perm (agree : KeysAgree entries) (perm : left.Perm entries) : KeysAgree left :=
  fun a inA b inB => agree a (perm.mem_iff.1 inA) b (perm.mem_iff.1 inB)

namespace Arguments

/-! ## What is found -/

theorem lookup_replaced (known : entries.any (·.1 == key) = true) :
    (entries.map fun entry => if entry.1 == key then (key, value) else entry).lookup key =
      some value := by
  induction entries with
  | nil => simp at known
  | cons head entries ih =>
      by_cases here : head.1 = key
      · simp [here]
      · have later := ih (by simpa [here] using known)
        have other : (key == head.1) = false := by simpa using Ne.symm here
        rw [List.map_cons, if_neg (by simpa using here), List.lookup_cons, other, later]

theorem lookup_replace_ne (other : name ≠ key) (entries : List (String × Param)) :
    (entries.map fun entry => if entry.1 == key then (key, value) else entry).lookup name =
      entries.lookup name := by
  have aside : (name == key) = false := by simpa using other
  induction entries with
  | nil => rfl
  | cons head entries ih =>
      by_cases here : head.1 = key
      · have passed : (name == head.1) = false := by rw [here, aside]
        rw [List.map_cons, if_pos (by simpa using here), List.lookup_cons, List.lookup_cons, aside,
          passed, ih]
      · rw [List.map_cons, if_neg (by simpa using here), List.lookup_cons, List.lookup_cons, ih]

theorem lookup_insert (entries : List (String × Param)) :
    (MapKind.ordered.insert key value entries).lookup name =
      if name = key then some value else entries.lookup name := by
  unfold MapKind.insert
  by_cases asked : name = key
  · subst asked
    by_cases known : entries.any (·.1 == name) = true
    · rw [if_pos known, lookup_replaced known, if_pos rfl]
    · have absent : entries.lookup name = none := by
        refine List.lookup_eq_none_iff.2 fun entry member => ?_
        have fresh := List.any_eq_false.1 (Bool.eq_false_iff.2 known) entry member
        exact bne_iff_ne.2 fun same => fresh (beq_iff_eq.2 same.symm)
      simp [known, List.lookup_append, absent]
  · have other : (name == key) = false := by simpa using asked
    by_cases known : entries.any (·.1 == key) = true
    · rw [if_pos known, lookup_replace_ne asked, if_neg asked]
    · simp [known, List.lookup_append, List.lookup_cons, other, asked]

/-- Of the entries whose keys are a name in lower case, the last one is found. -/
theorem get?_ofEntries (entries : List (String × Param)) (name : String) :
    (ofEntries entries).get? name =
      (entries.reverse.find? fun entry => lower entry.1 = lower name).map (·.2) := by
  induction entries using List.reverseRecOn with
  | nil => rfl
  | append_singleton entries last ih =>
      simp only [get?, ofEntries] at ih
      simp only [get?, ofEntries, List.foldl_append, List.foldl_cons, List.foldl_nil, lookup_insert,
        List.reverse_append, List.reverse_singleton, List.singleton_append, List.find?_cons]
      by_cases here : lower last.1 = lower name
      · simp [here]
      · simp [here, Ne.symm here, ih]

theorem get?_eq_some_iff (agree : KeysAgree entries) :
    (ofEntries entries).get? name = some value ↔
      ∃ key, (key, value) ∈ entries ∧ lower key = lower name := by
  rw [get?_ofEntries, Option.map_eq_some_iff]
  constructor
  · rintro ⟨⟨key, _⟩, found, rfl⟩
    exact ⟨key, List.mem_reverse.1 (List.mem_of_find?_eq_some found),
      by simpa using List.find?_some found⟩
  · rintro ⟨key, member, same⟩
    have some : (entries.reverse.find? fun entry => lower entry.1 = lower name).isSome :=
      List.find?_isSome.2 ⟨_, List.mem_reverse.2 member, by simpa using same⟩
    obtain ⟨last, found⟩ := Option.isSome_iff_exists.1 some
    have key' : lower last.1 = lower name := by simpa using List.find?_some found
    have among := List.mem_reverse.1 (List.mem_of_find?_eq_some found)
    exact ⟨last, found, agree last among (key, value) member (key'.trans same.symm)⟩

theorem get?_of_perm (agree : KeysAgree entries) (perm : left.Perm entries)
    (perm' : right.Perm entries) (name : String) :
    (ofEntries left).get? name = (ofEntries right).get? name := by
  refine Option.ext fun value => ?_
  rw [get?_eq_some_iff (agree.of_perm perm), get?_eq_some_iff (agree.of_perm perm')]
  simp only [(perm.trans perm'.symm).mem_iff]

theorem keysAgree_of_anyOrder
    (anyOrder : ∀ left right, left.Perm entries → right.Perm entries →
      ∀ name, (ofEntries left).get? name = (ofEntries right).get? name) : KeysAgree entries := by
  have last : ∀ entry ∈ entries, ∃ others, (others ++ [entry]).Perm entries ∧
      ∀ name, lower entry.1 = lower name →
        (ofEntries (others ++ [entry])).get? name = some entry.2 := by
    intro entry member
    obtain ⟨before, after, rfl⟩ := List.append_of_mem member
    refine ⟨before ++ after, ?_, fun name same => ?_⟩
    · rw [List.append_assoc]
      exact (List.perm_append_singleton entry after).append_left before
    · simp [get?_ofEntries, same]
  intro a inA b inB same
  obtain ⟨othersA, permA, foundA⟩ := last a inA
  obtain ⟨othersB, permB, foundB⟩ := last b inB
  have met := anyOrder _ _ permA permB b.1
  rw [foundA b.1 same, foundB b.1 rfl] at met
  exact Option.some.inj met

end Arguments

/-! ## What is bound -/

theorem expandSegments_congr {arguments arguments' : Arguments}
    (same : ∀ name, arguments.get? name = arguments'.get? name) (segs : List Segment) :
    expandSegments arguments segs = expandSegments arguments' segs := by
  induction segs with
  | nil => rfl
  | cons segment rest ih =>
      cases segment with
      | copy text => simp only [expandSegments, ih]
      | parameter name => simp only [expandSegments, same, ih]

namespace Statement

theorem bind_map (Γ : Catalogue) (query : String) (dialect : Dialect) (kind : MapKind)
    (entries : List (String × Param)) :
    bind Γ query dialect [.map kind entries] =
      (piecesOf query.toList).bind fun found =>
        if (segments found).any Segment.isParameter then
          (expandSegments (Arguments.ofEntries entries) (segments found)).bind fun expansion =>
            (markText dialect expansion.text).bind fun text =>
              .ok ⟨String.ofList text, expansion.arguments⟩
        else .ok ⟨query, []⟩ := by
  have bindable : (Param.map kind entries).isBindable Γ = true := by
    simp [Param.isBindable, Param.info, TypeInfo.peel]
  rw [bind_of_isBindable bindable]
  rfl

theorem bind_of_perm (agree : KeysAgree entries) (perm : left.Perm entries)
    (perm' : right.Perm entries) (Γ : Catalogue) (query : String) (dialect : Dialect)
    (kind : MapKind) :
    bind Γ query dialect [.map kind left] = bind Γ query dialect [.map kind right] := by
  have same := expandSegments_congr (Arguments.get?_of_perm agree perm perm')
  simp only [bind_map, same]

/-- The order of a map makes no difference to what is found by name just if keys that meet in lower
    case have the same value, and then it makes none to what is bound. -/
theorem bind_anyOrder (Γ : Catalogue) (kind : MapKind) (entries : List (String × Param)) :
    (KeysAgree entries ↔ ∀ left right, left.Perm entries → right.Perm entries →
      ∃ one other, Arguments.build Γ (.map kind left) = .ok one ∧
        Arguments.build Γ (.map kind right) = .ok other ∧
        ∀ name, one.get? name = other.get? name) ∧
    (KeysAgree entries → ∀ left right, left.Perm entries → right.Perm entries →
      ∀ query dialect, bind Γ query dialect [.map kind left] =
        bind Γ query dialect [.map kind right]) := by
  refine ⟨⟨fun agree left right perm perm' => ?_, fun anyOrder => ?_⟩,
    fun agree left right perm perm' query dialect => ?_⟩
  · exact ⟨_, _, rfl, rfl, Arguments.get?_of_perm agree perm perm'⟩
  · refine Arguments.keysAgree_of_anyOrder fun left right perm perm' => ?_
    obtain ⟨_, _, ⟨⟩, ⟨⟩, same⟩ := anyOrder left right perm perm'
    exact same
  · exact bind_of_perm agree perm perm' Γ query dialect kind

/-- Two keys of a map that differ in case only, and in their values. -/
theorem bind_in_two_orders :
    let one : Param := .datum (.int .w64) (.whole 1)
    let two : Param := .datum (.int .w64) (.whole 2)
    let left := [("A", one), ("a", two)]
    let right := [("a", two), ("A", one)]
    right.Perm left ∧ (left.map (·.1)).Nodup ∧ one ≠ two ∧
      Arguments.build {} (.map .hashed left) = .ok (.ofEntries left) ∧
      Arguments.build {} (.map .hashed right) = .ok (.ofEntries right) ∧
      (Arguments.ofEntries left).get? "a" = some two ∧
      (Arguments.ofEntries right).get? "a" = some one ∧
      bind {} ":a" .dollar [.map .hashed left] = .ok ⟨"$1", [two]⟩ ∧
      bind {} ":a" .dollar [.map .hashed right] = .ok ⟨"$1", [one]⟩ := by
  intro one two left right
  have different : one ≠ two := by simp [one, two]
  exact ⟨.swap .., by decide, different, rfl, rfl, by cbv, by cbv, by cbv, by cbv⟩

end Statement

end SqlMarshal
