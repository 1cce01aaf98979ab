import Mathlib.Logic.Function.Iterate
import SqlMarshal.Proofs.Query.CountingScanner

/-! # Scanners in use

A scanner may be called in any order, and also when it has met a region without an end. It never goes
back and never leaves the query, and the byte that it stands at is always the first one behind the
characters that it has passed. A region that it tells lies between two such places, so its bytes are
those of the characters gone over. A scanner that only counts is in step with it all the time.

To go over a region where one is told, and over one character where none is, takes a scanner forward
in every round. So this comes to the end of the query after at most one round for each character, if
errors are passed over; and if it stops at an error, it does no more rounds.
-/

namespace SqlMarshal

/-- What a scanner can be called for. -/
inductive ScannerCall where
  | advance
  | jump (count : Nat)
  | peek (ahead : Nat)
  | skip
  deriving DecidableEq, Repr

/-- What a scanner answers. -/
inductive ScannerAnswer where
  | moved
  | character (c : Char)
  | region (found : Except QueryError (Option (Nat × Nat)))

namespace Scanner

def call (s : Scanner) : ScannerCall → ScannerAnswer × Scanner
  | .advance => (.moved, s.advance)
  | .jump count => (.moved, s.jump count)
  | .peek ahead => (.character (s.peek ahead), s)
  | .skip => (.region s.skip.1, s.skip.2)

/-- Where calls one after the other take a scanner. -/
def used (s : Scanner) : List ScannerCall → Scanner
  | [] => s
  | call :: rest => (s.call call).2.used rest

/-- One round of going over a region where one is told, and else over one character. -/
def round (s : Scanner) : Scanner :=
  match s.skip with
  | (.ok (some _), next) => next
  | (_, next) => next.advance

end Scanner

namespace CountingScanner

def call (s : CountingScanner) : ScannerCall → ScannerAnswer × CountingScanner
  | .advance => (.moved, s.advance)
  | .jump count => (.moved, s.jump count)
  | .peek ahead => (.character (s.peek ahead), s)
  | .skip => (.region s.skip.1, s.skip.2)

def used (s : CountingScanner) : List ScannerCall → CountingScanner
  | [] => s
  | call :: rest => (s.call call).2.used rest

end CountingScanner

namespace Scanner

variable {query : String} {s next last : Scanner}

/-! ## One call -/

theorem position_le_jump (s : Scanner) (count : Nat) : s.position ≤ (s.jump count).position := by
  simp [jump, position]

theorem position_le_skip (s : Scanner) : s.position ≤ s.skip.2.position := by
  rw [skip]
  split
  · exact Nat.le_refl _
  · exact s.position_le_jump _
  · exact Nat.le_refl _
  · exact s.position_le_jump _

theorem position_le_call (s : Scanner) (call : ScannerCall) :
    s.position ≤ (s.call call).2.position := by
  cases call with
  | advance => exact s.position_le_jump 1
  | jump count => exact s.position_le_jump count
  | peek ahead => exact Nat.le_refl _
  | skip => exact s.position_le_skip

theorem StandsIn.call (stands : s.StandsIn query) (call : ScannerCall) :
    (s.call call).2.StandsIn query := by
  cases call with
  | advance => exact stands.jump 1
  | jump count => exact stands.jump count
  | peek ahead => exact stands
  | skip => exact stands.skip

theorem skip_of_call {call : ScannerCall} {found : Except QueryError (Option (Nat × Nat))}
    (called : s.call call = (.region found, next)) : s.skip = (found, next) := by
  cases call with
  | skip =>
      obtain ⟨told, rfl⟩ := Prod.mk.inj called
      exact Prod.ext (ScannerAnswer.region.inj told) rfl
  | _ => simp [Scanner.call] at called

theorem eq_of_skip_none (stays : s.skip = (.ok none, next)) : next = s := by
  rcases s.skip_cases with ⟨cut, -, skipped⟩ | ⟨-, same⟩ | ⟨region, -, failed⟩
  · simp [skipped] at stays
  · exact (Prod.mk.inj (stays.symm.trans same)).2
  · simp [stays] at failed

theorem call_counted (stands : s.StandsIn query) (call : ScannerCall) :
    (s.counted query).call call = ((s.call call).1, (s.call call).2.counted query) := by
  cases call with
  | advance => simp only [CountingScanner.call, Scanner.call, advance_counted stands]
  | jump count => simp only [CountingScanner.call, Scanner.call, jump_counted stands]
  | peek ahead => simp only [CountingScanner.call, Scanner.call, peek_counted stands]
  | skip => simp only [CountingScanner.call, Scanner.call, skip_counted stands]

/-! ## Where a scanner stands -/

section Stands

variable (stands : s.StandsIn query)
include stands

theorem position_add_length : s.position + s.after.length = query.length := by
  rw [← String.length_toList, stands, List.length_append, List.length_reverse, position]

theorem take_position : query.toList.take s.position = s.before.reverse := by
  rw [stands, position, ← List.length_reverse, List.take_left]

theorem offset_eq_size : s.offset = Utf8.size (query.toList.take s.position) := by
  rw [take_position stands, Utf8.size_reverse, offset]

theorem isBoundary_offset : Utf8.IsBoundary query s.offset := by
  rw [offset, ← Utf8.size_reverse]
  exact Utf8.isBoundary_of_append stands

theorem skip_told {start stop : Nat} (told : s.skip = (.ok (some (start, stop)), next)) :
    start = s.offset ∧ stop = next.offset ∧ start < stop ∧
      Utf8.slice query start stop =
        Utf8.encode (String.ofList ((query.toList.take next.position).drop s.position)) := by
  rcases s.skip_cases with ⟨cut, opens, skipped⟩ | ⟨-, stays⟩ | ⟨region, -, failed⟩
  · obtain ⟨range, rfl⟩ := Prod.mk.inj (told.symm.trans skipped)
    obtain ⟨rfl, rfl⟩ : start = s.offset ∧ stop = s.offset + Utf8.size cut.1 := by simpa using range
    obtain ⟨c, others, inside⟩ := List.exists_cons_of_ne_nil (Region.cut?_split opens).2
    have wide := c.utf8Size_pos
    have passed : (query.toList.take
        (⟨cut.1.reverse ++ s.before, cut.2⟩ : Scanner).position).drop s.position = cut.1 := by
      rw [take_position (stands.behind (Region.cut?_split opens).1.symm), position]
      simp
    refine ⟨rfl, (offset_behind cut.1 cut.2).symm, ?_, ?_⟩
    · rw [inside, Utf8.size]
      omega
    · rw [passed]
      exact region_bytes stands opens
  · simp [stays] at told
  · simp [told] at failed

end Stands

theorem StandsIn.used (stands : s.StandsIn query) (calls : List ScannerCall) :
    (s.used calls).StandsIn query := by
  induction calls generalizing s with
  | nil => exact stands
  | cons call rest ih => exact ih (stands.call call)

theorem used_counted (stands : s.StandsIn query) (calls : List ScannerCall) :
    (s.counted query).used calls = (s.used calls).counted query := by
  induction calls generalizing s with
  | nil => rfl
  | cons call rest ih =>
      rw [CountingScanner.used, call_counted stands, ih (stands.call call), used]

/-! ## Rounds -/

theorem length_skip_le (s : Scanner) : s.skip.2.after.length ≤ s.after.length := by
  rw [skip]
  split
  · exact Nat.le_refl _
  · exact s.length_jump _
  · exact Nat.le_refl _
  · exact s.length_jump _

/-- A round takes the scanner forward, unless there is no character left. -/
theorem length_round (s : Scanner) : s.round.after.length ≤ s.after.length - 1 := by
  rcases skipped : s.skip with ⟨error | _ | range, next⟩
  · have shorter : next.after.length ≤ s.after.length := by
      simpa only [skipped] using s.length_skip_le
    simp only [round, skipped, advance, jump, List.length_drop]
    omega
  · have shorter : next.after.length ≤ s.after.length := by
      simpa only [skipped] using s.length_skip_le
    simp only [round, skipped, advance, jump, List.length_drop]
    omega
  · have told := length_skip skipped
    simp only [round, skipped]
    omega

theorem atEnd_iterate_round (s : Scanner) : (round^[s.after.length] s).atEnd := by
  have left (rounds : Nat) : (round^[rounds] s).after.length ≤ s.after.length - rounds := by
    induction rounds with
    | zero => exact Nat.le_refl _
    | succ rounds ih =>
        have shorter := (round^[rounds] s).length_round
        rw [Function.iterate_succ_apply']
        omega
  have none := left s.after.length
  rw [Nat.sub_self, Nat.le_zero, List.length_eq_zero_iff] at none
  rw [atEnd, none]
  rfl

theorem Passes.length_lt {piece : Piece} (passes : Passes query s piece next) :
    next.after.length < s.after.length := by
  cases passes with
  | region skipped bytes => exact length_skip skipped
  | @bare here inside stays =>
      obtain ⟨c, rest, after⟩ := List.exists_cons_of_ne_nil (by simpa [atEnd] using inside)
      have shorter := s.length_round
      have positive := congrArg List.length after
      simp only [round, stays] at shorter
      rw [List.length_cons] at positive
      omega

theorem TakesApart.length_le {found : List Piece} (apart : TakesApart query s found last) :
    found.length ≤ s.after.length := by
  induction apart with
  | here => exact Nat.zero_le _
  | further passes _ ih => exact Nat.succ_le_of_lt (Nat.lt_of_le_of_lt ih passes.length_lt)

/-- However a scanner has been called, it stands inside the query, at the byte behind the characters
    that it has passed, and so does one that only counts. Each further call takes it on and not back,
    and is answered by both alike; a region that is told is a part of the query with at least one
    character, and where none is told the scanner stays. In a loop that goes over a region or else over
    a character it has at most one round for each character that is left. -/
theorem calls_in_step (query : String) (calls : List ScannerCall) :
    let s := (start query).used calls
    let counting := (CountingScanner.start query).used calls
    (s.position ≤ query.length ∧ s.offset = Utf8.size (query.toList.take s.position) ∧
      Utf8.IsBoundary query s.offset) ∧
    (counting.position = s.position ∧ counting.offset = s.offset) ∧
    (∀ (call : ScannerCall) (answer : ScannerAnswer) (next : Scanner),
      s.call call = (answer, next) →
      s.position ≤ next.position ∧
      counting.call call = (answer, ⟨query, next.position⟩) ∧
      (answer = .region (.ok none) → next.position = s.position) ∧
      ∀ start stop, answer = .region (.ok (some (start, stop))) →
        start = s.offset ∧ stop = next.offset ∧ start < stop ∧
        Utf8.IsBoundary query start ∧ Utf8.IsBoundary query stop ∧
        Utf8.slice query start stop =
          Utf8.encode (String.ofList ((query.toList.take next.position).drop s.position))) ∧
    (∃ rounds ≤ query.length - s.position, (round^[rounds] s).atEnd) ∧
    ∃ found last, TakesApart query s found last ∧ found.length ≤ query.length - s.position ∧
      (last.atEnd ∨ ∃ error, last.skip.1 = .error error) := by
  intro s counting
  have stands : s.StandsIn query := (start_standsIn query).used calls
  have counted : counting = s.counted query := used_counted (start_standsIn query) calls
  have left : query.length - s.position = s.after.length := by
    rw [← position_add_length stands, Nat.add_sub_cancel_left]
  refine ⟨⟨?_, offset_eq_size stands, isBoundary_offset stands⟩, ⟨?_, ?_⟩, ?_, ?_, ?_⟩
  · rw [← position_add_length stands]
    exact Nat.le_add_right ..
  · rw [counted, Scanner.counted]
  · rw [counted, offset_counted stands]
  · intro call answer next called
    have standsOn : next.StandsIn query := by
      simpa only [called] using stands.call call
    refine ⟨?_, ?_, ?_, ?_⟩
    · simpa only [called] using s.position_le_call call
    · rw [counted, call_counted stands, called]
      rfl
    · rintro rfl
      rw [eq_of_skip_none (skip_of_call called)]
    · rintro start stop rfl
      obtain ⟨rfl, rfl, less, bytes⟩ := skip_told stands (skip_of_call called)
      exact ⟨rfl, rfl, less, isBoundary_offset stands, isBoundary_offset standsOn, bytes⟩
  · exact ⟨s.after.length, left.ge, atEnd_iterate_round s⟩
  · obtain ⟨found, last, apart, ends⟩ := exists_takesApart stands
    exact ⟨found, last, apart, left ▸ apart.length_le, ends⟩

end Scanner

end SqlMarshal
