import Reckon.Proofs.Token.Lossless

set_option autoImplicit false

/-!
# Positions on their lines

The line of a position is the stretch between the newlines around it, and its column counts the
characters of this line in front of it.
-/

namespace Reckon

namespace Text

open Scan

variable {front left right line rest : List Char}

structure OnLine (front left right rest : List Char) : Prop where
  line : '\n' ∉ left ++ right
  starts : front = [] ∨ front.getLast? = some '\n'
  ends : rest = [] ∨ rest.head? = some '\n'

theorem exists_onLine (before after : List Char) :
    ∃ front left right rest, before = front ++ left ∧ after = right ++ rest ∧ OnLine front left right rest := by
  refine ⟨(before.reverse.dropWhile (· ≠ '\n')).reverse, (before.reverse.takeWhile (· ≠ '\n')).reverse,
    after.takeWhile (· ≠ '\n'), after.dropWhile (· ≠ '\n'), ?_, ?_, ?_, ?_, dropWhile_newline after⟩
  · rw [← List.reverse_append, List.takeWhile_append_dropWhile, List.reverse_reverse]
  · rw [List.takeWhile_append_dropWhile]
  · simpa only [List.mem_append, List.mem_reverse, not_or] using
      ⟨newline_notMem_takeWhile before.reverse, newline_notMem_takeWhile after⟩
  · simpa only [List.reverse_eq_nil_iff, List.getLast?_reverse] using dropWhile_newline before.reverse

theorem head?_lines (unmarked : '\n' ∉ line) (ends : rest = [] ∨ rest.head? = some '\n') :
    (lines (line ++ rest)).head? = some line := by
  induction line with
  | nil =>
    cases rest with
    | nil => rfl
    | cons c more =>
      obtain rfl : c = '\n' := by simpa using ends
      rw [List.nil_append, lines, pieces_cons, if_pos rfl]
      rfl
  | cons c more ih =>
    obtain ⟨other, unmarked⟩ := List.ne_and_not_mem_of_not_mem_cons unmarked
    rw [List.cons_append, lines, pieces_cons, if_neg (Ne.symm other)]
    have found := ih unmarked
    rw [lines] at found
    cases same : pieces '\n' (more ++ rest) with
    | nil => exact absurd same (pieces_ne_nil _ _)
    | cons first others =>
      rw [same] at found
      cases found
      rfl

theorem getElem?_lines (starts : front = [] ∨ front.getLast? = some '\n') (unmarked : '\n' ∉ line)
    (ends : rest = [] ∨ rest.head? = some '\n') :
    (lines (front ++ (line ++ rest)))[front.count '\n']? = some line := by
  induction front with
  | nil => rw [List.nil_append, List.count_nil, ← List.head?_eq_getElem?, head?_lines unmarked ends]
  | cons c more ih =>
    rw [List.cons_append, lines, pieces_cons, ← lines]
    by_cases newline : c = '\n'
    · subst newline
      have starts : more = [] ∨ more.getLast? = some '\n' := by
        cases more with
        | nil => exact .inl rfl
        | cons second others => simpa [List.getLast?_cons_cons] using starts
      rw [if_pos rfl, List.count_cons_self, List.getElem?_cons_succ, ih starts]
    · -- The first line is longer by a character, and the one looked for comes after it.
      have starts : more.getLast? = some '\n' := by
        cases more with
        | nil => simp [newline] at starts
        | cons second others => simpa [List.getLast?_cons_cons] using starts
      have later : 0 < more.count '\n' := List.count_pos_iff.2 (List.mem_of_getLast? starts)
      have found := ih (.inr starts)
      rw [if_neg newline, List.count_cons_of_ne newline]
      obtain ⟨count, same⟩ : ∃ count, more.count '\n' = count + 1 := ⟨_, (Nat.succ_pred_eq_of_pos later).symm⟩
      rw [same] at found ⊢
      cases all : lines (more ++ (line ++ rest)) with
      | nil => exact absurd all (lines_ne_nil _)
      | cons first others =>
        rw [all] at found
        exact found

theorem OnLine.length_le {spelling : List Char} (on : OnLine front left right rest) (unmarked : '\n' ∉ spelling)
    (ahead : spelling <+: right ++ rest) : spelling.length ≤ right.length := by
  have own : ∀ c ∈ spelling, decide (c ≠ '\n') = true := by
    intro c member
    exact decide_eq_true fun same => unmarked (same ▸ member)
  have inside : ∀ c ∈ right, decide (c ≠ '\n') = true := by
    intro c member
    exact decide_eq_true fun same => on.line (List.mem_append_right _ (same ▸ member))
  have stops : rest.takeWhile (· ≠ '\n') = [] := by
    cases rest with
    | nil => rfl
    | cons c more =>
      obtain rfl : c = '\n' := by simpa using on.ends
      rfl
  have short := (prefix_takeWhile own ahead).length_le
  rwa [List.takeWhile_append_of_pos inside, stops, List.append_nil] at short

end Text

namespace Position

variable {spelling : List Char}

theorem line_after (p : Position) (spelling : List Char) : (p.after spelling).line = p.line + spelling.count '\n' := by
  induction spelling generalizing p with
  | nil => rfl
  | cons c rest ih =>
    rw [after_cons, ih, List.count_cons]
    by_cases newline : c = '\n' <;> simp [next, newline]
    omega

theorem column_after (p : Position) (unmarked : '\n' ∉ spelling) :
    (p.after spelling).column = p.column + spelling.length := by
  induction spelling generalizing p with
  | nil => rfl
  | cons c rest ih =>
    obtain ⟨other, unmarked⟩ := List.ne_and_not_mem_of_not_mem_cons unmarked
    rw [after_cons, ih _ unmarked, List.length_cons]
    simp only [next, if_neg (Ne.symm other)]
    omega

theorem column_after_newline (p : Position) (ends : spelling.getLast? = some '\n') :
    (p.after spelling).column = 0 := by
  obtain ⟨before, rfl⟩ := List.getLast?_eq_some_iff.1 ends
  rw [after_append]
  rfl

end Position

open Text

variable {source : Source} {front left right rest : List Char}

theorem position_parts (text : source.text.toList = front ++ right) :
    source.position front.length = (Position.start source).after front := by
  rw [Source.position, text, List.take_left]

theorem position_onLine (text : source.text.toList = front ++ left ++ (right ++ rest))
    (on : OnLine front left right rest) :
    (source.position (front ++ left).length).line = front.count '\n' + 1 ∧
      (source.position (front ++ left).length).column = left.length ∧
      (source.position (front ++ left).length).lineText? = some (left ++ right) := by
  have flat : '\n' ∉ left := fun member => on.line (List.mem_append_left _ member)
  have line : ((Position.start source).after (front ++ left)).line = front.count '\n' + 1 := by
    rw [Position.line_after, List.count_append, List.count_eq_zero_of_not_mem flat]
    exact Nat.add_comm 1 _
  have column : ((Position.start source).after (front ++ left)).column = left.length := by
    rw [Position.after_append, Position.column_after _ flat]
    rcases on.starts with rfl | ends
    · exact Nat.zero_add _
    · rw [Position.column_after_newline _ ends, Nat.zero_add]
  have found := getElem?_lines on.starts on.line on.ends
  rw [position_parts text]
  refine ⟨line, column, ?_⟩
  rw [Position.lineText?, line, Position.source_after]
  have parts : source.text.toList = front ++ (left ++ right ++ rest) := by simp [text]
  change (lines source.text.toList)[front.count '\n']? = _
  rw [parts, found]

end Reckon
