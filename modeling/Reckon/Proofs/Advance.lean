import Reckon.Proofs.Lines

set_option autoImplicit false

/-!
# Advancing through a text

A position that is advanced from the start of a text is the place that its index says: its line, its column and its
bytes are those of the characters in front of it, and what it reads behind these bytes is the character it stands at.
-/

namespace Reckon

namespace Text

variable {before after : List Char}

def byteLength : List Char → Nat
  | [] => 0
  | c :: rest => c.utf8Size + byteLength rest

def behindBytes? (text : String) (bytes : Nat) : Option (List Char) :=
  if boundary : String.Pos.Raw.IsValid text ⟨bytes⟩ then some (text.sliceFrom ⟨⟨bytes⟩, boundary⟩).copy.toList
  else none

@[simp]
theorem byteLength_cons (c : Char) (rest : List Char) : byteLength (c :: rest) = c.utf8Size + byteLength rest := rfl

theorem utf8ByteSize_ofList (text : List Char) : (String.ofList text).utf8ByteSize = byteLength text := by
  induction text with
  | nil => rfl
  | cons c rest ih => simp [String.ofList_cons, ih]

theorem behindBytes?_append (before after : List Char) :
    behindBytes? (String.ofList (before ++ after)) (byteLength before) = some after := by
  have splits : String.ofList (before ++ after) = String.ofList before ++ String.ofList after := String.ofList_append
  have ends : (⟨byteLength before⟩ : String.Pos.Raw) = (String.ofList before).rawEndPos := by
    rw [← utf8ByteSize_ofList]
    rfl
  have boundary : String.Pos.Raw.IsValid (String.ofList (before ++ after)) ⟨byteLength before⟩ :=
    String.Pos.Raw.isValid_iff_exists_append.2 ⟨_, _, splits, ends⟩
  let place : (String.ofList (before ++ after)).Pos := ⟨⟨byteLength before⟩, boundary⟩
  have parts : place.Splits (String.ofList before) (String.ofList after) := ⟨splits, ends⟩
  rw [behindBytes?, dif_pos boundary]
  have same := place.splits.eq_right parts
  change some (String.sliceFrom _ place).copy.toList = _
  rw [same, String.toList_ofList]

end Text

namespace Position

variable {source : Source} {p : Position}

/-- The character behind the bytes in front of a position, none at the end of the text. Nothing is read where these
bytes end inside a character. -/
def read? (p : Position) : Option (Option Char) :=
  (Text.behindBytes? p.source.text p.offset).map List.head?

def readOn? (p : Position) : Option (Option Char × Position) := do
  match ← p.read? with
  | none => return (none, p)
  | some c =>
    let next := p.next c
    return (← next.read?, next)

def readTimes? (p : Position) : Nat → Option Position
  | 0 => some p
  | n + 1 => (p.readTimes? n).bind fun q => q.readOn?.map Prod.snd

/-- The position is the place in the text that its index says. -/
structure Coherent (p : Position) : Prop where
  inside : p.index ≤ p.source.text.toList.length
  bytes : p.offset = Text.byteLength (p.source.text.toList.take p.index)
  behind : Text.behindBytes? p.source.text p.offset = some (p.source.text.toList.drop p.index)
  line : p.line = 1 + (p.source.text.toList.take p.index).count '\n'
  column : p.column = ((p.source.text.toList.take p.index).reverse.takeWhile (· ≠ '\n')).length
  current : p.current? = p.source.text.toList[p.index]?
  ends : p.current? = none ↔ p.index = p.source.text.toList.length
  moves : p.advance.index = min (p.index + 1) p.source.text.toList.length
  stays : p.current? = none → p.advance = p
  read : p.read? = some p.current?
  readOn : p.readOn? = some (p.advance.current?, p.advance)
  shown : ∃ text, p.lineText? = some text ∧ p.column ≤ text.length ∧ text[p.column]? = p.current?.filter (· ≠ '\n')

theorem offset_after (p : Position) (spelling : List Char) :
    (p.after spelling).offset = p.offset + Text.byteLength spelling := by
  induction spelling generalizing p with
  | nil => rfl
  | cons c rest ih =>
    rw [after_cons, ih, Text.byteLength_cons, ← Nat.add_assoc]
    rfl

end Position

section Places

variable (source : Source) (n : Nat)

theorem source_position : (source.position n).source = source :=
  Position.source_after _ _

theorem index_position : (source.position n).index = min n source.text.toList.length := by
  rw [Source.position, Position.index_after, List.length_take]
  exact Nat.zero_add _

theorem position_index : source.position (source.position n).index = source.position n := by
  rw [index_position, Source.position, ← List.take_eq_take_min]
  rfl

theorem offset_position : (source.position n).offset = Text.byteLength (source.text.toList.take n) := by
  rw [Source.position, Position.offset_after]
  exact Nat.zero_add _

theorem current?_position : (source.position n).current? = source.text.toList[n]? := by
  rw [Position.current?, source_position, index_position]
  rcases Nat.le_total n source.text.toList.length with inside | ended
  · rw [Nat.min_eq_left inside]
  · rw [Nat.min_eq_right ended, List.getElem?_eq_none (Nat.le_refl _), List.getElem?_eq_none ended]

theorem position_succ : source.position (n + 1) = (source.position n).after source.text.toList[n]?.toList := by
  rw [Source.position, List.take_add_one, Position.after_append]
  rfl

theorem advance_position : (source.position n).advance = source.position (n + 1) := by
  rw [Position.advance, current?_position, position_succ]
  cases source.text.toList[n]? <;> rfl

theorem advanceBy_start : (Position.start source).advanceBy n = source.position n := by
  induction n with
  | zero => rfl
  | succ n ih =>
    change Position.advance ((Position.start source).advanceBy n) = _
    rw [ih, advance_position]

theorem behindBytes?_position :
    Text.behindBytes? source.text (source.position n).offset = some (source.text.toList.drop n) := by
  have whole : source.text = String.ofList (source.text.toList.take n ++ source.text.toList.drop n) := by
    rw [List.take_append_drop, String.ofList_toList]
  have behind := Text.behindBytes?_append (source.text.toList.take n) (source.text.toList.drop n)
  rwa [← whole, ← offset_position] at behind

theorem read?_position : (source.position n).read? = some (source.position n).current? := by
  rw [Position.read?, source_position, behindBytes?_position, current?_position, Option.map_some, List.head?_drop]

theorem readOn?_position : (source.position n).readOn? =
    some ((source.position n).advance.current?, (source.position n).advance) := by
  have next := read?_position source (n + 1)
  rw [← advance_position] at next
  rw [Position.readOn?, read?_position]
  cases found : (source.position n).current? with
  | none =>
    have same : (source.position n).advance = source.position n := by rw [Position.advance, found]
    rw [same, found]
    rfl
  | some c =>
    have moved : (source.position n).advance = (source.position n).next c := by rw [Position.advance, found]
    rw [moved] at next ⊢
    change (do return (← ((source.position n).next c).read?, (source.position n).next c)) = _
    rw [next]
    rfl

theorem readTimes?_start : (Position.start source).readTimes? n = some (source.position n) := by
  induction n with
  | zero => rfl
  | succ n ih =>
    rw [Position.readTimes?, ih, Option.bind_some, readOn?_position, Option.map_some, advance_position]

end Places

variable {source : Source} {n : Nat}

theorem takeWhile_reverse_line {front left : List Char} (starts : front = [] ∨ front.getLast? = some '\n')
    (flat : '\n' ∉ left) : (front ++ left).reverse.takeWhile (· ≠ '\n') = left.reverse := by
  have inside : ∀ c ∈ left.reverse, decide (c ≠ '\n') = true := by
    intro c member
    exact decide_eq_true fun same => flat (same ▸ List.mem_reverse.1 member)
  rw [List.reverse_append, List.takeWhile_append_of_pos inside]
  rcases starts with rfl | ends
  · simp
  · obtain ⟨before, rfl⟩ := List.getLast?_eq_some_iff.1 ends
    simp

theorem getElem?_line {left right rest : List Char} (flat : '\n' ∉ left ++ right)
    (ends : rest = [] ∨ rest.head? = some '\n') :
    (left ++ right)[left.length]? = (right ++ rest).head?.filter (· ≠ '\n') := by
  rw [List.getElem?_append_right (Nat.le_refl _), Nat.sub_self, ← List.head?_eq_getElem?]
  cases right with
  | nil =>
    rcases ends with rfl | newline
    · rfl
    · rw [List.nil_append, newline]
      rfl
  | cons c more =>
    have other : c ≠ '\n' := fun same => flat (by simp [same])
    simp [Option.filter, other]

theorem coherent_position (inside : n ≤ source.text.toList.length) : (source.position n).Coherent := by
  have index : (source.position n).index = n := by rw [index_position, Nat.min_eq_left inside]
  have whole := List.take_append_drop n source.text.toList
  obtain ⟨front, left, right, rest, before, after, on⟩ :=
    Text.exists_onLine (source.text.toList.take n) (source.text.toList.drop n)
  have flat : '\n' ∉ left := fun member => on.line (List.mem_append_left _ member)
  have text : source.text.toList = front ++ left ++ (right ++ rest) := by rw [← before, ← after, whole]
  have place : n = (front ++ left).length := by rw [← before, List.length_take, Nat.min_eq_left inside]
  obtain ⟨line, column, shown⟩ := position_onLine text on
  rw [← place] at line column shown
  have head : (source.position n).current? = (right ++ rest).head? := by
    rw [current?_position, ← after, List.head?_drop]
  constructor
  case inside => rwa [index, source_position]
  case bytes => rw [offset_position, source_position, index]
  case behind => rw [source_position, index, behindBytes?_position]
  case line =>
    rw [line, source_position, index, before, List.count_append, List.count_eq_zero_of_not_mem flat,
      Nat.add_comm]
    rfl
  case column => rw [column, source_position, index, before, takeWhile_reverse_line on.starts flat, List.length_reverse]
  case current => rw [current?_position, source_position, index]
  case ends =>
    rw [current?_position, source_position, index, List.getElem?_eq_none_iff]
    omega
  case moves => rw [advance_position, index_position, source_position, index]
  case stays =>
    intro ended
    rw [Position.advance, ended]
  case read => exact read?_position source n
  case readOn => exact readOn?_position source n
  case shown =>
    refine ⟨left ++ right, shown, ?_, ?_⟩
    · rw [column, List.length_append]
      exact Nat.le_add_right _ _
    · rw [column, head, getElem?_line on.line on.ends]

/-- However often a position is advanced from the start of a text, it is the place that its index says, and the
index counts the calls as long as there are characters. Reading by bytes leads to the same position. -/
theorem advanceBy_coherent (source : Source) (n : Nat) :
    ((Position.start source).advanceBy n).source = source ∧
      ((Position.start source).advanceBy n).index = min n source.text.toList.length ∧
      ((Position.start source).advanceBy n).Coherent ∧
      (Position.start source).readTimes? n = some ((Position.start source).advanceBy n) := by
  rw [advanceBy_start]
  refine ⟨source_position source n, index_position source n, ?_, readTimes?_start source n⟩
  rw [← position_index, index_position]
  exact coherent_position (Nat.min_le_right _ _)

example : let p := (Position.start ⟨"wide", "é\n€𝒫"⟩).advanceBy 3
    (p.index, p.line, p.column, p.offset, p.current?) = (3, 2, 1, 6, some '𝒫') := by
  decide +kernel

end Reckon
