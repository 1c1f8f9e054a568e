import Reckon.Proofs.Lines
import Reckon.Proofs.Phases

set_option autoImplicit false

/-!
# Underlines

A rendered fault shows the line that it begins on and carets from its column on. They end with the line, but
for a condition whose span goes on to a later line.
-/

namespace Reckon

open Reckon.Grammar Reckon.Evaluation

namespace Fault

def header (fault : Fault Position) : String :=
  "Error: " ++ fault.cause.message ++ " at col " ++ toString fault.span.start.column ++ ":\n"

def underlined (line : List Char) (column carets : Nat) : String :=
  String.ofList (line ++ '\n' :: List.replicate column ' ' ++ List.replicate carets '^')

structure Renders (fault : Fault Position) (line : List Char) (carets : Nat) : Prop where
  found : fault.span.start.lineText? = some line
  single : '\n' ∉ line
  column : fault.span.start.column ≤ line.length
  blank : line = [] → fault.render = fault.header
  drawn : line ≠ [] → fault.render = fault.header ++ underlined line fault.span.start.column carets
  nonempty : 0 < carets
  reach : fault.span.start.column + carets = max (fault.span.start.column + 1) fault.span.stop.column

end Fault

variable {source : Source} {fault : Fault Position} {limit : Nat}

namespace Source

variable {span : Span Position}

theorem Within.onLine (within : source.Within span) : ∃ front left right rest,
    source.text.toList.drop span.start.index = right ++ rest ∧ Text.OnLine front left right rest ∧
      span.start.column = left.length ∧ span.start.lineText? = some (left ++ right) := by
  have whole := List.take_append_drop span.start.index source.text.toList
  obtain ⟨front, left, right, rest, before, after, on⟩ :=
    Text.exists_onLine (source.text.toList.take span.start.index) (source.text.toList.drop span.start.index)
  have text : source.text.toList = front ++ left ++ (right ++ rest) := by rw [← before, ← after, whole]
  have index : span.start.index = (front ++ left).length := by
    rw [← before, List.length_take, Nat.min_eq_left (within.ordered.trans within.inside)]
  have start : span.start = source.position (front ++ left).length := by
    rw [← index]
    exact congrArg Span.start within.placed
  obtain ⟨_, column, shown⟩ := position_onLine text on
  rw [← start] at column shown
  exact ⟨front, left, right, rest, after, on, column, shown⟩

theorem Within.stop (within : source.Within span) : span.stop = span.start.after (source.excerpt span) := by
  have joined : source.text.toList.take span.stop.index =
      source.text.toList.take span.start.index ++ source.excerpt span := by
    have room : span.start.index + (span.stop.index - span.start.index) = span.stop.index :=
      Nat.add_sub_of_le within.ordered
    rw [excerpt, slice, ← List.take_add, room]
  have stop : span.stop = source.position span.stop.index := congrArg Span.stop within.placed
  have start : span.start = source.position span.start.index := congrArg Span.start within.placed
  have after : source.position span.stop.index = (source.position span.start.index).after (source.excerpt span) := by
    rw [position, joined, Position.after_append]
    rfl
  rw [stop, after, ← start]

/-- The stretch is on one line or is the end of one. -/
def Flat (source : Source) (span : Span Position) : Prop :=
  '\n' ∉ source.excerpt span ∨ source.excerpt span = ['\n']

theorem Within.column_le {line : List Char} (within : source.Within span) (flat : source.Flat span)
    (found : span.start.lineText? = some line) : span.stop.column ≤ line.length := by
  obtain ⟨front, left, right, rest, behind, on, column, shown⟩ := within.onLine
  cases found.symm.trans shown
  rw [within.stop]
  rcases flat with unmarked | newline
  · have ahead : source.excerpt span <+: right ++ rest := by
      rw [excerpt, slice, behind]
      exact List.take_prefix _ _
    have short := on.length_le unmarked ahead
    rw [Position.column_after _ unmarked, column, List.length_append]
    omega
  -- Behind the newline the next line begins.
  · rw [Position.column_after_newline _ (by rw [newline]; rfl)]
    exact Nat.zero_le _

end Source

theorem renders_of_within (within : source.Within fault.span) : ∃ line carets, fault.Renders line carets := by
  obtain ⟨front, left, right, rest, _, on, column, shown⟩ := within.onLine
  refine ⟨left ++ right, max 1 (fault.span.stop.column - fault.span.start.column), ?_⟩
  refine ⟨shown, on.line, by rw [column, List.length_append]; omega, ?_, ?_, by omega, by omega⟩
  · intro empty
    rw [empty] at shown
    unfold Fault.render
    dsimp only
    rw [shown]
    rfl
  · intro nonempty
    obtain ⟨c, more, same⟩ := List.exists_cons_of_ne_nil nonempty
    rw [same] at shown ⊢
    unfold Fault.render
    dsimp only
    rw [shown]
    rfl

theorem mark_flat {kind : Kind} {mark : String} (written : kind.mark? = some mark) :
    '\n' ∉ mark.toList ∨ mark.toList = ['\n'] :=
  (Scan.Spells.mark written).flat

/-- The fault is a condition that is null, and the condition ends on a later line than it begins on. -/
structure Source.BreaksLine (source : Source) (fault : Fault Position) : Prop where
  cause : fault.cause = .unsupported .equal Value.null.text .left
  condition : ∃ program, source.compile = .ok program ∧ ∃ part, Node.Part (fun _ => true) part program ∧
    ∃ condition ∈ part.conditions, fault.span = condition.span
  lines : fault.span.start.line < fault.span.stop.line

theorem Source.Points.flat (points : source.Points fault)
    (named : ∀ name scope, fault.cause = .undefinedVariable name scope → IsWord name) :
    source.Flat fault.span ∨ source.BreaksLine fault := by
  obtain ⟨within, shows⟩ := points
  cases cause : fault.cause with
  | illegalCharacter c =>
    rw [cause] at shows
    by_cases newline : c = '\n'
    · exact .inl (.inr (by rw [shows, newline]))
    · exact .inl (.inl (by rw [shows]; simpa using Ne.symm newline))
  | unexpectedToken found expected =>
    rw [cause] at shows
    obtain ⟨_, _, _, _, spells⟩ := shows
    exact .inl spells.flat
  | unexpectedEnd expected =>
    rw [cause] at shows
    exact .inl (.inl (by rw [shows.2]; exact List.not_mem_nil))
  | tooDeep limit =>
    rw [cause] at shows
    obtain ⟨_, _, _, spells | ⟨_, empty⟩⟩ := shows
    · exact .inl spells.flat
    · exact .inl (.inl (by rw [empty]; exact List.not_mem_nil))
  | unsupported operator operand side =>
    rw [cause] at shows
    rcases shows with ⟨mark, written, same⟩ | ⟨rfl, rfl, rfl, condition⟩
    · left
      unfold Flat
      rw [same]
      exact mark_flat written
    -- Only the span of a condition is that of a tree, and can hold a newline among others.
    · by_cases broken : '\n' ∈ source.excerpt fault.span
      · refine .inr ⟨cause, condition, ?_⟩
        rw [within.stop, Position.line_after]
        exact Nat.lt_add_of_pos_right (List.count_pos_iff.2 broken)
      · exact .inl (.inl broken)
  | divisionByZero =>
    rw [cause] at shows
    left
    left
    rcases shows with same | same <;> rw [same] <;> decide
  | undefinedVariable name scope =>
    rw [cause] at shows
    left
    left
    rw [shows]
    exact Scan.newline_notMem_letters (named name scope cause).2.1
  | missingNode =>
    rw [cause] at shows
    cases shows

theorem phase_of_program (failed : source.program limit = .error fault) : fault.cause.phase? ≠ some .running := by
  cases scanned : source.tokens with
  | error early =>
    cases (Source.program_of_error scanned limit).symm.trans failed
    simp [scanning_of_tokens scanned]
  | ok tokens =>
    rw [Source.program_of_ok scanned] at failed
    simp [parsing_of_ofTokens failed]

theorem not_undefined {name scope : String} (phase : fault.cause.phase? ≠ some .running) :
    fault.cause ≠ .undefinedVariable name scope := by
  intro cause
  rw [cause] at phase
  exact phase rfl

theorem named_of_run {bound : Nat} {context : Context} {run : Run Position} (has : context.has lastResult = true)
    (ends : Run.ofSource bound source context = some run) (fails : run.answer = .error fault) (name scope : String)
    (cause : fault.cause = .undefinedVariable name scope) : IsWord name := by
  cases compiled : source.compile with
  | error early =>
    rw [Run.ofSource_of_error compiled] at ends
    cases ends
    cases fails
    exact absurd cause (not_undefined (phase_of_program compiled))
  | ok program =>
    obtain ⟨_, _, before, final, list, rfl, _, _, rfl⟩ := compile_derives compiled
    rw [Run.ofSource_of_ok compiled] at ends
    obtain ⟨statement, member, blames, defined⟩ := Run.statements_fails has ends fails
    exact (ofRun_of_blames compiled (blames.inside member) defined).named name scope cause

theorem Source.Points.underlined (points : source.Points fault)
    (named : ∀ name scope, fault.cause = .undefinedVariable name scope → IsWord name) :
    ∃ line carets, fault.Renders line carets ∧ (fault.span.start.column + carets ≤ line.length + 1 ∨
      source.BreaksLine fault ∧ line.length + 1 < fault.span.start.column + carets) := by
  obtain ⟨line, carets, renders⟩ := renders_of_within points.within
  refine ⟨line, carets, renders, ?_⟩
  have column := renders.column
  have reach := renders.reach
  rcases points.flat named with flat | breaks
  · have short := points.within.column_le flat renders.found
    exact .inl (by omega)
  · rcases Nat.lt_or_ge (line.length + 1) (fault.span.start.column + carets) with beyond | fits
    · exact .inr ⟨breaks, beyond⟩
    · exact .inl fits

/-- The carets under a fault of scanning or parsing do not go past the end of the line, and neither do those under a
fault of a run, unless a condition is null that ends on another line, behind the column where the shown line ends. -/
theorem underlines_stay (source : Source) (fault : Fault Position) :
    (source.tokens = .error fault ∨ (∃ limit, source.program limit = .error fault) →
      ∃ line carets, fault.Renders line carets ∧ fault.span.start.column + carets ≤ line.length + 1) ∧
    ∀ (bound : Nat) (context : Context) (run : Run Position), context.has lastResult = true →
      Run.ofSource bound source context = some run → run.answer = .error fault →
      ∃ line carets, fault.Renders line carets ∧ (fault.span.start.column + carets ≤ line.length + 1 ∨
        source.BreaksLine fault ∧ line.length + 1 < fault.span.start.column + carets) := by
  refine ⟨?_, fun bound context run has ends fails =>
    (points_run has ends fails).underlined (named_of_run has ends fails)⟩
  intro failed
  have found : source.Points fault ∧ fault.cause.phase? ≠ some .running := by
    rcases failed with failed | ⟨limit, failed⟩
    · exact ⟨points_illegal failed, by simp [scanning_of_tokens failed]⟩
    · exact ⟨points_program failed, phase_of_program failed⟩
  obtain ⟨points, phase⟩ := found
  obtain ⟨line, carets, renders, fits | ⟨breaks, _⟩⟩ :=
    points.underlined fun name scope cause => absurd cause (not_undefined phase)
  · exact ⟨line, carets, renders, fits⟩
  · rw [breaks.cause] at phase
    exact absurd rfl phase

theorem underlines_stay_phases :
    let scanned : Source := ⟨"scanned", "1\n?"⟩
    let illegal : Fault Position := ⟨.illegalCharacter '?', ⟨scanned.position 2, scanned.position 3⟩, none⟩
    let parsed : Source := ⟨"parsed", "\x7b 1\n"⟩
    let ended : Fault Position := ⟨.unexpectedEnd [.newline, .terminator, .closeBrace],
      .point (parsed.position 4), none⟩
    let divided : Source := ⟨"divided", "1 // false"⟩
    let division : Fault Position :=
      ⟨.unsupported .floorDivide "false" .right, ⟨divided.position 2, divided.position 4⟩, none⟩
    (scanned.tokens = .error illegal ∧
      ∃ line carets, illegal.Renders line carets ∧ illegal.span.start.column + carets ≤ line.length + 1) ∧
    (parsed.program 2 = .error ended ∧
      ∃ line carets, ended.Renders line carets ∧ ended.span.start.column + carets ≤ line.length + 1) ∧
    Context.global.has lastResult = true ∧
    ∃ run, Run.ofSource 1 divided .global = some run ∧ run.answer = .error division ∧
      ∃ line carets, division.Renders line carets ∧ (division.span.start.column + carets ≤ line.length + 1 ∨
        divided.BreaksLine division ∧ line.length + 1 < division.span.start.column + carets) := by
  intro scanned illegal parsed ended divided division
  have illegal' : scanned.tokens = .error illegal := by decide +kernel
  have ended' : parsed.program 2 = .error ended := blame_eq_some.1 (by decide +kernel)
  have has : Context.global.has lastResult = true := by decide +kernel
  have answered : (Run.ofSource 1 divided .global).map Run.answer = some (.error division) := by decide +kernel
  obtain ⟨run, ends, fails⟩ := Option.map_eq_some_iff.1 answered
  exact ⟨⟨illegal', (underlines_stay scanned illegal).1 (.inl illegal')⟩,
    ⟨ended', (underlines_stay parsed ended).1 (.inr ⟨2, ended'⟩)⟩, has,
    run, ends, fails, (underlines_stay divided division).2 1 .global run has ends fails⟩

/-- The condition ends in a column that the line it begins on does not have, and so do the carets. -/
theorem underline_overshoots :
    let source : Source := ⟨"overshot", "if (\x7b1\n      null\x7d) then 1"⟩
    let line := "if (\x7b1".toList
    let fault : Fault Position :=
      ⟨.unsupported .equal "NULL" .left, ⟨source.position 5, source.position 17⟩, none⟩
    (∃ run, Run.ofSource 1 source .global = some run ∧ run.answer = .error fault) ∧
      fault.span.start.lineText? = some line ∧
      ¬ ∃ carets, 0 < carets ∧ fault.render = fault.header ++ Fault.underlined line fault.span.start.column carets ∧
        fault.span.start.column + carets ≤ line.length + 1 := by
  intro source line fault
  have answered : (Run.ofSource 1 source .global).map Run.answer = some (.error fault) := by decide +kernel
  have found : fault.span.start.lineText? = some line := by decide +kernel
  -- No number of carets that fits on the line gives what is rendered.
  have few : ∀ carets < 3, fault.render ≠ fault.header ++ Fault.underlined line fault.span.start.column carets := by
    decide +kernel
  have column : fault.span.start.column = 5 := by decide +kernel
  have length : line.length = 6 := by decide +kernel
  refine ⟨Option.map_eq_some_iff.1 answered, found, ?_⟩
  rintro ⟨carets, _, drawn, fits⟩
  exact few carets (by omega) drawn

end Reckon
