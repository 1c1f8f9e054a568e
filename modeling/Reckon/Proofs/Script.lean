import Reckon.Proofs.Conversation

set_option autoImplicit false

/-!
# Scripted lines

A loop that reads given lines does what running files does: the lines make up groups, and the text of
each group is run as the script in a file would be.
-/

namespace Reckon

theorem fromUTF8?_toUTF8 (text : String) : String.fromUTF8? text.toUTF8 = some text := by
  unfold String.fromUTF8?
  rw [String.toUTF8_eq_toByteArray, dif_pos text.isValidUTF8]
  rfl

theorem runFile_text (write : Fault Position → String) (bound : Nat) (context : Context) (name text : String) :
    CommandLine.runFile write bound context name (.ok text.toUTF8) =
      (Run.ofSource bound ⟨name, text⟩ context).map fun run => (run.context, run.transcriptBy write, "") := by
  have read : Except.ok text.toUTF8 >>= Source.ofBytes name = .ok ⟨name, text⟩ := by
    change Source.ofBytes name text.toUTF8 = _
    rw [Source.ofBytes, fromUTF8?_toUTF8]
    rfl
  rw [CommandLine.runFile, read]
  change ((Run.ofSource bound ⟨name, text⟩ context).bind fun run => _) = _
  cases Run.ofSource bound ⟨name, text⟩ context <;> rfl

/-- Runs texts one after another in one context, each as the script in a file. -/
def runTexts (write : Fault Position → String) (bound : Nat) : List String → Context → Option Ending
  | [], context => return ⟨"", context, false⟩
  | text :: rest, context => do
    let (context, output, _) ← CommandLine.runFile write bound context "<stdin>" (.ok text.toUTF8)
    let ending ← runTexts write bound rest context
    return ending.behind output

theorem runTexts_cons (write : Fault Position → String) (bound : Nat) (text : String) (rest : List String) (context : Context) :
    runTexts write bound (text :: rest) context =
      (Run.ofSource bound ⟨"<stdin>", text⟩ context).bind fun run =>
        (runTexts write bound rest run.context).map (Ending.behind (run.transcriptBy write)) := by
  change (CommandLine.runFile write bound context "<stdin>" (.ok text.toUTF8)).bind _ = _
  rw [runFile_text, Option.bind_map]
  refine congrArg _ (funext fun run => ?_)
  change (runTexts write bound rest run.context).bind _ = _
  cases runTexts write bound rest run.context <;> rfl

/-- The source asks for no further line: it compiles, or what is wrong with it stays wrong. -/
def Source.Settled (source : Source) : Prop :=
  (∃ program, source.compile = .ok program) ∨ ∃ fault, source.compile = .error fault ∧ fault.isContinuable = false

theorem Source.settled_iff (source : Source) : source.Settled ↔ source.isOpen = false := by
  unfold Source.Settled Source.isOpen
  cases source.compile with
  | ok program => exact ⟨fun _ => rfl, fun _ => .inl ⟨program, rfl⟩⟩
  | error fault =>
    constructor
    · rintro (⟨program, compiled⟩ | ⟨later, failed, closed⟩)
      · cases compiled
      · cases failed
        exact closed
    · exact fun closed => .inr ⟨fault, rfl, closed⟩

namespace Script

def trimmed (line : String) : String := String.ofList (Text.trim line.toList)

/-- A statement group as one text: only the first line is trimmed. -/
def joined (first : String) (more : List String) : String :=
  "\n".intercalate (trimmed first :: more)

def source (first : String) (more : List String) : Source := ⟨"<stdin>", joined first more⟩

theorem source_addLine (first : String) (more : List String) (line : String) :
    (source first more).addLine line = source first (more ++ [line]) := by
  have longer := String.intercalate_append_of_ne_nil (List.cons_ne_nil (trimmed first) more)
    (List.cons_ne_nil line []) (s := "\n")
  rw [String.intercalate_singleton] at longer
  exact congrArg (Source.mk "<stdin>") longer.symm

def Leaves (line : String) : Prop := trimmed line = "exit" ∨ trimmed line = "quit"

/-- A first line takes no more lines than its group needs, or all of them when nothing is enough. -/
structure Gathers (first : String) (more rest : List String) : Prop where
  least : ∀ count, count < more.length → ¬ (source first (more.take count)).Settled
  ends : (source first more).Settled ∨ rest = []

inductive Part where
  | blank (line : String)
  | leave (line : String)
  | group (first : String) (more : List String)

def Part.lines : Part → List String
  | blank line => [line]
  | leave line => [line]
  | group first more => first :: more

def Part.text? : Part → Option String
  | blank _ => none
  | leave _ => none
  | group first more => some (joined first more)

/-- How lines fall into parts, and the lines that are not read. -/
inductive Cut : List String → List Part → List String → Prop where
  | ended : Cut [] [] []
  | blank {line : String} {rest unread : List String} {parts : List Part} (empty : trimmed line = "")
      (cut : Cut rest parts unread) : Cut (line :: rest) (.blank line :: parts) unread
  | leave {line : String} {unread : List String} (leaves : Leaves line) : Cut (line :: unread) [.leave line] unread
  | group {first : String} {more rest unread : List String} {parts : List Part} (text : trimmed first ≠ "")
      (stays : ¬ Leaves first) (gathers : Gathers first more rest) (cut : Cut rest parts unread) :
      Cut (first :: (more ++ rest)) (.group first more :: parts) unread

theorem gathers_from (first : String) (shown others : List String)
    (before : ∀ count, count < shown.length → ¬ (source first (shown.take count)).Settled) :
    ∃ more rest, others = more ++ rest ∧ Gathers first (shown ++ more) rest := by
  induction others generalizing shown with
  | nil => exact ⟨[], [], rfl, by simpa using before, .inr rfl⟩
  | cons line others ih =>
    by_cases settled : (source first shown).Settled
    · exact ⟨[], line :: others, rfl, by simpa using before, .inl (by simpa using settled)⟩
    · have longer : ∀ count, count < (shown ++ [line]).length →
          ¬ (source first ((shown ++ [line]).take count)).Settled := by
        intro count fewer
        rw [List.length_append, List.length_singleton] at fewer
        rcases Nat.lt_succ_iff_lt_or_eq.1 fewer with fewer | rfl
        · simpa [List.take_append_of_le_length (Nat.le_of_lt fewer)] using before count fewer
        · simpa using settled
      obtain ⟨more, rest, rfl, gathers⟩ := ih (shown ++ [line]) longer
      exact ⟨line :: more, rest, rfl, by simpa using gathers⟩

theorem gathers_exists (first : String) (others : List String) :
    ∃ more rest, others = more ++ rest ∧ Gathers first more rest := by
  simpa using gathers_from first [] others (by simp)

theorem cut_exists (lines : List String) : ∃ parts unread, Cut lines parts unread := by
  -- A group takes any number of lines, so the induction is on how many there are.
  induction size : lines.length using Nat.strongRecOn generalizing lines with
  | ind size' ih =>
    cases lines with
    | nil => exact ⟨[], [], .ended⟩
    | cons line others =>
      by_cases empty : trimmed line = ""
      · obtain ⟨parts, unread, cut⟩ := ih others.length (by simp [← size]) others rfl
        exact ⟨.blank line :: parts, unread, .blank empty cut⟩
      by_cases leaves : Leaves line
      · exact ⟨[.leave line], others, .leave leaves⟩
      obtain ⟨more, rest, rfl, gathers⟩ := gathers_exists line others
      have fewer : rest.length < size' := by
        simp only [← size, List.length_cons, List.length_append]
        omega
      obtain ⟨parts, unread, cut⟩ := ih rest.length fewer rest rfl
      exact ⟨.group line more :: parts, unread, .group empty leaves gathers cut⟩

section Cut

variable {lines unread : List String} {parts : List Part}

theorem Cut.lines_eq (cut : Cut lines parts unread) : lines = parts.flatMap Part.lines ++ unread := by
  induction cut with
  | ended => rfl
  | blank _ _ ih => simp [Part.lines, ← ih]
  | leave _ => rfl
  | group _ _ _ _ ih => simp [Part.lines, ← ih]

theorem Cut.stopped (cut : Cut lines parts unread) : unread = [] ∨ ∃ line, parts.getLast? = some (.leave line) := by
  induction cut with
  | ended => exact .inl rfl
  | blank _ _ ih => exact ih.imp_right fun ⟨line, last⟩ => ⟨line, by simp [List.getLast?_cons, last]⟩
  | leave _ => exact .inr ⟨_, rfl⟩
  | group _ _ _ _ ih => exact ih.imp_right fun ⟨line, last⟩ => ⟨line, by simp [List.getLast?_cons, last]⟩

end Cut

section Reading

open Repl

variable {write : Fault Position → String} {bound : Nat} {behind : List Reading} {context : Context}

theorem behind_empty (ending : Option Ending) : ending.map (Ending.behind "") = ending := by
  cases ending <;> simp [Ending.behind]

theorem read_line_silent (line : String) (repl : Repl) :
    read (.silentBy write) bound (.line line :: behind) repl =
      (repl.feed (.silentBy write) bound line).bind (goOn (.silentBy write) bound behind) := by
  have prompt : repl.prompt (.silentBy write) = "" := by simp [Repl.prompt, Settings.silentBy]
  rw [read_line, prompt, behind_empty]

theorem goOn_start (context : Context) (output : String) :
    goOn (.silentBy write) bound behind (start context, output) =
      (read (.silentBy write) bound behind (start context)).map (Ending.behind output) := rfl

theorem submit_closed {source : Source} {repl : Repl} (closed : source.isOpen = false) :
    (repl.submit (.silentBy write) bound source).bind (goOn (.silentBy write) bound behind) =
      (Run.ofSource bound source repl.context).bind fun run =>
        (read (.silentBy write) bound behind (start run.context)).map (Ending.behind (run.transcriptBy write)) := by
  unfold submit
  rw [if_neg (by simp [closed]), run_eq, Option.bind_map]
  rfl

theorem submit_open {source : Source} {repl : Repl} (going : repl.stopped = false) (still : source.isOpen = true) :
    (repl.submit (.silentBy write) bound source).bind (goOn (.silentBy write) bound behind) =
      read (.silentBy write) bound behind { repl with pending := some source } := by
  unfold submit
  rw [if_pos still]
  refine Eq.trans ?_ (behind_empty _)
  exact if_neg (by simp [going])

theorem read_over : read (.silentBy write) bound [] (start context) = some ⟨"", context, false⟩ := rfl

theorem read_open_over (source : Source) :
    read (.silentBy write) bound [] ⟨context, some source, false⟩ =
      (Run.ofSource bound source context).bind fun run =>
        (read (.silentBy write) bound [] (start run.context)).map (Ending.behind (run.transcriptBy write)) := by
  change ((Repl.run _ bound ⟨context, some source, false⟩ source).bind fun fed => _) = _
  rw [run_eq, Option.bind_map]
  refine congrArg _ (funext fun run => ?_)
  rw [read_over]
  simp [Function.comp, start, Ending.behind, Repl.prompt, Settings.silentBy]

theorem submit_gathers {first : String} {shown more rest : List String} {pending : Option Source}
    (gathers : Gathers first (shown ++ more) rest) (exhausted : rest = [] → behind = []) :
    (submit (.silentBy write) bound ⟨context, pending, false⟩ (source first shown)).bind
        (goOn (.silentBy write) bound (more.map .line ++ behind)) =
      (Run.ofSource bound (source first (shown ++ more)) context).bind fun run =>
        (read (.silentBy write) bound behind (start run.context)).map (Ending.behind (run.transcriptBy write)) := by
  induction more generalizing shown pending with
  | nil =>
    rw [List.append_nil] at gathers ⊢
    cases still : (source first shown).isOpen with
    | false => exact submit_closed still
    | true =>
      have none_left : rest = [] := by
        refine gathers.ends.resolve_left fun settled => ?_
        simp [(Source.settled_iff _).1 settled] at still
      rw [submit_open rfl still, exhausted none_left]
      exact read_open_over _
  | cons line more ih =>
    have unsettled := gathers.least shown.length (by simp)
    rw [List.take_left, Source.settled_iff, Bool.not_eq_false] at unsettled
    rw [submit_open rfl unsettled, List.map_cons, List.cons_append, read_line_silent]
    change (submit _ bound _ ((source first shown).addLine line)).bind _ = _
    rw [List.append_cons] at gathers ⊢
    rw [source_addLine]
    exact ih gathers

theorem feed_blank {line : String} (empty : trimmed line = "") :
    feed (.silentBy write) bound (start context) line = some (start context, "") :=
  if_pos empty

theorem feed_leave {line : String} (leaves : Leaves line) :
    feed (.silentBy write) bound (start context) line = some ({ start context with stopped := true }, "") := by
  have some_text : trimmed line ≠ "" := by
    rcases leaves with same | same <;> simp [same]
  exact (if_neg some_text).trans (if_pos leaves)

theorem feed_text {line : String} (text : trimmed line ≠ "") (stays : ¬ Leaves line) :
    feed (.silentBy write) bound (start context) line =
      submit (.silentBy write) bound (start context) (source line []) :=
  (if_neg text).trans (if_neg stays)

def Final (parts : List Part) (behind : List Reading) : Prop :=
  behind = [] ∨ ∃ line, parts.getLast? = some (.leave line)

theorem Final.tail {part : Part} {parts : List Part} (final : Final (part :: parts) behind)
    (stays : ∀ line, part ≠ .leave line) : Final parts behind := by
  refine final.imp_right fun ⟨line, last⟩ => ⟨line, ?_⟩
  cases parts with
  | nil => exact absurd (Option.some.inj last) (stays line)
  | cons second parts => simpa using last

theorem read_cut {lines unread : List String} {parts : List Part} (cut : Cut lines parts unread)
    (final : Final parts behind) :
    read (.silentBy write) bound ((parts.flatMap Part.lines).map .line ++ behind) (start context) =
      runTexts write bound (parts.filterMap Part.text?) context := by
  induction cut generalizing context with
  | ended =>
    obtain rfl : behind = [] := by simpa [Final] using final
    rfl
  | @blank line rest unread parts empty cut ih =>
    rw [List.flatMap_cons, Part.lines, List.singleton_append, List.map_cons, List.cons_append, read_line_silent,
      feed_blank empty, Option.bind_some, goOn_start, behind_empty, ih (final.tail (by simp))]
    rfl
  | @leave line unread leaves =>
    rw [List.flatMap_singleton, Part.lines, List.map_cons, List.cons_append, read_line_silent, feed_leave leaves]
    rfl
  | @group first more rest unread parts text stays gathers cut ih =>
    have final := final.tail (by simp)
    have exhausted : rest = [] → (parts.flatMap Part.lines).map .line ++ behind = [] := by
      rintro rfl
      cases cut
      simpa [Final] using final
    rw [List.flatMap_cons, Part.lines, List.cons_append, List.map_cons, List.map_append, List.cons_append,
      List.append_assoc, read_line_silent, feed_text text stays]
    refine (submit_gathers gathers exhausted).trans ?_
    rw [List.filterMap_cons_some (rfl : Part.text? (.group first more) = _), runTexts_cons]
    refine congrArg _ (funext fun run => ?_)
    rw [ih final]

end Reading

/-- Scripted lines fall into parts, and reading them is running the text of each group as a script. -/
theorem read_scripted (lines : List String) :
    (∃ parts unread, Cut lines parts unread) ∧
      ∀ parts unread, Cut lines parts unread →
        lines = parts.flatMap Part.lines ++ unread ∧
        (unread = [] ∨ ∃ line, parts.getLast? = some (.leave line)) ∧
        ∀ write bound context,
          Repl.read (.silentBy write) bound (lines.map .line) (.start context) =
            runTexts write bound (parts.filterMap Part.text?) context ∧
          -- What stands behind a line that stops the reading is not read.
          ∀ line behind, parts.getLast? = some (.leave line) →
            Repl.read (.silentBy write) bound ((parts.flatMap Part.lines).map .line ++ behind) (.start context) =
              runTexts write bound (parts.filterMap Part.text?) context := by
  refine ⟨cut_exists lines, fun parts unread cut => ⟨cut.lines_eq, cut.stopped, fun write bound context => ⟨?_, ?_⟩⟩⟩
  · have final : Final parts (unread.map .line) := cut.stopped.imp_left fun none_left => by simp [none_left]
    rw [cut.lines_eq, List.map_append]
    exact read_cut cut final
  · exact fun line behind last => read_cut cut (.inr ⟨line, last⟩)

theorem read_scripted_statements :
    let lines := ["", " if true \x7b", "true \x7d", "b", " exit ", "never"]
    let parts := [.blank "", .group " if true \x7b" ["true \x7d"], .group "b" [], .leave " exit "]
    Cut lines parts ["never"] ∧
      Repl.read (.silent false) 1 (lines.map .line) (.start .global) =
        runTexts (Run.faultText false) 1 ["if true \x7b\ntrue \x7d", "b"] .global ∧
      (runTexts (Run.faultText false) 1 ["if true \x7b\ntrue \x7d", "b"] .global).map Ending.output =
        some "true\nError: No variable 'b' in global at col 0:\nb\n^\n" := by
  intro lines parts
  have closed : Gathers " if true \x7b" ["true \x7d"] ["b", " exit ", "never"] := by
    refine ⟨fun count fewer => ?_, .inl ((Source.settled_iff _).2 (by decide +kernel))⟩
    obtain rfl : count = 0 := by simpa using fewer
    rw [Source.settled_iff]
    decide +kernel
  have alone : Gathers "b" [] [" exit ", "never"] :=
    ⟨by simp, .inl ((Source.settled_iff _).2 (by decide +kernel))⟩
  have cut : Cut lines parts ["never"] :=
    .blank (by decide +kernel) (.group (by decide +kernel) (by unfold Leaves; decide +kernel) closed
      (.group (by decide +kernel) (by unfold Leaves; decide +kernel) alone (.leave (.inl (by decide +kernel)))))
  have texts : parts.filterMap Part.text? = ["if true \x7b\ntrue \x7d", "b"] := by decide +kernel
  have same := (((read_scripted lines).2 parts ["never"] cut).2.2 (Run.faultText false) 1 .global).1
  rw [texts] at same
  exact ⟨cut, same, by decide +kernel⟩

end Script

end Reckon
