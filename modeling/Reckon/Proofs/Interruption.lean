import Reckon.Proofs.Dialogue

set_option autoImplicit false

/-!
# Reads that fail

A read that fails ends the loop as if the open statement had never begun, and for readings that are given
the loop over a source of lines is the read-eval-print loop.
-/

namespace Reckon

namespace Dialogue

variable {σ ε : Type} {lines : Lines σ ε} {settings : Settings} {bound reads : Nat} {prompt : String}
  {source final : Source} {before middle after : σ} {context : Context}

/-- Whatever is asked, some read fails after fewer than this many that succeed. -/
def FailsWithin (lines : Lines σ ε) : Nat → σ → Prop
  | 0, _ => False
  | count + 1, state => ∀ prompt,
    match lines prompt state with
    | (.error _, _) => True
    | (.ok _, after) => FailsWithin lines count after

theorem FailsWithin.ok {count : Nat} {answer : Option String} (fails : FailsWithin lines (count + 1) before)
    (read : lines prompt before = (.ok answer, after)) : FailsWithin lines count after := by
  have next := fails prompt
  rwa [read] at next

theorem FailsWithin.exists_ends {count : Nat} (fails : FailsWithin lines count before) (prompt : String)
    (source : Source) :
    ∃ final middle after kept, Continues lines prompt source before final middle ∧
      Ends lines prompt final middle after kept ∧ (kept = none → ∃ fewer ≤ count, FailsWithin lines fewer after) := by
  induction count generalizing before source with
  | zero => cases fails
  | succ count ih =>
    cases still : source.isOpen with
    | false => exact ⟨source, before, before, none, .stays _ _, .complete still rfl, fun _ => ⟨_, Nat.le_refl _, fails⟩⟩
    | true =>
      cases read : lines prompt before with
      | mk answer middle =>
        cases answer with
        | error error => exact ⟨source, before, middle, some error, .stays _ _, .fails still read, by simp⟩
        | ok line? =>
          cases line? with
          | none =>
            exact ⟨source, before, middle, none, .stays _ _, .cut still read, fun _ => ⟨count, by omega, fails.ok read⟩⟩
          | some line =>
            obtain ⟨final, last, after, kept, continues, ends, more⟩ := ih (fails.ok read) (source.addLine line)
            refine ⟨final, last, after, kept, .more still read continues, ends, fun same => ?_⟩
            obtain ⟨fewer, less, fails⟩ := more same
            exact ⟨fewer, by omega, fails⟩

theorem FailsWithin.exists_finished {count : Nat} (fails : FailsWithin lines count before) (settings : Settings) :
    ∃ texts middle, Finished lines settings before texts middle ∧
      ((∃ error after, Breaks lines settings middle error after) ∨ ∃ after, Stops lines settings middle after) := by
  -- A statement takes any number of lines, so the induction is on how many reads are left.
  induction count using Nat.strongRecOn generalizing before with
  | ind count ih =>
    cases count with
    | zero => cases fails
    | succ count =>
      cases read : lines settings.prompt before with
      | mk answer middle =>
        cases answer with
        | error error => exact ⟨[], before, .none _, .inl ⟨error, middle, .first read⟩⟩
        | ok line? =>
          cases line? with
          | none => exact ⟨[], before, .none _, .inr ⟨middle, .ended read⟩⟩
          | some line =>
            by_cases empty : Script.trimmed line = ""
            · obtain ⟨texts, last, finished, how⟩ := ih count (by omega) (fails.ok read)
              exact ⟨texts, last, .blank read empty finished, how⟩
            by_cases leaves : Script.Leaves line
            · exact ⟨[], before, .none _, .inr ⟨middle, .leaves read leaves⟩⟩
            obtain ⟨⟨name, text⟩, last, after, kept, continues, ends, more⟩ :=
              (fails.ok read).exists_ends settings.continuation ⟨"<stdin>", Script.trimmed line⟩
            obtain rfl : name = "<stdin>" := continues.name
            cases kept with
            | some error =>
              exact ⟨[], before, .none _, .inl ⟨error, after, .inside read ⟨empty, leaves⟩ continues ends⟩⟩
            | none =>
              obtain ⟨fewer, less, fails⟩ := more rfl
              obtain ⟨texts, final, finished, how⟩ := ih fewer (by omega) fails
              exact ⟨text :: texts, final, .statement read ⟨empty, leaves⟩ continues ends finished, how⟩

def scripted : Lines (List Reading) Unit
  | _, [] => (.ok none, [])
  | _, .line text :: rest => (.ok (some text), rest)
  | _, .failure :: rest => (.error (), rest)

def Outcome.ending (outcome : Outcome σ ε) : Ending :=
  ⟨outcome.output, outcome.context, !outcome.result.isOk⟩

@[simp] theorem Outcome.ending_behind (output : String) (outcome : Outcome σ ε) :
    (outcome.behind output).ending = outcome.ending.behind output := rfl

section Scripted

open Repl (read start submit)

variable {write : Fault Position → String} {readings rest : List Reading}

theorem length_scripted {answer : Except Unit (Option String)} (answered : scripted prompt readings = (answer, rest)) :
    rest.length ≤ readings.length := by
  unfold scripted at answered
  split at answered <;> cases answered <;> simp

theorem Continues.length_scripted (continues : Continues scripted prompt source readings final rest) :
    rest.length ≤ readings.length := by
  induction continues with
  | stays => exact Nat.le_refl _
  | more _ read _ ih => exact ih.trans (Dialogue.length_scripted read)

theorem Ends.length_scripted {kept : Option Unit} (ends : Ends scripted prompt source readings rest kept) :
    rest.length ≤ readings.length := by
  cases ends with
  | complete _ same => rw [same]
  | cut _ ended => exact Dialogue.length_scripted ended
  | fails _ fails => exact Dialogue.length_scripted fails

def readOn (write : Fault Position → String) (bound : Nat) : Except Unit String × List Reading × Context → Option Ending
  | (.error _, _, context) => some ⟨"", context, true⟩
  | (.ok output, rest, context) => (read (.silentBy write) bound rest (start context)).map (Ending.behind output)

theorem submit_scripted (enough : readings.length < reads) (pending : Option Source) (source : Source) :
    (submit (.silentBy write) bound ⟨context, pending, false⟩ source).bind (Repl.goOn (.silentBy write) bound readings) =
      (evaluateFrom scripted (.silentBy write) bound reads source readings context).bind (readOn write bound) := by
  induction reads generalizing readings source pending with
  | zero => omega
  | succ reads ih =>
    cases still : source.isOpen with
    | false =>
      rw [Script.submit_closed still, evaluateFrom_eq (compileWith_settled _ still _), Option.bind_map]
      rfl
    | true =>
      rw [Script.submit_open rfl still]
      cases readings with
      | nil =>
        have ends : Ends scripted "" source [] [] none := .cut still rfl
        rw [Script.read_open_over, evaluateFrom_eq (ends.compileWith reads), Option.bind_map]
        rfl
      | cons reading rest =>
        cases reading with
        | failure =>
          have ends : Ends scripted "" source (.failure :: rest) rest (some ()) := .fails still rfl
          obtain ⟨fault, refused⟩ := ofSource_open still bound context
          rw [evaluateFrom_eq (ends.compileWith reads), refused]
          rfl
        | line text =>
          rw [Script.read_line_silent]
          refine (ih (by simpa using enough) (some source) (source.addLine text)).trans ?_
          unfold evaluateFrom
          rw [compileWith_open _ still]
          rfl

theorem read_eq_run (enough : readings.length + 1 < reads) :
    read (.silentBy write) bound readings (start context) =
      (run scripted (.silentBy write) bound reads readings context).map Outcome.ending := by
  induction reads generalizing readings context with
  | zero => omega
  | succ reads ih =>
    cases readings with
    | nil => rfl
    | cons reading rest =>
      rw [List.length_cons] at enough
      cases reading with
      | failure => rfl
      | line line =>
        have answers : scripted (Settings.silentBy write).prompt (.line line :: rest) = (.ok (some line), rest) := rfl
        rw [Script.read_line_silent]
        by_cases empty : Script.trimmed line = ""
        · rw [Script.feed_blank empty, Option.bind_some, Script.goOn_start, Script.behind_empty, run_blank answers empty]
          exact ih (by omega)
        by_cases leaves : Script.Leaves line
        · rw [Script.feed_leave leaves, run_leaves answers leaves]
          rfl
        rw [Script.feed_text empty leaves, run_begins answers ⟨empty, leaves⟩]
        refine (submit_scripted (by omega : rest.length < reads) _ _).trans ?_
        have alone : Script.source line [] = ⟨"<stdin>", Script.trimmed line⟩ :=
          congrArg (Source.mk "<stdin>") String.intercalate_singleton
        rw [alone, Option.map_bind]
        refine Option.bind_congr fun evaluated evaluates => ?_
        obtain ⟨result, left, after⟩ := evaluated
        obtain ⟨_, _, _, _, continues, ends, _⟩ := exists_evaluateFrom evaluates
        have shorter := ends.length_scripted.trans continues.length_scripted
        cases result with
        | error => rfl
        | ok output =>
          simp [readOn, goOn, ih (by omega : left.length + 1 < reads), Function.comp_def]

end Scripted

/-- A loop that meets a failing read returns its error and reads no more: it has written and bound what the texts
of the finished statements do, run as scripts, and nothing of the statement that is open. Every loop that ends has
finished its statements in this way, a source of lines that fails at some read leads to it or is left before, and
for given readings the loop is the read-eval-print loop. -/
theorem failing_read_ends (lines : Lines σ ε) (settings : Settings) (bound : Nat) (before : σ) (context : Context) :
    (∀ texts middle error after, Finished lines settings before texts middle → Breaks lines settings middle error after →
      ∃ least, ∀ reads, least ≤ reads → run lines settings bound reads before context =
        (runTexts settings.write bound texts context).map fun ending =>
          ⟨.error error, ending.output, after, ending.context⟩) ∧
    (∀ reads outcome, run lines settings bound reads before context = some outcome →
      ∃ texts middle, Finished lines settings before texts middle ∧
        (match outcome.result with
          | .error error => Breaks lines settings middle error outcome.lines
          | .ok _ => Stops lines settings middle outcome.lines) ∧
        ∃ ending, runTexts settings.write bound texts context = some ending ∧ outcome.output = ending.output ∧
          outcome.context = ending.context) ∧
    (∀ count, FailsWithin lines count before → ∃ texts middle, Finished lines settings before texts middle ∧
      ((∃ error after, Breaks lines settings middle error after) ∨ ∃ after, Stops lines settings middle after)) ∧
    ∀ readings reads, readings.length + 1 < reads →
      Repl.read (.silentBy settings.write) bound readings (.start context) =
        (run scripted (.silentBy settings.write) bound reads readings context).map Outcome.ending := by
  refine ⟨?_, ?_, fun count fails => fails.exists_finished settings, fun readings reads enough => read_eq_run enough⟩
  · exact fun texts middle error after finished breaks => finished.settles breaks.settles context
  · intro reads outcome ended
    obtain ⟨texts, middle, finished, how, ran⟩ := exists_finished ended
    obtain ⟨ending, ended, same⟩ := Option.map_eq_some_iff.1 ran
    refine ⟨texts, middle, finished, ?_, ending, ended, ?_, ?_⟩
    · rcases how with ⟨error, failed, breaks⟩ | ⟨left, stops⟩
      · rw [failed]
        exact breaks
      · rw [left]
        exact stops
    · rw [← same]
    · rw [← same]

theorem failing_read_ends_open :
    let before : List Reading :=
      [.line " let a = true", .line "", .line "\x7b let a = false", .line "a", .failure, .line "a"]
    let after : List Reading := [.line "a"]
    let settings := Settings.interactive false
    let ran := runTexts (Run.faultText false) 0 ["let a = true"] .global
    Finished scripted settings before ["let a = true"] (before.drop 2) ∧
      Breaks scripted settings (before.drop 2) () after ∧ ran.map Ending.output = some "true\n" ∧
      ran.map (fun ending => ending.context.get? "a") = some (some (.boolean true)) ∧
      ∃ least, ∀ reads, least ≤ reads → run scripted settings 0 reads before .global =
        ran.map fun ending => ⟨.error (), ending.output, after, ending.context⟩ := by
  intro before after settings ran
  have begins : Begins " let a = true" := ⟨by decide +kernel, by unfold Script.Leaves; decide +kernel⟩
  have opens : Begins "\x7b let a = false" := ⟨by decide +kernel, by unfold Script.Leaves; decide +kernel⟩
  have finished : Finished scripted settings before ["let a = true"] (before.drop 2) := by
    have read : scripted settings.prompt before = (.ok (some " let a = true"), before.drop 1) := rfl
    have blank : scripted settings.prompt (before.drop 1) = (.ok (some ""), before.drop 2) := rfl
    have trimmed : Script.trimmed " let a = true" = "let a = true" := by decide +kernel
    have settled : Source.isOpen ⟨"<stdin>", "let a = true"⟩ = false := by decide +kernel
    refine .statement read begins ?_ (.complete settled rfl) (.blank blank (by decide +kernel) (.none _))
    rw [trimmed]
    exact .stays _ _
  have breaks : Breaks scripted settings (before.drop 2) () after := by
    have read : scripted settings.prompt (before.drop 2) = (.ok (some "\x7b let a = false"), before.drop 3) := rfl
    have more : scripted settings.continuation (before.drop 3) = (.ok (some "a"), before.drop 4) := rfl
    have fails : scripted settings.continuation (before.drop 4) = (.error (), after) := rfl
    have first : Source.isOpen ⟨"<stdin>", Script.trimmed "\x7b let a = false"⟩ = true := by decide +kernel
    have second : (Source.addLine ⟨"<stdin>", Script.trimmed "\x7b let a = false"⟩ "a").isOpen = true := by decide +kernel
    exact .inside read opens (.more first more (.stays _ _)) (.fails second fails)
  have written : ran.map Ending.output = some "true\n" := by decide +kernel
  have bound : ran.map (fun ending => ending.context.get? "a") = some (some (.boolean true)) := by decide +kernel
  exact ⟨finished, breaks, written, bound,
    (failing_read_ends scripted settings 0 before .global).1 _ _ _ _ finished breaks⟩

end Dialogue

end Reckon
