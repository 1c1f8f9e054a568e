import Reckon.Proofs.Runs
import Reckon.Proofs.Script

set_option autoImplicit false

/-!
# The loop over any source of lines

A loop reads from any source of lines, asking for the lines that complete a statement through a function that
knows only lines and the end of input: a read that fails is kept aside and is looked at when the statement
has been dealt with. What a loop has done when it ends is what running the texts of its finished statements does.
-/

namespace Reckon

namespace Dialogue

variable {σ τ ε : Type}

/-- Answers a prompt with a line, the end of input or an error, and is left in another state. -/
abbrev Lines (σ ε : Type) := String → σ → Except ε (Option String) × σ

def compileWith (next : τ → Option String × τ) :
    Nat → Source → τ → Option (Except (Fault Position) (Node Position) × τ)
  | 0, _, _ => none
  | reads + 1, source, state =>
    match source.compile with
    | .ok program => some (.ok program, state)
    | .error fault =>
      if fault.isContinuable then
        match next state with
        | (some line, state) => compileWith next reads (source.addLine line) state
        | (none, state) => some (.error fault, state)
      else some (.error fault, state)

/-- To who asks for a line an error looks like the end of input; it is kept. -/
def capturing (lines : Lines σ ε) (prompt : String) : σ × Option ε → Option String × (σ × Option ε)
  | (state, kept) =>
    match lines prompt state with
    | (.ok answer, state) => (answer, state, kept)
    | (.error error, state) => (none, state, some error)

def written (settings : Settings) (kept : Option ε) (run : Run Position) : Except ε String :=
  match kept with
  | some error => .error error
  | none => .ok (run.transcriptBy settings.write)

def runCompiled (bound : Nat) (context : Context) : Except (Fault Position) (Node Position) → Option (Run Position)
  | .error fault => return .refused fault context
  | .ok program => Run.ofTree bound context (some program)

def evaluateFrom (lines : Lines σ ε) (settings : Settings) (bound reads : Nat) (source : Source) (state : σ)
    (context : Context) : Option (Except ε String × σ × Context) := do
  let (compiled, state, kept) ← compileWith (capturing lines settings.continuation) reads source (state, none)
  let run ← runCompiled bound context compiled
  return (written settings kept run, state, run.context)

structure Outcome (σ ε : Type) where
  result : Except ε Unit
  output : String
  lines : σ
  context : Context

def Outcome.behind (output : String) (outcome : Outcome σ ε) : Outcome σ ε :=
  { outcome with output := output ++ outcome.output }

def goOn (others : σ → Context → Option (Outcome σ ε)) : Except ε String × σ × Context → Option (Outcome σ ε)
  | (.error error, state, context) => return ⟨.error error, "", state, context⟩
  | (.ok output, state, context) => (others state context).map (Outcome.behind output)

/-- Reads and runs statements until the end of input, a line that leaves or an error; none past `reads` lines. -/
def run (lines : Lines σ ε) (settings : Settings) (bound : Nat) : Nat → σ → Context → Option (Outcome σ ε)
  | 0, _, _ => none
  | reads + 1, state, context =>
    match lines settings.prompt state with
    | (.error error, state) => return ⟨.error error, "", state, context⟩
    | (.ok none, state) => return ⟨.ok (), "", state, context⟩
    | (.ok (some line), state) =>
      let line := Script.trimmed line
      if line = "" then run lines settings bound reads state context
      else if line = "exit" ∨ line = "quit" then return ⟨.ok (), "", state, context⟩
      else
        (evaluateFrom lines settings bound reads ⟨"<stdin>", line⟩ state context).bind
          (goOn (run lines settings bound reads))

variable (lines : Lines σ ε)

inductive Continues (prompt : String) : Source → σ → Source → σ → Prop where
  | stays (source : Source) (state : σ) : Continues prompt source state source state
  | more {source final : Source} {before middle after : σ} {line : String} (still : source.isOpen = true)
    (read : lines prompt before = (.ok (some line), middle))
    (others : Continues prompt (source.addLine line) middle final after) : Continues prompt source before final after

/-- How the reading of a statement ends: with its last line, the end of input or an error. -/
inductive Ends (prompt : String) (source : Source) (before after : σ) : Option ε → Prop where
  | complete (settled : source.isOpen = false) (same : after = before) : Ends prompt source before after none
  | cut (still : source.isOpen = true) (ended : lines prompt before = (.ok none, after)) :
    Ends prompt source before after none
  | fails {error : ε} (still : source.isOpen = true) (fails : lines prompt before = (.error error, after)) :
    Ends prompt source before after (some error)

structure Begins (line : String) : Prop where
  text : Script.trimmed line ≠ ""
  stays : ¬ Script.Leaves line

inductive Finished (settings : Settings) : σ → List String → σ → Prop where
  | none (state : σ) : Finished settings state [] state
  | blank {line : String} {texts : List String} {before middle after : σ}
    (read : lines settings.prompt before = (.ok (some line), middle)) (empty : Script.trimmed line = "")
    (others : Finished settings middle texts after) : Finished settings before texts after
  | statement {line text : String} {texts : List String} {before middle last later after : σ}
    (read : lines settings.prompt before = (.ok (some line), middle)) (begins : Begins line)
    (continues : Continues lines settings.continuation ⟨"<stdin>", Script.trimmed line⟩ middle ⟨"<stdin>", text⟩ last)
    (ends : Ends lines settings.continuation ⟨"<stdin>", text⟩ last later none)
    (others : Finished settings later texts after) : Finished settings before (text :: texts) after

/-- The next read that fails is for a first line, or for another line of a statement that is open. -/
inductive Breaks (settings : Settings) : σ → ε → σ → Prop where
  | first {error : ε} {before after : σ} (fails : lines settings.prompt before = (.error error, after)) :
    Breaks settings before error after
  | inside {line : String} {source : Source} {error : ε} {before middle later after : σ}
    (read : lines settings.prompt before = (.ok (some line), middle)) (begins : Begins line)
    (continues : Continues lines settings.continuation ⟨"<stdin>", Script.trimmed line⟩ middle source later)
    (ends : Ends lines settings.continuation source later after (some error)) : Breaks settings before error after

inductive Stops (settings : Settings) : σ → σ → Prop where
  | ended {before after : σ} (ended : lines settings.prompt before = (.ok none, after)) : Stops settings before after
  | leaves {line : String} {before after : σ} (read : lines settings.prompt before = (.ok (some line), after))
    (leaves : Script.Leaves line) : Stops settings before after

variable {lines} {settings : Settings} {bound reads : Nat} {prompt : String} {source final : Source}
  {before middle later after : σ} {kept : Option ε} {error : ε} {context : Context}

theorem compileWith_settled (next : τ → Option String × τ) (settled : source.isOpen = false) (state : τ) :
    compileWith next (reads + 1) source state = some (source.compile, state) := by
  unfold compileWith
  cases compiled : source.compile with
  | ok program => rfl
  | error fault =>
    have closed : fault.isContinuable = false := by simpa [Source.isOpen, compiled] using settled
    simp [closed]

theorem compileWith_open (next : τ → Option String × τ) (still : source.isOpen = true) (state : τ) :
    compileWith next (reads + 1) source state =
      match next state with
      | (some line, state) => compileWith next reads (source.addLine line) state
      | (none, state) => some (source.compile, state) := by
  rw [compileWith]
  cases compiled : source.compile with
  | ok program => simp [Source.isOpen, compiled] at still
  | error fault =>
    have more : fault.isContinuable = true := by simpa [Source.isOpen, compiled] using still
    simp [more]

theorem capturing_ok {answer : Option String} (read : lines prompt before = (.ok answer, after)) :
    capturing lines prompt (before, kept) = (answer, after, kept) := by
  simp [capturing, read]

theorem capturing_error (fails : lines prompt before = (.error error, after)) :
    capturing lines prompt (before, kept) = (none, after, some error) := by
  simp [capturing, fails]

theorem Continues.name (continues : Continues lines prompt source before final after) : final.name = source.name := by
  induction continues with
  | stays => rfl
  | more _ _ _ ih => exact ih

theorem Continues.compileWith (continues : Continues lines prompt source before final after) (kept : Option ε) :
    ∃ count, ∀ reads, compileWith (capturing lines prompt) (count + reads) source (before, kept) =
      compileWith (capturing lines prompt) reads final (after, kept) := by
  induction continues with
  | stays => exact ⟨0, fun reads => by rw [Nat.zero_add]⟩
  | @more source final before middle after line still read _ ih =>
    obtain ⟨count, same⟩ := ih
    refine ⟨count + 1, fun reads => ?_⟩
    rw [Nat.add_right_comm, compileWith_open _ still, capturing_ok read]
    exact same reads

theorem Ends.compileWith (ends : Ends lines prompt final middle after kept) (reads : Nat) :
    compileWith (capturing lines prompt) (reads + 1) final (middle, none) = some (final.compile, after, kept) := by
  cases ends with
  | complete settled same => rw [compileWith_settled _ settled, same]
  | cut still ended => rw [compileWith_open _ still, capturing_ok ended]
  | fails still fails => rw [compileWith_open _ still, capturing_error fails]

theorem exists_ends {compiled : Except (Fault Position) (Node Position)}
    (compiles : compileWith (capturing lines prompt) reads source (before, none) = some (compiled, after, kept)) :
    ∃ final middle, Continues lines prompt source before final middle ∧ Ends lines prompt final middle after kept ∧
      compiled = final.compile := by
  induction reads generalizing source before with
  | zero => cases compiles
  | succ reads ih =>
    cases still : source.isOpen with
    | false =>
      rw [compileWith_settled _ still] at compiles
      cases compiles
      exact ⟨source, _, .stays _ _, .complete still rfl, rfl⟩
    | true =>
      rw [compileWith_open _ still] at compiles
      cases read : lines prompt before with
      | mk answer middle =>
        cases answer with
        | error error =>
          rw [capturing_error read] at compiles
          cases compiles
          exact ⟨source, before, .stays _ _, .fails still read, rfl⟩
        | ok line? =>
          rw [capturing_ok read] at compiles
          cases line? with
          | none =>
            cases compiles
            exact ⟨source, before, .stays _ _, .cut still read, rfl⟩
          | some line =>
            obtain ⟨final, last, continues, ends, same⟩ := ih compiles
            exact ⟨final, last, .more still read continues, ends, same⟩

theorem runCompiled_compile (source : Source) :
    runCompiled bound context source.compile = Run.ofSource bound source context := by
  unfold Run.ofSource
  cases source.compile <;> rfl

theorem evaluateFrom_eq
    (compiles : compileWith (capturing lines settings.continuation) reads source (before, none) =
      some (final.compile, after, kept)) :
    evaluateFrom lines settings bound reads source before context =
      (Run.ofSource bound final context).map fun run => (written settings kept run, after, run.context) := by
  unfold evaluateFrom
  rw [compiles, ← runCompiled_compile]
  change (runCompiled bound context final.compile).bind _ = _
  cases runCompiled bound context final.compile <;> rfl

theorem evaluateFrom_ends (continues : Continues lines settings.continuation source before final middle)
    (ends : Ends lines settings.continuation final middle after kept) (bound : Nat) (context : Context) :
    ∃ least, ∀ reads, least ≤ reads → evaluateFrom lines settings bound reads source before context =
      (Run.ofSource bound final context).map fun run => (written settings kept run, after, run.context) := by
  obtain ⟨count, same⟩ := continues.compileWith none
  refine ⟨count + 1, fun reads enough => evaluateFrom_eq ?_⟩
  obtain ⟨more, rfl⟩ := Nat.exists_eq_add_of_le enough
  rw [Nat.add_assoc, Nat.add_comm 1 more, same, ends.compileWith]

theorem exists_evaluateFrom {result : Except ε String} {final : Context}
    (evaluates : evaluateFrom lines settings bound reads source before context = some (result, after, final)) :
    ∃ complete middle kept run, Continues lines settings.continuation source before complete middle ∧
      Ends lines settings.continuation complete middle after kept ∧ Run.ofSource bound complete context = some run ∧
      result = written settings kept run ∧ final = run.context := by
  cases compiles : compileWith (capturing lines settings.continuation) reads source (before, none) with
  | none =>
    rw [evaluateFrom, compiles] at evaluates
    cases evaluates
  | some ended =>
    obtain ⟨compiled, after', kept⟩ := ended
    obtain ⟨complete, middle, continues, ends, rfl⟩ := exists_ends compiles
    rw [evaluateFrom_eq compiles] at evaluates
    obtain ⟨run, ran, same⟩ := Option.map_eq_some_iff.1 evaluates
    cases same
    exact ⟨complete, middle, kept, run, continues, ends, ran, rfl, rfl⟩

theorem ofSource_open (still : source.isOpen = true) (bound : Nat) (context : Context) :
    ∃ fault, Run.ofSource bound source context = some (Run.refused fault context) := by
  cases compiled : source.compile with
  | ok program => simp [Source.isOpen, compiled] at still
  | error fault => exact ⟨fault, Run.ofSource_of_error compiled⟩

variable {texts : List String} {line : String} {result : Except ε Unit} {outcome : Outcome σ ε}

def ranTexts (settings : Settings) (bound : Nat) (texts : List String) (context : Context) (result : Except ε Unit)
    (lines : σ) : Option (Outcome σ ε) :=
  (runTexts settings.write bound texts context).map fun ending => ⟨result, ending.output, lines, ending.context⟩

theorem ranTexts_nil (settings : Settings) (bound : Nat) (context : Context) (result : Except ε Unit) (state : σ) :
    ranTexts settings bound [] context result state = some ⟨result, "", state, context⟩ := rfl

theorem ranTexts_cons (text : String) (texts : List String) (result : Except ε Unit) (state : σ) :
    ranTexts settings bound (text :: texts) context result state =
      (Run.ofSource bound ⟨"<stdin>", text⟩ context).bind fun run =>
        (ranTexts settings bound texts run.context result state).map
          (Outcome.behind (run.transcriptBy settings.write)) := by
  unfold ranTexts
  rw [runTexts_cons, Option.map_bind]
  simp [Option.map_map, Function.comp_def, Outcome.behind, Ending.behind]

theorem run_blank (read : lines settings.prompt before = (.ok (some line), middle)) (empty : Script.trimmed line = "") :
    run lines settings bound (reads + 1) before context = run lines settings bound reads middle context := by
  simp [run, read, empty]

theorem run_leaves (read : lines settings.prompt before = (.ok (some line), middle)) (leaves : Script.Leaves line) :
    run lines settings bound (reads + 1) before context = some ⟨.ok (), "", middle, context⟩ := by
  rcases leaves with exits | quits
  · simp [run, read, exits]
  · simp [run, read, quits]

theorem run_begins (read : lines settings.prompt before = (.ok (some line), middle)) (begins : Begins line) :
    run lines settings bound (reads + 1) before context =
      (evaluateFrom lines settings bound reads ⟨"<stdin>", Script.trimmed line⟩ middle context).bind
        (goOn (run lines settings bound reads)) := by
  have stays := begins.stays
  unfold Script.Leaves at stays
  simp [run, read, begins.text, stays]

def Settles (lines : Lines σ ε) (settings : Settings) (bound : Nat) (before : σ) (context : Context)
    (outcome : Option (Outcome σ ε)) : Prop :=
  ∃ least, ∀ reads, least ≤ reads → run lines settings bound reads before context = outcome

theorem settles_after {outcome : Option (Outcome σ ε)} (least : Nat)
    (settled : ∀ reads, least ≤ reads → run lines settings bound (reads + 1) before context = outcome) :
    Settles lines settings bound before context outcome := by
  refine ⟨least + 1, fun reads enough => ?_⟩
  obtain ⟨more, rfl⟩ := Nat.exists_eq_add_of_le' (Nat.le_trans (Nat.le_add_left 1 _) enough)
  exact settled more (Nat.le_of_succ_le_succ enough)

theorem settles_step {outcome outcome' : Option (Outcome σ ε)} {context' : Context} (least : Nat)
    (step : ∀ reads, least ≤ reads → run lines settings bound reads middle context' = outcome' →
      run lines settings bound (reads + 1) before context = outcome)
    (settles : Settles lines settings bound middle context' outcome') :
    Settles lines settings bound before context outcome := by
  obtain ⟨least', settled⟩ := settles
  exact settles_after (max least least') fun reads enough => step reads (by omega) (settled reads (by omega))

theorem Finished.settles (finished : Finished lines settings before texts middle)
    (ends : ∀ context, Settles lines settings bound middle context (ranTexts settings bound [] context result after))
    (context : Context) :
    Settles lines settings bound before context (ranTexts settings bound texts context result after) := by
  induction finished generalizing context with
  | none state => exact ends context
  | blank read empty _ ih =>
    exact settles_step 0 (fun reads _ same => (run_blank read empty).trans same) (ih ends context)
  | @statement line text texts before middle last later after' read begins continues ended _ ih =>
    obtain ⟨least, evaluates⟩ := evaluateFrom_ends continues ended bound context
    rw [ranTexts_cons]
    cases ran : Run.ofSource bound ⟨"<stdin>", text⟩ context with
    | none =>
      refine settles_after least fun reads enough => ?_
      rw [run_begins read begins, evaluates reads enough, ran]
      rfl
    | some run =>
      refine settles_step least (fun reads enough same => ?_) (ih ends run.context)
      rw [run_begins read begins, evaluates reads enough, ran, Option.map_some, Option.bind_some, Option.bind_some,
        ← same]
      rfl

theorem Breaks.settles (breaks : Breaks lines settings before error after) (context : Context) :
    Settles lines settings bound before context (ranTexts settings bound [] context (.error error) after) := by
  rw [ranTexts_nil]
  cases breaks with
  | first fails => exact settles_after 0 fun reads _ => by simp [run, fails]
  | @inside line source error before middle later after read begins continues ends =>
    obtain ⟨least, evaluates⟩ := evaluateFrom_ends continues ends bound context
    cases ends with
    | fails still fails =>
      -- The open statement is run for its fault, which changes nothing and is not written.
      obtain ⟨fault, refused⟩ := ofSource_open still bound context
      refine settles_after least fun reads enough => ?_
      rw [run_begins read begins, evaluates reads enough, refused]
      rfl

theorem exists_finished (ended : run lines settings bound reads before context = some outcome) :
    ∃ texts middle, Finished lines settings before texts middle ∧
      ((∃ error, outcome.result = .error error ∧ Breaks lines settings middle error outcome.lines) ∨
        outcome.result = .ok () ∧ Stops lines settings middle outcome.lines) ∧
      ranTexts settings bound texts context outcome.result outcome.lines = some outcome := by
  induction reads generalizing before context outcome with
  | zero => cases ended
  | succ reads ih =>
    cases read : lines settings.prompt before with
    | mk answer middle =>
      cases answer with
      | error error =>
        obtain rfl : ⟨.error error, "", middle, context⟩ = outcome := by simpa [run, read] using ended
        exact ⟨[], before, .none _, .inl ⟨error, rfl, .first read⟩, rfl⟩
      | ok line? =>
        cases line? with
        | none =>
          obtain rfl : ⟨.ok (), "", middle, context⟩ = outcome := by simpa [run, read] using ended
          exact ⟨[], before, .none _, .inr ⟨rfl, .ended read⟩, rfl⟩
        | some line =>
          by_cases empty : Script.trimmed line = ""
          · rw [run_blank read empty] at ended
            obtain ⟨texts, last, finished, how, ran⟩ := ih ended
            exact ⟨texts, last, .blank read empty finished, how, ran⟩
          by_cases leaves : Script.Leaves line
          · rw [run_leaves read leaves] at ended
            cases ended
            exact ⟨[], before, .none _, .inr ⟨rfl, .leaves read leaves⟩, rfl⟩
          have begins : Begins line := ⟨empty, leaves⟩
          rw [run_begins read begins] at ended
          obtain ⟨⟨result, state, final⟩, evaluates, more⟩ := Option.bind_eq_some_iff.1 ended
          obtain ⟨complete, last, kept, run, continues, ends, ran, rfl, rfl⟩ := exists_evaluateFrom evaluates
          cases kept with
          | some error =>
            cases ends with
            | fails still fails =>
              obtain ⟨fault, refused⟩ := ofSource_open still bound context
              cases refused.symm.trans ran
              cases more
              exact ⟨[], before, .none _, .inl ⟨error, rfl, .inside read begins continues (.fails still fails)⟩, rfl⟩
          | none =>
            obtain ⟨others, went, rfl⟩ := Option.map_eq_some_iff.1 more
            obtain ⟨texts, later, finished, how, wrote⟩ := ih went
            obtain ⟨name, text⟩ := complete
            obtain rfl : name = "<stdin>" := continues.name
            refine ⟨text :: texts, later, .statement read begins continues ends finished, how, ?_⟩
            rw [ranTexts_cons, ran, Option.bind_some]
            exact congrArg (Option.map _) wrote

end Dialogue

end Reckon
