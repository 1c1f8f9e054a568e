import Reckon.CommandLine

set_option autoImplicit false

/-!
# What a conversation runs

A read-eval-print loop is as good as the sources that its lines make up, run one after another.
-/

namespace Reckon

variable {bound : Nat}

def runAll (bound : Nat) : List Source → Context → Option Context
  | [], context => some context
  | source :: rest, context => do
    let run ← Run.ofSource bound source context
    runAll bound rest run.context

theorem runAll_cons (source : Source) (rest : List Source) (context : Context) :
    runAll bound (source :: rest) context =
      (Run.ofSource bound source context).bind fun run => runAll bound rest run.context := rfl

theorem runAll_singleton (source : Source) (context : Context) :
    runAll bound [source] context = (Run.ofSource bound source context).map Run.context := by
  rw [runAll_cons]
  cases Run.ofSource bound source context <;> rfl

def Ending.behind (output : String) (ending : Ending) : Ending :=
  { ending with output := output ++ ending.output }

theorem Ending.behind_behind (first second : String) (ending : Ending) :
    (ending.behind second).behind first = ending.behind (first ++ second) := by
  simp [Ending.behind, String.append_assoc]

namespace Repl

def offered (later : Option Source → List Source) (source : Source) : List Source :=
  if source.isOpen then later (some source) else source :: later none

def sources : List Reading → Option Source → List Source
  | [], pending => pending.toList
  -- What is open when a line cannot be read is never run.
  | .failure :: _, _ => []
  | .line text :: rest, some source => offered (sources rest) (source.addLine text)
  | .line text :: rest, none =>
    let line := String.ofList (Text.trim text.toList)
    if line = "" then sources rest none
    else if line = "exit" ∨ line = "quit" then []
    else offered (sources rest) ⟨"<stdin>", line⟩

variable {settings : Settings} {readings rest : List Reading} {repl : Repl}

def goOn (settings : Settings) (bound : Nat) (rest : List Reading) (fed : Repl × String) : Option Ending :=
  if fed.1.stopped then some ⟨fed.2, fed.1.context, false⟩
  else (read settings bound rest fed.1).map (Ending.behind fed.2)

theorem read_line (text : String) :
    read settings bound (.line text :: rest) repl =
      ((repl.feed settings bound text).bind (goOn settings bound rest)).map
        (Ending.behind (repl.prompt settings)) := by
  change ((repl.feed settings bound text).bind fun fed => _) = _
  cases repl.feed settings bound text with
  | none => rfl
  | some fed =>
    obtain ⟨after, output⟩ := fed
    unfold goOn
    dsimp only [Option.bind_some]
    cases after.stopped with
    | true => rfl
    | false =>
      simp only [Bool.false_eq_true, if_false, Option.map_map]
      change ((read settings bound rest after).bind fun ending => _) = _
      cases read settings bound rest after with
      | none => rfl
      | some ending =>
        change some (Ending.behind (repl.prompt settings ++ output) ending) = _
        rw [← Ending.behind_behind]
        rfl

def finish (settings : Settings) (bound : Nat) (rest : List Reading) (after : Repl) : Option Context :=
  if after.stopped then some after.context else (read settings bound rest after).map Ending.context

theorem context_goOn (fed : Repl × String) :
    (goOn settings bound rest fed).map Ending.context = finish settings bound rest fed.1 := by
  unfold goOn finish
  cases fed.1.stopped with
  | true => rfl
  | false =>
    simp only [Bool.false_eq_true, if_false, Option.map_map]
    rfl

theorem context_read_line (text : String) :
    (read settings bound (.line text :: rest) repl).map Ending.context =
      (repl.feed settings bound text).bind fun fed => finish settings bound rest fed.1 := by
  rw [read_line, Option.map_map]
  cases repl.feed settings bound text with
  | none => rfl
  | some fed => exact context_goOn fed

theorem run_eq (source : Source) :
    repl.run settings bound source =
      (Run.ofSource bound source repl.context).map fun run => (start run.context, run.transcriptBy settings.write) := by
  change ((Run.ofSource bound source repl.context).bind fun run => _) = _
  cases Run.ofSource bound source repl.context <;> rfl

def Follows (settings : Settings) (bound : Nat) (rest : List Reading) : Prop :=
  ∀ repl : Repl, repl.stopped = false →
    (read settings bound rest repl).map Ending.context = runAll bound (sources rest repl.pending) repl.context

theorem Follows.finish_eq (follows : Follows settings bound rest) (going : repl.stopped = false) :
    finish settings bound rest repl = runAll bound (sources rest repl.pending) repl.context := by
  unfold finish
  rw [if_neg (by simp [going])]
  exact follows repl going

theorem submit_finish (follows : Follows settings bound rest) (going : repl.stopped = false) (source : Source) :
    ((repl.submit settings bound source).bind fun fed => finish settings bound rest fed.1) =
      runAll bound (offered (sources rest) source) repl.context := by
  unfold submit offered
  cases source.isOpen with
  | true => exact Follows.finish_eq follows going
  | false =>
    simp only [Bool.false_eq_true, if_false]
    rw [run_eq, runAll_cons]
    cases Run.ofSource bound source repl.context with
    | none => rfl
    | some run => exact follows (start run.context) rfl

theorem context_endInput :
    (read settings bound [] repl).map Ending.context = (repl.endInput settings bound).map fun fed => fed.1.context := by
  change ((repl.endInput settings bound).bind fun fed => _).map _ = _
  cases repl.endInput settings bound <;> rfl

theorem follows_readings (readings : List Reading) : Follows settings bound readings := by
  induction readings with
  | nil =>
    rintro ⟨context, pending, stopped⟩ going
    rw [context_endInput]
    cases pending with
    | none => rfl
    | some source =>
      change (Repl.run settings bound ⟨context, some source, stopped⟩ source).map _ = runAll bound [source] context
      rw [run_eq, runAll_singleton, Option.map_map]
      rfl
  | cons reading rest ih =>
    rintro ⟨context, pending, stopped⟩ going
    cases reading with
    | failure => rfl
    | line text =>
      rw [context_read_line]
      cases pending with
      | some source => exact submit_finish ih going (source.addLine text)
      | none =>
        unfold feed sources
        dsimp only
        split
        · exact ih.finish_eq going
        · split
          · rfl
          · exact submit_finish ih going _

end Repl

end Reckon
