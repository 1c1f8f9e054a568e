import Reckon.Proofs.Continuation
import Reckon.Proofs.Grammar.Longer
import Reckon.Proofs.Runs

set_option autoImplicit false

/-!
# Sources one behind the other

A source with the text of another on the lines behind it is compiled to the statements of both, and
runs like the one and then the other. Positions are erased to compare them.
-/

namespace Reckon

open Reckon.Parser Reckon.Grammar

def Position.erase (_ : Position) : Unit := ()

namespace Source

/-- Some token is neither a separator nor the end of the text. -/
def HoldsStatement (source : Source) : Prop :=
  ∃ tokens, source.tokens = .ok tokens ∧ ∃ token ∈ tokens, token.kind ∉ [.newline, .terminator, .endOfText]

instance (source : Source) : Decidable source.HoldsStatement :=
  match same : source.tokens with
  | .ok tokens =>
    decidable_of_iff (∃ token ∈ tokens, token.kind ∉ [.newline, .terminator, .endOfText]) <| by
      simp [HoldsStatement, same]
  | .error fault => isFalse <| by simp [HoldsStatement, same]

def Compiles (source : Source) (statements : List (Node Unit)) : Prop :=
  ∃ mark list, source.compile = .ok (.scope mark "global" false list) ∧
    list.map (Node.map Position.erase) = statements

def Runs (source : Source) (context : Context) (run : Run Unit) : Prop :=
  ∃ bound ended, Run.ofSource bound source context = some ended ∧ ended.map Position.erase = run

end Source

section Tokens

variable {source first second : Source} {p q : Position} {text : List Char} {before rest : List (Token Position)}
  {final last : Token Position}

def erased (tokens : List (Token Position)) : List (Token Unit) := tokens.map (Token.map Position.erase)

theorem scan_elsewhere (scanned : Scan.scan p text = .ok (before ++ [final])) (q : Position) :
    ∃ before' final', Scan.scan q text = .ok (before' ++ [final']) ∧ erased before' = erased before ∧
      final'.map Position.erase = final.map Position.erase := by
  obtain ⟨tokens, there, same⟩ := Scan.scan_anywhere scanned q
  obtain ⟨before', final', rfl⟩ := scan_final there
  have split : erased (before' ++ [final']) = erased (before ++ [final]) := same
  rw [erased, erased, List.map_append, List.map_append] at split
  obtain ⟨front, stop⟩ := List.append_inj' split rfl
  exact ⟨before', final', there, front, (List.cons.inj stop).1⟩

theorem tokens_addLine (one : first.tokens = .ok (before ++ [final])) (two : second.tokens = .ok (rest ++ [last])) :
    ∃ before' line rest' last', (first.addLine second.text).tokens = .ok ((before' ++ line :: rest') ++ [last']) ∧
      line.kind = .newline ∧ erased before' = erased before ∧ erased rest' = erased rest ∧
      last'.map Position.erase = last.map Position.erase := by
  rw [Scan.tokens_eq_scan] at one two
  obtain ⟨before', final', scanned, front, _⟩ := scan_elsewhere one (.start (first.addLine second.text))
  let seam := (Position.start (first.addLine second.text)).after first.text.toList
  obtain ⟨rest', last', behind, back, stop⟩ := scan_elsewhere two (seam.next '\n')
  refine ⟨before', ⟨.newline, none, ⟨seam, seam.next '\n'⟩⟩, rest', last', ?_, rfl, front, back, stop⟩
  rw [Scan.tokens_eq_scan, toList_addLine, Scan.scan_line_ok _ _ scanned, Scan.scan_newline, behind]
  change Except.ok _ = _
  rw [List.append_assoc]
  rfl

end Tokens

section Statements

variable {source first second : Source} {before rest : List (Token Position)} {final last : Token Position}

def parsedErased (final : Token Position) (before : List (Token Position)) :=
  outcome (sequence (nested Source.nestingLimit Source.nestingLimit) .endOfText) (final.map Position.erase)
    (erased before)

theorem erased_text (text : ∀ token ∈ before, token.kind ≠ .endOfText) :
    ∀ token ∈ erased before, token.kind ≠ .endOfText := by
  intro token member
  obtain ⟨origin, inner, rfl⟩ := List.mem_map.1 member
  exact text origin inner

theorem sound_erased {stop : Token Unit} (ended : stop.kind = .endOfText) :
    Sound stop (nested Source.nestingLimit Source.nestingLimit) :=
  sound_nested ended Source.nestingLimit Source.nestingLimit

theorem parsedErased_eq (final : Token Position) (before : List (Token Position)) :
    parsedErased final before = renamed Position.erase (List.map (Node.map Position.erase))
      (outcome (sequence (nested Source.nestingLimit Source.nestingLimit) .endOfText) final before) :=
  renames_sequence Source.nestingLimit .endOfText final before

theorem parsed_of_compile (tokens : source.tokens = .ok (before ++ [final])) {program : Node Position}
    (compiled : source.compile = .ok program) : ∃ list, parsedErased final before = .ok (list, []) := by
  obtain ⟨list, read, _⟩ := (compile_eq_ok tokens).1 compiled
  rw [parsedErased_eq, read]
  exact ⟨_, rfl⟩

theorem compiles_of_parsed (tokens : source.tokens = .ok (before ++ [final])) {list : List (Node Unit)}
    (parsed : parsedErased final before = .ok (list, [])) (some' : list ≠ []) : source.Compiles list := by
  rw [parsedErased_eq] at parsed
  cases read : outcome (sequence (nested Source.nestingLimit Source.nestingLimit) .endOfText) final before with
  | error fault =>
    rw [read] at parsed
    cases parsed
  | ok pair =>
    obtain ⟨statements, left⟩ := pair
    rw [read] at parsed
    obtain ⟨rfl, done⟩ := Prod.mk.inj (Except.ok.inj parsed)
    cases List.map_eq_nil_iff.1 done
    obtain ⟨head, tail, rfl⟩ := List.exists_cons_of_ne_nil (l := statements) (by simpa using some')
    exact ⟨_, _, (compile_eq_ok tokens).2 ⟨_, read, rfl⟩, rfl⟩

theorem parsed_ne_nil (tokens : source.tokens = .ok (before ++ [final])) (holds : source.HoldsStatement)
    {list : List (Node Unit)} (parsed : parsedErased final before = .ok (list, [])) : list ≠ [] := by
  obtain ⟨text, ended⟩ := inside_of_tokens tokens
  obtain ⟨all, same, token, member, content⟩ := holds
  cases tokens.symm.trans same
  simp only [List.mem_cons, List.not_mem_nil, or_false, not_or] at content
  rcases List.mem_append.1 member with inner | stops
  · have stops : (final.map Position.erase).kind = .endOfText := ended
    have kept : token.map Position.erase ∈ erased before := List.mem_map_of_mem inner
    exact sequence_ne_nil stops (sound_erased stops) (erased_text text) kept
      (by simpa using ⟨content.1, content.2.1⟩) parsed
  · exact absurd (List.mem_singleton.1 stops ▸ ended) content.2.2

theorem parsed_addLine (one : first.tokens = .ok (before ++ [final])) (two : second.tokens = .ok (rest ++ [last]))
    {statements others : List (Node Unit)} (here : parsedErased final before = .ok (statements, []))
    (there : parsedErased last rest = .ok (others, [])) :
    ∃ all stop, (first.addLine second.text).tokens = .ok (all ++ [stop]) ∧
      parsedErased stop all = .ok (statements ++ others, []) := by
  obtain ⟨before', line, rest', last', joined, newline, front, back, stop⟩ := tokens_addLine one two
  obtain ⟨text, ended⟩ := inside_of_tokens one
  have stops : (last.map Position.erase).kind = .endOfText := (inside_of_tokens two).2
  refine ⟨_, _, joined, ?_⟩
  have joint : Joint (final.map Position.erase) (line.map Position.erase) (erased rest) (last.map Position.erase) :=
    ⟨ended, newline, unbranched stops (sound_erased stops) there, stops⟩
  have append := sequence_append (carried_nested joint Source.nestingLimit Source.nestingLimit) (erased_text text) here
  have split : erased (before' ++ line :: rest') = erased before ++ line.map Position.erase :: erased rest := by
    rw [← front, ← back, erased, List.map_append]
    rfl
  unfold parsedErased
  rw [split, stop, append]
  unfold parsedErased at there
  rw [there]
  rfl

end Statements

section Runs

variable {source first second : Source} {statements others : List (Node Unit)} {context : Context}
  {run other : Run Unit}

theorem Source.Runs.unique (one : source.Runs context run) (two : source.Runs context other) : run = other := by
  obtain ⟨bound, ended, ends, rfl⟩ := one
  obtain ⟨bound', ended', ends', rfl⟩ := two
  obtain ⟨least, settled⟩ := Run.ofSource_settles ends
  obtain ⟨least', settled'⟩ := Run.ofSource_settles ends'
  have same := (settled (max least least') (by omega)).symm.trans (settled' (max least least') (by omega))
  rw [Option.some.inj same]

theorem Source.Compiles.runs_iff (compiles : source.Compiles statements) :
    source.Runs context run ↔ ∃ bound, Run.statements bound .null statements context = some run := by
  obtain ⟨mark, list, compiled, rfl⟩ := compiles
  have whole : ∀ bound, Run.ofSource bound source context = Run.statements bound .null list context :=
    fun bound => Run.ofSource_of_ok compiled
  constructor
  · rintro ⟨bound, ended, ends, rfl⟩
    rw [whole] at ends
    refine ⟨bound, ?_⟩
    rw [Run.map_statements, ends]
    rfl
  · rintro ⟨bound, ends⟩
    rw [Run.map_statements] at ends
    obtain ⟨ended, ends, same⟩ := Option.map_eq_some_iff.1 ends
    exact ⟨bound, ended, (whole bound).trans ends, same⟩

theorem runs_append (one : first.Compiles statements) (two : second.Compiles others)
    (both : source.Compiles (statements ++ others)) (some' : statements ≠ []) (more : others ≠ []) :
    source.Runs context run ↔ ∃ start, first.Runs context start ∧
      match start.answer with
      | .error _ => run = start
      | .ok _ => ∃ rest, second.Runs start.context rest ∧ run = rest.behind start.results := by
  simp only [one.runs_iff, two.runs_iff, both.runs_iff, Run.statements_append some' more]
  constructor
  · rintro ⟨bound, ends⟩
    obtain ⟨start, here, there⟩ := Option.bind_eq_some_iff.1 ends
    refine ⟨start, ⟨bound, here⟩, ?_⟩
    unfold Run.andThen at there
    cases answer : start.answer with
    | error fault =>
      rw [answer] at there
      exact (Option.some.inj there).symm
    | ok value =>
      rw [answer] at there
      obtain ⟨rest, ends, same⟩ := Option.map_eq_some_iff.1 there
      exact ⟨rest, ⟨bound, ends⟩, same.symm⟩
  · rintro ⟨start, ⟨bound, here⟩, there⟩
    cases answer : start.answer with
    | error fault =>
      rw [answer] at there
      subst there
      refine ⟨bound, ?_⟩
      rw [here, Option.bind_some, Run.andThen, answer]
    | ok value =>
      rw [answer] at there
      obtain ⟨rest, ⟨bound', ends⟩, rfl⟩ := there
      obtain ⟨least, settled⟩ := Run.statements_settle here
      obtain ⟨least', settled'⟩ := Run.statements_settle ends
      refine ⟨max least least', ?_⟩
      rw [settled _ (by omega), Option.bind_some, Run.andThen, answer]
      dsimp only
      rw [settled' _ (by omega)]
      rfl

end Runs

/-- Two sources that hold statements and are compiled: with the text of the one on the lines behind the
other they are compiled to the statements of both. From every context this ends just when running the one
and, if it did not fail, then the other does, with the results of both and what the last of them leaves. -/
theorem run_addLine {first second : Source} {program later : Node Position} (compiled : first.compile = .ok program)
    (compiled' : second.compile = .ok later) (holds : first.HoldsStatement) (holds' : second.HoldsStatement) :
    (∃ statements others, first.Compiles statements ∧ second.Compiles others ∧
      (first.addLine second.text).Compiles (statements ++ others)) ∧
    ∀ context run, (first.addLine second.text).Runs context run ↔ ∃ start, first.Runs context start ∧
      match start.answer with
      | .error _ => run = start
      | .ok _ => ∃ rest, second.Runs start.context rest ∧ run = rest.behind start.results := by
  obtain ⟨tokens, one, _⟩ := id holds
  obtain ⟨tokens', two, _⟩ := id holds'
  obtain ⟨before, final, rfl⟩ := scan_final (Scan.tokens_eq_scan first ▸ one)
  obtain ⟨rest, last, rfl⟩ := scan_final (Scan.tokens_eq_scan second ▸ two)
  obtain ⟨statements, here⟩ := parsed_of_compile one compiled
  obtain ⟨others, there⟩ := parsed_of_compile two compiled'
  have some' := parsed_ne_nil one holds here
  have more := parsed_ne_nil two holds' there
  obtain ⟨all, stop, joined, parsed⟩ := parsed_addLine one two here there
  have compiles := compiles_of_parsed one here some'
  have compiles' := compiles_of_parsed two there more
  have both := compiles_of_parsed joined parsed (by simp [some'])
  exact ⟨⟨statements, others, compiles, compiles', both⟩, fun context run =>
    runs_append compiles compiles' both some' more⟩

theorem run_addLine_comment :
    let first : Source := ⟨"<stdin>", "let a = true; # kept"⟩
    let second : Source := ⟨"<stdin>", "a"⟩
    (∃ program, first.compile = .ok program) ∧ (∃ later, second.compile = .ok later) ∧
      first.HoldsStatement ∧ second.HoldsStatement ∧
      (∃ statements others, first.Compiles statements ∧ second.Compiles others ∧
        (first.addLine second.text).Compiles (statements ++ others)) ∧
      ∀ run, (first.addLine second.text).Runs Context.global run ↔ ∃ start, first.Runs Context.global start ∧
        match start.answer with
        | .error _ => run = start
        | .ok _ => ∃ rest, second.Runs start.context rest ∧ run = rest.behind start.results := by
  intro first second
  have clean : (blame first.compile).isNone = true := by decide +kernel
  have clean' : (blame second.compile).isNone = true := by decide +kernel
  have holds : first.HoldsStatement := by decide +kernel
  have holds' : second.HoldsStatement := by decide +kernel
  obtain ⟨program, compiled⟩ := blame_eq_none.1 (Option.isNone_iff_eq_none.1 clean)
  obtain ⟨later, compiled'⟩ := blame_eq_none.1 (Option.isNone_iff_eq_none.1 clean')
  obtain ⟨joined, runs⟩ := run_addLine compiled compiled' holds holds'
  exact ⟨⟨program, compiled⟩, ⟨later, compiled'⟩, holds, holds', joined, runs Context.global⟩

end Reckon
