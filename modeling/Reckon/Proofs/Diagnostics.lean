import Reckon.Proofs.Evaluation.LastResult
import Reckon.Proofs.Grammar.Anchors
import Reckon.Proofs.Names
import Reckon.Proofs.Runs
import Reckon.Proofs.Token.Lossless

set_option autoImplicit false

/-!
# Diagnostics

A fault of a text is found at the part of the text that its cause names, whether the text was scanned,
parsed or run.
-/

namespace Reckon

open Reckon.Parser Reckon.Grammar Reckon.Evaluation

namespace Source

def excerpt (source : Source) (span : Span Position) : List Char :=
  source.slice span.start.index span.stop.index

structure Within (source : Source) (span : Span Position) : Prop where
  ordered : span.start.index ≤ span.stop.index
  inside : span.stop.index ≤ source.text.toList.length
  placed : span = ⟨source.position span.start.index, source.position span.stop.index⟩

def HasToken (source : Source) (token : Token Position) : Prop :=
  ∃ tokens, source.tokens = .ok tokens ∧ token ∈ tokens

/-- What the text is at the span of a fault with this cause. -/
def Shows (source : Source) (span : Span Position) : Cause → Prop
  | .illegalCharacter c => source.excerpt span = [c]
  | .unexpectedToken found _ => ∃ token, source.HasToken token ∧ span = token.span ∧ found = token.text ∧
    Scan.Spells token.kind token.payload (source.excerpt span)
  | .unexpectedEnd _ => span = .point (source.position source.text.toList.length) ∧ source.excerpt span = []
  | .tooDeep _ => ∃ token, source.HasToken token ∧ span = token.span ∧
    (Scan.Spells token.kind token.payload (source.excerpt span) ∨
      token.kind = .endOfText ∧ source.excerpt span = [])
  | .unsupported operator operand side =>
    (∃ mark, operator.mark? = some mark ∧ source.excerpt span = mark.toList) ∨
      -- A condition is null.
      operator = .equal ∧ operand = Value.null.text ∧ side = .left ∧ ∃ program, source.compile = .ok program ∧
        ∃ part, Node.Part (fun _ => true) part program ∧ ∃ condition ∈ part.conditions, span = condition.span
  | .divisionByZero => source.excerpt span = ['/'] ∨ source.excerpt span = ['/', '/']
  | .undefinedVariable name _ => source.excerpt span = name.toList
  | .missingNode => False

structure Points (source : Source) (fault : Fault Position) : Prop where
  within : source.Within fault.span
  shows : source.Shows fault.span fault.cause

end Source

namespace Scan

variable {kind : Kind} {payload : Option Payload} {spelling : List Char}

theorem Spells.of_mark (spells : Spells kind payload spelling) {text : String} (written : kind.mark? = some text) :
    spelling = text.toList := by
  cases spells with
  | mark same =>
    rw [written] at same
    cases same
    rfl
  | @word _ other word =>
    cases kind <;> simp [Kind.mark?, Kind.word?] at written word
  | last | identifier | number => cases written

theorem Spells.of_identifier (spells : Spells .identifier payload spelling) :
    payload = some (.name (String.ofList spelling)) := by
  cases spells with
  | mark written => cases written
  | word written => cases written
  | identifier => rfl

end Scan

variable {source : Source} {tokens before after : List (Token Position)} {token final : Token Position}
  {first second span : Span Position} {fault : Fault Position}

namespace Aligned

theorem cases_of_mem (aligned : Aligned source tokens) (member : token ∈ tokens) :
    token ∈ tokens.dropLast ∨ token = ⟨.endOfText, none, .point (source.position source.text.toList.length)⟩ := by
  obtain ⟨front, rfl⟩ := aligned.ends
  simpa using member

theorem within (aligned : Aligned source tokens) (member : token ∈ tokens) : source.Within token.span := by
  obtain ⟨inside, placed⟩ := aligned.placed token member
  refine ⟨?_, inside, placed⟩
  rcases aligned.cases_of_mem member with inner | rfl
  · exact Nat.le_of_lt (aligned.nonempty token inner)
  · exact Nat.le_refl _

theorem spelled_of_kind (aligned : Aligned source tokens) (member : token ∈ tokens)
    (text : token.kind ≠ .endOfText) : Scan.Spells token.kind token.payload (source.excerpt token.span) := by
  rcases aligned.cases_of_mem member with inner | rfl
  · exact aligned.spelled token inner
  · exact absurd rfl text

theorem excerpt_end (aligned : Aligned source tokens) (member : token ∈ tokens) (ended : token.kind = .endOfText) :
    token.span = .point (source.position source.text.toList.length) ∧ source.excerpt token.span = [] := by
  rcases aligned.cases_of_mem member with inner | rfl
  · exact absurd ended (aligned.only token inner)
  · simp [Source.excerpt, Source.slice, Span.point]

theorem excerpt_mark (aligned : Aligned source tokens) (member : token ∈ tokens) {mark : String}
    (written : token.kind.mark? = some mark) : source.excerpt token.span = mark.toList := by
  refine (aligned.spelled_of_kind member ?_).of_mark written
  intro ended
  simp [ended, Kind.mark?] at written

end Aligned

theorem Source.Within.through (one : source.Within first) (two : source.Within second)
    (order : first.start.index ≤ second.stop.index) : source.Within (first.through second) where
  ordered := order
  inside := two.inside
  placed := by
    have starts := congrArg Span.start one.placed
    have stops := congrArg Span.stop two.placed
    exact congrArg₂ Span.mk starts stops

theorem Grammar.Covers.within (covers : Covers before [] span) (aligned : Aligned source tokens)
    (inside : before.Sublist tokens) : source.Within span := by
  obtain ⟨taken, start, stop, rfl, order, rfl⟩ := covers
  rw [List.append_nil] at inside
  rcases order with ⟨rfl, member⟩ | pair
  · exact aligned.within (inside.subset member)
  -- Tokens stand in the order of the text, so the first of two starts before the second stops.
  · have both := pair.trans inside
    have one := aligned.within (both.subset (List.mem_cons_self))
    have two := aligned.within (both.subset (List.mem_cons_of_mem start List.mem_cons_self))
    have apart := List.pairwise_pair.1 (aligned.ordered.sublist both)
    exact one.through two (one.ordered.trans (apart.trans two.ordered))

theorem excerpt_parts {front spelling rest : List Char} (text : source.text.toList = front ++ (spelling ++ rest))
    (placed : span = ⟨(Position.start source).after front, (Position.start source).after (front ++ spelling)⟩) :
    source.Within span ∧ source.excerpt span = spelling := by
  have index (front : List Char) : ((Position.start source).after front).index = front.length := by
    simp [Position.index_after, Position.start]
  have place {front rest : List Char} (text : source.text.toList = front ++ rest) :
      (Position.start source).after front = source.position front.length := by
    rw [Source.position, text, List.take_left]
  subst placed
  refine ⟨⟨?_, ?_, ?_⟩, ?_⟩
  · simp [index]
  · simp [index, text]
  · simp only [index, ← place text, ← place (text.trans (List.append_assoc front spelling rest).symm)]
  · simp [Source.excerpt, Source.slice, index, text]

theorem points_illegal (failed : source.tokens = .error fault) : source.Points fault := by
  obtain ⟨front, c, rest, text, cause, found⟩ := Scan.scan_error _ (Scan.tokens_eq_scan source ▸ failed)
  have one : ((Position.start source).after front).next c = (Position.start source).after (front ++ [c]) :=
    (Position.after_append _ front [c]).symm
  have split : source.text.toList = front ++ ([c] ++ rest) := text
  rw [one] at found
  obtain ⟨within, shows⟩ := excerpt_parts split found
  exact ⟨within, by rwa [cause]⟩

theorem points_rejected (scanned : source.tokens = .ok tokens) (member : token ∈ tokens)
    (found : fault.span = token.span) (rejects : Rejects token fault.cause) : source.Points fault := by
  have aligned := aligned_of_tokens scanned
  obtain ⟨cause, span, help⟩ := fault
  cases found
  refine ⟨aligned.within member, ?_⟩
  cases cause with
  | unexpectedToken found expected =>
    exact ⟨token, ⟨tokens, scanned, member⟩, rfl, rejects.2, aligned.spelled_of_kind member rejects.1⟩
  | unexpectedEnd expected => exact aligned.excerpt_end member rejects
  | tooDeep limit =>
    refine ⟨token, ⟨tokens, scanned, member⟩, rfl, ?_⟩
    by_cases ended : token.kind = .endOfText
    · exact .inr ⟨ended, (aligned.excerpt_end member ended).2⟩
    · exact .inl (aligned.spelled_of_kind member ended)
  | _ => cases rejects

theorem points_program {limit : Nat} (failed : source.program limit = .error fault) : source.Points fault := by
  cases scanned : source.tokens with
  | error early =>
    cases failed.symm.trans (Source.program_of_error scanned limit)
    exact points_illegal scanned
  | ok tokens =>
    obtain ⟨before, final, rfl⟩ := scan_final (Scan.tokens_eq_scan source ▸ scanned)
    obtain ⟨text, ended⟩ := inside_of_tokens scanned
    rw [program_of_tokens scanned text ended] at failed
    cases read : outcome (program limit) final before with
    | ok pair =>
      rw [read] at failed
      cases failed
    | error early =>
      rw [read] at failed
      cases failed
      obtain ⟨token, member, found, rejects⟩ := (tidy_program limit).located read
      exact points_rejected scanned member found rejects

theorem Run.statements_fails {P : Type} {bound : Nat} {value : Value} {list : List (Node P)} {context : Context}
    {run : Run P} {fault : Fault P} (has : context.has lastResult = true)
    (ends : Run.statements bound value list context = some run) (fails : run.answer = .error fault) :
    ∃ statement ∈ list, statement.Blames fault ∧ ∀ scope, fault.cause ≠ .undefinedVariable lastResult scope := by
  induction list generalizing value context run with
  | nil =>
    cases ends
    cases fails
  | cons first rest ih =>
    obtain ⟨early, after, ended, rfl⟩ | ⟨shown, after, later, ended, more, rfl⟩ := statements_cons_eq_some ends
    · obtain ⟨raised, failed, same⟩ | ⟨_, _, _, same, _⟩ := Node.evaluateStatement_eq_some ended
      · cases same
        cases fails
        have yields := follows_node first failed
        exact ⟨first, List.mem_cons_self, yields.blames rfl, yields.finds_last has rfl⟩
      · cases same
    · obtain ⟨_, _, same⟩ | ⟨_, middle, _, _, rfl⟩ := Node.evaluateStatement_eq_some ended
      · cases same
      · obtain ⟨statement, member, blames⟩ := ih (by simp [has_set]) more fails
        exact ⟨statement, List.mem_cons_of_mem _ member, blames⟩

theorem points_operator (aligned : Aligned source tokens) (member : token ∈ tokens)
    (mark : token.kind.mark?.isSome = true) (refuses : Value.Refuses token fault) : source.Points fault := by
  obtain ⟨text, written⟩ := Option.isSome_iff_exists.1 mark
  have excerpt := aligned.excerpt_mark member written
  obtain ⟨found, ⟨operand, side, cause⟩ | ⟨cause, division⟩⟩ := refuses
  · refine ⟨found ▸ aligned.within member, ?_⟩
    rw [found, cause]
    exact .inl ⟨text, written, excerpt⟩
  · refine ⟨found ▸ aligned.within member, ?_⟩
    rw [found, cause]
    rcases division with kind | kind <;> rw [kind] at written <;> cases written
    · exact .inl excerpt
    · exact .inr excerpt

theorem points_name (scanned : source.tokens = .ok tokens) (member : token ∈ tokens)
    (kind : token.kind = .identifier ∨ token.kind = .last) (found : fault.span = token.span) {scope : String}
    (cause : fault.cause = .undefinedVariable token.name scope)
    (defined : ∀ scope, fault.cause ≠ .undefinedVariable lastResult scope) : source.Points fault := by
  have aligned := aligned_of_tokens scanned
  rcases kind with kind | kind
  · refine ⟨found ▸ aligned.within member, ?_⟩
    have spells := aligned.spelled_of_kind member (by simp [kind])
    rw [kind] at spells
    rw [found, cause]
    simp [Source.Shows, Token.name, spells.of_identifier]
  -- The name of the last result is not spelled in the text, and is always found.
  · exact absurd cause ((names_of_tokens scanned member).2 kind ▸ defined scope)

theorem points_raised {program part : Node Position} (scanned : source.tokens = .ok tokens)
    (inside : before.Sublist tokens) (compiled : source.compile = .ok program)
    (below : Node.Part (fun _ => true) part program) (anchored : part.Anchored before) (raises : part.Raises fault)
    (defined : ∀ scope, fault.cause ≠ .undefinedVariable lastResult scope) : source.Points fault := by
  have aligned := aligned_of_tokens scanned
  cases part with
  | binary | unary => exact points_operator aligned (inside.subset anchored.1) anchored.2 raises
  | retrieval =>
    obtain ⟨token, member, kind, same, rfl⟩ := anchored
    obtain ⟨found, scope, cause⟩ := raises
    exact points_name scanned (inside.subset member) kind (found.trans same) cause defined
  | _ =>
    obtain ⟨condition, member, rfl⟩ := raises
    exact ⟨(anchored condition member).within aligned inside,
      .inr ⟨rfl, rfl, rfl, program, compiled, _, below, condition, member, rfl⟩⟩

theorem points_run {bound : Nat} {context : Context} {run : Run Position} (has : context.has lastResult = true)
    (ends : Run.ofSource bound source context = some run) (fails : run.answer = .error fault) :
    source.Points fault := by
  cases compiled : source.compile with
  | error early =>
    rw [Run.ofSource_of_error compiled] at ends
    cases ends
    cases fails
    exact points_program compiled
  | ok program =>
    obtain ⟨_, scanned, before, final, list, rfl, _, reads, rfl⟩ := compile_derives compiled
    have anchored : AllAnchored before (scopeOf "global" false final list) :=
      anchored_scopeOf (reads.anchored (List.suffix_refl before)) _ _ _
    rw [Run.ofSource_of_ok compiled] at ends
    obtain ⟨statement, member, blames, defined⟩ := Run.statements_fails has ends fails
    have whole : (scopeOf "global" false final list).Blames fault := blames.inside member
    obtain ⟨part, below, raises⟩ := whole
    exact points_raised scanned (List.sublist_append_left _ _) compiled below (anchored part below) raises defined

/-- Whatever finds fault with a text points at what it names. A context that is kept between runs always
has a last result, so nothing else is asked of the one that a run starts from. -/
theorem faults_point (source : Source) (fault : Fault Position) :
    (source.tokens = .error fault → source.Points fault) ∧
      (∀ limit, source.program limit = .error fault → source.Points fault) ∧
      ∀ (bound : Nat) (context : Context) (run : Run Position), context.has lastResult = true →
        Run.ofSource bound source context = some run → run.answer = .error fault → source.Points fault :=
  ⟨points_illegal, fun _ => points_program, fun _ _ _ => points_run⟩

theorem faults_point_phases :
    let scanned : Source := ⟨"scanned", "a ? b"⟩
    let illegal : Fault Position := ⟨.illegalCharacter '?', ⟨scanned.position 2, scanned.position 3⟩, none⟩
    let parsed : Source := ⟨"parsed", "(($))"⟩
    let deep : Fault Position := ⟨.tooDeep 1, ⟨parsed.position 1, parsed.position 2⟩,
      some "Split the expression into smaller statements with 'let'."⟩
    let tested : Source := ⟨"tested", "if (null) then true"⟩
    let untested : Fault Position :=
      ⟨.unsupported .equal "NULL" .left, ⟨tested.position 4, tested.position 8⟩, none⟩
    scanned.tokens = .error illegal ∧ scanned.Points illegal ∧ parsed.program 1 = .error deep ∧ parsed.Points deep ∧
      Context.global.has lastResult = true ∧
      ∃ run, Run.ofSource 1 tested .global = some run ∧ run.answer = .error untested ∧ tested.Points untested := by
  intro scanned illegal parsed deep tested untested
  have illegal' : scanned.tokens = .error illegal := by decide +kernel
  have deep' : parsed.program 1 = .error deep := blame_eq_some.1 (by decide +kernel)
  have has : Context.global.has lastResult = true := by decide +kernel
  have answered : (Run.ofSource 1 tested .global).map Run.answer = some (.error untested) := by decide +kernel
  obtain ⟨run, ends, fails⟩ := Option.map_eq_some_iff.1 answered
  exact ⟨illegal', (faults_point scanned illegal).1 illegal', deep', (faults_point parsed deep).2.1 1 deep', has,
    run, ends, fails, (faults_point tested untested).2.2 1 .global run has ends fails⟩

end Reckon
