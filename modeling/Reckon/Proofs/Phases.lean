import Reckon.Proofs.Cursor.Checks
import Reckon.Proofs.Cursor.Safety
import Reckon.Proofs.Diagnostics
import Reckon.Proofs.Evaluation.Operands
import Reckon.Proofs.Grammar.Contents
import Reckon.Proofs.Token.Conversion
import Reckon.Proofs.Token.Numbers

set_option autoImplicit false

/-!
# Phases

Scanning, parsing and running have faults of their own, and the precautions that each of them takes against
what the one before it never hands on are not needed.
-/

namespace Reckon

open Reckon.Parser Reckon.Grammar Reckon.Evaluation

inductive Phase where
  | scanning | parsing | running
deriving DecidableEq

def Cause.phase? : Cause → Option Phase
  | illegalCharacter _ => some .scanning
  | unexpectedToken .. | unexpectedEnd _ | tooDeep _ => some .parsing
  | unsupported .. | divisionByZero | undefinedVariable .. => some .running
  | missingNode => none

variable {source : Source} {limit : Nat} {fault : Fault Position}

theorem scanning_of_tokens (failed : source.tokens = .error fault) : fault.cause.phase? = some .scanning := by
  obtain ⟨_, c, _, _, cause, _⟩ := Scan.scan_error _ (Scan.tokens_eq_scan source ▸ failed)
  rw [cause]
  rfl

theorem parsing_of_rejects {P : Type} {token : Token P} {cause : Cause} (rejects : Rejects token cause) :
    cause.phase? = some .parsing := by
  cases cause with
  | unexpectedToken | unexpectedEnd | tooDeep => rfl
  | _ => cases rejects

theorem parsing_of_ofTokens {P : Type} [Inhabited P] {tokens : List (Token P)} {fault : Fault P}
    (failed : Node.ofTokens limit tokens = .error fault) : fault.cause.phase? = some .parsing := by
  unfold Node.ofTokens at failed
  rw [parse_eq] at failed
  cases read : outcome (program limit) (endToken tokens) (beforeEnd tokens) with
  | ok pair =>
    rw [read] at failed
    cases failed
  | error early =>
    rw [read] at failed
    cases failed
    obtain ⟨_, _, _, rejects⟩ := (tidy_program limit).located read
    exact parsing_of_rejects rejects

theorem tokens_of_program {program : Node Position} (compiled : source.program limit = .ok program) :
    ∃ tokens, source.tokens = .ok tokens ∧ Node.ofTokens limit tokens = .ok program := by
  cases scanned : source.tokens with
  | error early => cases (Source.program_of_error scanned limit).symm.trans compiled
  | ok tokens => exact ⟨tokens, rfl, (Source.program_of_ok scanned limit).symm.trans compiled⟩

theorem isNaN_of_tokens {tokens : List (Token Position)} (scanned : source.tokens = .ok tokens)
    {token : Token Position} (member : token ∈ tokens) (kind : token.kind = .number) :
    token.number.isNaN = false := by
  have spells := (aligned_of_tokens scanned).spelled_of_kind member (by simp [kind])
  generalize source.excerpt token.span = spelling at spells
  obtain ⟨_, payload, span⟩ := token
  cases kind
  cases spells with
  | mark written | word written => cases written
  | number => exact Decimal.isNaN_toFloat _

theorem isNaN_of_program {program : Node Position} (compiled : source.program limit = .ok program) {mark : Mark Position}
    {value : Float} (below : Node.Part (fun _ => true) (.literal mark (.number value)) program) :
    value.isNaN = false := by
  obtain ⟨tokens, scanned, parsed⟩ := tokens_of_program compiled
  obtain ⟨token, member, kind, rfl⟩ := ofTokens_grounded parsed _ below
  exact isNaN_of_tokens scanned ((List.takeWhile_prefix _).subset member) kind

theorem anchored_of_program {program : Node Position} (compiled : source.program limit = .ok program) :
    ∃ tokens, source.tokens = .ok tokens ∧ AllAnchored (beforeEnd tokens) program := by
  obtain ⟨tokens, scanned, parsed⟩ := tokens_of_program compiled
  obtain ⟨list, reads, rfl⟩ := ofTokens_reads parsed
  exact ⟨tokens, scanned, anchored_scopeOf (reads.anchored (List.suffix_refl _)) _ _ _⟩

structure Cause.OfRun (cause : Cause) : Prop where
  phase : cause.phase? = some .running
  named : ∀ name scope, cause = .undefinedVariable name scope → IsWord name

theorem ofRun_of_raises {tokens : List (Token Position)} (scanned : source.tokens = .ok tokens) {part : Node Position}
    (anchored : part.Anchored (beforeEnd tokens)) (raises : part.Raises fault)
    (defined : ∀ scope, fault.cause ≠ .undefinedVariable lastResult scope) : fault.cause.OfRun := by
  have refused {operator : Token Position} (refuses : Value.Refuses operator fault) : fault.cause.OfRun := by
    refine ⟨?_, fun name scope cause => absurd cause (refuses.defined name scope)⟩
    rcases refuses.2 with ⟨_, _, cause⟩ | ⟨cause, _⟩ <;> rw [cause] <;> rfl
  cases part with
  | binary | unary => exact refused raises
  | retrieval mark name =>
    obtain ⟨_, scope, cause⟩ := raises
    -- The name is that of a token, which is an identifier or stands for the last result.
    obtain ⟨token, member, kind, _, rfl⟩ := anchored
    have names := names_of_tokens scanned ((List.takeWhile_prefix _).subset member)
    rcases kind with kind | kind
    · refine ⟨by rw [cause]; rfl, fun other _ same => ?_⟩
      cases cause.symm.trans same
      exact names.1 kind
    · exact absurd cause (names.2 kind ▸ defined scope)
  | _ =>
    -- What else raises is a condition, compared with true in vain.
    obtain ⟨condition, _, rfl⟩ := raises
    exact ⟨rfl, fun name scope cause => nomatch cause⟩

theorem ofRun_of_blames {program : Node Position} (compiled : source.program limit = .ok program)
    (blames : program.Blames fault) (defined : ∀ scope, fault.cause ≠ .undefinedVariable lastResult scope) :
    fault.cause.OfRun := by
  obtain ⟨tokens, scanned, anchored⟩ := anchored_of_program compiled
  obtain ⟨part, below, raises⟩ := blames
  exact ofRun_of_raises scanned (anchored part below) raises defined

theorem ofRun_of_evaluate {program part : Node Position} (compiled : source.program limit = .ok program)
    (below : Node.Part (fun _ => true) part program) {bound : Nat} {context after : Context}
    (has : context.has lastResult = true)
    (fails : Evaluation.outcome (part.evaluate bound) context = some (.error fault, after)) : fault.cause.OfRun := by
  have yields := follows_node part fails
  obtain ⟨raiser, inside, raises⟩ : part.Blames fault := yields.blames rfl
  exact ofRun_of_blames compiled ⟨raiser, inside.trans below, raises⟩ (yields.finds_last has rfl)

/-- Scanning finds illegal characters, and no numeral that a conversion could refuse. -/
structure Source.ScansApart (source : Source) : Prop where
  faults : ∀ fault, source.tokens = .error fault → fault.cause.phase? = some .scanning
  converts : ∀ (convert : Scan.Conversion) (fallback : Scan.Fallback), convert.Total → ∀ fault,
    source.convertedTokens convert fallback = .error fault ↔ source.tokens = .error fault
  nearest : ∀ (convert : Scan.Conversion) (fallback : Scan.Fallback), convert.Nearest →
    source.convertedTokens convert fallback = source.tokens

/-- Parsing makes no scope without statements, and statements never end before what closes them. -/
structure ParsesApart {P : Type} [Inhabited P] (limit : Nat) (tokens : List (Token P)) : Prop where
  faults : ∀ fault, Node.ofTokens limit tokens = .error fault → fault.cause.phase? = some .parsing
  filled : ∀ program, Node.ofTokens limit tokens = .ok program → ∀ mark name boundary,
    ¬ Node.Part (fun _ => true) (.scope mark name boundary []) program
  machine : ∀ fuel, tokens.length + limit < fuel → Cursor.parse fuel limit tokens = .ok (Node.ofTokens limit tokens)
  checks : ∀ (fuel : Nat) (closing : Kind) (state later : Cursor.State) (list : List (Node P)),
    state.current ≤ (beforeEnd tokens).length → state.depth ≤ limit →
    (beforeEnd tokens).length + (limit - state.depth) < fuel →
    Cursor.run (Cursor.statements fuel (Cursor.nested fuel) closing) ⟨Cursor.closed tokens, limit⟩ state =
      .ok (.ok list, later) →
    (∀ name boundary state, Cursor.Passes (Cursor.scope name boundary list) ⟨Cursor.closed tokens, limit⟩ state) ∧
      (closing = .closeBrace → ∀ help, Cursor.Passes (Cursor.expect .closeBrace help) ⟨Cursor.closed tokens, limit⟩ later)

def Source.HasPart (source : Source) (limit : Nat) (part : Node Position) : Prop :=
  ∃ program, source.program limit = .ok program ∧ Node.Part (fun _ => true) part program

/-- Running meets no literal that is not a number and no operator that is called on null. -/
structure Source.RunsApart (source : Source) (limit : Nat) : Prop where
  numbers : ∀ mark value, source.HasPart limit (.literal mark (.number value)) → value.isNaN = false
  faults : ∀ part, source.HasPart limit part → ∀ bound (context after : Context) fault,
    context.has lastResult = true →
    Evaluation.outcome (part.evaluate bound) context = some (.error fault, after) →
    fault.cause.phase? = some .running ∧ ∀ name scope, fault.cause = .undefinedVariable name scope → name ≠ ""
  operands : ∀ part, source.HasPart limit part → ∀ calls : Value.Calls, calls.Faithful → ∀ bound,
    Node.evaluateBy calls bound part = part.evaluate bound

theorem parsesApart {P : Type} [Inhabited P] (limit : Nat) (tokens : List (Token P)) : ParsesApart limit tokens where
  faults _ := parsing_of_ofTokens
  filled program parsed mark name boundary below := ofTokens_grounded parsed _ below rfl
  machine fuel enough := Cursor.parse_eq_ofTokens enough
  checks fuel closing state later list inside level enough ends := by
    obtain ⟨some', closes⟩ := Cursor.statements_closed inside level enough ends
    refine ⟨fun name boundary state => Cursor.passes_scope some' name boundary _ state, ?_⟩
    rintro rfl help
    exact Cursor.passes_closeBrace closes help

theorem Source.runsApart (source : Source) (limit : Nat) : source.RunsApart limit where
  numbers := fun mark value ⟨program, compiled, below⟩ => isNaN_of_program compiled below
  faults := by
    rintro part ⟨program, compiled, below⟩ bound context after fault has fails
    obtain ⟨phase, named⟩ := ofRun_of_evaluate compiled below has fails
    refine ⟨phase, fun name scope cause => ?_⟩
    rintro rfl
    exact not_isWord_lastResult (named _ scope cause)
  operands := fun part _ calls faithful bound => Node.evaluateBy_eq faithful bound part

/-- Every phase has faults of its own, and what it guards against does not occur. The tokens that are parsed need
not be those of a text, and a program may be run in any context that has a last result. -/
theorem phases_apart {P : Type} [Inhabited P] (source : Source) (tokens : List (Token P)) (limit : Nat) :
    source.ScansApart ∧ ParsesApart limit tokens ∧ source.RunsApart limit :=
  ⟨⟨fun _ => scanning_of_tokens, fun _ fallback total => convertedTokens_fails total source fallback,
    fun _ fallback nearest => convertedTokens_nearest nearest source fallback⟩,
    parsesApart limit tokens, source.runsApart limit⟩

def Value.Calls.guarded : Calls where
  binary operation left right := if left.isNull || right.isNull then .error .missingNode else operation left right
  unary operation operand := if operand.isNull then .error .missingNode else .ok (operation operand)

theorem Value.Calls.guarded_faithful : guarded.Faithful where
  binary operation {left right} one two := by
    cases left <;> cases right <;> first | rfl | contradiction
  unary operation {operand} other := by
    cases operand <;> first | rfl | contradiction

theorem phases_apart_each :
    let source : Source := ⟨"text", "1.2.3"⟩
    let point : Fault Position := ⟨.illegalCharacter '.', ⟨source.position 3, source.position 4⟩,
      some "A number may contain at most one decimal point."⟩
    let convert : Scan.Conversion := fun spelling => some (Decimal.ofSpelling spelling).toFloat
    let tokens := [bare .openBrace, bare .closeBrace]
    let input : Cursor.Input Unit := ⟨Cursor.closed tokens, 1⟩
    let filler : Node Unit := .mkLiteral .null (.point ())
    let named : Source := ⟨"named", "x + 1"⟩
    let span (start stop : Nat) : Span Position := ⟨named.position start, named.position stop⟩
    let name : Node Position := .retrieval ⟨span 0 1, true⟩ "x"
    let number : Node Position := .literal ⟨span 4 5, true⟩ (.number 1)
    let undefined : Fault Position := ⟨.undefinedVariable "x" "global", span 0 1, none⟩
    (source.tokens = .error point ∧ point.cause.phase? = some .scanning) ∧
      (convert.Total ∧ source.convertedTokens convert Scan.illegalNumeral = .error point) ∧
      (convert.Nearest ∧ source.convertedTokens convert Scan.illegalNumeral = source.tokens) ∧
      Cursor.parse 4 1 tokens = .ok (Node.ofTokens 1 tokens) ∧
      (Cursor.run (Cursor.statements 4 (Cursor.nested 4) .closeBrace) input ⟨1, 0⟩ = .ok (.ok [filler], ⟨1, 0⟩) ∧
        Cursor.Passes (Cursor.scope "anonymous" true [filler]) input ⟨2, 0⟩ ∧
        Cursor.Passes (Cursor.expect .closeBrace none) input ⟨1, 0⟩) ∧
      (named.HasPart 1 number ∧ (1 : Float).isNaN = false) ∧
      (named.HasPart 1 name ∧ Context.global.has lastResult = true ∧
        Evaluation.outcome (name.evaluate 0) .global = some (.error undefined, .global) ∧
        undefined.cause.phase? = some .running ∧ "x" ≠ "") ∧
      Value.Calls.guarded.Faithful ∧ Node.evaluateBy Value.Calls.guarded 0 name = name.evaluate 0 := by
  intro source point convert tokens input filler named span name number undefined
  obtain ⟨scans, parses, _⟩ := phases_apart source tokens 1
  have runs := (phases_apart named tokens 1).2.2
  have illegal : source.tokens = .error point := by decide +kernel
  have total : convert.Total := fun spelling _ => ⟨_, rfl⟩
  have nearest : convert.Nearest := fun spelling _ => rfl
  have ends : Cursor.run (Cursor.statements 4 (Cursor.nested 4) .closeBrace) input ⟨1, 0⟩ = .ok (.ok [filler], ⟨1, 0⟩) := rfl
  obtain ⟨scope, closing⟩ := parses.checks 4 .closeBrace ⟨1, 0⟩ ⟨1, 0⟩ [filler] (by decide) (by decide) (by decide) ends
  have scanned : named.tokens = .ok [⟨.identifier, some (.name "x"), span 0 1⟩, ⟨.plus, none, span 2 3⟩,
      ⟨.number, some (.number 1), span 4 5⟩, ⟨.endOfText, none, span 5 5⟩] := by decide +kernel
  have compiled : named.program 1 = .ok (.mkScope "global" false (.mkBinary name ⟨.plus, none, span 2 3⟩ number) []) :=
    (Source.program_of_ok scanned 1).trans rfl
  have left : named.HasPart 1 name :=
    ⟨_, compiled, .inside rfl List.mem_cons_self (.inside rfl List.mem_cons_self .self)⟩
  have right : named.HasPart 1 number :=
    ⟨_, compiled, .inside rfl List.mem_cons_self (.inside rfl (List.mem_cons_of_mem _ List.mem_cons_self) .self)⟩
  have has : Context.global.has lastResult = true := by decide +kernel
  have fails : Evaluation.outcome (name.evaluate 0) .global = some (.error undefined, .global) := by decide +kernel
  obtain ⟨phase, nonempty⟩ := runs.faults name left 0 .global .global undefined has fails
  exact ⟨⟨illegal, scans.faults point illegal⟩, ⟨total, (scans.converts convert _ total point).2 illegal⟩,
    ⟨nearest, scans.nearest convert _ nearest⟩, parses.machine 4 (by decide),
    ⟨ends, scope _ _ _, closing rfl none⟩, ⟨right, runs.numbers _ _ right⟩,
    ⟨left, has, fails, phase, nonempty _ _ rfl⟩,
    Value.Calls.guarded_faithful, runs.operands name left _ Value.Calls.guarded_faithful 0⟩

end Reckon
