import Mathlib.Data.List.Forall2
import Reckon.Proofs.Runs

set_option autoImplicit false

/-!
# Alike sources

Tokens that differ only in where they stand are parsed to trees that differ only in this, and such
trees are evaluated alike. Everything is compared with its positions erased.
-/

namespace Reckon

variable {P Q α β γ : Type}

def Token.Alike (token : Token P) (other : Token Q) : Prop :=
  token.kind = other.kind ∧ token.payload = other.payload

def Fault.Alike (fault : Fault P) (other : Fault Q) : Prop :=
  fault.cause = other.cause ∧ fault.help = other.help

def Node.Alike (node : Node P) (other : Node Q) : Prop :=
  node.map (fun _ => ()) = other.map fun _ => ()

inductive Alike (related : α → β → Prop) : Except (Fault P) α → Except (Fault Q) β → Prop where
  | ok {value : α} {other : β} (same : related value other) : Alike related (.ok value) (.ok other)
  | error {fault : Fault P} {other : Fault Q} (same : fault.Alike other) : Alike related (.error fault) (.error other)

def Evaluation.Alike (evaluated : Option (Except (Fault P) α × Context))
    (other : Option (Except (Fault Q) α × Context)) : Prop :=
  Option.Rel (fun ended ended' => Reckon.Alike Eq ended.1 ended'.1 ∧ ended.2 = ended'.2) evaluated other

structure Run.Alike (run : Run P) (other : Run Q) : Prop where
  results : run.results = other.results
  answer : Reckon.Alike Eq run.answer other.answer
  context : run.context = other.context

section Erased

theorem Token.alike_iff {token : Token P} {other : Token Q} :
    token.Alike other ↔ token.map (fun _ => ()) = other.map fun _ => () := by
  simp [Token.Alike, Token.map, Span.map]

theorem tokens_alike_iff {tokens : List (Token P)} {others : List (Token Q)} :
    List.Forall₂ Token.Alike tokens others ↔
      tokens.map (Token.map fun _ => ()) = others.map (Token.map fun _ => ()) := by
  rw [← List.forall₂_eq_eq_eq, List.forall₂_map_left_iff, List.forall₂_map_right_iff]
  exact ⟨List.Forall₂.imp fun _ _ => Token.alike_iff.1, List.Forall₂.imp fun _ _ => Token.alike_iff.2⟩

theorem Fault.alike_of_erased {fault : Fault P} {other : Fault Q}
    (same : fault.map (fun _ => ()) = other.map fun _ => ()) : fault.Alike other :=
  ⟨congrArg Fault.cause same, congrArg Fault.help same⟩

theorem alike_of_erased {result : Except (Fault P) α} {other : Except (Fault Q) α}
    (same : result.mapError (Fault.map fun _ => ()) = other.mapError (Fault.map fun _ => ())) :
    Alike Eq result other := by
  cases result <;> cases other
  case ok.ok => exact .ok (Except.ok.inj same)
  case error.error => exact .error (Fault.alike_of_erased (Except.error.inj same))
  all_goals cases same

theorem Alike.of_map {g : α → γ} {h : β → γ} {result : Except (Fault P) α} {other : Except (Fault Q) β}
    (alike : Alike Eq (result.map g) (other.map h)) : Alike (fun value value' => g value = h value') result other := by
  cases result <;> cases other <;> cases alike
  case ok.ok same => exact .ok same
  case error.error same => exact .error same

end Erased

section Parsing

open Reckon.Parser Reckon.Grammar

theorem beforeEnd_map (f : P → Q) (tokens : List (Token P)) :
    beforeEnd (tokens.map (Token.map f)) = (beforeEnd tokens).map (Token.map f) := by
  unfold beforeEnd
  rw [List.takeWhile_map]
  rfl

variable [Inhabited P] [Inhabited Q] {f : P → Q}

theorem lastEnd_map (same : f default = default) (tokens : List (Token P)) :
    lastEnd (tokens.map (Token.map f)) = (lastEnd tokens).map f := by
  unfold lastEnd
  rw [List.getLast?_map]
  cases tokens.getLast? with
  | none => simp [Token.map, same]
  | some last => rfl

theorem endToken_map (same : f default = default) (tokens : List (Token P)) :
    endToken (tokens.map (Token.map f)) = (endToken tokens).map f := by
  rw [endToken_eq, endToken_eq, lastEnd_map same, dropWhile_map fun kind => kind ≠ .endOfText]
  exact headD_map _ (lastEnd tokens)

theorem ofTokens_map (same : f default = default) (limit : Nat) (tokens : List (Token P)) :
    Node.ofTokens limit (tokens.map (Token.map f)) =
      ((Node.ofTokens limit tokens).map (Node.map f)).mapError (Fault.map f) := by
  have read := renames_program (f := f) limit (endToken tokens) (beforeEnd tokens)
  unfold Node.ofTokens
  rw [parse_eq, parse_eq, endToken_map same, beforeEnd_map, read]
  cases outcome (program limit) (endToken tokens) (beforeEnd tokens) <;> rfl

theorem ofTokens_alike {tokens : List (Token P)} {others : List (Token Q)}
    (alike : List.Forall₂ Token.Alike tokens others) (limit : Nat) :
    Alike Node.Alike (Node.ofTokens limit tokens) (Node.ofTokens limit others) := by
  have one := ofTokens_map (f := fun _ => ()) rfl limit tokens
  have two := ofTokens_map (f := fun _ => ()) rfl limit others
  rw [tokens_alike_iff.1 alike, two] at one
  exact (alike_of_erased one.symm).of_map

end Parsing

section Evaluation

open Reckon.Evaluation

theorem Evaluation.alike_of_renamed {evaluated : Option (Except (Fault P) α × Context)}
    {other : Option (Except (Fault Q) α × Context)}
    (same : renamed (fun _ => ()) evaluated = renamed (fun _ => ()) other) : Evaluation.Alike evaluated other := by
  cases evaluated <;> cases other
  case none.none => exact .none
  case some.some ended ended' =>
    obtain ⟨result, context⟩ := Prod.mk.inj (Option.some.inj same)
    exact .some ⟨alike_of_erased result, context⟩
  all_goals cases same

theorem evaluate_alike {node : Node P} {other : Node Q} (alike : node.Alike other) (bound : Nat) (context : Context) :
    Evaluation.Alike (outcome (node.evaluate bound) context) (outcome (other.evaluate bound) context) := by
  have one : outcome ((node.map fun _ => ()).evaluate bound) context = _ := Node.renames_evaluate node context
  have two : outcome ((other.map fun _ => ()).evaluate bound) context = _ := Node.renames_evaluate other context
  rw [alike, two] at one
  exact alike_of_renamed one.symm

theorem evaluateStatement_alike {node : Node P} {other : Node Q} (alike : node.Alike other) (bound : Nat)
    (context : Context) :
    Evaluation.Alike (outcome (node.evaluateStatement bound) context)
      (outcome (other.evaluateStatement bound) context) := by
  have one : outcome ((node.map fun _ => ()).evaluateStatement bound) context = _ :=
    Node.renames_evaluateStatement node context
  have two : outcome ((other.map fun _ => ()).evaluateStatement bound) context = _ :=
    Node.renames_evaluateStatement other context
  rw [alike, two] at one
  exact alike_of_renamed one.symm

end Evaluation

section Runs

open Run

variable {bound : Nat} {context : Context}

theorem Run.map_ofTree [Inhabited P] [Inhabited Q] (f : P → Q) (bound : Nat) (context : Context) (node : Node P) :
    ofTree bound context (some (node.map f)) = (ofTree bound context (some node)).map (Run.map f) := by
  cases node with
  | scope mark name boundary list =>
    cases boundary with
    | false =>
      refine Eq.trans ?_ (map_statements .null list context)
      rw [← Node.mapAll_eq]
      rfl
    | true => exact map_statements .null [.scope mark name true list] context
  | _ => exact map_statements .null [_] context

theorem Run.alike_of_map {run : Option (Run P)} {other : Option (Run Q)}
    (same : run.map (Run.map fun _ => ()) = other.map (Run.map fun _ => ())) : Option.Rel Run.Alike run other := by
  cases run <;> cases other
  case none.none => exact .none
  case some.some run other =>
    have same := Option.some.inj same
    exact .some ⟨congrArg Run.results same, alike_of_erased (congrArg Run.answer same), congrArg Run.context same⟩
  all_goals cases same

theorem ofTree_alike [Inhabited P] [Inhabited Q] {node : Node P} {other : Node Q} (alike : node.Alike other) :
    Option.Rel Run.Alike (ofTree bound context (some node)) (ofTree bound context (some other)) := by
  have one := Run.map_ofTree (fun _ => ()) bound context node
  have two := Run.map_ofTree (fun _ => ()) bound context other
  rw [alike, two] at one
  exact Run.alike_of_map one.symm

theorem ofSource_alike {source other : Source} {tokens others : List (Token Position)}
    (scanned : source.tokens = .ok tokens) (scanned' : other.tokens = .ok others)
    (alike : List.Forall₂ Token.Alike tokens others) (bound : Nat) (context : Context) :
    Option.Rel Run.Alike (ofSource bound source context) (ofSource bound other context) := by
  have parsed := ofTokens_alike alike Source.nestingLimit
  unfold ofSource Source.compile
  rw [Source.program_of_ok scanned, Source.program_of_ok scanned']
  generalize Node.ofTokens Source.nestingLimit tokens = one at parsed
  generalize Node.ofTokens Source.nestingLimit others = two at parsed
  cases parsed with
  | ok same => exact ofTree_alike same
  | error same => exact .some ⟨rfl, .error same, rfl⟩

end Runs

/-- Where tokens stand decides nothing: tokens that are alike are parsed alike at every limit, trees that
are alike are evaluated alike in every context, and so sources with such tokens are run alike. -/
theorem positions_ignored [Inhabited P] [Inhabited Q] :
    (∀ (tokens : List (Token P)) (others : List (Token Q)), List.Forall₂ Token.Alike tokens others →
      ∀ limit, Alike Node.Alike (Node.ofTokens limit tokens) (Node.ofTokens limit others)) ∧
    (∀ (node : Node P) (other : Node Q), node.Alike other → ∀ bound context,
      Evaluation.Alike (Evaluation.outcome (node.evaluate bound) context)
        (Evaluation.outcome (other.evaluate bound) context) ∧
      Evaluation.Alike (Evaluation.outcome (node.evaluateStatement bound) context)
        (Evaluation.outcome (other.evaluateStatement bound) context)) ∧
    ∀ (source other : Source) (tokens others : List (Token Position)), source.tokens = .ok tokens →
      other.tokens = .ok others → List.Forall₂ Token.Alike tokens others → ∀ bound context,
        Option.Rel Run.Alike (Run.ofSource bound source context) (Run.ofSource bound other context) :=
  ⟨fun _ _ alike limit => ofTokens_alike alike limit,
    fun _ _ alike bound context => ⟨evaluate_alike alike bound context, evaluateStatement_alike alike bound context⟩,
    fun _ _ _ _ scanned scanned' alike bound context => ofSource_alike scanned scanned' alike bound context⟩

theorem positions_ignored_spacing :
    let source : Source := ⟨"first", "let a = true\nb"⟩
    let other : Source := ⟨"second", " let a=true # kept\n  b"⟩
    ∃ tokens others, source.tokens = .ok tokens ∧ other.tokens = .ok others ∧
      List.Forall₂ Token.Alike tokens others ∧
      Option.Rel Run.Alike (Run.ofSource 1 source .global) (Run.ofSource 1 other .global) ∧
      (Run.ofSource 1 source .global).map Run.results = some [.boolean true] := by
  intro source other
  have erased : source.tokens.toOption.map (List.map (Token.map fun _ => ())) =
      other.tokens.toOption.map (List.map (Token.map fun _ => ())) := by decide +kernel
  have scans : source.tokens.toOption.isSome = true := by decide +kernel
  have results : (Run.ofSource 1 source .global).map Run.results = some [.boolean true] := by decide +kernel
  cases scanned : source.tokens with
  | error fault => simp [scanned, Except.toOption] at scans
  | ok tokens =>
    cases scanned' : other.tokens with
    | error fault => simp [scanned, scanned', Except.toOption] at erased
    | ok others =>
      rw [scanned, scanned'] at erased
      have alike := tokens_alike_iff.2 (Option.some.inj erased)
      exact ⟨tokens, others, rfl, rfl, alike,
        (positions_ignored (P := Position) (Q := Position)).2.2 source other tokens others scanned scanned' alike 1
          .global, results⟩

end Reckon
