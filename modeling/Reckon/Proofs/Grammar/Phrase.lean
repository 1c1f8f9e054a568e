import Reckon.Proofs.Grammar.Outcome

set_option autoImplicit false

/-!
# Phrases

The grammar of programs, without parsers: which stretches of tokens stand for which trees. It is
greedy: what can be continued by the token behind it does not end there.
-/

namespace Reckon.Grammar

open Reckon.Parser

variable {P : Type}

/-- How tightly an expression binds, the tightest first. -/
inductive Rank where
  | factor | power | term | sum | comparison | logical
deriving DecidableEq

namespace Rank

def tighter : Rank → Rank
  | logical => comparison
  | comparison => sum
  | sum => term
  | term => power
  | power | factor => factor

def operators : Rank → List Kind
  | logical => [.and, .or, .xor, .shiftLeft, .shiftRight, .shiftRightZero]
  | comparison => [.less, .greater, .lessEqual, .greaterEqual, .equal, .notEqual]
  | sum => [.plus, .minus]
  | term => [.times, .divide, .floorDivide, .remainder]
  | power => [.power]
  | factor => []

end Rank

def filled (next : Token P) : List (Node P) → Node P × List (Node P)
  -- A null stands where there is no statement.
  | [] => (.mkLiteral .null next.span, [])
  | first :: rest => (first, rest)

def scopeOf (name : String) (boundary : Bool) (next : Token P) (statements : List (Node P)) : Node P :=
  .mkScope name boundary (filled next statements).1 (filled next statements).2

inductive Phrase (P : Type) where
  | expression (rank : Rank) (tree : Node P)
  -- The operators and operands behind `left`, which make it `tree`.
  | operands (rank : Rank) (left tree : Node P)
  | statement (tree : Node P)
  | block (name : String) (boundary : Bool) (tree : Node P)
  | sequence (closing : Kind) (statements : List (Node P))
  -- The branches behind the first one.
  | thenBranches (branches : List (Node P × Node P))
  | blockBranches (branches : List (Node P × Node P))

/-- The tokens of `before` up to `after` are a phrase. -/
inductive Reads : Phrase P → List (Token P) → List (Token P) → Prop where
  | number {token : Token P} {after : List (Token P)} (kind : token.kind = .number) :
    Reads (.expression .factor (.mkLiteral (.number token.number) token.span)) (token :: after) after
  | name {token : Token P} {after : List (Token P)} (kind : token.kind = .identifier ∨ token.kind = .last) :
    Reads (.expression .factor (.mkRetrieval token)) (token :: after) after
  | group {opening closing : Token P} {tree : Node P} {before after : List (Token P)}
    (opens : opening.kind = .openParen) (inner : Reads (.statement tree) before (closing :: after))
    (closes : closing.kind = .closeParen) :
    Reads (.expression .factor tree) (opening :: before) after
  | negation {sign : Token P} {operand : Node P} {before after : List (Token P)}
    (kind : sign.kind = .minus) (inner : Reads (.expression .factor operand) before after) :
    Reads (.expression .factor (.mkUnary sign operand)) (sign :: before) after
  | complement {sign : Token P} {operand : Node P} {before after : List (Token P)}
    (kind : sign.kind = .not) (inner : Reads (.expression .comparison operand) before after) :
    Reads (.expression .comparison (.mkUnary sign operand)) (sign :: before) after
  | fold {rank : Rank} {left tree : Node P} {before middle after : List (Token P)} (loose : rank ≠ .factor)
    (first : Reads (.expression rank.tighter left) before middle)
    (others : Reads (.operands rank left tree) middle after) :
    Reads (.expression rank tree) before after
  | noOperand {rank : Rank} {tree : Node P} {after : List (Token P)}
    (ends : nextKind after ∉ rank.operators) :
    Reads (.operands rank tree tree) after after
  | operand {rank : Rank} {left right tree : Node P} {operator : Token P}
    {before middle after : List (Token P)} (kind : operator.kind ∈ rank.operators)
    (first : Reads (.expression rank.tighter right) before middle)
    (others : Reads (.operands rank (.mkBinary left operator right) tree) middle after) :
    Reads (.operands rank left tree) (operator :: before) after
  | expression {tree : Node P} {before after : List (Token P)}
    (inner : Reads (.expression .logical tree) before after) :
    Reads (.statement tree) before after
  | assignment {word name sign : Token P} {value : Node P} {before after : List (Token P)}
    (starts : word.kind = .letWord) (named : name.kind = .identifier) (assigns : sign.kind = .assign)
    (inner : Reads (.statement value) before after) :
    Reads (.statement (.mkAssignment name value)) (word :: name :: sign :: before) after
  | thenForm {word separator : Token P} {condition body : Node P} {branches : List (Node P × Node P)}
    {before middle later after : List (Token P)} (starts : word.kind = .ifWord)
    (test : Reads (.expression .logical condition) before (separator :: middle))
    (separates : separator.kind = .thenWord) (first : Reads (.statement body) middle later)
    (others : Reads (.thenBranches branches) later after) :
    Reads (.statement (.mkChoice word.span.start ((condition, body) :: branches))) (word :: before) after
  | blockForm {word : Token P} {condition body : Node P} {branches : List (Node P × Node P)}
    {before middle later after : List (Token P)} (starts : word.kind = .ifWord)
    (test : Reads (.expression .logical condition) before middle)
    (first : Reads (.block "if" true body) middle later)
    (others : Reads (.blockBranches branches) later after) :
    Reads (.statement (.mkChoice word.span.start ((condition, body) :: branches))) (word :: before) after
  | forLoop {word opening semicolon separator closing : Token P} {start condition step body : Node P}
    {before second third fourth after : List (Token P)} (starts : word.kind = .forWord)
    (opens : opening.kind = .openParen) (init : Reads (.statement start) before (semicolon :: second))
    (ends : semicolon.kind = .terminator)
    (test : Reads (.expression .logical condition) second (separator :: third))
    (separates : separator.kind = .terminator)
    (increment : Reads (.statement step) third (closing :: fourth))
    (closes : closing.kind = .closeParen) (round : Reads (.block "for" false body) fourth after) :
    Reads (.statement (.mkFor word.span.start start condition step body)) (word :: opening :: before) after
  | whileLoop {word : Token P} {condition body : Node P} {before middle after : List (Token P)}
    (starts : word.kind = .whileWord) (test : Reads (.expression .logical condition) before middle)
    (round : Reads (.block "while" false body) middle after) :
    Reads (.statement (.mkWhile word.span.start false condition body)) (word :: before) after
  | doLoop {word again : Token P} {condition body : Node P} {gap before middle after : List (Token P)}
    (starts : word.kind = .doWord)
    (round : Reads (.block "do-while" false body) before (gap ++ again :: middle))
    (blank : ∀ token ∈ gap, token.kind = .newline) (repeats : again.kind = .whileWord)
    (test : Reads (.expression .logical condition) middle after) :
    Reads (.statement (.mkWhile word.span.start true condition body)) (word :: before) after
  | bareBlock {tree : Node P} {before after : List (Token P)}
    (inner : Reads (.block "anonymous" true tree) before after) :
    Reads (.statement tree) before after
  | block {name : String} {boundary : Bool} {opening closing : Token P} {statements : List (Node P)}
    {before after : List (Token P)} (opens : opening.kind = .openBrace)
    (inner : Reads (.sequence .closeBrace statements) before (closing :: after))
    (closes : closing.kind = .closeBrace) :
    Reads (.block name boundary (scopeOf name boundary closing statements)) (opening :: before) after
  | finished {closing : Kind} {after : List (Token P)} (ends : nextKind after = closing) :
    Reads (.sequence closing []) after after
  | separator {closing : Kind} {token : Token P} {statements : List (Node P)} {before after : List (Token P)}
    (separates : token.kind = .newline ∨ token.kind = .terminator)
    (others : Reads (.sequence closing statements) before after) :
    Reads (.sequence closing statements) (token :: before) after
  -- A statement before a semicolon does not show its value.
  | hidden {closing : Kind} {tree : Node P} {terminator : Token P} {statements : List (Node P)}
    {before middle after : List (Token P)} (first : Reads (.statement tree) before (terminator :: middle))
    (hides : terminator.kind = .terminator) (others : Reads (.sequence closing statements) middle after) :
    Reads (.sequence closing (tree.silenced :: statements)) before after
  | shown {closing : Kind} {tree : Node P} {newline : Token P} {statements : List (Node P)}
    {before middle after : List (Token P)} (first : Reads (.statement tree) before (newline :: middle))
    (ends : newline.kind = .newline) (others : Reads (.sequence closing statements) middle after) :
    Reads (.sequence closing (tree :: statements)) before after
  | final {closing : Kind} {tree : Node P} {before after : List (Token P)}
    (first : Reads (.statement tree) before after) (ends : nextKind after = closing) :
    Reads (.sequence closing [tree]) before after
  | noThen {after : List (Token P)} (ends : nextKind after ∉ [.elifWord, .elseWord]) :
    Reads (.thenBranches []) after after
  | elifThen {word separator : Token P} {condition body : Node P} {branches : List (Node P × Node P)}
    {before middle later after : List (Token P)} (starts : word.kind = .elifWord)
    (test : Reads (.expression .logical condition) before (separator :: middle))
    (separates : separator.kind = .thenWord) (first : Reads (.statement body) middle later)
    (others : Reads (.thenBranches branches) later after) :
    Reads (.thenBranches ((condition, body) :: branches)) (word :: before) after
  | elseThen {word : Token P} {body : Node P} {before after : List (Token P)} (starts : word.kind = .elseWord)
    (first : Reads (.statement body) before after) :
    Reads (.thenBranches [(always word, body)]) (word :: before) after
  | noBlock {after : List (Token P)}
    (ends : nextKind (after.dropWhile fun token => token.kind = .newline) ∉ [.elifWord, .elseWord]) :
    Reads (.blockBranches []) after after
  | elifBlock {word : Token P} {condition body : Node P} {branches : List (Node P × Node P)}
    {gap before middle later after : List (Token P)} (blank : ∀ token ∈ gap, token.kind = .newline)
    (starts : word.kind = .elifWord) (test : Reads (.expression .logical condition) before middle)
    (first : Reads (.block "elif" true body) middle later)
    (others : Reads (.blockBranches branches) later after) :
    Reads (.blockBranches ((condition, body) :: branches)) (gap ++ word :: before) after
  | elseBlock {word : Token P} {body : Node P} {gap before after : List (Token P)}
    (blank : ∀ token ∈ gap, token.kind = .newline) (starts : word.kind = .elseWord)
    (first : Reads (.block "else" true body) before after) :
    Reads (.blockBranches [(always word, body)]) (gap ++ word :: before) after

def Derives (tokens : List (Token P)) (tree : Node P) : Prop :=
  ∃ ahead stop statements, tokens = ahead ++ [stop] ∧ stop.kind = .endOfText ∧
    Reads (.sequence .endOfText statements) ahead [] ∧ tree = scopeOf "global" false stop statements

def Phrase.least : Phrase P → Nat
  | expression .. | statement .. | block .. => 1
  | operands .. | sequence .. | thenBranches .. | blockBranches .. => 0

theorem Reads.length_le {phrase : Phrase P} {before after : List (Token P)}
    (reads : Reads phrase before after) : after.length + phrase.least ≤ before.length := by
  induction reads <;> simp only [Phrase.least, List.length_cons, List.length_append] at * <;> omega

theorem suffix_tail {token : Token P} {before after : List (Token P)} (suffix : token :: after <:+ before) :
    after <:+ before :=
  (List.suffix_cons token after).trans suffix

theorem suffix_behind {before after : List (Token P)} (suffix : after <:+ before) (gap : List (Token P))
    (token : Token P) : after <:+ gap ++ token :: before :=
  suffix.trans ((List.suffix_cons token before).trans (List.suffix_append gap _))

theorem Reads.suffix {phrase : Phrase P} {before after : List (Token P)} (reads : Reads phrase before after) :
    after <:+ before := by
  induction reads with
  | doLoop _ _ _ _ _ round test =>
    exact suffix_behind (test.trans (suffix_tail ((List.suffix_append _ _).trans round))) [] _
  | elifBlock _ _ _ _ _ test first others => exact suffix_behind (others.trans (first.trans test)) _ _
  | elseBlock _ _ _ first => exact suffix_behind first _ _
  | _ => grind [List.suffix_cons_iff, → suffix_tail]

end Reckon.Grammar
