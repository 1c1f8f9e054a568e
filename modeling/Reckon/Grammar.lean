import Reckon.Parser

set_option autoImplicit false

/-!
# The grammar

One parser for each rule. Rules do not call themselves: where statements or prefix operators nest,
a rule is given the parsers one level deeper, and `nested` closes the circle for a limited number of
levels.
-/

namespace Reckon.Grammar

open Reckon.Parser

variable {P : Type}

/-- What counts as a level of nesting. -/
inductive Nested where
  | statement
  | complement
  | negation

/-! ## Expressions -/

def moreOperands (operators : List Kind) (operand : Parser P (Node P)) :
    List (Token P) → Node P → Parser P (Node P)
  -- Every round takes an operator, so without a step left there is no token left either.
  | [], left => return left
  | _ :: steps, left => do
    match ← accept? operators with
    | none => return left
    | some operator => moreOperands operators operand steps (.mkBinary left operator (← operand))

def operands (operators : List Kind) (operand : Parser P (Node P)) : Parser P (Node P) := do
  let first ← operand
  moreOperands operators operand (← get) first

variable (deeper : Nested → Parser P (Node P))

def factor : Parser P (Node P) := do
  match (← peek).kind with
  | .number =>
    let token ← take
    return .mkLiteral (.number token.number) token.span
  | .identifier | .last => return .mkRetrieval (← take)
  | .openParen =>
    let _ ← take
    let inner ← deeper .statement
    let _ ← expect .closeParen
      (some "Every opening parenthesis '(' must have a matching closing parenthesis ')'.")
    return inner
  | .minus => deeper .negation
  | _ =>
    unexpected [.number, .identifier, .last, .openParen, .minus]
      (some "Expected a number, variable, or parenthesized expression here.")

def power : Parser P (Node P) :=
  operands [.power] (factor deeper)

def term : Parser P (Node P) :=
  operands [.times, .divide, .floorDivide, .remainder] (power deeper)

def sum : Parser P (Node P) :=
  operands [.plus, .minus] (term deeper)

def comparison : Parser P (Node P) := do
  if (← peek).kind = .not then deeper .complement
  else operands [.less, .greater, .lessEqual, .greaterEqual, .equal, .notEqual] (sum deeper)

def logical : Parser P (Node P) :=
  operands [.and, .or, .xor, .shiftLeft, .shiftRight, .shiftRightZero] (comparison deeper)

def complement : Parser P (Node P) := do
  let operator ← take
  return .mkUnary operator (← comparison deeper)

def negation : Parser P (Node P) := do
  let operator ← take
  return .mkUnary operator (← factor deeper)

/-! ## Statements and blocks -/

def separators (closing : Kind) : List Kind := [.newline, .terminator, closing]

/-- Skips empty statements and tells whether another statement follows. -/
def anotherStatement (closing : Kind) : Parser P Bool := do
  skip [.newline, .terminator]
  let next ← peek
  if next.kind = closing then return false
  else if next.kind = .endOfText then unexpected (separators closing) none
  else return true

/-- Takes what ends a statement and tells whether it hides the value. -/
def statementEnd (closing : Kind) : Parser P Bool := do
  if (← accept? [.terminator]).isSome then return true
  else if (← accept? [.newline]).isSome then return false
  else if (← peek).kind = closing then return false
  else unexpected (separators closing) (some "Separate statements with a newline or ';'.")

def statementList (closing : Kind) : List (Token P) → Parser P (List (Node P))
  | [] => do
    let _ ← anotherStatement closing
    return []
  | _ :: steps => do
    if ← anotherStatement closing then
      let statement ← deeper .statement
      let hidden ← statementEnd closing
      return (if hidden then statement.silenced else statement) :: (← statementList closing steps)
    else return []

def statements (closing : Kind) : Parser P (Node P × List (Node P)) := do
  match ← statementList deeper closing (← get) with
  | first :: rest => return (first, rest)
  -- A null stands where there is no statement.
  | [] => return (.mkLiteral .null (← peek).span, [])

def block (name : String) (boundary : Bool) : Parser P (Node P) := do
  let _ ← expect .openBrace none
  let (first, rest) ← statements deeper .closeBrace
  let _ ← expect .closeBrace none
  return .mkScope name boundary first rest

def letStatement : Parser P (Node P) := do
  let _ ← take
  let name ← expect .identifier (some "'let' must be followed by a variable name: let x = 1")
  let _ ← expect .assign (some "Assignments need an '=' between the name and the value.")
  return .mkAssignment name (← deeper .statement)

def always (word : Token P) : Node P :=
  .mkLiteral (.boolean true) word.span

def moreThenBranches : List (Token P) → Parser P (List (Node P × Node P))
  | [] => return []
  | _ :: steps => do
    match ← accept? [.elifWord, .elseWord] with
    | none => return []
    | some word =>
      if word.kind = .elifWord then
        let condition ← logical deeper
        let _ ← expect .thenWord none
        let body ← deeper .statement
        return (condition, body) :: (← moreThenBranches steps)
      else return [(always word, ← deeper .statement)]

def thenBranches (condition : Node P) : Parser P (List (Node P × Node P)) := do
  let _ ← take
  let body ← deeper .statement
  return (condition, body) :: (← moreThenBranches deeper (← get))

def moreBlockBranches : List (Token P) → Parser P (List (Node P × Node P))
  | [] => return []
  | _ :: steps => do
    -- After a block the next branch may stand on a later line.
    match ← acceptPastNewlines? [.elifWord, .elseWord] with
    | none => return []
    | some word =>
      if word.kind = .elifWord then
        let condition ← logical deeper
        let body ← block deeper "elif" true
        return (condition, body) :: (← moreBlockBranches steps)
      else return [(always word, ← block deeper "else" true)]

def blockBranches (condition : Node P) : Parser P (List (Node P × Node P)) := do
  let body ← block deeper "if" true
  return (condition, body) :: (← moreBlockBranches deeper (← get))

def ifStatement : Parser P (Node P) := do
  let word ← take
  let condition ← logical deeper
  match (← peek).kind with
  | .thenWord => return .mkChoice word.span.start (← thenBranches deeper condition)
  | .openBrace => return .mkChoice word.span.start (← blockBranches deeper condition)
  | _ =>
    unexpected [.thenWord, .openBrace]
      (some "Use either 'if c then e elif c then e else e' or 'if c \x7b ... \x7d elif c \x7b ... \x7d else \x7b ... \x7d'.")

def forStatement : Parser P (Node P) := do
  let word ← take
  let _ ← expect .openParen
    (some "For loops take the form: for (init; condition; increment) \x7b ... \x7d")
  let start ← deeper .statement
  let _ ← expect .terminator none
  let condition ← logical deeper
  let _ ← expect .terminator none
  let step ← deeper .statement
  let _ ← expect .closeParen none
  return .mkFor word.span.start start condition step (← block deeper "for" false)

def whileStatement : Parser P (Node P) := do
  let word ← take
  let condition ← logical deeper
  return .mkWhile word.span.start false condition (← block deeper "while" false)

def doStatement : Parser P (Node P) := do
  let word ← take
  let body ← block deeper "do-while" false
  -- The closing word may stand on a later line.
  skip [.newline]
  if (← peek).kind = .whileWord then
    let _ ← take
    return .mkWhile word.span.start true (← logical deeper) body
  else
    unexpected [.whileWord, .newline] (some "A 'do' block must be followed by 'while condition'.")

def statement : Parser P (Node P) := do
  match (← peek).kind with
  | .letWord => letStatement deeper
  | .ifWord => ifStatement deeper
  | .forWord => forStatement deeper
  | .whileWord => whileStatement deeper
  | .doWord => doStatement deeper
  | .openBrace => block deeper "anonymous" true
  | _ => logical deeper

/-! ## Nesting -/

/-- A nested rule with a number of levels left out of a limit. -/
def nested (limit : Nat) : Nat → Nested → Parser P (Node P)
  | 0, _ =>
    refuse (.tooDeep limit) (some "Split the expression into smaller statements with 'let'.")
  | levels + 1, .statement => statement (nested limit levels)
  | levels + 1, .complement => complement (nested limit levels)
  | levels + 1, .negation => negation (nested limit levels)

def program (limit : Nat) : Parser P (Node P) := do
  let (first, rest) ← statements (nested limit limit) .endOfText
  return .mkScope "global" false first rest

end Reckon.Grammar

namespace Reckon

def Node.ofTokens {P : Type} [Inhabited P] (limit : Nat) (tokens : List (Token P)) :
    Except (Fault P) (Node P) :=
  (Grammar.program limit).parse tokens

end Reckon
