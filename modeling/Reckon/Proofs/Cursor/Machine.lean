import Reckon.Proofs.Grammar.Outcome

set_option autoImplicit false

/-!
# A parser with a cursor

The grammar once more, for a vector of tokens with an index into it and a counter of levels. Reading
behind the last token, counting below zero or above the limit and going on without an end are crashes.
-/

namespace Reckon.Cursor

open Reckon.Parser Reckon.Grammar

structure State where
  current : Nat
  depth : Nat
deriving DecidableEq

inductive Crash where
  | outOfBounds (index length : Nat)
  | underflow
  | overflow (depth limit : Nat)
  | endless
deriving DecidableEq

structure Input (P : Type) where
  tokens : List (Token P)
  limit : Nat

/-- A fault is a result and leaves a state; a crash does not. -/
abbrev Machine (P α : Type) := ReaderT (Input P) (ExceptT (Fault P) (StateT State (Except Crash))) α

variable {P α : Type}

def run (machine : Machine P α) (input : Input P) (state : State) : Except Crash (Except (Fault P) α × State) :=
  ((ReaderT.run machine input).run).run state

def crash (reason : Crash) : Machine P α := fun _ => ExceptT.mk fun _ => .error reason

def tokenAt (index : Nat) : Machine P (Token P) := do
  let tokens := (← read).tokens
  match tokens[index]? with
  | some token => return token
  | none => crash (.outOfBounds index tokens.length)

def peek : Machine P (Token P) := do
  tokenAt (← get).current

def previous : Machine P (Token P) := do
  tokenAt ((← get).current - 1)

def moveTo (index : Nat) : Machine P Unit :=
  modify fun state => { state with current := index }

/-- The end of the text is not passed. -/
def advance : Machine P (Token P) := do
  if (← peek).kind ≠ .endOfText then moveTo ((← get).current + 1)
  previous

def refuse (cause : Cause) (help : Option String) : Machine P α := do
  throw ⟨cause, (← peek).span, help⟩

def unexpected (expected : List Kind) (help : Option String) : Machine P α := do
  let token ← peek
  if token.kind = .endOfText then refuse (.unexpectedEnd expected) help
  else refuse (.unexpectedToken token.text expected) help

def expect (kind : Kind) (help : Option String) : Machine P (Token P) := do
  if (← peek).kind = kind then advance else unexpected [kind] help

def accept : List Kind → Machine P Bool
  | [] => return false
  | kind :: kinds => do
    if (← peek).kind = kind then
      let _ ← advance
      return true
    else accept kinds

def skip (kinds : List Kind) : Nat → Machine P Unit
  | 0 => crash .endless
  | rounds + 1 => do
    if ← accept kinds then skip kinds rounds

def newlinesEnd : Nat → Nat → Machine P Nat
  | 0, _ => crash .endless
  | rounds + 1, index => do
    if (← tokenAt index).kind = .newline then newlinesEnd rounds (index + 1) else return index

def acceptPastNewlines (rounds : Nat) (kind : Kind) : Machine P Bool := do
  let index ← newlinesEnd rounds (← get).current
  if (← tokenAt index).kind = kind then
    moveTo (index + 1)
    return true
  else return false

def setDepth (depth : Nat) : Machine P Unit := do
  let limit := (← read).limit
  if depth ≤ limit then modify fun state => { state with depth := depth }
  else crash (.overflow depth limit)

def enter : Machine P Unit := do
  let limit := (← read).limit
  let depth := (← get).depth
  if limit ≤ depth then refuse (.tooDeep limit) (some "Split the expression into smaller statements with 'let'.")
  else setDepth (depth + 1)

def leave : Machine P Unit := do
  match (← get).depth with
  | 0 => crash .underflow
  | depth + 1 => setDepth depth

def caught (machine : Machine P α) : Machine P (Except (Fault P) α) :=
  fun input => ExceptT.mk do return .ok (← (machine input).run)

/-- The level is left again, whether the machine ends with a value or a fault. -/
def within (machine : Machine P α) : Machine P α := do
  enter
  let result ← caught machine
  leave
  MonadExcept.ofExcept result

def operandLoop (operators : List Kind) (operand : Machine P (Node P)) : Nat → Node P → Machine P (Node P)
  | 0, _ => crash .endless
  | rounds + 1, left => do
    if ← accept operators then
      let operator ← previous
      let right ← operand
      operandLoop operators operand rounds (.mkBinary left operator right)
    else return left

section Rules

variable (rounds : Nat) (deeper : Nested → Machine P (Node P))

def operands (operators : List Kind) (operand : Machine P (Node P)) : Machine P (Node P) := do
  let first ← operand
  operandLoop operators operand rounds first

def factor : Machine P (Node P) := do
  match (← peek).kind with
  | .number =>
    let token ← advance
    return .mkLiteral (.number token.number) token.span
  | .identifier | .last => return .mkRetrieval (← advance)
  | .openParen =>
    let _ ← advance
    let inner ← deeper .statement
    let _ ← expect .closeParen
      (some "Every opening parenthesis '(' must have a matching closing parenthesis ')'.")
    return inner
  | .minus => deeper .negation
  | _ =>
    unexpected [.number, .identifier, .last, .openParen, .minus]
      (some "Expected a number, variable, or parenthesized expression here.")

def power : Machine P (Node P) :=
  operands rounds [.power] (factor deeper)

def term : Machine P (Node P) :=
  operands rounds [.times, .divide, .floorDivide, .remainder] (power rounds deeper)

def sum : Machine P (Node P) :=
  operands rounds [.plus, .minus] (term rounds deeper)

def comparison : Machine P (Node P) := do
  if (← peek).kind = .not then deeper .complement
  else operands rounds [.less, .greater, .lessEqual, .greaterEqual, .equal, .notEqual] (sum rounds deeper)

def logical : Machine P (Node P) :=
  operands rounds [.and, .or, .xor, .shiftLeft, .shiftRight, .shiftRightZero] (comparison rounds deeper)

def complement : Machine P (Node P) := do
  let operator ← advance
  return .mkUnary operator (← comparison rounds deeper)

def negation : Machine P (Node P) := do
  let operator ← advance
  return .mkUnary operator (← factor deeper)

def statementEnd (closing : Kind) : Machine P Bool := do
  if ← accept [.terminator] then return true
  else if ← accept [.newline] then return false
  else if (← peek).kind = closing then return false
  else unexpected (separators closing) (some "Separate statements with a newline or ';'.")

def statementLoop (closing : Kind) : Nat → List (Node P) → Machine P (List (Node P))
  | 0, _ => crash .endless
  | left + 1, before => do
    skip [.newline, .terminator] rounds
    let next ← peek
    if next.kind = closing then return before
    else if next.kind = .endOfText then unexpected (separators closing) none
    else
      let statement ← deeper .statement
      let hidden ← statementEnd closing
      statementLoop closing left (before ++ [if hidden then statement.silenced else statement])

def statements (closing : Kind) : Machine P (List (Node P)) := do
  match ← statementLoop rounds deeper closing rounds [] with
  | [] => return [.mkLiteral .null (← peek).span]
  | list => return list

def expectBlock : Machine P Unit := do
  if (← peek).kind ≠ .openBrace then unexpected [.openBrace] none

section Scopes

variable [Inhabited P]

/-- A scope of no statements is a fault. -/
def scope (name : String) (boundary : Bool) (list : List (Node P)) : Machine P (Node P) :=
  match Node.mkScope? name boundary list with
  | some tree => return tree
  | none => throw .missingNode

def block (name : String) (boundary : Bool) : Machine P (Node P) := do
  expectBlock
  let _ ← advance
  let list ← statements rounds deeper .closeBrace
  let _ ← expect .closeBrace none
  scope name boundary list

end Scopes

def letStatement : Machine P (Node P) := do
  let _ ← advance
  let name ← expect .identifier (some "'let' must be followed by a variable name: let x = 1")
  let _ ← expect .assign (some "Assignments need an '=' between the name and the value.")
  return .mkAssignment name (← deeper .statement)

def thenLoop : Nat → List (Node P × Node P) → Machine P (List (Node P × Node P))
  | 0, _ => crash .endless
  | left + 1, branches => do
    if ← accept [.elifWord] then
      let condition ← logical rounds deeper
      let _ ← expect .thenWord none
      let body ← deeper .statement
      thenLoop left (branches ++ [(condition, body)])
    else if (← peek).kind = .elseWord then
      let word ← advance
      let body ← deeper .statement
      return branches ++ [(always word, body)]
    else return branches

def thenChain (start : P) (condition : Node P) : Machine P (Node P) := do
  let _ ← advance
  let body ← deeper .statement
  return .mkChoice start (← thenLoop rounds deeper rounds [(condition, body)])

variable [Inhabited P]

def blockLoop : Nat → List (Node P × Node P) → Machine P (List (Node P × Node P))
  | 0, _ => crash .endless
  | left + 1, branches => do
    if ← acceptPastNewlines rounds .elifWord then
      let condition ← logical rounds deeper
      expectBlock
      let body ← block rounds deeper "elif" true
      blockLoop left (branches ++ [(condition, body)])
    else if ← acceptPastNewlines rounds .elseWord then
      let word ← previous
      expectBlock
      let body ← block rounds deeper "else" true
      return branches ++ [(always word, body)]
    else return branches

def blockChain (start : P) (condition : Node P) : Machine P (Node P) := do
  let body ← block rounds deeper "if" true
  return .mkChoice start (← blockLoop rounds deeper rounds [(condition, body)])

def ifStatement : Machine P (Node P) := do
  let word ← advance
  let condition ← logical rounds deeper
  let next ← peek
  if next.kind = .thenWord then thenChain rounds deeper word.span.start condition
  else if next.kind = .openBrace then blockChain rounds deeper word.span.start condition
  else
    unexpected [.thenWord, .openBrace]
      (some "Use either 'if c then e elif c then e else e' or 'if c \x7b ... \x7d elif c \x7b ... \x7d else \x7b ... \x7d'.")

def forStatement : Machine P (Node P) := do
  let word ← advance
  let _ ← expect .openParen
    (some "For loops take the form: for (init; condition; increment) \x7b ... \x7d")
  let start ← deeper .statement
  let _ ← expect .terminator none
  let condition ← logical rounds deeper
  let _ ← expect .terminator none
  let step ← deeper .statement
  let _ ← expect .closeParen none
  return .mkFor word.span.start start condition step (← block rounds deeper "for" false)

def whileStatement : Machine P (Node P) := do
  let word ← advance
  let condition ← logical rounds deeper
  return .mkWhile word.span.start false condition (← block rounds deeper "while" false)

def doStatement : Machine P (Node P) := do
  let word ← advance
  let body ← block rounds deeper "do-while" false
  skip [.newline] rounds
  if (← peek).kind = .whileWord then
    let _ ← advance
    return .mkWhile word.span.start true (← logical rounds deeper) body
  else
    unexpected [.whileWord, .newline] (some "A 'do' block must be followed by 'while condition'.")

def statement : Machine P (Node P) := do
  match (← peek).kind with
  | .letWord => letStatement deeper
  | .ifWord => ifStatement rounds deeper
  | .forWord => forStatement rounds deeper
  | .whileWord => whileStatement rounds deeper
  | .doWord => doStatement rounds deeper
  | .openBrace => block rounds deeper "anonymous" true
  | _ => logical rounds deeper

end Rules

section Nesting

variable [Inhabited P]

/-- Nested rules call one another; only the levels in the state stop them before the fuel does. -/
def nested : Nat → Nested → Machine P (Node P)
  | 0, _ => crash .endless
  | fuel + 1, .statement => within (statement fuel (nested fuel))
  | fuel + 1, .complement => within (complement fuel (nested fuel))
  | fuel + 1, .negation => within (negation (nested fuel))

def program (fuel : Nat) : Machine P (Node P) := do
  scope "global" false (← statements fuel (nested fuel) .endOfText)

def closed (tokens : List (Token P)) : List (Token P) :=
  if tokens.getLast?.any fun token => token.kind = .endOfText then tokens else tokens ++ [lastEnd tokens]

def parse (fuel limit : Nat) (tokens : List (Token P)) : Except Crash (Except (Fault P) (Node P)) :=
  (run (program fuel) ⟨closed tokens, limit⟩ ⟨0, 0⟩).map Prod.fst

end Nesting

end Reckon.Cursor
