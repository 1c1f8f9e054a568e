import Reckon.Fault
import Reckon.Node

set_option autoImplicit false

/-!
# Parsers

A parser takes tokens from the front of a list. Behind the list stands the end of the text, which
is never taken.
-/

namespace Reckon

/-- Reads the token at the end of the text and changes the list of tokens ahead of it. -/
abbrev Parser (P α : Type) := ReaderT (Token P) (StateT (List (Token P)) (Except (Fault P))) α

namespace Parser

variable {P α : Type}

def peek : Parser P (Token P) := do
  return (← get).headD (← read)

def refuse (cause : Cause) (help : Option String) : Parser P α := do
  throw ⟨cause, (← peek).span, help⟩

def unexpected (expected : List Kind) (help : Option String) : Parser P α := do
  let token ← peek
  if token.kind = .endOfText then refuse (.unexpectedEnd expected) help
  else refuse (.unexpectedToken token.text expected) help

def take : Parser P (Token P) := do
  let token ← peek
  modify List.tail
  return token

def accept? (kinds : List Kind) : Parser P (Option (Token P)) := do
  if kinds.contains (← peek).kind then return some (← take) else return none

def acceptPastNewlines? (kinds : List Kind) : Parser P (Option (Token P)) := do
  match (← get).dropWhile fun token => token.kind = .newline with
  | [] => return none
  | token :: rest =>
    -- The newlines stay unless the token behind them is taken.
    if kinds.contains token.kind then
      set rest
      return some token
    else return none

def expect (kind : Kind) (help : Option String) : Parser P (Token P) := do
  if (← peek).kind = kind then take else unexpected [kind] help

def skip (kinds : List Kind) : Parser P Unit :=
  modify fun tokens => tokens.dropWhile fun token => kinds.contains token.kind

def parse [Inhabited P] (parser : Parser P α) (tokens : List (Token P)) : Except (Fault P) α :=
  -- Only the tokens up to the first end count; without one the text ends with its last token.
  let stop := (tokens.getLast?.map fun token => token.span.stop).getD default
  let ahead := tokens.takeWhile fun token => token.kind ≠ .endOfText
  let rest := tokens.dropWhile fun token => token.kind ≠ .endOfText
  (parser.run (rest.headD ⟨.endOfText, none, .point stop⟩)).run' ahead

end Parser

end Reckon
