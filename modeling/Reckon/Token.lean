import Reckon.Number.Decimal
import Reckon.Position

set_option autoImplicit false

/-!
# Tokens

A token is a kind, what it carries (a number or a name, if anything) and where it stands. Positions
are a parameter, so that two tokens can be compared with their positions erased.
-/

namespace Reckon

inductive Kind where
  | plus | minus | times | divide | floorDivide | remainder | power
  | and | or | xor | shiftLeft | shiftRight | shiftRightZero | not
  | assign | equal | notEqual | less | lessEqual | greater | greaterEqual
  | openParen | closeParen | openBrace | closeBrace
  | number | identifier
  | letWord | ifWord | thenWord | elifWord | elseWord | forWord | whileWord | doWord | last
  | newline | terminator | endOfText
deriving DecidableEq, Repr

namespace Kind

def name : Kind → String
  | plus => "PLUS"
  | minus => "MINUS"
  | times => "MULTIPLY"
  | divide => "DIVIDE"
  | floorDivide => "FLOORDIVIDE"
  | remainder => "MODULUS"
  | power => "POW"
  | and => "AND"
  | or => "OR"
  | xor => "XOR"
  | shiftLeft => "BITLEFT"
  | shiftRight => "BITRIGHT"
  | shiftRightZero => "BITRIGHTZERO"
  | not => "NOT"
  | assign => "EQ"
  | equal => "EE"
  | notEqual => "NEE"
  | less => "LT"
  | lessEqual => "LTE"
  | greater => "GT"
  | greaterEqual => "GTE"
  | openParen => "OPENPAR"
  | closeParen => "CLOSEPAR"
  | openBrace => "OPENBRACE"
  | closeBrace => "CLOSEBRACE"
  | number => "NUMBER"
  | identifier => "IDENTIFIER"
  | letWord => "KEYWORD let"
  | ifWord => "KEYWORD if"
  | thenWord => "KEYWORD then"
  | elifWord => "KEYWORD elif"
  | elseWord => "KEYWORD else"
  | forWord => "KEYWORD for"
  | whileWord => "KEYWORD while"
  | doWord => "KEYWORD do"
  | last => "KEYWORD last"
  | newline => "NEWLINE"
  | terminator => "TERMINATOR"
  | endOfText => "EOF"

def all : List Kind :=
  [plus, minus, times, divide, floorDivide, remainder, power,
   and, or, xor, shiftLeft, shiftRight, shiftRightZero, not,
   assign, equal, notEqual, less, lessEqual, greater, greaterEqual,
   openParen, closeParen, openBrace, closeBrace, number, identifier,
   letWord, ifWord, thenWord, elifWord, elseWord, forWord, whileWord, doWord, last,
   newline, terminator, endOfText]

theorem mem_all (kind : Kind) : kind ∈ all := by
  cases kind <;> decide

def ofName? (text : String) : Option Kind :=
  all.find? fun kind => kind.name = text

theorem ofName?_name (kind : Kind) : ofName? kind.name = some kind := by
  cases kind <;> decide

end Kind

inductive Payload where
  | number (value : Float)
  | name (text : String)
deriving DecidableEq

namespace Payload

def text : Payload → List Char
  | number value =>
    match value.toModel.unpack with
    | .notANumber => ['N', 'a', 'N']
    | .infinity sign => signed sign ['i', 'n', 'f']
    | .zero sign => signed sign ['0']
    -- Digits are written in full, never with a power of ten.
    | .finite sign .. => signed sign (Decimal.shortest value).positional
  | name text => text.toList

end Payload

structure Token (P : Type) where
  kind : Kind
  payload : Option Payload
  span : Span P
deriving DecidableEq

namespace Token

variable {P Q : Type}

def map (f : P → Q) (token : Token P) : Token Q :=
  { kind := token.kind, payload := token.payload, span := token.span.map f }

@[simp]
theorem kind_map (f : P → Q) (token : Token P) : (token.map f).kind = token.kind := rfl

def name (token : Token P) : String :=
  match token.payload with
  | some (.name text) => text
  | _ => ""

def number (token : Token P) : Float :=
  match token.payload with
  | some (.number value) => value
  | _ => notANumber

@[simp]
theorem number_map (f : P → Q) (token : Token P) : (token.map f).number = token.number := rfl

@[simp]
theorem name_map (f : P → Q) (token : Token P) : (token.map f).name = token.name := rfl

def text (token : Token P) : String :=
  let shown := (token.payload.map Payload.text).getD []
  let payload := if shown.isEmpty then [] else ':' :: ' ' :: shown
  "<" ++ token.kind.name ++ String.ofList payload ++ ">"

@[simp]
theorem text_map (f : P → Q) (token : Token P) : (token.map f).text = token.text := rfl

end Token

end Reckon
