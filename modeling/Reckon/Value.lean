import Reckon.Number.Decimal

set_option autoImplicit false

/-!
# Values

What an expression yields: nothing, a truth value or a number, with its printed text.
-/

namespace Reckon

inductive Value where
  | null
  | boolean (value : Bool)
  | number (value : Float)
deriving DecidableEq

namespace Value

instance : Inhabited Value := ⟨null⟩

def typeName : Value → String
  | null => "null"
  | boolean _ => "boolean"
  | number _ => "number"

def isNull : Value → Bool
  | null => true
  | _ => false

def equal : Value → Value → Bool
  | null, null => true
  | boolean a, boolean b => a == b
  -- No NaN equals itself, and both zeros are equal.
  | number a, number b => a == b
  | _, _ => false

def asNumber : Value → Float
  | null => notANumber
  | boolean value => if value then 1 else 0
  | number value => value

def asBoolean : Value → Bool
  | null => false
  | boolean value => value
  | number value => value != 0

def numberText (x : Float) : List Char :=
  match x.toModel.unpack with
  | .notANumber => ['N', 'a', 'N']
  | .infinity sign => signed sign ['I', 'n', 'f', 'i', 'n', 'i', 't', 'y']
  -- Zero is written without a sign.
  | .zero _ => ['0']
  | .finite sign .. =>
    let decimal := Decimal.shortest x
    signed sign (if 1e-6 ≤ x.abs ∧ x.abs < 1e21 then decimal.positional else decimal.scientific)

def text : Value → String
  | null => "NULL"
  | boolean true => "true"
  | boolean false => "false"
  | number value => String.ofList (numberText value)

end Value

end Reckon
