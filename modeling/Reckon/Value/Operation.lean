import Reckon.Fault
import Reckon.Number.Exact
import Reckon.Value

set_option autoImplicit false

/-!
# Operations on values

Which operators a value takes and what they do. A binary operator must be one that both operands
take; the left one decides what it does.
-/

namespace Reckon

namespace Value

abbrev Operation := Value → Value → Except Cause Value

def arithmetic (f : Float → Float → Float) : Operation :=
  fun a b => .ok (number (f a.asNumber b.asNumber))

def comparison (f : Float → Float → Bool) : Operation :=
  fun a b => .ok (boolean (f a.asNumber b.asNumber))

def connective (f : Bool → Bool → Bool) : Operation :=
  fun a b => .ok (boolean (f a.asBoolean b.asBoolean))

def wordwise (f : UInt32 → UInt32 → Int) : Operation :=
  fun a b => .ok (number (numberOfInt (f (word a.asNumber) (word b.asNumber))))

def shift (f : UInt32 → UInt32 → Int) : Operation :=
  -- Only the low five bits of the amount count.
  wordwise fun a b => f a (b % 32)

def division (f : Float → Float) : Operation := fun a b =>
  if b.asNumber == 0 then .error .divisionByZero else .ok (number (f (a.asNumber / b.asNumber)))

def booleanOperation? : Kind → Option Operation
  | .and => connective (· && ·)
  | .or => connective (· || ·)
  | .xor => connective (· != ·)
  | .equal => comparison (· == ·)
  | _ => none

def numberOperation? : Kind → Option Operation
  | .plus => arithmetic (· + ·)
  | .minus => arithmetic (· - ·)
  | .times => arithmetic (· * ·)
  | .divide => division id
  | .floorDivide => division Float.floor
  | .remainder => arithmetic Reckon.remainder
  | .power => arithmetic Float.pow
  | .less => comparison fun a b => a < b
  | .greater => comparison fun a b => b < a
  | .lessEqual => comparison fun a b => a ≤ b
  | .greaterEqual => comparison fun a b => b ≤ a
  | .equal => comparison (· == ·)
  | .notEqual => comparison (· != ·)
  | .and => wordwise fun a b => signedWord (a &&& b)
  | .or => wordwise fun a b => signedWord (a ||| b)
  | .xor => wordwise fun a b => signedWord (a ^^^ b)
  | .shiftLeft => shift fun a k => signedWord (a <<< k)
  | .shiftRight => shift fun a k => signedWord a >>> k.toNat
  | .shiftRightZero => shift fun a k => (a >>> k).toNat
  | _ => none

def operation? : Value → Kind → Option Operation
  | null, _ => none
  | boolean _, operator => booleanOperation? operator
  | number _, operator => numberOperation? operator

def unary? : Value → Kind → Option Value
  | boolean value, .not => boolean !value
  | number value, .minus => number (-value)
  | number value, .not => number (numberOfInt (signedWord (~~~ word value)))
  | _, _ => none

variable {P Q : Type}

def unsupported (operator : Token P) (operand : Value) (side : Side) : Fault P :=
  ⟨.unsupported operator.kind operand.text side, operator.span, none⟩

def binary (left : Value) (operator : Token P) (right : Value) : Except (Fault P) Value :=
  match left.operation? operator.kind, right.operation? operator.kind with
  | none, _ => throw (unsupported operator left .left)
  | some _, none => throw (unsupported operator right .right)
  | some operation, some _ => (operation left right).mapError fun cause => ⟨cause, operator.span, none⟩

def unary (operator : Token P) (operand : Value) : Except (Fault P) Value :=
  match operand.unary? operator.kind with
  | some value => return value
  | none => throw (unsupported operator operand .only)

/-- Whether a condition with this value holds: whether it equals true under its own equality. -/
def holds (value : Value) (span : Span P) : Except (Fault P) Bool := do
  let answer ← value.binary ⟨.equal, none, span⟩ (boolean true)
  return answer.equal (boolean true)

end Value

end Reckon
